/-!
# Places and slices

Indices may be negative, and then count from the end. An index names one place of a sequence or none;
a slice always exists, because its bounds are first moved inside the sequence.
-/

namespace Labyrinth.Text

/-- The place that an index names in a sequence of `size` items, if there is one. -/
def place? (size : Nat) (index : Int) : Option Nat :=
  let place := if index < 0 then index + size else index
  if 0 ≤ place ∧ place < size then some place.toNat else none

/-- The bound of a slice, moved inside a sequence of `size` items. -/
def bound (size : Nat) (index : Int) : Nat :=
  if index < 0 then (index + size).toNat else min index.toNat size

/-- The item at an index that may count from the end. -/
def item? {α : Type} (items : Array α) (index : Int) : Option α :=
  (place? items.size index).bind fun place => items[place]?

/-- The items from `start` up to, and without, `stop`; no `stop` means up to the end. -/
def sliceList {α : Type} (items : List α) (start : Int) (stop : Option Int) : List α :=
  let size := items.length
  let first := bound size start
  let last := (stop.map (bound size)).getD size
  (items.drop first).take (last - first)

/-- The characters of a text from `start` up to, and without, `stop`. -/
def slice (text : String) (start : Int) (stop : Option Int) : String :=
  String.ofList (sliceList text.toList start stop)

/-- An index inside the sequence names its own place. -/
theorem place?_natCast {size index : Nat} (h : index < size) :
    place? size (index : Int) = some index := by
  have hn : ¬ (index : Int) < 0 := by omega
  simp [place?, hn, h]

end Labyrinth.Text
