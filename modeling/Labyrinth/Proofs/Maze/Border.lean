import Labyrinth.Proofs.Maze.Grid

/-!
# The border of the map

The map ends at the sides of a cell towards which no step can be made. A field tells these sides from the place of the
cell, and takes the rows that have the parity of its height for those whose right end is a border. But these are the odd
rows, which is the same only if the height is odd.
-/

namespace Labyrinth.Maze.Field

/-- The sides of a cell towards which no step can be made. -/
def mapEnd (f : Field) (p : Position) : UInt8 :=
  Direction.all.foldl (fun sides d => if (f.move? p d).isNone then sides ||| d.bit else sides) 0

/-- The border sides of a cell at the left or the right end of its row, in one of the first two rows or one of the last
two. -/
def border (left right first second last top : Bool) : UInt8 :=
  (if left then 0x21 else 0) ||| (if right then 0x0C else 0) ||| (if first then 0x07 else 0) |||
    (if second then 0x02 else 0) ||| (if last then 0x10 else 0) ||| (if top then 0x38 else 0)

/-- Whether the right sides of a cell are border sides matters unless all its upper and lower sides are. -/
theorem border_eq_border_iff : ∀ left right right' first second last top : Bool,
    border left right first second last top = border left right' first second last top ↔
      right = right' ∨ (first = true ∧ top = true) := by
  decide

variable {f : Field} {p : Position}

theorem wallsWithMapEnd_eq (f : Field) (walls : UInt8) (p : Position) :
    f.wallsWithMapEnd walls p = walls ||| border (p.y.tmod 2 == 0 && p.x == 0)
      (p.y.tmod 2 == (f.height % 2 : Nat) && isSizeMinus p.x f.width 1) (p.y == 0) (p.y == 1)
      (isSizeMinus p.y f.height 2) (isSizeMinus p.y f.height 1) := by
  have hadd : ∀ (test : Bool) (more walls : UInt8),
      (if test then walls ||| more else walls) = walls ||| if test then more else 0 := by
    intro test more walls
    cases test <;> simp
  simp only [wallsWithMapEnd, hadd]
  simp only [border, UInt8.or_assoc]
  rfl

/-- A step from a cell is refused where it would leave the field, direction by direction. -/
theorem isNone_move?_iff (hp : f.inside p = true) (d : Direction) :
    (f.move? p d).isNone = true ↔ match d with
      | .downLeft => p.y = 0 ∨ p.y % 2 = 0 ∧ p.x = 0
      | .down => p.y = 0 ∨ p.y = 1
      | .downRight => p.y = 0 ∨ p.y % 2 = 1 ∧ p.x = f.width - 1
      | .upRight => p.y = f.height - 1 ∨ p.y % 2 = 1 ∧ p.x = f.width - 1
      | .up => p.y = f.height - 1 ∨ p.y = f.height - 2
      | .upLeft => p.y = f.height - 1 ∨ p.y % 2 = 0 ∧ p.x = 0 := by
  obtain ⟨hx, hx', hy, hy'⟩ := (inside_iff f p).1 hp
  have hrefused : (f.move? p d).isNone = true ↔ ¬f.inside (neighbour p d) = true := by
    simp only [move?]
    split <;> simp_all
  rw [hrefused, inside_iff]
  by_cases heven : p.y % 2 = 0
  · cases d <;> simp [neighbour, heven] <;> omega
  · cases d <;> simp [neighbour, heven] <;> omega

theorem mapEnd_eq (hp : f.inside p = true) :
    f.mapEnd p = border (p.y.tmod 2 == 0 && p.x == 0) (p.y.tmod 2 == 1 && isSizeMinus p.x f.width 1) (p.y == 0)
      (p.y == 1) (isSizeMinus p.y f.height 2) (isSizeMinus p.y f.height 1) := by
  have hmod : p.y.tmod 2 = p.y % 2 := Int.tmod_eq_emod_of_nonneg ((inside_iff f p).1 hp).2.2.1
  have hbool : ∀ d, (f.move? p d).isNone = match d with
      | .downLeft => p.y == 0 || (p.y.tmod 2 == 0 && p.x == 0)
      | .down => p.y == 0 || p.y == 1
      | .downRight => p.y == 0 || (p.y.tmod 2 == 1 && isSizeMinus p.x f.width 1)
      | .upRight => isSizeMinus p.y f.height 1 || (p.y.tmod 2 == 1 && isSizeMinus p.x f.width 1)
      | .up => isSizeMinus p.y f.height 1 || isSizeMinus p.y f.height 2
      | .upLeft => isSizeMinus p.y f.height 1 || (p.y.tmod 2 == 0 && p.x == 0) := by
    intro d
    rw [Bool.eq_iff_iff, isNone_move?_iff hp]
    cases d <;> simp [isSizeMinus, hmod]
  simp only [mapEnd, Direction.all, List.foldl_cons, List.foldl_nil, hbool]
  generalize (p.y.tmod 2 == 0 && p.x == 0) = left, (p.y.tmod 2 == 1 && isSizeMinus p.x f.width 1) = right,
    (p.y == 0) = first, (p.y == 1) = second, isSizeMinus p.y f.height 2 = last, isSizeMinus p.y f.height 1 = top
  revert left right first second last top
  decide

/-- For a cell of the field, the walls together with the map's end are the walls and the sides towards which no step can
be made, unless the height is even and the cell is the last one of its row. There one of the right sides is always told
wrong. -/
theorem wallsWithMapEnd_eq_mapEnd_iff (f : Field) (p : Position) (hp : f.inside p = true) :
    (∀ walls, f.wallsWithMapEnd walls p = walls ||| f.mapEnd p) ↔ f.height % 2 = 1 ∨ p.x ≠ f.width - 1 := by
  obtain ⟨-, -, hy, hy'⟩ := (inside_iff f p).1 hp
  have hmod : p.y.tmod 2 = p.y % 2 := Int.tmod_eq_emod_of_nonneg hy
  have hall : (∀ walls, f.wallsWithMapEnd walls p = walls ||| f.mapEnd p) ↔ f.wallsWithMapEnd 0 p = f.mapEnd p := by
    constructor
    · intro h
      rw [h, UInt8.zero_or]
    · intro h walls
      rw [← h, wallsWithMapEnd_eq, wallsWithMapEnd_eq, UInt8.zero_or]
  rw [hall, wallsWithMapEnd_eq, UInt8.zero_or, mapEnd_eq hp, border_eq_border_iff, Bool.eq_iff_iff]
  simp only [isSizeMinus, Bool.and_eq_true, beq_iff_eq, hmod]
  omega

/-- In the field of two by three cells no step to the right can be made from the last cell of the middle row, but
in the field of two by two cells one can. -/
theorem wallsWithMapEnd_eq_mapEnd_right :
    (∀ walls, (ofSize 2 3).wallsWithMapEnd walls ⟨1, 1⟩ = walls ||| (ofSize 2 3).mapEnd ⟨1, 1⟩) ∧
      ¬∀ walls, (ofSize 2 2).wallsWithMapEnd walls ⟨1, 0⟩ = walls ||| (ofSize 2 2).mapEnd ⟨1, 0⟩ :=
  ⟨(wallsWithMapEnd_eq_mapEnd_iff (ofSize 2 3) ⟨1, 1⟩ rfl).2 (by decide),
    fun h => absurd ((wallsWithMapEnd_eq_mapEnd_iff (ofSize 2 2) ⟨1, 0⟩ rfl).1 h) (by decide)⟩

/-! ### Counting around

Where a place is kept in two words without a sign, a step across the left or the lower border counts around to a number
that is larger than every size, so that one comparison finds both borders of an axis. -/

/-- A place in two words of 64 bits. -/
structure Words where
  x : UInt64
  y : UInt64
deriving DecidableEq, Repr

def words (p : Position) : Words := ⟨.ofInt p.x, .ofInt p.y⟩

/-- The words next to others in a direction, which count around. -/
def Words.neighbour (w : Words) (d : Direction) : Words where
  x :=
    match d with
    | .upLeft | .downLeft => if w.y % 2 == 0 then w.x - 1 else w.x
    | .upRight | .downRight => if w.y % 2 == 0 then w.x else w.x + 1
    | .up | .down => w.x
  y :=
    match d with
    | .up => w.y + 2
    | .down => w.y - 2
    | .upLeft | .upRight => w.y + 1
    | .downLeft | .downRight => w.y - 1

/-- A step that is made in place: whether it was made, and the words that are there afterwards. -/
def moveWords (f : Field) (w : Words) (d : Direction) : Bool × Words :=
  let next := w.neighbour d
  if next.y ≥ .ofNat f.height || next.x ≥ .ofNat f.width then (false, w) else (true, next)

/-- Around zero and the size, a number that is kept in a word is below the size exactly if it is on the axis. -/
theorem ofInt_lt_ofNat_iff {n : Int} {size : Nat} (hlow : -2 ≤ n) (hhigh : n < 2 ^ 63 + 2) (hsize : size < 2 ^ 63) :
    UInt64.ofInt n < UInt64.ofNat size ↔ 0 ≤ n ∧ n < size := by
  rw [UInt64.lt_iff_toNat_lt, UInt64.ofInt, UInt64.toNat_ofNat', UInt64.toNat_ofNat']
  omega

theorem words_neighbour (p : Position) (d : Direction) : (words p).neighbour d = words (neighbour p d) := by
  have hsub : ∀ n k : Int, UInt64.ofInt (n - k) = UInt64.ofInt n - UInt64.ofInt k := by
    intro n k
    rw [eq_comm, UInt64.sub_eq_iff_eq_add, ← UInt64.ofInt_add, Int.sub_add_cancel]
  have heven : (UInt64.ofInt p.y % 2 == 0) = (p.y % 2 == 0) := by
    rw [Bool.eq_iff_iff, beq_iff_eq, beq_iff_eq, ← UInt64.toNat_inj, UInt64.toNat_mod, UInt64.ofInt,
      UInt64.toNat_ofNat']
    change (p.y % 2 ^ 64).toNat % 2 ^ 64 % 2 = 0 ↔ p.y % 2 = 0
    omega
  have htwo : UInt64.ofInt 2 = 2 := rfl
  by_cases h : p.y % 2 = 0 <;> cases d <;>
    simp [Words.neighbour, neighbour, words, heven, h, UInt64.ofInt_add, hsub, htwo]

/-- A step in place is made where there is a cell to go to, and a refused one leaves the words as they are. -/
theorem moveWords_words (hw : f.width < 2 ^ 63) (hh : f.height < 2 ^ 63) (hp : f.inside p = true) (d : Direction) :
    f.moveWords (words p) d = match f.move? p d with
      | some q => (true, words q)
      | none => (false, words p) := by
  obtain ⟨hx, hx', hy, hy'⟩ := (inside_iff f p).1 hp
  have hnear : (-1 ≤ (neighbour p d).x ∧ (neighbour p d).x ≤ p.x + 1) ∧
      -2 ≤ (neighbour p d).y ∧ (neighbour p d).y ≤ p.y + 2 := by
    cases d <;> simp only [neighbour] <;> (try split) <;> omega
  have hin : f.inside (neighbour p d) = true ↔
      ¬(words (neighbour p d)).y ≥ .ofNat f.height ∧ ¬(words (neighbour p d)).x ≥ .ofNat f.width := by
    simp only [inside_iff, words, ge_iff_le, UInt64.not_le]
    rw [ofInt_lt_ofNat_iff (by omega) (by omega) hh, ofInt_lt_ofNat_iff (by omega) (by omega) hw]
    omega
  simp only [moveWords, words_neighbour, move?]
  by_cases h : f.inside (neighbour p d) = true
  · obtain ⟨hy, hx⟩ := hin.1 h
    simp [h, hy, hx]
  · have hout := not_and_or.1 (mt hin.2 h)
    simp only [not_not] at hout
    simp [h, hout]

/-- Different directions lead to different places. -/
theorem neighbour_injective (p : Position) {d e : Direction} (h : neighbour p d = neighbour p e) : d = e := by
  by_cases heven : p.y % 2 = 0
  · cases d <;> cases e <;> simp [neighbour, heven] at h ⊢ <;> omega
  · cases d <;> cases e <;> simp [neighbour, heven] at h ⊢ <;> omega

/-- On a field whose sizes leave the highest bit of a word free, a step from a cell that is made in place is made exactly
if there is a cell to go to. Such a cell is another cell of the field, the step in the opposite direction leads back from
it, and no other direction leads to it; a refused step leaves the place as it was. -/
theorem move?_there_and_back (f : Field) (hw : f.width < 2 ^ 63) (hh : f.height < 2 ^ 63) (p : Position)
    (hp : f.inside p = true) (d : Direction) :
    (∀ q, f.move? p d = some q → f.moveWords (words p) d = (true, words q) ∧ f.inside q = true ∧ q ≠ p ∧
      f.move? q d.reverse = some p ∧ f.moveWords (words q) d.reverse = (true, words p) ∧
      ∀ e, f.move? p e = some q → e = d) ∧
    (f.move? p d = none → f.moveWords (words p) d = (false, words p)) := by
  constructor
  · intro q h
    obtain ⟨rfl, hq⟩ := move?_eq_some_iff.1 h
    have hback := move?_reverse hp h
    refine ⟨?_, hq, neighbour_ne p d, hback, ?_, fun e he => neighbour_injective p (move?_eq_some_iff.1 he).1⟩
    · rw [moveWords_words hw hh hp, h]
    · rw [moveWords_words hw hh hq, hback]
  · intro h
    rw [moveWords_words hw hh hp, h]

/-- In the field of two by three cells a step from the corner to the upper right is made and leads back, and one to the
lower left, whose words count around, is refused. -/
theorem move?_there_and_back_corner :
    (ofSize 2 3).moveWords ⟨0, 0⟩ .upRight = (true, ⟨0, 1⟩) ∧ (ofSize 2 3).moveWords ⟨0, 1⟩ .downLeft = (true, ⟨0, 0⟩) ∧
      (ofSize 2 3).moveWords ⟨0, 0⟩ .downLeft = (false, ⟨0, 0⟩) :=
  have hthere := (move?_there_and_back (ofSize 2 3) (by decide) (by decide) ⟨0, 0⟩ rfl .upRight).1 ⟨0, 1⟩ rfl
  have hrefused := (move?_there_and_back (ofSize 2 3) (by decide) (by decide) ⟨0, 0⟩ rfl .downLeft).2 rfl
  ⟨hthere.1, hthere.2.2.2.2.1, hrefused⟩

end Labyrinth.Maze.Field
