import Labyrinth.Grammar.Rule
import Labyrinth.Grammar.Parsed

/-!
# Tables of results

The results of calls that a parser remembers, by place and call. There is a row for each place, and the last
result written for a call in a row counts.
-/

namespace Labyrinth

open Grammar

/-- The results of calls, with the places where they ended. -/
structure ResultTable where
  /-- The results of the calls at each place, the last one first. -/
  rows : Array (List (Call × Parsed × Nat)) := #[]
deriving Inhabited

namespace ResultTable

def find? (table : ResultTable) (key : Nat × Call) : Option (Parsed × Nat) :=
  (table.rows.getD key.1 []).lookup key.2

/-- Writes a result down; rows up to its place are added if there are none. -/
def insert (table : ResultTable) (key : Nat × Call) (entry : Parsed × Nat) : ResultTable :=
  let rows := table.rows ++ Array.replicate (key.1 + 1 - table.rows.size) []
  ⟨rows.setIfInBounds key.1 ((key.2, entry) :: rows.getD key.1 [])⟩

/-- How many calls have a result. -/
def size (table : ResultTable) : Nat :=
  table.rows.foldl (fun count row => count + (row.map Prod.fst).eraseDups.length) 0

instance : Membership (Nat × Call) ResultTable :=
  ⟨fun table key => (table.find? key).isSome = true⟩

instance : GetElem? ResultTable (Nat × Call) (Parsed × Nat) fun table key => key ∈ table where
  getElem table key h := (table.find? key).get h
  getElem? := find?

theorem mem_iff_isSome_getElem? {table : ResultTable} {key : Nat × Call} :
    key ∈ table ↔ table[key]?.isSome = true :=
  Iff.rfl

@[simp] theorem getElem?_empty {key : Nat × Call} : ({} : ResultTable)[key]? = none :=
  rfl

theorem getElem?_insert {table : ResultTable} {key other : Nat × Call} {entry : Parsed × Nat} :
    (table.insert key entry)[other]? = if key = other then some entry else table[other]? := by
  obtain ⟨place, c⟩ := key
  obtain ⟨place', c'⟩ := other
  change (table.insert (place, c) entry).find? (place', c') = if _ then _ else table.find? (place', c')
  have hrows : ∀ i, (table.rows ++ Array.replicate (place + 1 - table.rows.size) []).getD i [] =
      table.rows.getD i [] := by
    intro i
    simp only [Array.getD_eq_getD_getElem?, Array.getElem?_append, Array.getElem?_replicate]
    split
    · rfl
    · next hi =>
      rw [Array.getElem?_eq_none (by omega)]
      split <;> rfl
  have hsize : place < (table.rows ++ Array.replicate (place + 1 - table.rows.size) []).size := by
    rw [Array.size_append, Array.size_replicate]
    omega
  simp only [find?, insert, hrows]
  rw [Array.getD_eq_getD_getElem?, Array.getElem?_setIfInBounds]
  by_cases hplace : place = place'
  · subst hplace
    rw [if_pos rfl, if_pos hsize, Option.getD_some, List.lookup_cons]
    by_cases hc : c = c'
    · subst hc
      simp
    · have hne : (c' == c) = false := beq_false_of_ne (Ne.symm hc)
      simp [hne, hc]
  · rw [if_neg hplace, ← Array.getD_eq_getD_getElem?, hrows, if_neg (by simp [hplace])]

theorem mem_insert {table : ResultTable} {key other : Nat × Call} {entry : Parsed × Nat} :
    other ∈ table.insert key entry ↔ key = other ∨ other ∈ table := by
  rw [mem_iff_isSome_getElem?, getElem?_insert]
  by_cases h : key = other
  · simp [h]
  · simp [h, mem_iff_isSome_getElem?]

end ResultTable

end Labyrinth
