import Mathlib.Combinatorics.SimpleGraph.Connectivity.Connected
import Mathlib.Data.Set.Card
import Labyrinth.Maze.Game

/-!
# The graphs of a field

Two graphs stand on the cells of a field: the grid joins each cell to its neighbours on the field, and the
passages join those neighbours that have no wall between them. The walls of a cell are read and written by
the number of the cell, which is the cell's own.
-/

namespace Labyrinth.Maze

namespace Direction

@[simp] theorem reverse_reverse (d : Direction) : d.reverse.reverse = d := by
  cases d <;> rfl

/-- The bits of two directions meet only if the directions are the same. -/
theorem not_bit_and_bit (d e : Direction) : ~~~d.bit &&& e.bit = if d = e then 0 else e.bit := by
  cases d <;> cases e <;> decide

theorem bit_ne_zero (d : Direction) : d.bit ≠ 0 := by
  cases d <;> decide

theorem all_and_bit (d : Direction) : (0xFF : UInt8) &&& d.bit = d.bit := by
  cases d <;> decide

/-- Taking one wall away clears the bit of its direction and no other. -/
theorem clear_iff (walls : UInt8) (d e : Direction) :
    (walls &&& ~~~d.bit) &&& e.bit = 0 ↔ d = e ∨ walls &&& e.bit = 0 := by
  rw [UInt8.and_assoc, not_bit_and_bit]
  by_cases h : d = e
  · simp [h]
  · simp [h]

theorem ofIndex_index (d : Direction) : ofIndex d.index = d := by
  cases d <;> rfl

theorem index_lt (d : Direction) : d.index < 6 := by
  cases d <;> decide

theorem ofIndex_mod (i : Nat) : ofIndex (i % 6) = ofIndex i := by
  unfold ofIndex
  rw [Nat.mod_mod]

end Direction

namespace Field

theorem inside_iff (f : Field) (p : Position) :
    f.inside p = true ↔ 0 ≤ p.x ∧ p.x < f.width ∧ 0 ≤ p.y ∧ p.y < f.height := by
  simp [inside, and_assoc]

/-- A step and the step in the opposite direction cancel. -/
theorem neighbour_reverse (p : Position) (d : Direction) :
    neighbour (neighbour p d) d.reverse = p := by
  have hy : (p.y + 1) % 2 = 0 ↔ ¬p.y % 2 = 0 := by omega
  have hy' : (p.y - 1) % 2 = 0 ↔ ¬p.y % 2 = 0 := by omega
  cases p with
  | mk x y =>
    cases d <;> by_cases h : y % 2 = 0 <;>
      simp [neighbour, Direction.reverse, h, hy, hy']

/-- No step stays where it is. -/
theorem neighbour_ne (p : Position) (d : Direction) : neighbour p d ≠ p := by
  intro h
  have hy := congrArg Position.y h
  cases d <;> simp [neighbour] at hy

variable {f g : Field} {p q : Position} {d : Direction} {α : Type}

theorem move?_eq_some_iff : f.move? p d = some q ↔ neighbour p d = q ∧ f.inside q = true := by
  simp only [move?]
  constructor
  · intro h
    split at h
    · next hi =>
      cases h
      exact ⟨rfl, hi⟩
    · cases h
  · rintro ⟨rfl, hi⟩
    exact if_pos hi

/-- From a cell of the field each step can be taken back. -/
theorem move?_reverse (hp : f.inside p = true) (h : f.move? p d = some q) : f.move? q d.reverse = some p := by
  obtain ⟨rfl, _⟩ := move?_eq_some_iff.1 h
  exact move?_eq_some_iff.2 ⟨neighbour_reverse p d, hp⟩

/-- What lies on a field and which steps can be made there depends on its size alone. -/
theorem inside_congr (hw : g.width = f.width) (hh : g.height = f.height) (p : Position) :
    g.inside p = f.inside p := by
  simp only [inside, hw, hh]

theorem move?_congr (hw : g.width = f.width) (hh : g.height = f.height) (p : Position) (d : Direction) :
    g.move? p d = f.move? p d := by
  simp only [move?, inside_congr hw hh]

/-! ### The numbers of the cells -/

theorem index_lt (hp : f.inside p = true) : f.index p < f.width * f.height := by
  rw [inside_iff] at hp
  have hx : p.x.toNat < f.width := by omega
  have hy : p.y.toNat + 1 ≤ f.height := by omega
  calc f.index p < p.y.toNat * f.width + f.width := Nat.add_lt_add_left hx _
    _ = (p.y.toNat + 1) * f.width := (Nat.succ_mul _ _).symm
    _ ≤ f.height * f.width := Nat.mul_le_mul_right _ hy
    _ = f.width * f.height := Nat.mul_comm _ _

/-- Different cells of a field have different numbers. -/
theorem index_injective (hp : f.inside p = true) (hq : f.inside q = true) (h : f.index p = f.index q) : p = q := by
  rw [inside_iff] at hp hq
  have hpx : p.x.toNat < f.width := by omega
  have hqx : q.x.toNat < f.width := by omega
  unfold index at h
  have hx : p.x.toNat = q.x.toNat := by
    have hm := congrArg (· % f.width) h
    simpa [Nat.mul_add_mod', Nat.mod_eq_of_lt hpx, Nat.mod_eq_of_lt hqx] using hm
  have hy : p.y.toNat = q.y.toNat := by
    rw [hx] at h
    exact Nat.eq_of_mul_eq_mul_right (Nat.zero_lt_of_lt hpx) (Nat.add_right_cancel h)
  cases p
  cases q
  simp only [Position.mk.injEq] at hp hq hx hy ⊢
  omega

/-- What is written at the number of a cell is read there and nowhere else. -/
theorem getD_setIfInBounds (hp : f.inside p = true) (items : Vector α (f.width * f.height)) (q : Position)
    (new default : α) :
    (if f.inside q then (items.setIfInBounds (f.index p) new)[f.index q]?.getD default else default) =
      if q = p then new else if f.inside q then items[f.index q]?.getD default else default := by
  by_cases h : q = p
  · rw [if_pos h, h, if_pos hp, Vector.getElem?_setIfInBounds_self_of_lt (index_lt hp), Option.getD_some]
  · rw [if_neg h]
    by_cases hq : f.inside q = true
    · have hne : f.index p ≠ f.index q := fun he => h (index_injective hq hp he.symm)
      rw [if_pos hq, if_pos hq, Vector.getElem?_setIfInBounds_ne hne]
    · rw [if_neg hq, if_neg hq]

theorem getElem?_replicate (hp : f.inside p = true) (item : α) :
    (Vector.replicate (f.width * f.height) item)[f.index p]? = some item := by
  rw [Vector.getElem?_replicate, if_pos (index_lt hp)]

/-! ### Walls -/

@[simp] theorem width_changeWalls (f : Field) (p : Position) (change : UInt8 → UInt8) :
    (f.changeWalls p change).width = f.width := by
  unfold changeWalls
  split <;> rfl

@[simp] theorem height_changeWalls (f : Field) (p : Position) (change : UInt8 → UInt8) :
    (f.changeWalls p change).height = f.height := by
  unfold changeWalls
  split <;> rfl

@[simp] theorem inside_changeWalls (f : Field) (p q : Position) (change : UInt8 → UInt8) :
    (f.changeWalls p change).inside q = f.inside q :=
  inside_congr (width_changeWalls ..) (height_changeWalls ..) q

/-- Changing the walls of a cell changes what is read there and nowhere else. -/
theorem wallsAt_changeWalls (hp : f.inside p = true) (q : Position) (change : UInt8 → UInt8) :
    (f.changeWalls p change).wallsAt q = if q = p then change (f.wallsAt p) else f.wallsAt q := by
  rw [changeWalls, if_pos hp]
  exact getD_setIfInBounds hp f.walls q _ _

theorem cellAt_changeWalls (f : Field) (p q : Position) (change : UInt8 → UInt8) (default : Char) :
    (f.changeWalls p change).cellAt q default = f.cellAt q default := by
  unfold changeWalls
  split <;> rfl

theorem wallsAt_fillWalls (hp : f.inside p = true) (walls : UInt8) : (f.fillWalls walls).wallsAt p = walls := by
  change (if f.inside p then (Vector.replicate (f.width * f.height) walls)[f.index p]?.getD 0xFF else 0xFF) = walls
  rw [if_pos hp, getElem?_replicate hp, Option.getD_some]

/-- Solid walls stand on every side of every cell. -/
theorem wallsAt_fillWalls_solid (f : Field) (p : Position) : (f.fillWalls 0xFF).wallsAt p = 0xFF := by
  by_cases hp : f.inside p = true
  · exact wallsAt_fillWalls hp 0xFF
  · exact if_neg hp

/-- A side of a cell is clear when no wall stands there. -/
def Clear (f : Field) (p : Position) (d : Direction) : Prop :=
  f.wallsAt p &&& d.bit = 0

instance (f : Field) (p : Position) (d : Direction) : Decidable (f.Clear p d) :=
  inferInstanceAs (Decidable (_ = _))

/-- Taking a wall of a cell away clears that side and no other. -/
theorem clear_changeWalls_iff (hp : f.inside p = true) (q : Position) (d e : Direction) :
    (f.changeWalls p (· &&& ~~~d.bit)).Clear q e ↔ (q = p ∧ d = e) ∨ f.Clear q e := by
  rw [Clear, wallsAt_changeWalls hp]
  by_cases h : q = p
  · subst h
    rw [if_pos rfl, Direction.clear_iff]
    simp [Clear]
  · simp [h, Clear]

/-- Between solid walls no side is clear. -/
theorem not_clear_fillWalls_solid (f : Field) (p : Position) (d : Direction) :
    ¬(f.fillWalls 0xFF).Clear p d := by
  rw [Clear, wallsAt_fillWalls_solid, Direction.all_and_bit]
  exact d.bit_ne_zero

/-! ### Grid and passages -/

/-- The cells of a field, each joined to the cells that a step leads to. -/
def grid (f : Field) : SimpleGraph Position where
  Adj p q := f.inside p = true ∧ ∃ d, f.move? p d = some q
  symm := ⟨by
    rintro p q ⟨hp, d, h⟩
    exact ⟨(move?_eq_some_iff.1 h).2, d.reverse, move?_reverse hp h⟩⟩
  loopless := ⟨by
    rintro p ⟨_, d, h⟩
    exact neighbour_ne p d (move?_eq_some_iff.1 h).1⟩

/-- The cells of a field, each joined to the neighbours towards which both facing sides are clear. -/
def passages (f : Field) : SimpleGraph Position where
  Adj p q := f.inside p = true ∧ ∃ d, f.move? p d = some q ∧ f.Clear p d ∧ f.Clear q d.reverse
  symm := ⟨by
    rintro p q ⟨hp, d, h, hpw, hqw⟩
    refine ⟨(move?_eq_some_iff.1 h).2, d.reverse, move?_reverse hp h, hqw, ?_⟩
    rwa [Direction.reverse_reverse]⟩
  loopless := ⟨by
    rintro p ⟨_, d, h, _⟩
    exact neighbour_ne p d (move?_eq_some_iff.1 h).1⟩

theorem passages_le_grid (f : Field) : f.passages ≤ f.grid := by
  rintro p q ⟨hp, d, h, _⟩
  exact ⟨hp, d, h⟩

theorem grid_congr (hw : g.width = f.width) (hh : g.height = f.height) : g.grid = f.grid := by
  ext p q
  simp only [grid, inside_congr hw hh, move?_congr hw hh]

/-- The places on a field are finitely many, at most one for each cell number. -/
theorem ncard_inside_le (f : Field) :
    {p | f.inside p = true}.Finite ∧ {p | f.inside p = true}.ncard ≤ f.width * f.height := by
  have hmap : ∀ p ∈ {p | f.inside p = true}, f.index p ∈ (Finset.range (f.width * f.height) : Set Nat) := by
    intro p hp
    simpa using index_lt hp
  have hinj : Set.InjOn f.index {p | f.inside p = true} :=
    fun p hp q hq h => index_injective hp hq h
  refine ⟨Set.Finite.of_injOn hmap hinj (Finset.finite_toSet _), ?_⟩
  have hle := Set.ncard_le_ncard_of_injOn f.index hmap hinj (Finset.finite_toSet _)
  rwa [Set.ncard_coe_finset, Finset.card_range] at hle

end Field

end Labyrinth.Maze
