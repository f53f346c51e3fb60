import Labyrinth.Proofs.Maze.SpanningTree

/-!
# Walls have two sides

A wall stands between two cells, and both of them have a bit for it. Whatever is done with a game, the two
bits agree: every change of walls touches a side of a cell exactly if it touches the side that faces it, and
does the same to both.
-/

namespace Labyrinth.Maze

namespace Direction

/-- A set of walls has the bit of a direction as a whole or not at all. -/
theorem not_and_bit (walls : UInt8) (d : Direction) :
    ~~~walls &&& d.bit = if walls &&& d.bit = 0 then d.bit else 0 := by
  obtain ⟨walls⟩ := walls
  revert walls
  cases d <;> decide +kernel

theorem or_and_bit (walls more : UInt8) (d : Direction) :
    (walls ||| more) &&& d.bit = walls &&& d.bit ||| more &&& d.bit := by
  apply UInt8.toBitVec_inj.1
  rw [UInt8.toBitVec_and, UInt8.toBitVec_or, UInt8.toBitVec_or, UInt8.toBitVec_and, UInt8.toBitVec_and,
    BitVec.and_comm, BitVec.and_or_distrib_left, BitVec.and_comm, BitVec.and_comm more.toBitVec]

theorem ofBit?_eq_some_iff {walls : UInt8} {d : Direction} : ofBit? walls = some d ↔ walls = d.bit := by
  constructor
  · intro h
    exact (beq_iff_eq.1 (List.find?_some (p := fun e : Direction => e.bit == walls) h)).symm
  · rintro rfl
    cases d <;> rfl

/-- The bits of two directions meet only if the directions are the same. -/
theorem bit_and_bit_eq_zero_iff (d e : Direction) : d.bit &&& e.bit = 0 ↔ d ≠ e := by
  cases d <;> cases e <;> decide

theorem mem_all (d : Direction) : d ∈ all := by
  cases d <;> decide

end Direction

namespace Field

/-! ### What a change of walls touches -/

/-- Adding walls or taking them away settles their bits and leaves the others alone. -/
theorem withWalls_and_bit (add : Bool) (walls old : UInt8) (d : Direction) :
    withWalls add walls old &&& d.bit = 0 ↔
      if walls &&& d.bit = 0 then old &&& d.bit = 0 else add = false := by
  cases add with
  | false =>
    rw [withWalls, if_neg Bool.false_ne_true, UInt8.and_assoc, Direction.not_and_bit]
    split
    · rfl
    · simp
  | true =>
    rw [withWalls, if_pos rfl, Direction.or_and_bit, UInt8.or_eq_zero_iff]
    split
    · next h => simp [h]
    · next h => simp [h]

variable {f : Field} {p : Position} {d : Direction}

/-- Changing walls of a cell settles the sides that are meant and no others. -/
theorem clear_changeWalls_withWalls (hp : f.inside p = true) (walls : UInt8) (add : Bool) (q : Position)
    (e : Direction) : (f.changeWalls p (withWalls add walls)).Clear q e ↔
      if q = p ∧ walls &&& e.bit ≠ 0 then add = false else f.Clear q e := by
  rw [Clear, wallsAt_changeWalls hp]
  by_cases hq : q = p
  · subst hq
    rw [if_pos rfl, withWalls_and_bit]
    by_cases h : walls &&& e.bit = 0
    · simp [h, Clear]
    · simp [h]
  · simp [hq, Clear]

@[simp] theorem width_changeFar (f : Field) (p : Position) (d : Direction) (add : Bool) :
    (f.changeFar p d add).width = f.width := by
  unfold changeFar
  split
  · exact width_changeWalls ..
  · rfl

@[simp] theorem height_changeFar (f : Field) (p : Position) (d : Direction) (add : Bool) :
    (f.changeFar p d add).height = f.height := by
  unfold changeFar
  split
  · exact height_changeWalls ..
  · rfl

/-- Changing the far side of a wall settles the side of the neighbour that faces the cell. -/
theorem clear_changeFar (f : Field) (p : Position) (d : Direction) (add : Bool) (q : Position)
    (e : Direction) :
    (f.changeFar p d add).Clear q e ↔
      if f.move? p d = some q ∧ d.reverse = e then add = false else f.Clear q e := by
  unfold changeFar
  cases h : f.move? p d with
  | none => simp
  | some next =>
    have hnext : f.inside next = true := (move?_eq_some_iff.1 h).2
    simp only [clear_changeWalls_withWalls hnext, ne_eq, Direction.bit_and_bit_eq_zero_iff, not_not,
      Option.some.injEq, @eq_comm _ q next]

/-- The far sides of the walls of a cell that lie in some of the directions. -/
def farSides (f : Field) (p : Position) (walls : UInt8) (add : Bool) (ds : List Direction) : Field :=
  ds.foldl (fun f d => if walls &&& d.bit == 0 then f else f.changeFar p d add) f

theorem farSides_cons (f : Field) (p : Position) (walls : UInt8) (add : Bool) (d : Direction)
    (ds : List Direction) :
    f.farSides p walls add (d :: ds) =
      (if walls &&& d.bit = 0 then f else f.changeFar p d add).farSides p walls add ds := by
  simp only [farSides, List.foldl_cons, beq_iff_eq]

theorem size_farSides (p : Position) (walls : UInt8) (add : Bool) (ds : List Direction) :
    ∀ f : Field, (f.farSides p walls add ds).width = f.width ∧
      (f.farSides p walls add ds).height = f.height := by
  induction ds with
  | nil => exact fun f => ⟨rfl, rfl⟩
  | cons d ds ih =>
    intro f
    rw [farSides_cons]
    split
    · exact ih f
    · simpa using ih (f.changeFar p d add)

/-- The far sides that are changed are those of the walls that are meant. -/
theorem clear_farSides (p : Position) (walls : UInt8) (add : Bool) (q : Position) (e : Direction)
    (ds : List Direction) :
    ∀ f : Field, (f.farSides p walls add ds).Clear q e ↔
      if ∃ d ∈ ds, walls &&& d.bit ≠ 0 ∧ f.move? p d = some q ∧ d.reverse = e then add = false
      else f.Clear q e := by
  induction ds with
  | nil => intro f; simp [farSides]
  | cons d ds ih =>
    intro f
    rw [farSides_cons]
    by_cases hw : walls &&& d.bit = 0
    · rw [if_pos hw, ih]
      simp [hw]
    · have hm : ∀ e, (f.changeFar p d add).move? p e = f.move? p e :=
        move?_congr (width_changeFar ..) (height_changeFar ..) p
      rw [if_neg hw, ih, clear_changeFar]
      simp only [hm, List.exists_mem_cons_iff, ne_eq, hw, not_false_eq_true, true_and]
      by_cases hd : f.move? p d = some q ∧ d.reverse = e
      · simp [hd]
      · simp [hd]

/-- The sides that a change of some walls of a cell touches: those of the cell itself, and those of its
neighbours that face it. -/
def Touches (f : Field) (p : Position) (walls : UInt8) (q : Position) (e : Direction) : Prop :=
  (q = p ∧ walls &&& e.bit ≠ 0) ∨
    ∃ d, walls &&& d.bit ≠ 0 ∧ f.move? p d = some q ∧ d.reverse = e

theorem size_updateWalls (f : Field) (p : Position) (walls : UInt8) (add : Bool) :
    (f.updateWalls p walls add).width = f.width ∧ (f.updateWalls p walls add).height = f.height := by
  unfold updateWalls
  split
  · split
    · exact ⟨rfl, rfl⟩
    · rw [width_changeWalls, height_changeWalls]
      exact size_farSides p walls add Direction.all f
  · exact ⟨rfl, rfl⟩

open Classical in
/-- A change of some walls of a cell settles the sides that it touches and no others. -/
theorem clear_updateWalls (hp : f.inside p = true) (walls : UInt8) (add : Bool) (q : Position) (e : Direction) :
    (f.updateWalls p walls add).Clear q e ↔
      if f.Touches p walls q e then add = false else f.Clear q e := by
  rw [updateWalls, if_pos hp]
  by_cases hw : walls = 0
  · subst hw
    simp [Touches]
  · have hi : (f.farSides p walls add Direction.all).inside p = true :=
      (inside_congr (size_farSides p walls add _ f).1 (size_farSides p walls add _ f).2 p).trans hp
    rw [if_neg (by simpa using hw)]
    change ((f.farSides p walls add Direction.all).changeWalls p (withWalls add walls)).Clear q e ↔ _
    rw [clear_changeWalls_withWalls hi, clear_farSides]
    simp only [Direction.mem_all, true_and, Touches]
    by_cases h : q = p ∧ walls &&& e.bit ≠ 0
    · simp [h]
    · simp [h]

/-- Adding or removing a single wall is the same with a set of one wall; a set that is no single wall is not
touched. -/
theorem updateWall_eq (f : Field) (p : Position) (walls : UInt8) (add : Bool) :
    f.updateWall p walls add =
      if (Direction.ofBit? walls).isSome then f.updateWalls p walls add else f := by
  unfold updateWall updateWalls
  by_cases hp : f.inside p = true
  · rw [if_pos hp, if_pos hp]
    cases h : Direction.ofBit? walls with
    | none => rfl
    | some d =>
      rw [Direction.ofBit?_eq_some_iff.1 h]
      cases d <;> rfl
  · rw [if_neg hp, if_neg hp, ite_self]

theorem size_updateWall (f : Field) (p : Position) (walls : UInt8) (add : Bool) :
    (f.updateWall p walls add).width = f.width ∧ (f.updateWall p walls add).height = f.height := by
  rw [updateWall_eq]
  split
  · exact f.size_updateWalls p walls add
  · exact ⟨rfl, rfl⟩

/-! ### Symmetry -/

/-- A wall that one cell has towards a neighbour on the field is a wall of the neighbour as well. -/
def Symmetric (f : Field) : Prop :=
  ∀ p q d, f.inside p = true → f.move? p d = some q →
    (f.wallsAt p &&& d.bit ≠ 0 ↔ f.wallsAt q &&& d.reverse.bit ≠ 0)

theorem symmetric_iff_clear : f.Symmetric ↔ ∀ p q d, f.inside p = true → f.move? p d = some q →
      (f.Clear p d ↔ f.Clear q d.reverse) := by
  simp only [Symmetric, Clear, ne_eq, not_iff_not]

/-- A change touches a side exactly if it touches the side that faces it. -/
theorem touches_iff_facing (hp : f.inside p = true) (walls : UInt8) {a b : Position} (ha : f.inside a = true)
    (hab : f.move? a d = some b) : f.Touches p walls a d ↔ f.Touches p walls b d.reverse := by
  have hba := move?_reverse ha hab
  constructor
  · rintro (⟨rfl, hw⟩ | ⟨e, hw, he, rfl⟩)
    · exact .inr ⟨d, hw, hab, rfl⟩
    · -- The side faces the cell itself.
      have hb := move?_reverse hp he
      rw [hab, Option.some.injEq] at hb
      subst hb
      rw [Direction.reverse_reverse]
      exact .inl ⟨rfl, hw⟩
  · rintro (⟨rfl, hw⟩ | ⟨e, hw, he, hr⟩)
    · exact .inr ⟨d.reverse, hw, hba, Direction.reverse_reverse d⟩
    · have hed : e = d := by
        rw [← Direction.reverse_reverse e, hr, Direction.reverse_reverse]
      subst hed
      have hpa := move?_reverse hp he
      rw [hba, Option.some.injEq] at hpa
      exact .inl ⟨hpa, hw⟩

/-- Changing walls keeps both sides of every wall the same. -/
theorem Symmetric.updateWalls (h : f.Symmetric) (p : Position) (walls : UInt8) (add : Bool) :
    (f.updateWalls p walls add).Symmetric := by
  by_cases hp : f.inside p = true
  · obtain ⟨hw, hh⟩ := f.size_updateWalls p walls add
    rw [symmetric_iff_clear] at h ⊢
    intro a b d ha hab
    rw [inside_congr hw hh] at ha
    rw [move?_congr hw hh] at hab
    rw [clear_updateWalls hp, clear_updateWalls hp, touches_iff_facing hp walls ha hab]
    split
    · rfl
    · exact h a b d ha hab
  · rwa [Field.updateWalls, if_neg hp]

theorem Symmetric.updateWall (h : f.Symmetric) (p : Position) (walls : UInt8) (add : Bool) :
    (f.updateWall p walls add).Symmetric := by
  rw [updateWall_eq]
  split
  · exact h.updateWalls p walls add
  · exact h

/-- Opening the wall between a cell and the next one opens both of its sides. -/
theorem Symmetric.open (h : f.Symmetric) {next : Position} (hp : f.inside p = true) (hm : f.move? p d = some next) :
    (Carving.open_ f p d next).Symmetric := by
  rw [symmetric_iff_clear] at h ⊢
  intro a b e ha hab
  rw [inside_open] at ha
  rw [move?_open] at hab
  have hba := move?_reverse ha hab
  have hback := move?_reverse hp hm
  rw [clear_open_iff hp hm, clear_open_iff hp hm, h a b e ha hab]
  constructor
  · rintro (⟨rfl, rfl⟩ | ⟨rfl, rfl⟩ | hc)
    · rw [hm, Option.some.injEq] at hab
      exact .inr (.inl ⟨hab.symm, rfl⟩)
    · rw [hback, Option.some.injEq] at hab
      exact .inl ⟨hab.symm, (Direction.reverse_reverse d).symm⟩
    · exact .inr (.inr hc)
  · rintro (⟨rfl, rfl⟩ | ⟨rfl, hr⟩ | hc)
    · rw [hm, Option.some.injEq] at hba
      exact .inr (.inl ⟨hba.symm, Direction.reverse_reverse e⟩)
    · rw [← hr, hback, Option.some.injEq] at hba
      refine .inl ⟨hba.symm, ?_⟩
      rw [← Direction.reverse_reverse d, hr, Direction.reverse_reverse]
    · exact .inr (.inr hc)

@[simp] theorem width_setCell (f : Field) (p : Position) (cell : Char) :
    (f.setCell p cell).width = f.width := by
  unfold setCell
  split <;> rfl

@[simp] theorem height_setCell (f : Field) (p : Position) (cell : Char) :
    (f.setCell p cell).height = f.height := by
  unfold setCell
  split <;> rfl

@[simp] theorem inside_setCell (f : Field) (p : Position) (cell : Char) (q : Position) :
    (f.setCell p cell).inside q = f.inside q :=
  inside_congr (width_setCell ..) (height_setCell ..) q

/-- The content of the cells is no matter for the walls. -/
theorem Symmetric.setCell (h : f.Symmetric) (p : Position) (cell : Char) : (f.setCell p cell).Symmetric := by
  unfold Field.setCell
  split
  · exact h
  · exact h

theorem symmetric_fillWalls (f : Field) {walls : UInt8} (h : walls = 0 ∨ walls = 0xFF) :
    (f.fillWalls walls).Symmetric := by
  intro p q d hp hq
  have hp : f.inside p = true := hp
  have hq : f.inside q = true := (move?_eq_some_iff.1 hq).2
  rw [wallsAt_fillWalls hp, wallsAt_fillWalls hq]
  rcases h with rfl | rfl
  · simp
  · simp [Direction.all_and_bit, Direction.bit_ne_zero]

end Field

/-! ### Games -/

/-- What can be done with a game. -/
inductive Act where
  /-- Adds or removes some walls of a cell. -/
  | walls (p : Position) (walls : UInt8) (add : Bool)
  /-- Adds or removes a single wall of a cell. -/
  | wall (p : Position) (walls : UInt8) (add : Bool)
  | maze (random : Nat → Int)
  | step
  | turnLeft
  | turnRight

namespace Game

def perform (g : Game) : Act → Game
  | .walls p walls add => { g with field := g.field.updateWalls p walls add }
  | .wall p walls add => { g with field := g.field.updateWall p walls add }
  | .maze random => g.makeMaze random
  | .step => g.step.2
  | .turnLeft => g.turnLeft
  | .turnRight => g.turnRight

def play (g : Game) (acts : List Act) : Game := acts.foldl perform g

/-- What every act keeps. On a field without cells the player may stand anywhere. -/
structure Orderly (g : Game) : Prop where
  symmetric : g.field.Symmetric
  player_inside : ∀ p, g.field.inside p = true → g.field.inside g.player = true

variable {g : Game}

/-- Another field of the same size, with walls that have two sides. -/
theorem Orderly.withField (h : g.Orderly) {f : Field} (hs : f.Symmetric) (hw : f.width = g.field.width)
    (hh : f.height = g.field.height) : { g with field := f }.Orderly where
  symmetric := hs
  player_inside := by
    intro p hp
    rw [Field.inside_congr hw hh] at hp ⊢
    exact h.player_inside p hp

theorem Orderly.setFinish (h : g.Orderly) (p : Position) : (g.setFinish p).Orderly :=
  have hf := h.withField (h.symmetric.setCell p Cell.finish) (g.field.width_setCell ..)
    (g.field.height_setCell ..)
  ⟨hf.symmetric, hf.player_inside⟩

theorem Orderly.setPlayer (h : g.Orderly) (p : Position) : (g.setPlayer p).Orderly := by
  unfold Game.setPlayer
  split
  · next hp =>
    refine ⟨(h.symmetric.setCell g.player Cell.empty).setCell p Cell.player, fun q _ => ?_⟩
    rw [Field.inside_setCell, Field.inside_setCell, hp]
  · exact h

theorem Orderly.makeMaze (h : g.Orderly) (random : Nat → Int) : (g.makeMaze random).Orderly := by
  obtain ⟨hs, hw, hh⟩ := Carving.walk_field h.player_inside (g.field.symmetric_fillWalls (.inr rfl))
    (fun h => h.open) random (Carving.stepBound g.field)
  exact (h.withField hs hw hh).setFinish _

/-- Every act keeps the order. -/
theorem Orderly.perform (h : g.Orderly) (act : Act) : (g.perform act).Orderly := by
  cases act with
  | walls p walls add =>
    obtain ⟨hw, hh⟩ := g.field.size_updateWalls p walls add
    exact h.withField (h.symmetric.updateWalls p walls add) hw hh
  | wall p walls add =>
    obtain ⟨hw, hh⟩ := g.field.size_updateWall p walls add
    exact h.withField (h.symmetric.updateWall p walls add) hw hh
  | maze random => exact h.makeMaze random
  | step =>
    change g.step.2.Orderly
    unfold Game.step
    split
    · next p _ => exact h.setPlayer p
    · exact h
  | turnLeft => exact ⟨h.symmetric, h.player_inside⟩
  | turnRight => exact ⟨h.symmetric, h.player_inside⟩

theorem Orderly.play (acts : List Act) : ∀ {g : Game}, g.Orderly → (g.play acts).Orderly := by
  induction acts with
  | nil => exact fun h => h
  | cons act acts ih => exact fun h => ih (h.perform act)

theorem orderly_reset (g : Game) : g.reset.Orderly where
  symmetric := (g.field.fillCells Cell.empty).symmetric_fillWalls (.inl rfl)
  player_inside := by
    intro p hp
    rw [Field.inside_iff] at hp ⊢
    change 0 ≤ (0 : Int) ∧ (0 : Int) < _ ∧ 0 ≤ (0 : Int) ∧ (0 : Int) < _
    omega

/-- After a reset, whatever is done with a game, a wall between two cells of the field is a wall of both. -/
theorem play_symmetric (g : Game) (acts : List Act) : (g.reset.play acts).field.Symmetric :=
  (Orderly.play acts g.orderly_reset).symmetric

end Game

end Labyrinth.Maze
