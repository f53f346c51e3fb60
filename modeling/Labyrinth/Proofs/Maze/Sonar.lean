import Labyrinth.Tree.Basic
import Labyrinth.Proofs.Maze.Symmetry

/-!
# Sonar and movement

The sonar reads walls, a step needs a cell to go to as well. In a maze the two agree: walls are taken away
only between two cells of the field, so that behind every clear side there is a cell, and no command puts
anything in the way.
-/

namespace Labyrinth.Maze

namespace Direction

@[simp] theorem ofBit?_bit (d : Direction) : ofBit? d.bit = some d :=
  ofBit?_eq_some_iff.2 rfl

/-- Counted on from two to the right of a direction, the sixth direction is the one that leads back. -/
theorem bit_ofIndex_eq_reverse_iff (d : Direction) {i : Nat} (h : i < 6) :
    (ofIndex (i + (d.index + 4))).bit = d.reverse.bit ↔ i = 5 := by
  revert i
  cases d <;> decide

/-- Counted on from two to the right of a direction, the third direction is the direction itself. -/
theorem ofIndex_ahead (d : Direction) : ofIndex (d.index + 2 + 4) = d := by
  cases d <;> rfl

end Direction

@[simp] theorem Heading.turn_bit (f : Direction → Direction) (d : Direction) :
    Heading.turn f d.bit = (f d).bit := by
  simp only [Heading.turn, Direction.ofBit?_bit]

namespace Field

/-- Nothing leads out of the field: behind every clear side there is a cell. -/
def Enclosed (f : Field) : Prop :=
  ∀ p d, f.Clear p d → ∃ q, f.move? p d = some q

/-- Nothing is in the way in any cell. -/
def Free (f : Field) : Prop :=
  ∀ p, Cell.isObstacle (f.cellAt p Cell.empty) = false

variable {f : Field} {p : Position}

theorem Enclosed.open (h : f.Enclosed) {next : Position} {d : Direction} (hp : f.inside p = true)
    (hm : f.move? p d = some next) : (Carving.open_ f p d next).Enclosed := by
  intro q e hq
  rw [move?_open]
  rcases (clear_open_iff hp hm q e).1 hq with ⟨rfl, rfl⟩ | ⟨rfl, rfl⟩ | hq
  · exact ⟨next, hm⟩
  · exact ⟨p, move?_reverse hp hm⟩
  · exact h q e hq

theorem Enclosed.setCell (h : f.Enclosed) (p : Position) (cell : Char) : (f.setCell p cell).Enclosed := by
  intro q d hq
  rw [move?_setCell]
  exact h q d ((f.clear_setCell p q cell d).1 hq)

theorem enclosed_fillWalls_solid (f : Field) : (f.fillWalls 0xFF).Enclosed :=
  fun p d h => absurd h (f.not_clear_fillWalls_solid p d)

theorem Free.open (h : f.Free) (p next : Position) (d : Direction) : (Carving.open_ f p d next).Free := by
  intro q
  rw [Carving.open_, cellAt_changeWalls, cellAt_changeWalls]
  exact h q

theorem cellAt_setCell (hp : f.inside p = true) (q : Position) (cell default : Char) :
    (f.setCell p cell).cellAt q default = if q = p then cell else f.cellAt q default := by
  rw [setCell, if_pos hp]
  exact getD_setIfInBounds hp f.cells q _ _

theorem Free.setCell (h : f.Free) (p : Position) {cell : Char} (hc : Cell.isObstacle cell = false) :
    (f.setCell p cell).Free := by
  by_cases hp : f.inside p = true
  · intro q
    rw [cellAt_setCell hp]
    split
    · exact hc
    · exact h q
  · rwa [Field.setCell, if_neg hp]

theorem cellAt_fillCells (f : Field) (p : Position) (cell : Char) : (f.fillCells cell).cellAt p cell = cell := by
  change (if f.inside p then (Vector.replicate (f.width * f.height) cell)[f.index p]?.getD cell else cell) = cell
  split
  · next hp => rw [getElem?_replicate hp, Option.getD_some]
  · rfl

end Field

namespace Game

/-! ### Commands -/

/-- What the robot answers to a command, and the game after it. -/
def obey (g : Game) : RobotOp → Nat × Game
  | .move => (g.step.1.toNat, g.step.2)
  | .rotateLeft => (1, g.turnLeft)
  | .rotateRight => (1, g.turnRight)
  | .sonar => (g.sonar, g)
  | .compass => (g.compass.toNat, g)

def obeyAll (g : Game) (ops : List RobotOp) : Game :=
  ops.foldl (fun g op => (g.obey op).2) g

/-- What every command keeps in a maze: nothing leads out, nothing is in the way, and the robot stands on the
field and faces one of its six directions. -/
structure Roams (g : Game) : Prop where
  enclosed : g.field.Enclosed
  free : g.field.Free
  player_inside : g.field.inside g.player = true
  heads : ∃ d : Direction, g.heading = d.bit

variable {g : Game} {d : Direction}

theorem Roams.turn (h : g.Roams) (f : Direction → Direction) : { g with heading := g.heading.turn f }.Roams := by
  obtain ⟨d, hd⟩ := h.heads
  exact ⟨h.enclosed, h.free, h.player_inside, f d, by rw [hd, Heading.turn_bit]⟩

theorem Roams.setPlayer (h : g.Roams) (p : Position) : (g.setPlayer p).Roams := by
  unfold Game.setPlayer
  split
  · next hp =>
    refine ⟨(h.enclosed.setCell g.player Cell.empty).setCell p Cell.player,
      (h.free.setCell g.player rfl).setCell p rfl, ?_, h.heads⟩
    rw [Field.inside_setCell, Field.inside_setCell, hp]
  · exact h

/-- Every command keeps the maze around the robot. -/
theorem Roams.obey (h : g.Roams) (op : RobotOp) : (g.obey op).2.Roams := by
  cases op with
  | move =>
    change g.step.2.Roams
    unfold Game.step
    split
    · next p _ => exact h.setPlayer p
    · exact h
  | rotateLeft => exact h.turn Direction.left
  | rotateRight => exact h.turn Direction.right
  | sonar => exact h
  | compass => exact h

theorem Roams.obeyAll (ops : List RobotOp) : ∀ {g : Game}, g.Roams → (g.obeyAll ops).Roams := by
  induction ops with
  | nil => exact fun h => h
  | cons op ops ih => exact fun h => ih (h.obey op)

theorem roams_makeMaze (random : Nat → Int) (hf : g.field.Free) (hp : g.field.inside g.player = true)
    (hd : g.heading = d.bit) : (g.makeMaze random).Roams := by
  obtain ⟨⟨henclosed, hfree⟩, hw, hh⟩ := Carving.walk_field (P := fun f => f.Enclosed ∧ f.Free) (fun _ _ => hp)
    ⟨g.field.enclosed_fillWalls_solid, hf⟩ (fun h hp hm => ⟨h.1.open hp hm, h.2.open _ _ _⟩) random
    (Carving.stepBound g.field)
  refine ⟨henclosed.setCell _ Cell.finish, hfree.setCell _ rfl, ?_, d, hd⟩
  exact (Field.inside_setCell ..).trans ((Field.inside_congr hw hh _).trans hp)

/-! ### Bits -/

/-- A fold that sets the bits of some numbers sets those and no others. -/
theorem testBit_foldl_setBits (test : Nat → Bool) (l : List Nat) (a q : Nat) :
    (l.foldl (fun result i => if test i then result ||| 1 <<< i else result) a).testBit q =
      (a.testBit q || l.any fun i => test i && i == q) := by
  induction l generalizing a with
  | nil => simp
  | cons i l ih =>
    rw [List.foldl_cons, List.any_cons, ih]
    cases hi : test i with
    | false => simp
    | true =>
      have hq : decide (i = q) = (i == q) := rfl
      rw [if_pos rfl, Nat.testBit_or, Nat.one_shiftLeft, Nat.testBit_two_pow, hq, Bool.true_and,
        Bool.or_assoc]

/-- The sonar has a bit for each clear side that does not lead back. -/
theorem testBit_sonar (hd : g.heading = d.bit) (i : Nat) :
    g.sonar.testBit i = true ↔ i < 5 ∧ g.field.Clear g.player (Direction.ofIndex (d.index + i + 4)) := by
  have hindex : g.headingIndex = d.index := by
    rw [headingIndex, hd, Direction.ofBit?_bit]
    rfl
  let test (i : Nat) : Bool :=
    (Direction.ofIndex (i + (d.index + 4))).bit != d.reverse.bit &&
      g.field.wallsAt g.player &&& (Direction.ofIndex (i + (d.index + 4))).bit == 0
  have hsonar : g.sonar = (List.range 6).foldl
      (fun result i => if test i then result ||| 1 <<< i else result) 0 := by
    simp only [sonar, hindex, hd, Heading.turn_bit]
    congr 1
    funext result i
    by_cases hb : (Direction.ofIndex (i + (d.index + 4))).bit = d.reverse.bit
    · simp [test, hb]
    · simp [test, hb]
  have hside : d.index + i + 4 = i + (d.index + 4) := by omega
  rw [hsonar, testBit_foldl_setBits, hside]
  simp only [Nat.zero_testBit, Bool.false_or, List.any_eq_true, List.mem_range, Bool.and_eq_true,
    beq_iff_eq, test, bne_iff_ne, ne_eq, Field.Clear]
  constructor
  · rintro ⟨j, hj, ⟨hb, hw⟩, rfl⟩
    rw [Direction.bit_ofIndex_eq_reverse_iff d hj] at hb
    exact ⟨by omega, hw⟩
  · rintro ⟨hi, hw⟩
    refine ⟨i, by omega, ⟨?_, hw⟩, rfl⟩
    rw [Direction.bit_ofIndex_eq_reverse_iff d (by omega)]
    omega

/-- A step succeeds exactly if it leads somewhere. -/
theorem step_eq_true_iff : g.step.1 = true ↔ ∃ p, g.stepTarget? = some p := by
  unfold step
  cases g.stepTarget? <;> simp

/-- What a step needs: a cell to go to, nothing in the way there, and no wall before it. -/
theorem stepTarget?_eq_some_iff {p : Position} : g.stepTarget? = some p ↔
    g.field.moveHeading? g.player g.heading = some p ∧ Cell.isObstacle (g.field.cellAt p Cell.empty) = false ∧
      g.field.wallsAt g.player &&& g.heading = 0 := by
  unfold stepTarget?
  cases g.field.moveHeading? g.player g.heading with
  | none => simp
  | some q => grind

/-- Faced towards a side, the robot can go there exactly if the side is clear. -/
theorem Roams.step_iff (h : g.Roams) (d : Direction) :
    { g with heading := d.bit }.step.1 = true ↔ g.field.Clear g.player d := by
  simp only [step_eq_true_iff, stepTarget?_eq_some_iff, Field.moveHeading?, Direction.ofBit?_bit]
  constructor
  · rintro ⟨p, -, -, hclear⟩
    exact hclear
  · intro hclear
    obtain ⟨q, hq⟩ := h.enclosed g.player d hclear
    exact ⟨q, hq, h.free q, hclear⟩

/-- Whatever the robot is told in a maze, the sonar shows in five bits where it could go: towards the side
that a bit stands for a step succeeds exactly if the bit is set, and the third bit is for the step straight
ahead. The maze is made on any field with nothing in the way, around a robot that stands on the field and
faces one of its directions. -/
theorem sonar_agrees_with_step (g : Game) (random : Nat → Int) (ops : List RobotOp) {d : Direction}
    (hf : ∀ p, Cell.isObstacle (g.field.cellAt p Cell.empty) = false)
    (hp : g.field.inside g.player = true) (hd : g.heading = d.bit) :
    let now := (g.makeMaze random).obeyAll ops
    (now.obey .sonar).1 < 32 ∧
    (∃ e : Direction, now.heading = e.bit ∧ ∀ i ≤ 4,
      ((now.obey .sonar).1.testBit i = true ↔
        ({ now with heading := (Direction.ofIndex (e.index + i + 4)).bit }.obey .move).1 = 1)) ∧
    ((now.obey .sonar).1.testBit 2 = true ↔ (now.obey .move).1 = 1) := by
  intro now
  have h : now.Roams := (roams_makeMaze random hf hp hd).obeyAll ops
  -- From here on it does not matter how the game came about.
  clear_value now
  obtain ⟨e, he⟩ := h.heads
  have hgoes : ∀ game : Game, (game.obey .move).1 = 1 ↔ game.step.1 = true := by
    intro game
    change game.step.1.toNat = 1 ↔ _
    cases game.step.1 <;> decide
  have hbit : ∀ i ≤ 4, (now.sonar.testBit i = true ↔
      { now with heading := (Direction.ofIndex (e.index + i + 4)).bit }.step.1 = true) := by
    intro i hi
    rw [testBit_sonar he, h.step_iff]
    simp [Nat.lt_succ_of_le hi]
  have hshown : (now.obey .sonar).1 = now.sonar := by rw [obey]
  rw [hshown]
  refine ⟨?_, ⟨e, he, ?_⟩, ?_⟩
  · refine Nat.lt_pow_two_of_testBit (n := 5) now.sonar fun i hi => ?_
    rw [Bool.eq_false_iff, ne_eq, testBit_sonar he]
    omega
  · intro i hi
    rw [hgoes]
    exact hbit i hi
  · have hahead := hbit 2 (by omega)
    rw [Direction.ofIndex_ahead, ← he] at hahead
    rw [hgoes]
    exact hahead

/-- On a square field of side two, after some commands in the maze around the corner. -/
theorem sonar_agrees_with_step_square :
    let g := Game.ofField (Field.square 2)
    let random : Nat → Int := fun n => 5 * n + 3
    let now := (g.makeMaze random).obeyAll [.rotateLeft, .move, .sonar, .rotateRight, .move]
    (∀ p, Cell.isObstacle (g.field.cellAt p Cell.empty) = false) ∧ g.field.inside g.player = true ∧
      g.heading = Direction.up.bit ∧ (now.obey .sonar).1 < 32 ∧
      ((now.obey .sonar).1.testBit 2 = true ↔ (now.obey .move).1 = 1) := by
  intro g random now
  have hf : ∀ p, Cell.isObstacle (g.field.cellAt p Cell.empty) = false :=
    fun p => congrArg Cell.isObstacle ((Field.square 2).cellAt_fillCells p Cell.empty)
  have hp : g.field.inside g.player = true := by decide
  have hd : g.heading = Direction.up.bit := rfl
  have h := sonar_agrees_with_step g random [.rotateLeft, .move, .sonar, .rotateRight, .move] hf hp hd
  exact ⟨hf, hp, hd, h.1, h.2.2⟩

end Game

end Labyrinth.Maze
