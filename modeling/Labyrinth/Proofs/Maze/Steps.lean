import Labyrinth.Proofs.Maze.Marks

/-!
# A step and the way back

A step changes the place of the player and the cells that it leaves and enters, and nothing else. Three turns to one
side face the other way, and a wall is the same from both of its sides, so that a step can be taken back.
-/

namespace Labyrinth.Maze

theorem Direction.turn_thrice (d : Direction) :
    d.left.left.left = d.reverse ∧ d.right.right.right = d.reverse := by
  cases d <;> exact ⟨rfl, rfl⟩

namespace Game

variable {g : Game} {p : Position} {d : Direction}

/-- Putting the player somewhere else changes its place and the contents of two cells. -/
theorem setPlayer_eq (hg : g.field.inside g.player = true) (hp : g.field.inside p = true) :
    ∃ cells, g.setPlayer p = { g with player := p, field := { g.field with cells } } ∧
      ∀ q default, q ≠ g.player → q ≠ p → (g.setPlayer p).field.cellAt q default = g.field.cellAt q default := by
  refine ⟨(g.field.cells.setIfInBounds (g.field.index g.player) Cell.empty).setIfInBounds (g.field.index p)
    Cell.player, ?_, fun q default hq hq' => ?_⟩
  · have hp' : (g.field.setCell g.player Cell.empty).inside p = true := (Field.inside_setCell ..).trans hp
    rw [setPlayer, if_pos hp, Field.setCell, if_pos hp', Field.setCell, if_pos hg]
    rfl
  · rw [cellAt_setPlayer hg hp, if_neg hq', if_neg hq]

/-- Where a step led, a step in the opposite direction leads back. -/
theorem stepTarget?_back (hs : g.field.Symmetric) (hg : g.field.inside g.player = true)
    (hd : g.heading = d.bit) (h : g.stepTarget? = some p) :
    { g.setPlayer p with heading := d.reverse.bit }.stepTarget? = some g.player := by
  obtain ⟨hmove, -, hwalls⟩ := stepTarget?_eq_some_iff.1 h
  have hp := inside_of_stepTarget? h
  obtain ⟨cells, hset, -⟩ := setPlayer_eq hg hp
  simp only [hd, Field.moveHeading?, Direction.ofBit?_bit] at hmove
  rw [hd] at hwalls
  have hclear : g.field.Clear p d.reverse := (Field.symmetric_iff_clear.1 hs g.player p d hg hmove).1 hwalls
  refine stepTarget?_eq_some_iff.2 ⟨?_, ?_, ?_⟩
  · simp only [hset, Field.moveHeading?, Direction.ofBit?_bit]
    exact Field.move?_reverse hg hmove
  · change Cell.isObstacle ((g.setPlayer p).field.cellAt g.player Cell.empty) = false
    rw [cellAt_setPlayer hg hp, if_pos rfl]
    split <;> rfl
  · rw [hset]
    exact hclear

/-- A step of a player on the field is refused and changes nothing, or it leads to a cell of the field and changes
only the place of the player and the contents of the cells that it leaves and enters. Where walls have two sides, the
player comes back after a step by three turns to either side and another step. -/
theorem step_and_back (g : Game) (hg : g.field.inside g.player = true) :
    (g.step = (false, g) ∨ ∃ p cells, g.field.inside p = true ∧
      g.step = (true, { g with player := p, field := { g.field with cells } }) ∧
      ∀ q default, q ≠ g.player → q ≠ p → g.step.2.field.cellAt q default = g.field.cellAt q default) ∧
    ∀ d : Direction, g.field.Symmetric → g.heading = d.bit → g.step.1 = true →
      ∀ turn ∈ [turnLeft, turnRight], (turn (turn (turn g.step.2))).step.1 = true ∧
        (turn (turn (turn g.step.2))).step.2.player = g.player := by
  cases h : g.stepTarget? with
  | none =>
    have hstep : g.step = (false, g) := by rw [step, h]
    exact ⟨.inl hstep, fun _ _ _ hs => by cases (congrArg Prod.fst hstep).symm.trans hs⟩
  | some p =>
    have hp := inside_of_stepTarget? h
    have hstep : g.step = (true, g.setPlayer p) := by rw [step, h]
    obtain ⟨cells, hset, hkept⟩ := setPlayer_eq hg hp
    rw [hstep]
    refine ⟨.inr ⟨p, cells, hp, by rw [hset], hkept⟩, fun d hs hd _ turn hturn => ?_⟩
    have hheading : (g.setPlayer p).heading = d.bit := by rw [hset, hd]
    have hthrice : turn (turn (turn (g.setPlayer p))) = { g.setPlayer p with heading := d.reverse.bit } := by
      simp only [List.mem_cons, List.not_mem_nil, or_false] at hturn
      rcases hturn with rfl | rfl
      · simp only [turnLeft, hheading, Heading.turn_bit, d.turn_thrice.1]
      · simp only [turnRight, hheading, Heading.turn_bit, d.turn_thrice.2]
    have hback := stepTarget?_back hs hg hd h
    have hin : ({ g.setPlayer p with heading := d.reverse.bit } : Game).field.inside g.player = true :=
      (inside_setPlayer g p g.player).trans hg
    have hagain : (turn (turn (turn (g.setPlayer p)))).step =
        (true, { g.setPlayer p with heading := d.reverse.bit }.setPlayer g.player) := by
      rw [hthrice, step, hback]
    rw [hagain]
    exact ⟨rfl, player_setPlayer hin⟩

/-- From the corner of a field without walls the player goes up and comes back. -/
theorem step_and_back_corner :
    let g : Game := { field := Field.ofSize 2 3 }
    g.field.inside g.player = true ∧ g.field.Symmetric ∧ g.step.1 = true ∧
      g.step.2.turnLeft.turnLeft.turnLeft.step.2.player = g.player := by
  intro g
  have hg : g.field.inside g.player = true := by decide
  have hs : g.field.Symmetric := Field.symmetric_fillWalls (Field.ofSize 2 3) (.inl rfl)
  have hstep : g.step.1 = true := by decide
  exact ⟨hg, hs, hstep, ((g.step_and_back hg).2 .up hs rfl hstep turnLeft List.mem_cons_self).2⟩

end Game

end Labyrinth.Maze
