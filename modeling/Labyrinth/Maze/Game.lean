import Labyrinth.Maze.Field

/-!
# The game

A player stands on a field and heads somewhere; one cell of the field is the finish.
-/

namespace Labyrinth.Maze

structure Game where
  field : Field := Field.ofSize 0 0
  player : Position := ⟨0, 0⟩
  heading : Heading := Direction.up.bit
  finish : Position := ⟨0, 0⟩
deriving Inhabited

namespace Game

/-- The player in the corner, no content and no walls. The finish stays where it was. -/
def reset (g : Game) : Game :=
  { g with
    field := (g.field.fillCells Cell.empty).fillWalls 0
    player := ⟨0, 0⟩
    heading := Direction.up.bit }

def ofField (f : Field) : Game :=
  Game.reset { field := f, finish := ⟨0, 0⟩ }

/-- Puts the player somewhere; nothing happens beside the field. -/
def setPlayer (g : Game) (p : Position) : Game :=
  if g.field.inside p then
    { g with field := (g.field.setCell g.player Cell.empty).setCell p Cell.player, player := p }
  else g

/-- Puts the finish somewhere; beside the field only its place is noted. -/
def setFinish (g : Game) (p : Position) : Game :=
  { g with field := g.field.setCell p Cell.finish, finish := p }

/-- Where a step would lead, if nothing is in the way. -/
def stepTarget? (g : Game) : Option Position :=
  match g.field.moveHeading? g.player g.heading with
  | none => none
  | some p =>
    if Cell.isObstacle (g.field.cellAt p Cell.empty) then none
    else if g.field.wallsAt g.player &&& g.heading != 0 then none
    else some p

/-- One step ahead, if nothing is in the way. -/
def step (g : Game) : Bool × Game :=
  match g.stepTarget? with
  | some p => (true, g.setPlayer p)
  | none => (false, g)

def turnLeft (g : Game) : Game := { g with heading := g.heading.turn Direction.left }

def turnRight (g : Game) : Game := { g with heading := g.heading.turn Direction.right }

/-- The place of the heading in the order of directions. -/
def headingIndex (g : Game) : Nat :=
  ((Direction.ofBit? g.heading).map Direction.index).getD 0

/-- The open sides of the player's cell, seen from the player: one bit for each of the five directions that
do not lead back, from two to the right over straight ahead to two to the left. -/
def sonar (g : Game) : Nat :=
  let walls := g.field.wallsAt g.player
  let back := g.heading.turn Direction.reverse
  let offset := g.headingIndex + 4
  (List.range 6).foldl (fun result i =>
    let d := Direction.ofIndex (i + offset)
    if d.bit == back then result
    else if walls &&& d.bit == 0 then result ||| 1 <<< i
    else result) 0

/-- Whether the player stands where the finish is. -/
def compass (g : Game) : Bool := g.player == g.finish

end Game

end Labyrinth.Maze
