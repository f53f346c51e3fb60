import Labyrinth.Maze.Direction

/-!
# Fields

A field has rows of hexagonal cells. Rows count upwards; a cell of an odd row lies half a cell further right
than one of an even row, so a step straight up or down leads two rows on. Between cells there may be walls,
and each cell has a byte with a bit for every side that is walled.
-/

namespace Labyrinth.Maze

structure Position where
  x : Int
  y : Int
deriving DecidableEq, Repr, Inhabited

/-- A field of cells with walls between them. -/
structure Field where
  width : Nat
  height : Nat
  cells : Vector Char (width * height)
  walls : Vector UInt8 (width * height)

namespace Cell

/-- What the cells can hold. -/
def wall : Char := '#'
def player : Char := 'o'
def finish : Char := 'F'
def empty : Char := ' '

/-- Whether a cell is in the way. -/
def isObstacle (cell : Char) : Bool := cell == wall

end Cell

namespace Field

def ofSize (width height : Nat) : Field :=
  ⟨width, height, Vector.replicate _ Cell.empty, Vector.replicate _ 0⟩

/-- The field that comes closest to a square with a side of some cells. -/
def square (side : Nat) : Field := ofSize side (side * 2 + 1)

instance : Inhabited Field := ⟨ofSize 0 0⟩

def inside (f : Field) (p : Position) : Bool :=
  0 ≤ p.x && p.x < f.width && 0 ≤ p.y && p.y < f.height

/-- The number of a cell, row by row. -/
def index (f : Field) (p : Position) : Nat :=
  p.y.toNat * f.width + p.x.toNat

/-- The content of a cell, or a default beside the field. -/
def cellAt (f : Field) (p : Position) (default : Char) : Char :=
  if f.inside p then f.cells[f.index p]?.getD default else default

/-- Writes into a cell; nothing happens beside the field. -/
def setCell (f : Field) (p : Position) (cell : Char) : Field :=
  if f.inside p then { f with cells := f.cells.setIfInBounds (f.index p) cell } else f

/-- The walls of a cell; beside the field all sides are walled. -/
def wallsAt (f : Field) (p : Position) : UInt8 :=
  if f.inside p then f.walls[f.index p]?.getD 0xFF else 0xFF

/-- Changes the walls of a cell; nothing happens beside the field. -/
def changeWalls (f : Field) (p : Position) (change : UInt8 → UInt8) : Field :=
  if f.inside p then
    { f with walls := f.walls.setIfInBounds (f.index p) (change (f.wallsAt p)) }
  else f

def fillCells (f : Field) (cell : Char) : Field :=
  { f with cells := Vector.replicate _ cell }

def fillWalls (f : Field) (walls : UInt8) : Field :=
  { f with walls := Vector.replicate _ walls }

def neighbour (p : Position) (d : Direction) : Position :=
  let even := p.y % 2 == 0
  match d with
  | .up => ⟨p.x, p.y + 2⟩
  | .down => ⟨p.x, p.y - 2⟩
  | .upLeft => ⟨if even then p.x - 1 else p.x, p.y + 1⟩
  | .downLeft => ⟨if even then p.x - 1 else p.x, p.y - 1⟩
  | .upRight => ⟨if even then p.x else p.x + 1, p.y + 1⟩
  | .downRight => ⟨if even then p.x else p.x + 1, p.y - 1⟩

/-- The place next to another in a direction, if it lies on the field. -/
def move? (f : Field) (p : Position) (d : Direction) : Option Position :=
  let next := neighbour p d
  if f.inside next then some next else none

/-- The place that a heading leads to, if it lies on the field; what is no direction leads nowhere else. -/
def moveHeading? (f : Field) (p : Position) (h : Heading) : Option Position :=
  match Direction.ofBit? h with
  | some d => f.move? p d
  | none => if f.inside p then some p else none

/-- Adds walls to a byte or takes them away. -/
def withWalls (add : Bool) (walls : UInt8) (old : UInt8) : UInt8 :=
  if add then old ||| walls else old &&& ~~~walls

/-- Changes the wall between a cell and the next one on the other side of it. -/
def changeFar (f : Field) (p : Position) (d : Direction) (add : Bool) : Field :=
  match f.move? p d with
  | some next => f.changeWalls next (withWalls add d.reverse.bit)
  | none => f

/-- Adds or removes one wall of a cell, on both of its sides. -/
def updateWall (f : Field) (p : Position) (walls : UInt8) (add : Bool) : Field :=
  if f.inside p then
    match Direction.ofBit? walls with
    | some d => (f.changeFar p d add).changeWalls p (withWalls add d.bit)
    | none => f
  else f

/-- Adds or removes some walls of a cell, on both of their sides. -/
def updateWalls (f : Field) (p : Position) (walls : UInt8) (add : Bool) : Field :=
  if f.inside p then
    if walls == 0 then f
    else
      let far := Direction.all.foldl
        (fun f d => if walls &&& d.bit == 0 then f else f.changeFar p d add) f
      far.changeWalls p (withWalls add walls)
  else f

/-- Whether a number is less than a size by `k`. -/
def isSizeMinus (n : Int) (size : Nat) (k : Nat) : Bool :=
  n == (size : Int) - (k : Int)

/-- Walls together with the sides where the map ends. -/
def wallsWithMapEnd (f : Field) (walls : UInt8) (p : Position) : UInt8 :=
  let add (test : Bool) (more : UInt8) (walls : UInt8) := if test then walls ||| more else walls
  let upper := Direction.upLeft.bit ||| Direction.up.bit ||| Direction.upRight.bit
  let lower := Direction.downLeft.bit ||| Direction.down.bit ||| Direction.downRight.bit
  walls
    |> add (p.y.tmod 2 == 0 && p.x == 0) (Direction.upLeft.bit ||| Direction.downLeft.bit)
    |> add (p.y.tmod 2 == (f.height % 2 : Nat) && isSizeMinus p.x f.width 1)
        (Direction.upRight.bit ||| Direction.downRight.bit)
    |> add (p.y == 0) lower
    |> add (p.y == 1) Direction.down.bit
    |> add (isSizeMinus p.y f.height 2) Direction.up.bit
    |> add (isSizeMinus p.y f.height 1) upper

end Field

end Labyrinth.Maze
