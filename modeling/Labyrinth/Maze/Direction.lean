/-!
# Directions

The cells of the field are hexagons, so there are six directions. Each direction is one bit, and a set of
walls is a byte.
-/

namespace Labyrinth.Maze

/-- The six directions, in the order of their bits. -/
inductive Direction where
  | downLeft | down | downRight | upRight | up | upLeft
deriving DecidableEq, Repr, Inhabited

namespace Direction

def all : List Direction := [downLeft, down, downRight, upRight, up, upLeft]

def index : Direction → Nat
  | downLeft => 0
  | down => 1
  | downRight => 2
  | upRight => 3
  | up => 4
  | upLeft => 5

/-- The direction at a place of the order, counted around. -/
def ofIndex (i : Nat) : Direction :=
  all.getD (i % 6) downLeft

def bit : Direction → UInt8
  | downLeft => 1
  | down => 2
  | downRight => 4
  | upRight => 8
  | up => 16
  | upLeft => 32

def ofBit? (byte : UInt8) : Option Direction :=
  all.find? fun d => d.bit == byte

def name : Direction → String
  | downLeft => "DownLeft"
  | down => "Down"
  | downRight => "DownRight"
  | upRight => "UpRight"
  | up => "Up"
  | upLeft => "UpLeft"

/-- The direction after a turn to the left. -/
def left : Direction → Direction
  | upLeft => up
  | up => upRight
  | upRight => downRight
  | downRight => down
  | down => downLeft
  | downLeft => upLeft

/-- The direction after a turn to the right. -/
def right : Direction → Direction
  | downLeft => down
  | down => downRight
  | downRight => upRight
  | upRight => up
  | up => upLeft
  | upLeft => downLeft

/-- The opposite direction. -/
def reverse : Direction → Direction
  | downLeft => upRight
  | down => up
  | downRight => upLeft
  | upRight => downLeft
  | up => down
  | upLeft => downRight

end Direction

/-- A heading is a byte; only six of them are directions. -/
abbrev Heading := UInt8

namespace Heading

/-- A heading turned by a map of directions; what is no direction stays as it is. -/
def turn (f : Direction → Direction) (h : Heading) : Heading :=
  match Direction.ofBit? h with
  | some d => (f d).bit
  | none => h

def name (h : Heading) : String :=
  match Direction.ofBit? h with
  | some d => d.name
  | none => "Unknown"

end Heading

end Labyrinth.Maze
