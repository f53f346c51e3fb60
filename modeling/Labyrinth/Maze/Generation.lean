import Labyrinth.Maze.Game

/-!
# Making a maze

A maze is carved out of solid walls by a walk without a plan. The walk goes on from the cell reached last to
some neighbour that was not visited yet, and takes the wall between them away; where there is none, it goes
back. The cell where the way back was longest becomes the finish.
-/

namespace Labyrinth.Maze

/-- A walk that carves a maze. -/
structure Carving where
  field : Field
  /-- The cells visited so far, by number. -/
  visited : Array Bool
  /-- The way back, nearest cell first. -/
  trail : List Position
  /-- The length of the longest way back so far, and where it was. -/
  longest : Nat
  farthest : Position

namespace Carving

def isVisited (c : Carving) (p : Position) : Bool :=
  c.visited.getD (c.field.index p) false

/-- The direction that comes `i` after a random one. A random number is a signed word of 32 bits, counted on in
words of 64 bits. -/
def direction (random : Int) (i : Nat) : Direction :=
  Direction.ofIndex (((Int.bmod random (Nat.pow 2 32) % Int.pow 2 64).toNat + i) % Nat.pow 2 64)

/-- The first direction, beginning with a random one, that leads to a cell that was not visited, and that
cell. -/
def way? (c : Carving) (p : Position) (random : Int) : Option (Direction × Position) :=
  (List.range 6).findSome? fun i =>
    let d := direction random i
    match c.field.move? p d with
    | some next => if c.isVisited next then none else some (d, next)
    | none => none

/-- Takes the wall between a cell and the next one away. -/
def open_ (f : Field) (p : Position) (d : Direction) (next : Position) : Field :=
  (f.changeWalls p (· &&& ~~~d.bit)).changeWalls next (· &&& ~~~d.reverse.bit)

def step (c : Carving) (random : Int) : Carving :=
  match c.trail with
  | [] => c
  | p :: back =>
    let c := if c.trail.length > c.longest then { c with longest := c.trail.length, farthest := p } else c
    match c.way? p random with
    | some (d, next) =>
      { c with
        field := open_ c.field p d next
        visited := c.visited.setIfInBounds (c.field.index next) true
        trail := next :: p :: back }
    | none => { c with trail := back }

/-- The walk, with a random number for each step. -/
def walk (random : Nat → Int) (c : Carving) : (steps : Nat) → (done : Nat) → Carving
  | 0, _ => c
  | steps + 1, done => if c.trail.isEmpty then c else walk random (c.step (random done)) steps (done + 1)

/-- The start of a walk: solid walls, and one cell visited. -/
def start (f : Field) (p : Position) : Carving :=
  let f := f.fillWalls 0xFF
  { field := f
    visited := (Array.replicate (f.width * f.height) false).setIfInBounds (f.index p) true
    trail := [p]
    longest := 0
    farthest := p }

/-- A walk visits every cell once on the way out and once on the way back. -/
def stepBound (f : Field) : Nat := 2 * (f.width * f.height) + 2

end Carving

/-- Makes a maze around the player. -/
def Game.makeMaze (g : Game) (random : Nat → Int) : Game :=
  let c := Carving.walk random (Carving.start g.field g.player) (Carving.stepBound g.field) 0
  { g with field := c.field }.setFinish c.farthest

end Labyrinth.Maze
