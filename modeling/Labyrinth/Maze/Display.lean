import Labyrinth.Maze.Game
import Labyrinth.Text.Layout

/-!
# Showing a game

A game is drawn with slashes and underscores. Every cell takes part in two lines: its upper half and its lower
half; the player shows where it heads in one of them.
-/

namespace Labyrinth.Maze

namespace Game

/-- The player in the upper half of its cell. -/
def playerUpper (g : Game) : Char :=
  if g.heading == Direction.up.bit then '^'
  else if g.heading == Direction.upRight.bit then '>'
  else if g.heading == Direction.upLeft.bit then '<'
  else ' '

/-- The player in the lower half of its cell. -/
def playerLower (g : Game) : Char :=
  if g.heading == Direction.down.bit then 'v'
  else if g.heading == Direction.downRight.bit then '>'
  else if g.heading == Direction.downLeft.bit then '<'
  else '_'

def upperHalf (g : Game) (x y : Int) : Char :=
  let cell := g.field.cellAt ⟨x, y⟩ ' '
  if cell == Cell.player then g.playerUpper else cell

/-- The lower half of a cell, which shows the ground where the cell is empty. -/
def lowerHalf (g : Game) (x y : Int) : Char :=
  let cell := g.field.cellAt ⟨x, y⟩ ' '
  if cell == Cell.player then g.playerLower
  else if cell == Cell.empty then '_'
  else cell

/-- One or two of a character. -/
def doubled (wide : Bool) (c : Char) : List Char :=
  if wide then [c, c] else [c]

/-- The pieces of a line, with what stands before the first of them. -/
def rowPieces (before inner : Char) (piece : Nat → List Char) : (x : Nat) → (count : Nat) → List Char
  | _, 0 => []
  | x, count + 1 => before :: piece x ++ rowPieces inner inner piece (x + 1) count

/-- The line between the upper halves of one row and the lower halves of the row above it. -/
def upperRow (g : Game) (y : Nat) (wide : Bool) : String :=
  let piece (x : Nat) :=
    doubled wide (g.upperHalf x ((y : Int) - 1)) ++ '\\' :: doubled wide (g.lowerHalf x y)
  String.ofList
    (rowPieces (if y = 0 then ' ' else '/') '/' piece 0 g.field.width ++
      (if y = g.field.height then [] else ['/']) ++ ['\n'])

/-- The line between the lower halves of one row and the upper halves of the row below it. -/
def lowerRow (g : Game) (y : Nat) (wide : Bool) : String :=
  let piece (x : Nat) :=
    doubled wide (g.lowerHalf x y) ++ '/' :: doubled wide (g.upperHalf x ((y : Int) - 1))
  String.ofList
    (rowPieces (if y < g.field.height then '\\' else ' ') '\\' piece 0 g.field.width ++
      (if y = 0 then [] else ['\\']) ++ ['\n'])

/-- The lines from a row downwards. -/
def rowsFrom (g : Game) (wide : Bool) : (y : Nat) → List String
  | 0 => [g.lowerRow 0 wide]
  | y + 1 =>
    (if (y + 1) % 2 = 0 then g.lowerRow (y + 1) wide else g.upperRow (y + 1) wide) :: g.rowsFrom wide y

/-- The tops of the cells of the highest row. -/
def topRow (g : Game) (wide : Bool) : String :=
  let (start, top) :=
    if g.field.height % 2 = 0 then (" ", if wide then "   __ " else "  _ ")
    else ("", if wide then " __   " else " _  ")
  start ++ Text.repeated top g.field.width ++ "\n"

def drawing (g : Game) (wide : Bool) : String :=
  if g.field.height = 0 || g.field.width = 0 then "<empty game field>\n"
  else g.topRow wide ++ String.join (g.rowsFrom wide g.field.height)

end Game

end Labyrinth.Maze
