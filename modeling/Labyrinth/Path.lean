import Labyrinth.Fault

/-!
# Paths

Paths in their plain form: without repeated slashes and without steps that stay in place.
-/

namespace Labyrinth

/-- A path: the slashes it starts with, and the names it goes through. -/
structure Path where
  root : String
  names : List String
deriving DecidableEq, Repr, Inhabited

namespace Path

/-- The slashes that a path starts with. Two of them stay two, any other number counts as one. -/
def rootOf (text : String) : String :=
  match (text.toList.takeWhile (· == '/')).length with
  | 0 => ""
  | 2 => "//"
  | _ => "/"

def ofText (text : String) : Path :=
  ⟨rootOf text, (text.splitOn "/").filter fun name => name ≠ "" ∧ name ≠ "."⟩

/-- A path in its plain form; the path that goes nowhere is a point. -/
def text (p : Path) : String :=
  if p.root.isEmpty && p.names.isEmpty then "." else p.root ++ Text.joined "/" p.names

/-- A name without the ending after its last point. A point at either end of the name starts no ending. -/
def stem (name : String) : String :=
  let reversed := name.toList.reverse
  let ending := reversed.takeWhile (· ≠ '.')
  match reversed.drop ending.length with
  | _ :: first :: rest => if ending.isEmpty then name else String.ofList (first :: rest).reverse
  | _ => name

/-- A path with the ending of its last name replaced. -/
def withEnding (p : Path) (ending : String) : Except Fault Path :=
  match p.names.getLast? with
  | none => .error (.badValue s!"PosixPath({Text.quoted p.text}) has an empty name")
  | some name => .ok { p with names := p.names.dropLast ++ [stem name ++ ending] }

end Path

end Labyrinth
