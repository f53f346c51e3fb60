import Labyrinth.Double

/-!
# Plain values

Values without behaviour, as settings and arguments are given: numbers, texts, sequences and tables. `shown`
writes them so that they can be read back.
-/

namespace Labyrinth

/-- A truth value as it is written. -/
def showBool (b : Bool) : String := if b then "True" else "False"

inductive Plain where
  | nothing
  | bool (b : Bool)
  | int (n : Int)
  | real (d : Double)
  | text (s : String)
  | list (items : List Plain)
  | tuple (items : List Plain)
  /-- Values by name. -/
  | table (names : List String) (values : List Plain)
deriving Inhabited

namespace Plain

/-- A table with given entries. -/
def record (entries : List (String × Plain)) : Plain :=
  table (entries.map Prod.fst) (entries.map Prod.snd)

def kind : Plain → String
  | nothing => "NoneType"
  | bool _ => "bool"
  | int _ => "int"
  | real _ => "float"
  | text _ => "str"
  | list _ => "list"
  | tuple _ => "tuple"
  | table _ _ => "dict"

/-- Whether a value counts as true: it is neither absent, nor zero, nor empty. -/
def holds : Plain → Bool
  | nothing => false
  | bool b => b
  | int n => n ≠ 0
  | real d => !d.isZero
  | text s => !s.isEmpty
  | list items => !items.isEmpty
  | tuple items => !items.isEmpty
  | table names _ => !names.isEmpty

def items? : Plain → Option (List Plain)
  | list items => some items
  | tuple items => some items
  | _ => none

def text? : Plain → Option String
  | text s => some s
  | _ => none

mutual

def shown : Plain → String
  | .nothing => "None"
  | .bool b => showBool b
  | .int n => toString n
  | .real d => d.shown
  | .text s => Text.quoted s
  | .list items => "[" ++ Text.joined ", " (shownAll items) ++ "]"
  | .tuple items =>
    "(" ++ Text.joined ", " (shownAll items) ++ (if items.length = 1 then ",)" else ")")
  | .table names values =>
    let written := (names.zip (shownAll values)).map fun (name, value) => Text.quoted name ++ ": " ++ value
    "\x7b" ++ Text.joined ", " written ++ "\x7d"

def shownAll : List Plain → List String
  | [] => []
  | v :: vs => v.shown :: shownAll vs

end

mutual

/-- The kind of the first thing in a value that cannot be an entry of a set. -/
def unhashableIn? : Plain → Option String
  | .list _ => some "list"
  | .table _ _ => some "dict"
  | .tuple items => unhashable? items
  | _ => none

/-- The kind of the first thing in some values that cannot be an entry of a set. -/
def unhashable? : List Plain → Option String
  | [] => none
  | v :: vs => (unhashableIn? v).or (unhashable? vs)

end

/-- A value as it is printed: a text stands for itself. -/
def printed : Plain → String
  | text s => s
  | v => v.shown

end Plain

end Labyrinth
