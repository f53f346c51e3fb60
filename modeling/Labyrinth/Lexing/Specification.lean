import Labyrinth.Plain

/-!
# Specifications of lexers

What a lexer is made from: the names of its tokens, the characters that are tokens by themselves, its states,
and its rules. A rule belongs to the states that its name begins with. It is either a pattern alone or a
function with a pattern, which decides what becomes of the text it matches.
-/

namespace Labyrinth.Lexing

/-- One thing a rule function does with its token and its lexer. -/
inductive RuleAction where
  | setType (type : String)
  /-- Reads the value as a number. -/
  | toInt
  | toUpper
  | countLines
  | skip (count : Int)
  /-- Keeps only the first character of the value. -/
  | keepFirst
  | enter (state : String)
  | push (state : String)
  | pop
  | drop
  /-- Goes on with another text, once for each lexer, and drops the token after that. -/
  | more (text : String)
  /-- Looks the type up by the value. -/
  | typeFrom (types : List (String × String)) (otherwise : String)
  /-- Takes the value for a name or a number that it nearly is, and complains about it. -/
  | mend
  /-- Enters a state and begins the text anew, as far as the token. -/
  | reread (state : String)
  /-- Ends the run, because nothing begins with the token. -/
  | refuse
deriving DecidableEq, Repr, Inhabited

structure RuleFunction where
  name : String
  /-- The line it is defined on. -/
  line : Int
  params : Nat
  /-- Whether it is bound to an object, which takes one parameter more. -/
  bound : Bool
  pattern : Option String
  actions : List RuleAction
deriving DecidableEq, Repr, Inhabited

/-- The file that rule functions are defined in. -/
def ruleFile : String := "spec.py"

namespace RuleFunction

/-- The number of parameters that a rule function has to have. -/
def needed (f : RuleFunction) : Nat := if f.bound then 2 else 1

/-- The place where a rule function is defined. -/
def place (f : RuleFunction) : String := s!"{ruleFile}:{f.line}"

/-- What goes wrong when a rule function is called that does not take the values it gets: a token, and its object
if it is bound. -/
def callFault? (f : RuleFunction) : Option Fault :=
  let plural (count : Nat) : String := if count = 1 then "" else "s"
  if f.params < f.needed then
    let were := if f.needed = 1 then "was" else "were"
    some (.wrongKind (s!"{f.name}() takes {f.params} positional argument" ++ plural f.params ++
      s!" but {f.needed} {were} given"))
  else if f.needed < f.params then
    let count := f.params - f.needed
    let names := (List.range count).map fun i => s!"'a{f.needed + i}'"
    let listed := match names.reverse with
      | [last, first] => first ++ " and " ++ last
      | last :: first :: rest => Text.joined ", " (first :: rest).reverse ++ ", and " ++ last
      | few => Text.joined "" few
    some (.wrongKind (s!"{f.name}() missing {count} required positional argument" ++ plural count ++
      ": " ++ listed))
  else none

end RuleFunction

inductive RuleBody where
  | text (pattern : String)
  | function (f : RuleFunction)
  /-- Neither a pattern nor a function: the name of its kind, and whether it counts as true. -/
  | other (kind : String) (holds : Bool)
deriving DecidableEq, Repr, Inhabited

structure Specification where
  tokens : Plain := .nothing
  literals : Plain := .text ""
  states : Plain := .nothing
  /-- The package that the specification is in. -/
  package : String := ""
  rules : List (String × RuleBody) := []
deriving Inhabited

/-- Entries by name, with one entry put in the place of an older one of the same name or at the end. -/
def setEntry {α : Type} (name : String) (value : α) : List (String × α) → List (String × α)
  | [] => [(name, value)]
  | (other, old) :: rest =>
    if other = name then (name, value) :: rest else (other, old) :: setEntry name value rest

/-- Entries by name, with one entry changed. -/
def updateEntry {α : Type} (name : String) (change : α → α) (entries : List (String × α)) :
    List (String × α) :=
  entries.map fun (other, value) => (other, if other = name then change value else value)

namespace Specification

/-- The rules by name, a later one in place of an earlier one of the same name; sorted if asked for. -/
def ruleTable (s : Specification) (sorted : Bool) : List (String × RuleBody) :=
  let rules := s.rules.foldl (fun table (name, body) => setEntry name body table) []
  if sorted then rules.mergeSort fun a b => a.1 ≤ b.1 else rules

end Specification

end Labyrinth.Lexing
