import Labyrinth.Session
import Labyrinth.Text.Numeral

/-!
# Arguments of commands

A command has switches, which may take a value, and operands. `Command.read` sorts arguments into them: long
switches may be abbreviated, short ones may be run together, and a value may be joined to its switch. What
does not fit is reported together with the usage of the command, and ends the run with status 2; a request for
help prints the help and ends it with status 0.
-/

namespace Labyrinth

structure Switch where
  /-- Its names, short ones first. -/
  names : List String
  /-- What stands for its value in the usage, if it may take one. -/
  value : Option String := none
  help : String
deriving DecidableEq, Repr, Inhabited

structure Operand where
  name : String
  help : String
deriving DecidableEq, Repr, Inhabited

/-- A command with its switches and operands. -/
structure Command where
  program : String
  switches : List Switch
  operands : List Operand
deriving DecidableEq, Repr, Inhabited

/-- What the arguments of a command say. -/
structure Given where
  /-- The switches given, by their first names, with their values. -/
  switches : List (String × Option String) := []
  operands : List String := []
  /-- What fits nowhere. -/
  extras : List String := []
deriving DecidableEq, Repr, Inhabited

namespace Switch

/-- The name that a switch goes by. -/
def key (s : Switch) : String := s.names.headD ""

/-- The names of a switch as reports give them. -/
def title (s : Switch) : String := Text.joined "/" s.names

/-- A name of a switch with what stands for the value. -/
def withValue (s : Switch) (name : String) : String :=
  match s.value with
  | some value => s!"{name} [{value}]"
  | none => name

/-- The names of a switch as the help gives them. -/
def heading (s : Switch) : String := Text.joined ", " (s.names.map s.withValue)

end Switch

namespace Given

/-- How often a switch was given. -/
def count (g : Given) (key : String) : Nat :=
  (g.switches.filter fun use => use.1 == key).length

/-- The value that a switch was given last; none if it was given without one. -/
def value? (g : Given) (key : String) : Option String :=
  ((g.switches.filter fun use => use.1 == key).getLast?).bind Prod.snd

end Given

namespace Command

/-- The switch that asks for help. -/
def helpSwitch : Switch := { names := ["-h", "--help"], help := "show this help message and exit" }

/-- All switches, the one for help first. -/
def allSwitches (c : Command) : List Switch := helpSwitch :: c.switches

/-- The names of all switches, each with its switch. -/
def names (c : Command) : List (String × Switch) :=
  c.allSwitches.flatMap fun s => s.names.map fun name => (name, s)

/-- How the command is used, in one line. -/
def usage (c : Command) : String :=
  let switches := c.allSwitches.map fun s => s!"[{s.withValue s.key}]"
  Text.joined " " (["usage:", c.program] ++ switches ++ c.operands.map Operand.name) ++ "\n"

/-- The column where explanations start at the latest. -/
def widestHeading : Nat := 24

/-- A heading with its explanation, which goes to the next line if the heading is too long. -/
def helpLine (column : Nat) (heading help : String) : String :=
  if heading.length + 4 ≤ column then "  " ++ Text.padRight (column - 4) heading ++ "  " ++ help ++ "\n"
  else "  " ++ heading ++ "\n" ++ Text.repeated " " column ++ help ++ "\n"

def help (c : Command) : String :=
  let operands := c.operands.map fun o => (o.name, o.help)
  let switches := c.allSwitches.map fun s => (s.heading, s.help)
  let longest := ((operands ++ switches).map fun entry => entry.1.length).foldl max 0
  let column := min (longest + 4) widestHeading
  let lines (entries : List (String × String)) :=
    Text.joined "" (entries.map fun (heading, help) => helpLine column heading help)
  c.usage ++ "\npositional arguments:\n" ++ lines operands ++ "\noptions:\n" ++ lines switches

/-- Reports a wrong use of a command. -/
def refuse {α : Type} (c : Command) (message : String) : Run α := do
  Session.writeError (c.usage ++ s!"{c.program}: error: {message}\n")
  throw (.exit 2)

/-- How an argument that looks like a switch is understood. -/
structure Reading where
  /-- The switch that is meant, if there is one. -/
  switch : Option Switch
  name : String
  /-- What is joined to it. -/
  joined : Option String := none
deriving DecidableEq, Repr, Inhabited

/-- What an argument is taken for. -/
inductive Word where
  | plain (text : String)
  /-- The two dashes that end the switches. -/
  | dashes
  | switch (text : String) (reading : Reading)
deriving DecidableEq, Repr, Inhabited

/-- A text before and after its first equals sign, if it has one. -/
def splitAtEquals (text : String) : String × Option String :=
  let chars := text.toList
  let before := chars.takeWhile (· ≠ '=')
  (String.ofList before, match chars.drop before.length with
    | [] => none
    | _ :: after => some (String.ofList after))

/-- Whether a text is a negative number. -/
def looksNegative (text : String) : Bool :=
  let isDigit (c : Char) := (Text.decimalValue? c).isSome
  match text.toList with
  | '-' :: rest =>
    let whole := rest.takeWhile isDigit
    match rest.drop whole.length with
    | [] => !whole.isEmpty
    | '.' :: places => !places.isEmpty && places.all isDigit
    | _ => false
  | _ => false

/-- The ways to understand an argument as an abbreviated name or as a short name with something joined to
it. -/
def abbreviations (c : Command) (text : String) : List Reading :=
  if text.startsWith "--" then
    let (start, value) := splitAtEquals text
    c.names.filterMap fun (name, s) =>
      if name.startsWith start then some ⟨some s, name, value⟩ else none
  else
    let short := Text.firstChars 2 text
    let rest := String.ofList (text.toList.drop 2)
    c.names.filterMap fun (name, s) =>
      if name == short then some ⟨some s, name, some rest⟩
      else if name.startsWith text then some ⟨some s, name, none⟩
      else none

/-- How an argument is understood; none if it is no switch. -/
def reading (c : Command) (text : String) : Run (Option Reading) := do
  if !text.startsWith "-" then return none
  if let some s := c.names.lookup text then return some ⟨some s, text, none⟩
  if text.length = 1 then return none
  let (name, value) := splitAtEquals text
  if let (some value, some s) := (value, c.names.lookup name) then
    return some ⟨some s, name, some value⟩
  match c.abbreviations text with
  | [] =>
    if looksNegative text || text.toList.contains ' ' then return none
    return some ⟨none, text, none⟩
  | [r] => return some r
  | rs =>
    let matching := Text.joined ", " (rs.map Reading.name)
    c.refuse s!"ambiguous option: {text} could match {matching}"

/-- What arguments are taken for. After two dashes nothing is a switch. -/
def words (c : Command) : List String → Run (List Word)
  | [] => return []
  | "--" :: rest => return .dashes :: rest.map Word.plain
  | text :: rest => do
    let first ← match ← c.reading text with
      | some r => pure (Word.switch text r)
      | none => pure (Word.plain text)
    return first :: (← c.words rest)

/-- Reports something joined to a switch that takes no value. -/
def refuseJoined {α : Type} (c : Command) (s : Switch) (value : String) : Run α :=
  c.refuse s!"argument {s.title}: ignored explicit argument {Text.quoted value}"

/-- The value that a switch gets from what is joined to it. Two dashes are no value. -/
def joinedValue (text : String) : Option String := if text = "--" then none else some text

/-- The switches that are run together in one argument, each with its value, and whether the last of them may
still take the next argument. What is joined to a short switch without a value is more short switches. -/
def cluster (c : Command) (s : Switch) (name : String) :
    List Char → Run (List (Switch × Option String) × Bool)
  | [] =>
    if s.value.isSome then return ([(s, some "")], false) else c.refuseJoined s ""
  | first :: rest => do
    let joined := String.ofList (first :: rest)
    if s.value.isSome then return ([(s, joinedValue joined)], false)
    if name.startsWith "--" then c.refuseJoined s joined
    let next := String.ofList ['-', first]
    match c.names.lookup next, rest with
    | none, _ => c.refuseJoined s joined
    | some t, [] => return ([(s, none), (t, none)], t.value.isSome)
    | some t, rest => do
      let (uses, takesMore) ← c.cluster t next rest
      return ((s, none) :: uses, takesMore)

/-- Takes note of a switch; the one for help ends the run. -/
def use (c : Command) (g : Given) (s : Switch) (value : Option String) : Run Given := do
  if s == helpSwitch then
    Session.write c.help
    throw (.exit 0)
  return { g with switches := g.switches ++ [(s.key, value)] }

def useAll (c : Command) (g : Given) : List (Switch × Option String) → Run Given
  | [] => return g
  | (s, value) :: rest => do
    let g ← c.use g s value
    c.useAll g rest

/-- The switches in one argument, as `cluster` gives them. -/
def switchesOf (c : Command) (r : Reading) (s : Switch) : Run (List (Switch × Option String) × Bool) :=
  match r.joined with
  | none => return ([(s, none)], s.value.isSome)
  | some text => c.cluster s r.name text.toList

/-- Puts a value to the last switch. -/
def giveLast (value : String) : List (Switch × Option String) → List (Switch × Option String)
  | [] => []
  | [(s, _)] => [(s, some value)]
  | use :: rest => use :: giveLast value rest

/-- Sorts words into switches, operands and extras. Two dashes next to an operand belong to it. -/
def sort (c : Command) (g : Given) : List Word → Run Given
  | [] => return g
  | .dashes :: .plain text :: rest =>
    if g.operands.length < c.operands.length then c.sort { g with operands := g.operands ++ [text] } rest
    else c.sort { g with extras := g.extras ++ ["--", text] } rest
  | .dashes :: rest => c.sort { g with extras := g.extras ++ ["--"] } rest
  | .plain text :: .dashes :: rest =>
    if g.operands.length < c.operands.length then c.sort { g with operands := g.operands ++ [text] } rest
    else c.sort { g with extras := g.extras ++ [text] } (.dashes :: rest)
  | .plain text :: rest =>
    if g.operands.length < c.operands.length then c.sort { g with operands := g.operands ++ [text] } rest
    else c.sort { g with extras := g.extras ++ [text] } rest
  | .switch text ⟨none, _, _⟩ :: rest => c.sort { g with extras := g.extras ++ [text] } rest
  | .switch _ r@⟨some s, _, _⟩ :: .plain value :: rest => do
    let (uses, takesMore) ← c.switchesOf r s
    if takesMore then
      let g ← c.useAll g (giveLast value uses)
      c.sort g rest
    else
      let g ← c.useAll g uses
      c.sort g (.plain value :: rest)
  | .switch _ r@⟨some s, _, _⟩ :: rest => do
    let (uses, _) ← c.switchesOf r s
    let g ← c.useAll g uses
    c.sort g rest
termination_by words => words.length
decreasing_by all_goals (simp only [List.length_cons]; omega)

/-- Sorts the arguments of a command. Every operand has to be there, and nothing may be left over. -/
def read (c : Command) (args : List String) : Run Given := do
  let words ← c.words args
  let g ← c.sort {} words
  let missing := (c.operands.drop g.operands.length).map Operand.name
  unless missing.isEmpty do
    c.refuse ("the following arguments are required: " ++ Text.joined ", " missing)
  unless g.extras.isEmpty do
    c.refuse ("unrecognized arguments: " ++ Text.joined " " g.extras)
  return g

end Command

end Labyrinth
