import Labyrinth.Lexing.Lexer
import Labyrinth.Lexing.Review
import Labyrinth.Plain.Reader

/-!
# Tables of lexers

A table is a file that holds all that a lexer was built from, so that it need not be built again. Rule functions
are kept by name and looked up again in the specification that the table is read for.
-/

namespace Labyrinth.Lexing

abbrev Table := List (String × Plain)

/-- The version that a table has to have. -/
def tableVersion : String := "3.10"

namespace Table

/-- The names of the entries. -/
def versionKey : String := "_tabversion"

/-- An entry as a line of a file, with the name padded to a common width. -/
def entryLine (name written : String) : String := Text.padRight 14 name ++ "= " ++ written ++ "\n"

/-- Entries by name as a plain value. -/
def ofEntries {α : Type} (value : α → Plain) (entries : List (String × α)) : Plain :=
  .table (entries.map Prod.fst) (entries.map fun entry => value entry.2)

def ofOption : Option String → Plain
  | some s => .text s
  | none => .nothing

/-- What a group stands for, with the name of the rule in place of its function. -/
def ofGroup (name : Option String) : Option GroupRule → Plain
  | none => .nothing
  | some g =>
    if g.handler.isPresent then .tuple [ofOption name, ofOption g.type] else .tuple [.nothing, ofOption g.type]

/-- The rules of a state as far as their texts and names are known. -/
def ofRules (rules : List MasterRule) (texts : List String) (names : List (List (Option String))) : Plain :=
  .list (((rules.zip texts).zip names).map fun ((rule, text), names) =>
    .tuple [.text text, .list ((names.zip rule.groups).map fun (name, group) => ofGroup name group)])

/-- The rules of states; fails for a state whose names are not known. -/
def ofStates (lexer : Lexer) : List (String × List MasterRule) → Except Fault (List (String × Plain))
  | [] => .ok []
  | (state, rules) :: rest =>
    match lexer.texts.lookup state, lexer.names.lookup state with
    | some texts, some names => (ofStates lexer rest).map ((state, ofRules rules texts names) :: ·)
    | _, _ => .error (.missingKey (Text.quoted state))

/-- The text of the table of a lexer, or the beginning of it and what keeps the rest from being written. -/
def write (lexer : Lexer) (name : String) : String × Option Fault :=
  let tokens := (lexer.tokens.mergeSort fun a b => a ≤ b).map Plain.text
  let head :=
    s!"# {name}.py. This file automatically created by PLY (version 3.11). Don't edit!\n" ++
    entryLine versionKey (Text.quoted tableVersion) ++
    entryLine "_lextokens" ("set(" ++ (Plain.tuple tokens).shown ++ ")") ++
    entryLine "_lexreflags" (toString lexer.flags) ++
    entryLine "_lexliterals" lexer.literals.shown ++
    entryLine "_lexstateinfo" (ofEntries Plain.text lexer.stateKinds).shown
  match ofStates lexer lexer.rules with
  | .error cause => (head, some cause)
  | .ok states =>
    let handlers := ofEntries fun h : Handler => ofOption h.name?
    let nameless (entries : List (String × Handler)) : Option Fault :=
      (entries.find? fun entry => entry.2.isPresent && entry.2.name?.isNone).map fun entry => entry.2.nameless
    let text := head ++ entryLine "_lexstatere" (ofEntries id states).shown ++
      entryLine "_lexstateignore " (ofEntries Plain.text lexer.ignore).shown
    match nameless lexer.errors, nameless lexer.ends with
    | some cause, _ => (text, some cause)
    | none, some cause => (text ++ entryLine "_lexstateerrorf " (handlers lexer.errors).shown, some cause)
    | none, none =>
      (text ++ entryLine "_lexstateerrorf " (handlers lexer.errors).shown ++
        entryLine "_lexstateeoff " (handlers lexer.ends).shown, none)

/-- The entry that a line of a file sets, if it sets one. -/
def entry? (line : String) : Option (String × Plain) :=
  let chars := line.toList
  let name := chars.takeWhile (· ≠ '=')
  match chars.drop name.length with
  | [] => none
  | _ :: written =>
    let written := Text.strip (String.ofList written)
    let written := match Text.afterStart? "set(".toList written.toList with
      | some inner => String.ofList inner.dropLast
      | none => written
    (Plain.ofText? written).map fun value => (Text.strip (String.ofList name), value)

/-- The entries of a file, the last one first, because a later entry counts in place of an earlier one. -/
def read (text : String) : Table :=
  ((Text.splitLines text).toList.filterMap entry?).reverse

/-- The entry of a table that is called a module. -/
def get (table : Table) (module name : String) : Except Fault Plain :=
  match table.lookup name with
  | some value => .ok value
  | none => .error (.noPart s!"module '{module}' has no attribute '{name}'")

/-- The rule that a name stands for in a specification. -/
def handlerOf (rules : List (String × RuleBody)) (name : Plain) : Except Fault Handler :=
  match name with
  | .text s =>
    match rules.lookup s with
    | some body => .ok (Handler.ofRule body)
    | none => .error (.missingKey (Text.quoted s))
  | other => .error (.missingKey other.shown)

def groupOf (rules : List (String × RuleBody)) : Plain → Except Fault (Option GroupRule)
  | .tuple [name, type] =>
    if name.holds then (handlerOf rules name).map fun h => some ⟨h, type.text?⟩
    else .ok (some ⟨.none, type.text?⟩)
  | _ => .ok none

def groupsOf (rules : List (String × RuleBody)) : List Plain → Except Fault (List (Option GroupRule))
  | [] => .ok []
  | group :: rest =>
    match groupOf rules group with
    | .error cause => .error cause
    | .ok g => (groupsOf rules rest).map (g :: ·)

def rulesOf (flags : Int) (rules : List (String × RuleBody)) : List Plain → Except Fault (List MasterRule)
  | [] => .ok []
  | .tuple [.text text, .list groups] :: rest =>
    match Pattern.ofText text (Collected.isSpaced flags), groupsOf rules groups with
    | .error e, _ => .error (.badValue (e.shown text))
    | _, .error cause => .error cause
    | .ok (pattern, _), .ok groups => (rulesOf flags rules rest).map (⟨pattern, groups⟩ :: ·)
  | _ :: _ => .error (.badValue "not enough values to unpack")

/-- The entries of a plain value that holds entries. -/
def entriesOf : Plain → List (String × Plain)
  | .table names values => names.zip values
  | _ => []

/-- Entries with each value made from the plain one. -/
def mapEntries {α : Type} (value : Plain → Except Fault α) :
    List (String × Plain) → Except Fault (List (String × α))
  | [] => .ok []
  | (name, v) :: rest =>
    match value v with
    | .error cause => .error cause
    | .ok a => (mapEntries value rest).map ((name, a) :: ·)

/-- Whether a table has the version it has to have. -/
def isCurrent (table : Table) : Bool :=
  ((table.lookup versionKey).bind Plain.text?) == some tableVersion

def lexer (table : Table) (module : String) (rules : List (String × RuleBody)) : Except Fault Lexer := do
  let tokens ← table.get module "_lextokens"
  let flags ← table.get module "_lexreflags"
  let literals ← table.get module "_lexliterals"
  let kinds ← table.get module "_lexstateinfo"
  let ignore ← table.get module "_lexstateignore"
  let states ← table.get module "_lexstatere"
  let flags := match flags with
    | .int n => n
    | _ => 0
  let states ← mapEntries (fun v => rulesOf flags rules (v.items?.getD [])) (entriesOf states)
  let errors ← mapEntries (handlerOf rules) (entriesOf (← table.get module "_lexstateerrorf"))
  let ends ← mapEntries (handlerOf rules) (entriesOf (← table.get module "_lexstateeoff"))
  let lexer : Lexer :=
    { tokens := (tokens.items?.getD []).filterMap Plain.text?
      literals
      stateKinds := (entriesOf kinds).map fun (name, kind) => (name, kind.printed)
      rules := states
      texts := states.map fun (name, _) => (name, [])
      ignore := (entriesOf ignore).map fun (name, chars) => (name, chars.printed)
      errors, ends, flags
      optimized := true }
  match lexer.inState? initial with
  | some lexer => .ok lexer
  | none => .error (.badValue "Undefined state")

end Table

end Labyrinth.Lexing
