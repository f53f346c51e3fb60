import Labyrinth.Lexing.Table

/-!
# Building lexers

A lexer is built from what a specification amounts to. The patterns of the rules of a state are put together to
one master pattern; if that cannot be read, its rules are divided in two halves with a master pattern each.
-/

namespace Labyrinth.Lexing

/-- The master patterns of a state: rules, texts, and the names of the rules of the groups. -/
structure Masters where
  rules : List MasterRule := []
  texts : List String := []
  names : List (List (Option String)) := []
deriving Inhabited

namespace Masters

def append (a b : Masters) : Masters := ⟨a.rules ++ b.rules, a.texts ++ b.texts, a.names ++ b.names⟩

/-- What a group of a given name stands for, if it is a rule. -/
def groupRule? (c : Collected) (rules : List (String × RuleBody)) (name : String) : Option GroupRule :=
  let token := c.tokenNames.lookup name
  match rules.lookup name with
  | some (.function f) => some ⟨.function f, token⟩
  | some _ =>
    some ⟨.none, if (name.splitOn "ignore_").length > 1 then none else token⟩
  | none => none

def single (c : Collected) (rules : List (String × RuleBody)) (flags : Int) (text : String) :
    Option Masters :=
  match Pattern.ofText text (Collected.isSpaced flags) with
  | .error _ => none
  | .ok (pattern, groups) =>
    let size := (groups.names.map Prod.snd).foldl max 0 + 1
    let nameAt (index : Nat) : Option String :=
      (groups.names.find? fun entry => entry.2 == index).map Prod.fst
    let indices := List.range size
    let ruleAt (index : Nat) := (nameAt index).bind (groupRule? c rules)
    let known (index : Nat) := (nameAt index).filter fun name => (groupRule? c rules name).isSome
    some ⟨[⟨pattern, indices.map ruleAt⟩], [text], [indices.map known]⟩

def ofExpressions (c : Collected) (rules : List (String × RuleBody)) (flags : Int) :
    Nat → List String → Except Fault Masters
  | 0, _ => .error .tooDeep
  | _, [] => .error (.badValue "not enough values to unpack (expected 3, got 0)")
  | fuel + 1, expressions =>
    match single c rules flags (Text.joined "|" expressions) with
    | some masters => .ok masters
    | none =>
      let half := max 1 (expressions.length / 2)
      match ofExpressions c rules flags fuel (expressions.take half) with
      | .error cause => .error cause
      | .ok left => (ofExpressions c rules flags fuel (expressions.drop half)).map left.append

end Masters

/-- The name of a table, or a table given as a whole. -/
inductive TableSource where
  | named (name : String)
  | given (name : String) (version : Plain)
deriving Inhabited

/-- How a lexer is built. -/
structure BuildOptions where
  debug : Bool := false
  /-- Whether the specification is taken on trust and a table is used. -/
  optimize : Bool := false
  flags : Int := 64
  outputFolder : Option String := none
  table : TableSource := .named "lextab"
  /-- Whether complaints are dropped. -/
  quiet : Bool := false
  /-- Whether rules are seen in the order of their names. -/
  sorted : Bool := true
deriving Inhabited

/-- Lexers being built: the tables that were read count until they are written again. -/
structure Builder where
  session : Session := {}
  imported : List (String × Table) := []
deriving Inhabited

instance : HasSession Builder := ⟨Builder.session, fun b s => { b with session := s }⟩

namespace Builder

def log (quiet : Bool) (complaints : List Complaint) : Task Builder Unit :=
  if quiet then return
  else inSession (Session.writeError (Text.joined "" (complaints.map Complaint.line)))

/-- Logs a line for those who look for mistakes. -/
def trace (options : BuildOptions) (line : String) : Task Builder Unit := do
  if options.debug then inSession (Session.writeError (line ++ "\n"))

def traceAll (options : BuildOptions) : List String → Task Builder Unit
  | [] => return
  | line :: rest => do
    trace options line
    traceAll options rest

/-- Makes a review, logs what it complains about, and tells whether there was an error. -/
def review {α : Type} (quiet : Bool) (act : Review α) : Task Builder (α × Bool) := do
  let (result, complaints) := act.run.run []
  log quiet complaints
  match result with
  | .ok a => return (a, complaints.any Complaint.isError)
  | .error cause => fail cause

def tablePath (name : String) : String := Text.joined "/" (name.splitOn ".") ++ ".py"

/-- What is wrong with the name of a table as the name of a module: a part of it is missing or has a sign that
names do not have, or begins as a number and goes on as a name. -/
def nameFault? (name : String) : Option Fault :=
  let parts := (Text.strip name).splitOn "."
  let isSign (c : Char) := "-/+*%^&|~<>=@:!$?".toList.contains c
  let isMixed (part : String) :=
    match part.toList.dropWhile Char.isDigit with
    | c :: _ => (part.toList.head?.any Char.isDigit) && (c.isAlpha || c == '_')
    | [] => false
  if parts.any isMixed then some (.refused "invalid decimal literal (<string>, line 1)")
  else if parts.any fun part => part.isEmpty || part.toList.any isSign || part.toList.all Char.isDigit then
    some (.refused "invalid syntax (<string>, line 1)")
  else none

def findTable? (name : String) : Task Builder (Option Table) := do
  if let some cause := nameFault? name then fail cause
  let b ← get
  match b.imported.lookup name with
  | some table => return some table
  | none =>
    match b.session.folder.file? (tablePath name) with
    | none => return none
    | some text =>
      let table := Table.read text
      modify fun b => { b with imported := setEntry name table b.imported }
      return some table

/-- The lexer of a table, if there is a current table. -/
def fromTable? (source : TableSource) (rules : List (String × RuleBody)) : Task Builder (Option Lexer) := do
  let (name, table) : String × Option Table ← match source with
    | .given name version => pure (name, some [(Table.versionKey, version)])
    | .named name => do pure (name, ← findTable? name)
  match table with
  | none => return none
  | some (table : Table) =>
    if table.isCurrent then some <$> ofExcept (table.lexer name rules) else return none

/-- The literals put together; a table of them stays a table. -/
def joinedLiterals (literals : Plain) : Except Fault Plain :=
  match literals with
  | .text s => .ok (.text s)
  | .table names values => .ok (.table names values)
  | other =>
    match other.items? with
    | none => .error (.wrongKind s!"'{other.kind}' object is not iterable")
    | some items =>
      match items.head? with
      | some (.text _) =>
        match (List.range items.length).zip items |>.find? fun item => item.2.text?.isNone with
        | some (i, item) => .error (.wrongKind s!"sequence item {i}: expected str instance, {item.kind} found")
        | none => .ok (.text (Text.joined "" (items.filterMap Plain.text?)))
      | some item => .error (.noPart s!"'{item.kind}' object has no attribute 'join'")
      | none => .ok (.text "")

/-- The expressions of a state: those of functions first. A function without a pattern gets the word for
nothing. -/
def expressions (c : Collected) (state : String) : List (String × String) :=
  ((c.functions.lookup state).getD []).map (fun (name, f) => (name, f.pattern.getD "None")) ++
    (c.texts.lookup state).getD []

/-- The lines that tell of the rules added to a state. -/
def ruleLines (c : Collected) (state : String) : List String :=
  (expressions c state).map fun (name, pattern) => s!"lex: Adding rule {name} -> '{pattern}' (state '{state}')"

def masters (options : BuildOptions) (c : Collected) (rules : List (String × RuleBody)) :
    List String → Task Builder (List (String × Masters))
  | [] => return []
  | state :: rest => do
    let texts := (expressions c state).map fun (name, pattern) => Collected.expression name pattern
    let m ← ofExcept (Masters.ofExpressions c rules options.flags (texts.length + 2) texts)
    traceAll options (((List.range m.texts.length).zip m.texts).map fun (i, text) =>
      s!"lex: state '{state}' : regex[{i}] = '{text}'")
    return (state, m) :: (← masters options c rules rest)

/-- Adds the master patterns of the initial state to those of the states that include them. -/
def withInitial (kinds : List (String × String)) (all : List (String × Masters)) : List (String × Masters) :=
  let first := (all.lookup initial).getD {}
  all.map fun (state, m) =>
    (state, if state != initial && kinds.lookup state == some inclusive then m.append first else m)

/-- The functions for errors and the characters to skip, with those of the initial state where an inclusive
state has none of its own, and what is missing otherwise. -/
def settle (skipped : Bool) : List (String × String) →
    List (String × Handler) × List (String × String) →
    (List (String × Handler) × List (String × String)) × List Complaint
  | [], tables => (tables, [])
  | (state, kind) :: rest, (errors, ignore) =>
    let hasError := (errors.lookup state).isSome
    let hasIgnore := (ignore.lookup state).isSome
    if kind == exclusive then
      let (tables, complaints) := settle skipped rest (errors, ignore)
      let noError : List Complaint :=
        if hasError then [] else [⟨false, s!"No error rule is defined for exclusive state '{state}'"⟩]
      let noIgnore : List Complaint :=
        if !hasIgnore && skipped then [⟨false, s!"No ignore rule is defined for exclusive state '{state}'"⟩]
        else []
      (tables, noError ++ noIgnore ++ complaints)
    else
      let errors := if hasError then errors else setEntry state ((errors.lookup initial).getD .none) errors
      let ignore := if hasIgnore then ignore else setEntry state ((ignore.lookup initial).getD "") ignore
      settle skipped rest (errors, ignore)

def fromRules (options : BuildOptions) (c : Collected) (rules : List (String × RuleBody)) :
    Task Builder Lexer := do
  trace options s!"lex: tokens   = {c.tokens.shown}"
  trace options s!"lex: literals = {c.literals.shown}"
  trace options s!"lex: states   = {(Table.ofEntries Plain.text c.states).shown}"
  if let some kind := Plain.unhashable? c.tokens.items?.toList.flatten then
    fail (.wrongKind s!"unhashable type: '{kind}'")
  let literals ← ofExcept (joinedLiterals c.literals)
  let states := c.states.map Prod.fst
  traceAll options (states.flatMap (ruleLines c))
  trace options "lex: ==== MASTER REGEXS FOLLOW ===="
  let all := withInitial c.states (← masters options c rules states)
  let errors := c.errors.map fun (state, f) => (state, Handler.function f)
  let ends := c.ends.map fun (state, f) => (state, Handler.function f)
  let start : StateRules :=
    { rules := ((all.lookup initial).getD {}).rules
      ignore := (c.ignore.lookup initial).getD ""
      error := (errors.lookup initial).getD .none
      atEnd := (ends.lookup initial).getD .none }
  unless start.error.isPresent do log options.quiet [⟨false, "No t_error rule is defined"⟩]
  let ((errors, ignore), complaints) := settle (!start.ignore.isEmpty) c.states (errors, c.ignore)
  log options.quiet complaints
  let tokens := c.tokenList.filterMap Plain.text?
  return {
    tokens := tokens.foldl (fun seen name => if seen.contains name then seen else seen ++ [name]) []
    literals
    stateKinds := c.states
    rules := all.map fun (state, m) => (state, m.rules)
    texts := all.map fun (state, m) => (state, m.texts)
    names := all.map fun (state, m) => (state, m.names)
    ignore, errors, ends
    flags := options.flags
    optimized := options.optimize
    current := start }

def pathIn (folder name : String) : String :=
  if folder.isEmpty || folder.endsWith "/" then folder ++ name else folder ++ "/" ++ name

/-- Writes the table of a lexer under the last part of a name. What was written before something went wrong
stays. -/
def writeTable (lexer : Lexer) (name folder : String) : Run Unit := do
  let base := (name.splitOn ".").getLastD ""
  let (text, cause) := Table.write lexer base
  let files ← ofExcept ((← get).folder.write (pathIn folder (base ++ ".py")) text)
  modify fun s => { s with folder := files }
  match cause with
  | some cause => fail cause
  | none => return

/-- The first package on the way to a package that is not there. -/
def missingPackage? (folder : Folder) (done : List String) : List String → Option String
  | [] => none
  | part :: rest =>
    let path := Text.joined "/" (done ++ [part])
    let found := folder.entry path == .directory || (folder.file? (path ++ ".py")).isSome
    if found then missingPackage? folder (done ++ [part]) rest
    else some (Text.joined "." (done ++ [part]))

/-- The folder of a package: its own if it has a file of its own there. -/
def packageFolder (folder : Folder) (parts : List String) : String :=
  let path := Text.joined "/" parts
  if (folder.file? (path ++ "/__init__.py")).isSome then path
  else if (folder.file? (path ++ ".py")).isSome then Text.joined "/" parts.dropLast
  else ""

/-- The folder that a table goes to if none is given. -/
def tableFolder (name : String) : Task Builder String := do
  let parts := (name.splitOn ".").dropLast
  if parts.isEmpty then return ""
  let folder := (← get).session.folder
  match missingPackage? folder [] parts with
  | some missing => fail (.noModule missing)
  | none => return packageFolder folder parts

/-- Warns that a table could not be written. The warning is a format without values. -/
def warnOf (options : BuildOptions) (shownName : String) (cause : Fault) : Task Builder Unit := do
  unless options.quiet do
    let message := s!"Couldn't write lextab module {shownName}. {cause.message}"
    log false [⟨false, ← ofExcept (Plain.format message [])⟩]

/-- Saves the table of a lexer, or warns that this is not possible. -/
def saveTable (options : BuildOptions) (lexer : Lexer) (name : String) : Task Builder Unit := do
  let folder ← match options.outputFolder with
    | some folder => pure folder
    | none => tableFolder name
  let (result, session) := (writeTable lexer name folder).run (← get).session
  modify fun b => { b with session }
  match result with
  | .ok _ => modify fun b => { b with imported := b.imported.filter fun entry => entry.1 != name }
  | .error (.fault cause) =>
    if cause.isFileTrouble then warnOf options (Text.quoted name) cause else fail cause
  | .error stop => throw stop

/-- The refusal to write over a table that is given as a whole. -/
def overwriteRefusal : Fault := .refusedWrite "Won't overwrite existing lextab module"

/-- Saves the table of a lexer if a table is wanted. A table given as a whole is not overwritten. -/
def saveTo (options : BuildOptions) (lexer : Lexer) : TableSource → Task Builder Unit
  | .named name => do
    unless name.isEmpty do saveTable options lexer name
  | .given name _ =>
    let file := name ++ ".py"
    warnOf options s!"<module {Text.quoted name} from {Text.quoted file}>" overwriteRefusal

/-- The table that is meant: one in the package of the specification if it is given by a simple name. -/
def tableFor (options : BuildOptions) (s : Specification) : TableSource :=
  match options.table with
  | .named name =>
    if !s.package.isEmpty && !name.toList.contains '.' then .named (s.package ++ "." ++ name) else .named name
  | given => given

/-- Whether a table is meant at all. -/
def wanted : TableSource → Bool
  | .named name => !name.isEmpty
  | .given _ _ => true

def build (options : BuildOptions) (s : Specification) : Task Builder Lexer := do
  let rules := s.ruleTable options.sorted
  let table := tableFor options s
  let (c, failed) ← review options.quiet (Collected.ofSpecification s rules)
  unless options.optimize do
    let folder := (← get).session.folder
    let (_, failedToo) ← review options.quiet (c.check options.flags folder)
    if failed || failedToo then fail (.refused "Can't build lexer")
  if options.optimize && wanted table then
    if let some lexer ← fromTable? table rules then return lexer
  let lexer ← fromRules options c rules
  if options.optimize then saveTo options lexer table
  return lexer

end Builder

end Labyrinth.Lexing
