import Labyrinth.Lexing.Builder
import Labyrinth.Command.Build

/-!
# Lexers at hand

A workshop holds lexers by number. A copy of a lexer goes its own way but shares the stack of states.
-/

namespace Labyrinth.Lexing

/-- Lexers by number, each with the number of its stack. -/
structure Workshop where
  builder : Builder := {}
  specs : List Specification := []
  lexers : Array (Lexer × Nat) := #[]
  stateStacks : Array (List String) := #[]
  /-- The lexer that was built last. -/
  latest : Option Nat := none
deriving Inhabited

instance : HasSession Workshop :=
  ⟨fun w => w.builder.session, fun w s => { w with builder := { w.builder with session := s } }⟩

namespace Workshop

/-- The index of a lexer; lexers can be counted from the end too, and the last one is meant by default. -/
def index? (w : Workshop) (number : Option Int) : Option Nat :=
  Text.place? w.lexers.size (number.getD (-1))

def lexing? (w : Workshop) (index : Nat) : Option Scanning :=
  w.lexers[index]?.map fun (lexer, stack) => ⟨lexer, w.stateStacks.getD stack []⟩

def withLexer {α : Type} (number : Option Int) (act : Task Scanning α) : Task Workshop α := do
  let w ← get
  match w.index? number with
  | none => fail .indexOutOfRange
  | some index =>
    match w.lexers[index]? with
    | none => fail .indexOutOfRange
    | some (lexer, stack) =>
      let (result, after) := act.run ⟨lexer, w.stateStacks.getD stack []⟩
      set { w with
        lexers := w.lexers.setIfInBounds index (after.lexer, stack)
        stateStacks := w.stateStacks.setIfInBounds stack after.stack }
      match result with
      | .ok a => return a
      | .error stop => throw stop

/-- Does something with the builder of the workshop. -/
def withBuilder {α : Type} (act : Task Builder α) : Task Workshop α :=
  ExceptT.mk fun w =>
    let (result, builder) := act.run w.builder
    (result, { w with builder })

def spec (number : Nat) : Task Workshop Specification := do
  match (← get).specs[number]? with
  | some s => return s
  | none => fail .indexOutOfRange

def build (options : BuildOptions) (number : Nat) : Task Workshop Unit := do
  let s ← spec number
  let lexer ← withBuilder (Builder.build options s)
  modify fun w => { w with
    lexers := w.lexers.push (lexer, w.stateStacks.size)
    stateStacks := w.stateStacks.push []
    latest := some w.lexers.size }

/-- What a specification amounts to, and whether there is anything against it. -/
def reviewed (number : Nat) (flags : Int) (validate : Bool) : Task Workshop (Collected × Bool) := do
  let s ← spec number
  withBuilder do
    let (c, failed) ← Builder.review false (Collected.ofSpecification s (s.ruleTable true))
    if validate then
      let folder := (← get).session.folder
      let (_, failedToo) ← Builder.review false (c.check flags folder)
      return (c, failed || failedToo)
    return (c, failed)

/-- The rule of a name in another specification. -/
def rebound (rules : List (String × RuleBody)) (name : String) : Except Fault Handler :=
  match rules.lookup name with
  | some body => .ok (Handler.ofRule body)
  | none => .error (.noPart s!"'Spec' object has no attribute '{name}'")

/-- A group with its function taken from another specification. -/
def reboundGroup (rules : List (String × RuleBody)) : Option GroupRule → Except Fault (Option GroupRule)
  | none => .ok none
  | some g =>
    match g.handler with
    | .function f => (rebound rules f.name).map fun h => some { g with handler := h }
    | other => if other.isPresent then .error other.nameless else .ok (some g)

def reboundGroups (rules : List (String × RuleBody)) :
    List (Option GroupRule) → Except Fault (List (Option GroupRule))
  | [] => .ok []
  | g :: rest =>
    match reboundGroup rules g with
    | .error cause => .error cause
    | .ok g => (reboundGroups rules rest).map (g :: ·)

/-- The rules of a state with their functions taken from another specification. Only the last master pattern
of a state is kept. -/
def reboundRules (rules : List (String × RuleBody)) (last : List MasterRule) :
    List MasterRule → Except Fault (List MasterRule)
  | [] => .ok last
  | rule :: rest =>
    match reboundGroups rules rule.groups with
    | .error cause => .error cause
    | .ok groups => reboundRules rules [⟨rule.pattern, groups⟩] rest

/-- The rules of states with their functions taken from another specification. -/
def reboundStates (rules : List (String × RuleBody)) :
    List (String × List MasterRule) → Except Fault (List (String × List MasterRule))
  | [] => .ok []
  | (state, masters) :: rest =>
    match reboundRules rules [] masters with
    | .error cause => .error cause
    | .ok masters => (reboundStates rules rest).map ((state, masters) :: ·)

/-- Error functions taken from another specification. -/
def reboundErrors (rules : List (String × RuleBody)) :
    List (String × Handler) → Except Fault (List (String × Handler))
  | [] => .ok []
  | (state, handler) :: rest =>
    match handler.name? with
    | none => .error handler.nameless
    | some name =>
      match rebound rules name with
      | .error cause => .error cause
      | .ok h => (reboundErrors rules rest).map ((state, h) :: ·)

/-- Copies a lexer, with its functions taken from another specification if one is given. What applies at
present stays until the next change of state. -/
def clone (number : Option Int) (other : Option Nat) : Task Workshop Unit := do
  let w ← get
  match (w.index? number).bind fun index => w.lexers[index]? with
  | none => fail .indexOutOfRange
  | some (lexer, stack) =>
    let copy ← match other with
      | none => pure lexer
      | some other => do
        let rules := (← spec other).ruleTable true
        let states ← ofExcept (reboundStates rules lexer.rules)
        let errors ← ofExcept (reboundErrors rules lexer.errors)
        pure { lexer with rules := states, errors }
    modify fun w => { w with lexers := w.lexers.push (copy, stack) }

/-- Writes the table of a lexer; a table given as a whole is not overwritten. -/
def writeTable (number : Option Int) (name folder : String) (asModule : Bool) : Task Workshop Unit := do
  let lexer ← withLexer number (return (← get).lexer)
  if asModule then fail Builder.overwriteRefusal
  inSession (Builder.writeTable lexer name folder)

/-- Lists the tokens of a lexer, one a line, at most `fuel` of them. -/
def listTokens (number : Option Int) : Nat → Task Workshop Unit
  | 0 => fail .endless
  | fuel + 1 => do
    match ← withLexer number Lexer.token with
    | none => return
    | some token =>
      inSession (Session.writeLine token.listed)
      listTokens number fuel

/-- The text to list tokens of: the one given, or that of a file, or standard input. -/
def textFor (text : String) (args : List String) : Run String := do
  if !text.isEmpty then return text
  match args with
  | file :: _ => ofExcept ((← get).folder.readText file)
  | [] =>
    Session.writeLine "Reading from standard input (type EOF to end):"
    BuildPlan.takeInput

/-- Lists the tokens of a text, by a lexer or by the one that was built last. -/
def listText (number : Option Int) (useLatest : Bool) (text : String) (args : List String) :
    Task Workshop Unit := do
  let w ← get
  let number := if useLatest then w.latest.map Int.ofNat else number
  let _ ← withLexer number (return ())
  let text ← inSession (textFor text args)
  withLexer number (Lexer.input text)
  listTokens number Lexer.longestList

end Workshop

end Labyrinth.Lexing
