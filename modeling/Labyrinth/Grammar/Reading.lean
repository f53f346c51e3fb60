import Labyrinth.Grammar.Build

/-!
# Reading by the grammar

A call of a rule tries the rule's alternatives at the cursor. Results are remembered by place, so that a rule
is carried out once at each place. A rule that begins with itself is grown from a seed: it first fails, and is
then tried again with its last result in memory as long as it gets further.
-/

namespace Labyrinth

namespace Parser

open Grammar

/-- Takes the token at the cursor if it passes a test. -/
def takeIf (test : Token → Bool) : Task Parser Parsed := do
  let t ← peek
  if test t then return .token (← next) else return .nothing

/-- Whether a token is of the kind that a spelling or a constant's name stands for. -/
def matchesText (text : String) (t : Token) : Bool :=
  t.text == text ||
    (match TokenKind.spellings.lookup text with
      | some code => t.kind.code? == some (code : Int)
      | none => false) ||
    (match TokenKind.codeNamed? text with
      | some code => t.kind.code? == some code
      | none => false)

/-- Whether a token passes a token rule. -/
def matchesRule (p : Parser) (r : TokenRule) (t : Token) : Bool :=
  match r with
  | .name => t.kind == .name && !p.reserved.contains t.text
  | .number => t.kind == .number
  | .string => t.kind == .foreign 3
  | .fstringStart | .fstringMiddle | .fstringEnd => t.kind == .unknown
  | .op => t.kind == .op
  | .typeComment => t.kind == .foreign 58
  | .softKeyword => t.kind == .name && p.softReserved.contains t.text

/-- Carries the steps of an alternative out. Yields what they kept, unless one failed, and whether the
alternative was settled on. -/
def runSteps (again : Call → Task Parser Parsed) (kept : List Parsed) (settled : Bool) :
    List Step → Task Parser (Option (List Parsed) × Bool)
  | [] => return (some kept.reverse, settled)
  | .cut :: rest => runSteps again kept true rest
  | .need c :: rest => do
    let result ← again c
    if result.succeeds then runSteps again kept settled rest else return (none, settled)
  | .keep c :: rest => do
    let result ← again c
    if result.succeeds then runSteps again (result :: kept) settled rest else return (none, settled)
  | .opt c :: rest => do
    let _ ← again c
    runSteps again kept settled rest
  | .keepOpt c :: rest => do
    let result ← again c
    runSteps again (result :: kept) settled rest
  | .ahead c :: rest => do
    let place ← mark
    let result ← again c
    reset place
    if result.succeeds then runSteps again kept settled rest else return (none, settled)

/-- The span from a start to the end of the last token of weight that was passed. -/
def spanFrom (start : Int × Int) : Task Parser Span := do
  return ⟨start, (← inCursor Cursor.lastPassed).stop, false⟩

def runChoice (again : Call → Task Parser Parsed) (place : Nat) (start : Int × Int) :
    List Alternative → Task Parser Parsed
  | [] => return .nothing
  | alternative :: rest => do
    if alternative.invalid && !(← get).complaining then runChoice again place start rest
    else
      match ← runSteps again [] false alternative.steps with
      | (some kept, _) =>
        if alternative.invalid then return .nothing
        else if alternative.action.located then perform alternative.action (← spanFrom start) kept
        else perform alternative.action default kept
      | (none, settled) =>
        reset place
        if settled then return .nothing else runChoice again place start rest

/-- Repeats steps that keep one result as long as they succeed. -/
def runRounds (again : Call → Task Parser Parsed) (steps : List Step) :
    (fuel : Nat) → List Parsed → Task Parser Parsed
  | 0, _ => fail .tooDeep
  | fuel + 1, done => do
    let place ← mark
    match ← runSteps again [] false steps with
    | (some [result], _) => runRounds again steps fuel (result :: done)
    | _ =>
      reset place
      return .list done.reverse

def runBody (again : Call → Task Parser Parsed) (fuel : Nat) (body : Body) : Task Parser Parsed := do
  let place ← mark
  match body with
  | .choice alternatives =>
    let start ← if body.located then (do return (← peek).start) else pure (0, 0)
    runChoice again place start alternatives
  | .rounds steps => runRounds again steps fuel []
  | .gather first others =>
    let item ← again (.rule first)
    if item.isNothing then
      reset place
      return .nothing
    let rest ← again (.rule others)
    if rest.isNothing then
      reset place
      return .nothing
    return .list (item :: rest.items)

/-- Carries a call out without looking at the memory. -/
def runCall (again : Call → Task Parser Parsed) (fuel : Nat) : Call → Task Parser Parsed
  | .rule r => runBody again fuel r.body
  | .token r => do
    let p ← get
    takeIf (matchesRule p r)
  | .keyword k => takeIf fun t => t.kind == .keyword k
  | .expect text => takeIf (matchesText text)

def remember (place : Nat) (c : Call) (result : Parsed) (stop : Nat) : Task Parser Unit :=
  modify fun p => { p with memory := p.memory.insert (place, c) (result, stop) }

/-- Changes the depth of the printed rules. -/
def deepen (change : Nat → Nat) : Task Parser Unit :=
  modify fun p => { p with level := change p.level }

/-- A call whose result is looked up or remembered. -/
def remembered (c : Call) (body : Task Parser Parsed) : Task Parser Parsed := do
  let verbose := (← get).verbose
  let level := (← get).level
  let place ← mark
  let (name, args) := c.label
  match (← get).memory[(place, c)]? with
  | some (result, stop) =>
    if verbose then traceAt level s!"{name}({args}) -> {← shownResult result}"
    reset stop
    return result
  | none =>
    if verbose then traceAt level s!"{name}({args}) ... (looking at {← lookingAt})"
    deepen (· + 1)
    let result ← body
    deepen (· - 1)
    if verbose then traceAt level s!"... {name}({args}) -> {← shownResult result}"
    remember place c result (← mark)
    return result

/-- A call whose result is not remembered. -/
def forgotten (c : Call) (body : Task Parser Parsed) : Task Parser Parsed := do
  if !(← get).verbose then body
  else
    let level := (← get).level
    let (name, args) := c.label
    traceAt level s!"{name}({args}) .... (looking at {← lookingAt})"
    deepen (· + 1)
    let result ← body
    deepen (· - 1)
    traceAt level s!"... {name}({args}) --> {← shownResult result}"
    return result

/-- Tries a rule again and again at a place, as long as it gets further than its last result. -/
def grow (c : Call) (body : Task Parser Parsed) (verbose : Bool) (level place : Nat) :
    (fuel : Nat) → (depth : Nat) → Parsed × Nat → Task Parser (Parsed × Nat)
  | 0, _, _ => fail .tooDeep
  | fuel + 1, depth, (last, lastStop) => do
    let name := c.label.1
    reset place
    let result ← body
    let stop ← mark
    let depth := depth + 1
    if verbose then
      traceAt level s!"Recursive {name} at {place} depth {depth}: {← shownResult result} to {stop}"
    if !result.succeeds then
      if verbose then traceAt level s!"Fail with {← shownResult last} to {lastStop}"
      return (last, lastStop)
    else if stop ≤ lastStop then
      if verbose then traceAt level s!"Bailing with {← shownResult last} to {lastStop}"
      return (last, lastStop)
    else
      remember place c result stop
      grow c body verbose level place fuel depth (result, stop)

/-- A call of a rule that begins with itself. -/
def grown (fuel : Nat) (c : Call) (body : Task Parser Parsed) : Task Parser Parsed := do
  let verbose := (← get).verbose
  let level := (← get).level
  let place ← mark
  let name := c.label.1
  match (← get).memory[(place, c)]? with
  | some (result, stop) =>
    if verbose then traceAt level s!"{name}() -> {← shownResult result} [fresh]"
    reset stop
    return result
  | none =>
    if verbose then traceAt level s!"{name} ... (looking at {← lookingAt})"
    deepen (· + 1)
    remember place c .nothing place
    if verbose then traceAt level s!"Recursive {name} at {place} depth 0"
    let (result, stop) ← grow c body verbose level place fuel 0 (.nothing, place)
    reset stop
    deepen (· - 1)
    if verbose then traceAt level s!"{name}() -> {← shownResult result} [cached]"
    let stop := if result.succeeds then stop else place
    reset stop
    remember place c result stop
    return result

/-- Carries a call out at the cursor. The fuel bounds how deep calls nest. -/
def call : (fuel : Nat) → Call → Task Parser Parsed
  | 0, _ => fail .tooDeep
  | fuel + 1, c =>
    let body := runCall (call fuel) fuel c
    match c with
    | .rule r => match r.memory with
      | .remembered => remembered c body
      | .grown => grown fuel c body
      | .forgotten => forgotten c body
    | _ => remembered c body

/-- How many tokens a source can still yield, at most. -/
def tokenBound (p : Parser) : Nat :=
  p.cursor.tokens.size + match p.cursor.feed with
    | .unopened text _ => text.length + 1
    | .items rest => rest.length

/-- How deep calls can nest: the grammar has fewer than 64 rules between two tokens. -/
def fuelFor (p : Parser) : Nat :=
  64 * (p.tokenBound + 4)

/-- Carries a call out at the cursor. -/
def read (c : Call) : Task Parser Parsed := do
  call (fuelFor (← get)) c

/-- Carries a call out and goes back to where it began. -/
def lookAhead (c : Call) : Task Parser Parsed := do
  let place ← mark
  let result ← read c
  reset place
  return result

/-- A refusal of the text: what is wrong, and where the last token taken stands. -/
structure Refusal where
  message : String
  file : String
  line : Int
  /-- The column, counted from one. -/
  column : Int
  /-- The line of the token. -/
  text : String
deriving DecidableEq, Repr, Inhabited

/-- The refusal of the text at the last token taken. -/
def refusal (message : String) (file : String := "<unknown>") : Task Parser Refusal := do
  let last ← inCursor Cursor.lastTaken
  return ⟨message, file, last.start.1, last.start.2 + 1, last.line⟩

/-- A result that has to be there; otherwise the text is refused. -/
def demand (result : Parsed) (what : String) : Task Parser Parsed := do
  if result.isNothing then
    let r ← refusal s!"expected {what}"
    fail (.refused s!"{r.message} ({r.file}, line {r.line})")
  return result

/-- Reads by a rule. If that fails, the text is read once more with the alternatives that complain; if those
are silent too, the last token taken is blamed. -/
def parse (c : Call) : Task Parser Parsed := do
  modify fun p => { p with complaining := false }
  let result ← read c
  if !result.isNothing then return result
  modify fun p => { p with complaining := true }
  reset 0
  modify fun p => { p with memory := {} }
  let result ← read c
  if !result.isNothing then return result
  let last ← inCursor Cursor.lastTaken
  inSession (Session.writeLine s!"DEBUG: last_token = {← ofExcept last.showRecord}")
  inSession (Session.reportFatal (last.loc (← get).file) Diagnostic.syntaxKind "invalid syntax"
    (.line last.line))

end Parser

namespace Program

/-- The tree of a text. Whatever was reported on the way is printed and ends the run. -/
def ofText (text : String) (file : String := "<unknown>") : Run (Program Sign) := ExceptT.mk fun session =>
  let (result, parser) := (Parser.parse (.rule .start)).run (Parser.ofText session text file)
  let session := parser.cursor.session
  match result with
  | .error stop => (.error stop, session)
  | .ok result =>
    let finish : Run (Program Sign) := do
      Session.reportCollected
      match result with
      | .program p => return p.mapSign parser.signOf
      | _ => fail (.assertion "unreachable")
    finish.run session

end Program

end Labyrinth
