import Labyrinth.Lexing.Log
import Labyrinth.Lexing.Matching
import Labyrinth.Lexing.Specification

/-!
# Review of specifications

What a specification amounts to, and everything that is to be said against it. Rules are sorted by state:
functions by the lines they are defined on, patterns by decreasing length.
-/

namespace Labyrinth.Lexing

/-- Something said about a specification. -/
structure Complaint where
  /-- Whether no lexer can be built. -/
  isError : Bool
  message : String
deriving DecidableEq, Repr, Inhabited

namespace Complaint

def line (c : Complaint) : String :=
  LogLevel.line (if c.isError then .error else .warning) c.message

end Complaint

/-- A review collects complaints, also when it breaks off. -/
abbrev Review := ExceptT Fault (StateM (List Complaint))

namespace Review

/-- Complains about something that keeps a lexer from being built. -/
def error (message : String) : Review Unit := modify fun cs => cs ++ [⟨true, message⟩]

/-- Warns of something. -/
def warn (message : String) : Review Unit := modify fun cs => cs ++ [⟨false, message⟩]

end Review

/-- The state that a lexer starts in. -/
def initial : String := "INITIAL"

/-- A state that lacks the rules of the initial state. -/
def exclusive : String := "exclusive"

/-- A state that has the rules of the initial state after its own. -/
def inclusive : String := "inclusive"

/-- What a specification amounts to. -/
structure Collected where
  tokens : Plain := .list []
  literals : Plain := .text ""
  /-- The kinds of the states, in order. -/
  states : List (String × String) := [(initial, inclusive)]
  /-- The tokens that rules stand for. -/
  tokenNames : List (String × String) := []
  functions : List (String × List (String × RuleFunction)) := []
  texts : List (String × List (String × String)) := []
  /-- The characters that are skipped, by state. -/
  ignore : List (String × String) := []
  /-- The functions for characters that no rule matches, by state. -/
  errors : List (String × RuleFunction) := []
  /-- The functions for the end of the text, by state. -/
  ends : List (String × RuleFunction) := []
deriving Inhabited

/-- The states that a rule belongs to and the token it stands for, by its name. The name goes through states,
or through a word for all of them, up to the first part that is no state. -/
def stateToken (name : String) (states : List String) : Except Fault (List String × String) :=
  match name.splitOn "_" with
  | [] => .error (.unset "i")
  | [_] => .error (.unset "i")
  | _ :: parts =>
    let known := (parts.takeWhile fun part => states.contains part || part == "ANY").length
    let count := min known (parts.length - 1)
    let own := if count = 0 then [initial] else parts.take count
    let own := if own.contains "ANY" then states else own
    .ok (own, Text.joined "_" (parts.drop count))

namespace Collected

def tokenList (c : Collected) : List Plain := c.tokens.items?.getD []

def withTokens (c : Collected) (tokens : Plain) : Review Collected := do
  if !tokens.holds then
    Review.error "No token list is defined"
    return c
  if tokens.items?.isNone then
    Review.error "tokens must be a list or tuple"
    return c
  return { c with tokens }

def withLiterals (c : Collected) (literals : Plain) : Collected :=
  { c with literals := if literals.holds then literals else .text "" }

def withState (c : Collected) (state : Plain) : Review Collected := do
  match state with
  | .tuple [name, kind] =>
    match name with
    | .text name =>
      if kind.text? != some inclusive && kind.text? != some exclusive then
        Review.error s!"State type for state {name} must be 'inclusive' or 'exclusive'"
        return c
      if (c.states.lookup name).isSome then
        Review.error s!"State '{name}' already defined"
        return c
      return { c with states := c.states ++ [(name, kind.printed)] }
    | other =>
      Review.error s!"State name {other.shown} must be a string"
      return c
  | other =>
    Review.error s!"Invalid state specifier {other.shown}. Must be a tuple (statename,'exclusive|inclusive')"
    return c

def withStateList (c : Collected) : List Plain → Review Collected
  | [] => return c
  | state :: rest => do
    let c ← c.withState state
    c.withStateList rest

def withStates (c : Collected) (states : Plain) : Review Collected := do
  if !states.holds then return c
  match states.items? with
  | none =>
    Review.error "states must be defined as a tuple or list"
    return c
  | some items => c.withStateList items

/-- Sets a value for several states. -/
def setAll {α : Type} (value : α) (states : List String) (entries : List (String × α)) : List (String × α) :=
  states.foldl (fun entries state => setEntry state value entries) entries

/-- Adds a rule to several states. -/
def addAll {α : Type} (rule : String × α) (states : List String)
    (entries : List (String × List (String × α))) : List (String × List (String × α)) :=
  states.foldl (fun entries state => updateEntry state (fun rules => rules ++ [rule]) entries) entries

def withRule (c : Collected) (name : String) (body : RuleBody) : Review Collected := do
  let (states, token) ← liftExcept (stateToken name (c.states.map Prod.fst))
  let c := { c with tokenNames := setEntry name token c.tokenNames }
  match body with
  | .function f =>
    match token with
    | "error" => return { c with errors := setAll f states c.errors }
    | "eof" => return { c with ends := setAll f states c.ends }
    | "ignore" =>
      Review.error s!"{f.place}: Rule '{f.name}' must be defined as a string"
      return c
    | _ => return { c with functions := addAll (name, f) states c.functions }
  | .text pattern =>
    match token with
    | "ignore" =>
      if pattern.toList.contains '\\' then
        Review.warn (name ++ " contains a literal backslash '\\'")
      return { c with ignore := setAll pattern states c.ignore }
    | "error" =>
      Review.error s!"Rule '{name}' must be defined as a function"
      return c
    | _ => return { c with texts := addAll (name, pattern) states c.texts }
  | .other _ _ =>
    Review.error s!"{name} not defined as a function or string"
    return c
where
  liftExcept {α : Type} : Except Fault α → Review α
    | .ok a => pure a
    | .error e => throw e

def withRuleList (c : Collected) : List (String × RuleBody) → Review Collected
  | [] => return c
  | (name, body) :: rest => do
    let c ← c.withRule name body
    c.withRuleList rest

/-- Functions in the order of their lines, and patterns with longer ones first. -/
def sorted (c : Collected) : Collected :=
  { c with
    functions := c.functions.map fun (state, rules) =>
      (state, rules.mergeSort fun a b => a.2.line ≤ b.2.line)
    texts := c.texts.map fun (state, rules) =>
      (state, rules.mergeSort fun a b => a.2.length ≥ b.2.length) }

/-- Takes over the rules, which are the entries whose names begin as rules do. -/
def withRules (c : Collected) (rules : List (String × RuleBody)) : Review Collected := do
  let rules := rules.filter fun rule => rule.1.startsWith "t_"
  let empty := c.states.map fun (state, _) => state
  let c := { c with functions := empty.map fun s => (s, []), texts := empty.map fun s => (s, []) }
  if rules.isEmpty then
    Review.error "No rules of the form t_rulename are defined"
    return c
  let c ← c.withRuleList rules
  return c.sorted

def ofSpecification (s : Specification) (rules : List (String × RuleBody)) : Review Collected := do
  let c ← ({} : Collected).withTokens s.tokens
  let c := c.withLiterals s.literals
  let c ← c.withStates s.states
  c.withRules rules

/-- Whether a text is made of letters of the Latin alphabet, digits and underscores. A line feed may follow. -/
def isTokenName (name : String) : Bool :=
  let chars := name.toList
  let chars := if chars.getLast? = some '\n' then chars.dropLast else chars
  !chars.isEmpty && chars.all fun c => c.isAlphanum || c == '_'

/-- Checks the names of tokens, of which those in `seen` came before. -/
def checkTokens (seen : List String) : List Plain → Review Unit
  | [] => return
  | .text name :: rest => do
    unless isTokenName name do Review.error s!"Bad token name '{name}'"
    if seen.contains name then Review.warn s!"Token '{name}' multiply defined"
    checkTokens (name :: seen) rest
  | other :: _ => throw (.wrongKind s!"expected string or bytes-like object, got '{other.kind}'")

def checkLiteralItems : List Plain → Review Unit
  | [] => return
  | item :: rest => do
    let fits : Bool := match item with
      | .text s => s.length ≤ 1
      | _ => false
    unless fits do Review.error s!"Invalid literal {item.shown}. Must be a single character"
    checkLiteralItems rest

def checkLiterals (literals : Plain) : Review Unit :=
  match literals with
  | .text _ => return
  | .table names _ => checkLiteralItems (names.map Plain.text)
  | other =>
    match other.items? with
    | some items => checkLiteralItems items
    | none =>
      Review.error "Invalid literals specification. literals must be a sequence of characters"

/-- The expression for a rule: its pattern as a group with the name of the rule. -/
def expression (name pattern : String) : String := s!"(?P<{name}>{pattern})"

/-- Checks the number of parameters of a rule function. -/
def checkParams (f : RuleFunction) : Review Bool := do
  if f.params > f.needed then
    Review.error s!"{f.place}: Rule '{f.name}' has too many arguments"
    return false
  if f.params < f.needed then
    Review.error s!"{f.place}: Rule '{f.name}' requires an argument"
    return false
  return true

/-- Whether the patterns of rules are in the spaced notation. -/
def isSpaced (flags : Int) : Bool := (flags / 64) % 2 = 1

/-- Checks the pattern of a rule; complaints begin with `title`, and the advice on number signs with `hint`. -/
def checkPattern (flags : Int) (name pattern title hint : String) : Review Unit := do
  let text := expression name pattern
  match Pattern.ofText text (isSpaced flags) with
  | .ok (p, _) =>
    if p.matchesEmpty then
      Review.error s!"{title}Regular expression for rule '{name}' matches empty string"
  | .error e =>
    Review.error s!"{title}Invalid regular expression for rule '{name}'. {e.shown text}"
    if pattern.toList.contains '#' then
      Review.error (hint ++ s!"Make sure '#' in rule '{name}' is escaped with " ++ "'\\#'")

def checkFunctions (flags : Int) : List (String × RuleFunction) → Review Unit
  | [] => return
  | (name, f) :: rest => do
    if ← checkParams f then
      match f.pattern with
      | some pattern =>
        if pattern.isEmpty then
          Review.error s!"{f.place}: No regular expression defined for rule '{f.name}'"
        else checkPattern flags name pattern s!"{f.place}: " s!"{f.place}. "
      | none => Review.error s!"{f.place}: No regular expression defined for rule '{f.name}'"
    checkFunctions flags rest

/-- Checks the rules of a state that are patterns alone. -/
def checkTexts (c : Collected) (flags : Int) : List (String × String) → Review Unit
  | [] => return
  | (name, pattern) :: rest => do
    let token := (c.tokenNames.lookup name).getD ""
    let listed := c.tokenList.any fun t => t.text? == some token
    if !listed && (token.splitOn "ignore_").length < 2 then
      Review.error s!"Rule '{name}' defined for an unspecified token {token}"
    else checkPattern flags name pattern "" ""
    c.checkTexts flags rest

def checkStates (c : Collected) (flags : Int) : List String → Review Unit
  | [] => return
  | state :: rest => do
    let functions := (c.functions.lookup state).getD []
    let texts := (c.texts.lookup state).getD []
    checkFunctions flags functions
    c.checkTexts flags texts
    if functions.isEmpty && texts.isEmpty then Review.error s!"No rules defined for state '{state}'"
    if let some f := c.errors.lookup state then
      let _ ← checkParams f
    c.checkStates flags rest

/-- What follows blanks at the start of a line. -/
def skipBlanks (line : List Char) : List Char := line.dropWhile Text.isBlank

/-- A rule name at the start of a text, and what follows it. -/
def ruleName? (chars : List Char) : Option (String × List Char) :=
  match chars with
  | 't' :: '_' :: rest =>
    let name := rest.takeWhile fun c => c.isAlphanum || c == '_'
    some ("t_" ++ String.ofList name, rest.drop name.length)
  | _ => none

/-- The rule that a line of source defines, as a function or by an assignment. -/
def definedRule? (line : List Char) : Option String :=
  let start := skipBlanks line
  let asFunction := match Text.afterStart? "def".toList start with
    | some (c :: rest) =>
      if Text.isBlank c then
        match ruleName? (skipBlanks rest) with
        | some (name, '(' :: _) => some name
        | _ => none
      else none
    | _ => none
  let asText := match ruleName? start with
    | some (name, rest) =>
      match skipBlanks rest with
      | '=' :: _ => some name
      | _ => none
    | none => none
  asFunction.or asText

/-- Looks for rules that are defined twice in the lines of a source, from a line number on. -/
def checkSource (first : List (String × Nat)) : Nat → List String → Review Unit
  | _, [] => return
  | number, line :: rest => do
    match definedRule? line.toList with
    | none => checkSource first (number + 1) rest
    | some name =>
      match first.lookup name with
      | none => checkSource ((name, number) :: first) (number + 1) rest
      | some before =>
        Review.error s!"{ruleFile}:{number}: Rule {name} redefined. Previously defined on line {before}"
        checkSource first (number + 1) rest

/-- The lines of a source. A mark of byte order at its start does not count. -/
def sourceLines (text : String) : List String :=
  let text := match text.toList with
    | '\ufeff' :: rest => String.ofList rest
    | _ => text
  Text.readLines (Text.normalizeBreaks text)

/-- Checks all there is to check. The source of the rule functions is checked if there are any and it can be
found. -/
def check (c : Collected) (flags : Int) (folder : Folder) : Review Unit := do
  checkTokens [] c.tokenList
  checkLiterals c.literals
  c.checkStates flags (c.states.map Prod.fst)
  let hasFunctions := c.states.any fun (state, _) =>
    !((c.functions.lookup state).getD []).isEmpty || (c.errors.lookup state).isSome
  if hasFunctions then
    if let some text := folder.file? ruleFile then
      checkSource [] 1 (sourceLines text)

end Collected

end Labyrinth.Lexing
