import Labyrinth.Lexing.Matching
import Labyrinth.Lexing.Specification
import Labyrinth.Radix
import Labyrinth.Text.Upper
import Labyrinth.Token.Word

/-!
# Lexers

A lexer has the rules of its states, is in one of them, and stands somewhere in a text. `Lexer.token` gives the
next token. The stack of states is kept apart from the lexer, because lexers can share one.
-/

namespace Labyrinth.Lexing

structure LexToken where
  type : String
  /-- The text of the token, or the number made of it. -/
  value : Plain
  line : Int
  position : Int
  /-- What is wrong with the token, if it had to be mended. -/
  complaint : Option String := none
deriving Inhabited

namespace LexToken

/-- A token as it is listed. -/
def listed (t : LexToken) : String := s!"({t.type},{t.value.shown},{t.line},{t.position})"

/-- A token as it is shown. -/
def shown (t : LexToken) : String := "LexToken" ++ t.listed

end LexToken

/-- What is called for a match. -/
inductive Handler where
  | none
  | function (f : RuleFunction)
  /-- Something that cannot be called: the name of its kind, and whether it counts as true. -/
  | thing (kind : String) (holds : Bool)
deriving DecidableEq, Repr, Inhabited

namespace Handler

/-- What a rule is when it is called. -/
def ofRule : RuleBody → Handler
  | .function f => function f
  | .text pattern => thing "str" (!pattern.isEmpty)
  | .other kind holds => thing kind holds

/-- Whether there is anything to call. -/
def isPresent : Handler → Bool
  | none => false
  | function _ => true
  | thing _ holds => holds

/-- The name of the kind of what is called. -/
def kind : Handler → String
  | none => "NoneType"
  | function _ => "function"
  | thing kind _ => kind

/-- The fault of asking something without a name for its name. -/
def nameless (h : Handler) : Fault := .noPart s!"'{h.kind}' object has no attribute '__name__'"

/-- The name of what is called. -/
def name? : Handler → Option String
  | function f => some f.name
  | _ => Option.none

end Handler

/-- What is done when a group is the last one closed by a match: a call, and the type of the token. -/
structure GroupRule where
  handler : Handler
  type : Option String
deriving DecidableEq, Repr, Inhabited

/-- A pattern made of the patterns of several rules, with the rules of its groups by number. -/
structure MasterRule where
  pattern : Pattern
  groups : List (Option GroupRule)
deriving Inhabited

/-- What applies in a state. -/
structure StateRules where
  rules : List MasterRule := []
  ignore : String := ""
  error : Handler := .none
  atEnd : Handler := .none
deriving Inhabited

structure Lexer where
  tokens : List String := []
  /-- The characters that are tokens by themselves: a text of them, or a table with their names. -/
  literals : Plain := .text ""
  stateKinds : List (String × String) := []
  rules : List (String × List MasterRule) := []
  texts : List (String × List String) := []
  /-- The names of the rules of the groups by state; unknown for a lexer made from a table. -/
  names : List (String × List (List (Option String))) := []
  ignore : List (String × String) := []
  errors : List (String × Handler) := []
  ends : List (String × Handler) := []
  flags : Int := 0
  /-- Whether the types of tokens are taken on trust. -/
  optimized : Bool := false
  state : String := "INITIAL"
  /-- What applies at present. -/
  current : StateRules := {}
  text : Option String := none
  position : Int := 0
  line : Int := 1
  /-- Whether a rule has already gone on with another text. -/
  moreUsed : Bool := false
deriving Inhabited

/-- A lexer at work, with its stack of states. -/
structure Scanning where
  lexer : Lexer
  stack : List String
deriving Inhabited

namespace Lexer

def change (f : Lexer → Lexer) : Task Scanning Unit :=
  modify fun s => { s with lexer := f s.lexer }

/-- The lexer in a state, if it has that state. -/
def inState? (lexer : Lexer) (state : String) : Option Lexer :=
  (lexer.rules.lookup state).map fun rules =>
    { lexer with
      state
      current :=
        { rules
          ignore := (lexer.ignore.lookup state).getD ""
          error := (lexer.errors.lookup state).getD .none
          atEnd := (lexer.ends.lookup state).getD .none } }

def enter (state : String) : Task Scanning Unit := do
  match (← get).lexer.inState? state with
  | some lexer => modify fun s => { s with lexer }
  | none => fail (.badValue "Undefined state")

/-- Enters a state and keeps the present one on the stack. -/
def push (state : String) : Task Scanning Unit := do
  modify fun s => { s with stack := s.stack ++ [s.lexer.state] }
  enter state

/-- Goes back to the state on top of the stack. -/
def pop : Task Scanning Unit := do
  match (← get).stack.getLast? with
  | none => fail .emptyStack
  | some state =>
    modify fun s => { s with stack := s.stack.dropLast }
    enter state

def skip (count : Int) : Task Scanning Unit :=
  change fun lexer => { lexer with position := lexer.position + count }

/-- Starts on a text. -/
def input (text : String) : Task Scanning Unit :=
  change fun lexer => { lexer with text := some text, position := 0 }

/-- Starts on a value, which has to be a text. -/
def inputValue (value : Plain) : Task Scanning Unit :=
  match value with
  | .text s => input s
  | .list _ => fail (.badValue "Expected a string")
  | .tuple _ => fail (.badValue "Expected a string")
  | .table _ _ => fail (.wrongKind "unhashable type: 'slice'")
  | other => fail (.wrongKind s!"'{other.kind}' object is not subscriptable")

/-- The text of a value that has to be a text; otherwise what it lacks is reported. -/
def textOf (value : Plain) (part : String) : Task Scanning String :=
  match value with
  | .text s => return s
  | other => fail (.noPart s!"'{other.kind}' object has no attribute '{part}'")

/-- The number that a value stands for. -/
def numberOf (value : Plain) : Task Scanning Int :=
  match value with
  | .int n => return n
  | .text s => ofExcept (Radix.readDecimal s)
  | other => fail (.wrongKind
      s!"int() argument must be a string, a bytes-like object or a real number, not '{other.kind}'")

/-- The first character of a value, as a text; an empty text has none and stays empty. -/
def firstOf (value : Plain) : Task Scanning String :=
  match value with
  | .text s => return Text.firstChars 1 s
  | other => fail (.wrongKind s!"'{other.kind}' object is not subscriptable")

/-- Carries out the actions of a rule function; `again` gives the next token after a text was begun. -/
def perform (again : Task Scanning (Option LexToken)) (token : LexToken) :
    List RuleAction → Task Scanning (Option LexToken)
  | [] => return some token
  | action :: rest => do
    match action with
    | .drop => return none
    | .more text =>
      if (← get).lexer.moreUsed then return none
      change fun lexer => { lexer with moreUsed := true }
      input text
      again
    | .setType type => perform again { token with type } rest
    | .toInt => perform again { token with value := .int (← numberOf token.value) } rest
    | .toUpper =>
      perform again { token with value := .text (Text.upper (← textOf token.value "upper")) } rest
    | .keepFirst => perform again { token with value := .text (← firstOf token.value) } rest
    | .countLines =>
      let text ← textOf token.value "count"
      let count := (text.toList.filter (· == '\n')).length
      change fun lexer => { lexer with line := lexer.line + count }
      perform again token rest
    | .skip count =>
      skip count
      perform again token rest
    | .enter state =>
      enter state
      perform again token rest
    | .push state =>
      push state
      perform again token rest
    | .pop =>
      pop
      perform again token rest
    | .typeFrom types otherwise =>
      let type := match token.value with
        | .text s => (types.lookup s).getD otherwise
        | _ => otherwise
      perform again { token with type } rest
    | .mend =>
      let (kind, complaint) := Word.mend (← textOf token.value "startswith").toList
      perform again { token with type := kind.name?.getD "", complaint := some complaint } rest
    | .reread state =>
      enter state
      let text := (← get).lexer.text.getD ""
      input text
      let lines := (text.toList.take token.position.toNat).count '\n'
      change fun lexer => { lexer with position := token.position, line := 1 + lines }
      again
    | .refuse => throw (.exit 1)

def call (again : Task Scanning (Option LexToken)) (handler : Handler) (token : LexToken) :
    Task Scanning (Option LexToken) :=
  match handler with
  | .function f =>
    match f.callFault? with
    | some cause => fail cause
    | none => perform again token f.actions
  | other => fail (.wrongKind s!"'{other.kind}' object is not callable")

/-- The first rule that matches at a place, and where its match ends. -/
def firstMatch? (p : MatchPoint) : List MasterRule → Option (MasterRule × MatchPoint)
  | [] => none
  | rule :: rest =>
    match rule.pattern.matchFrom? p with
    | some q => some (rule, q)
    | none => firstMatch? p rest

/-- The place in a text that a position stands for. A position before the text is at its start. -/
def pointAt (chars : Array Char) (position : Int) : MatchPoint :=
  let index := position.toNat
  ⟨if index = 0 then none else chars[index - 1]?, chars.toList.drop index, none⟩

/-- What a rule says about the group that a match closed last. -/
def groupRule (rule : MasterRule) (lastGroup : Option Nat) : Task Scanning GroupRule :=
  match lastGroup with
  | none => fail (.wrongKind "list indices must be integers or slices, not NoneType")
  | some index =>
    match rule.groups[index]? with
    | none => fail .indexOutOfRange
    | some none => fail (.wrongKind "cannot unpack non-iterable NoneType object")
    | some (some group) => return group

def literalNames (lexer : Lexer) : List String :=
  match lexer.literals with
  | .table names _ => names
  | other => other.printed.toList.map fun c => String.ofList [c]

/-- Whether a type belongs to a token or a literal of the lexer. -/
def knowsType (lexer : Lexer) (type : String) : Bool :=
  lexer.tokens.contains type || lexer.literalNames.contains type

/-- The complaint about a token of a type that the lexer does not know. -/
def unknownType (handler : Handler) (type : String) : Fault :=
  match handler with
  | .function f => .scanning s!"{f.place}: Rule '{f.name}' returned an unknown token type '{type}'"
  | _ => .scanning s!"Rule returned an unknown token type '{type}'"

/-- What comes of one place in the text: a token, or a place to go on from with the characters to skip. -/
inductive Progress where
  | found (token : LexToken)
  | onward (position : Int) (ignore : String)
deriving Inhabited

def handleMatch (again : Task Scanning (Option LexToken)) (chars : Array Char) (ignore : String)
    (position : Int) (rule : MasterRule) (q : MatchPoint) : Task Scanning Progress := do
  let start := position.toNat
  let stop := chars.size - q.rest.length
  let group ← groupRule rule q.lastGroup
  let value := String.ofList (chars.extract start stop).toList
  let token : LexToken := ⟨group.type.getD "", .text value, (← get).lexer.line, position, none⟩
  if group.handler.isPresent then
    change fun lexer => { lexer with position := stop }
    match ← call again group.handler token with
    | none =>
      let lexer := (← get).lexer
      return .onward lexer.position lexer.current.ignore
    | some token =>
      let lexer := (← get).lexer
      if !lexer.optimized && !lexer.knowsType token.type then fail (unknownType group.handler token.type)
      return .found token
  else if token.type.isEmpty then return .onward stop ignore
  else
    change fun lexer => { lexer with position := stop }
    return .found token

def handleMismatch (again : Task Scanning (Option LexToken)) (ignore : String) (position : Int) (c : Char) :
    Task Scanning Progress := do
  let lexer := (← get).lexer
  let single := String.ofList [c]
  if lexer.literalNames.contains single then
    change fun lexer => { lexer with position := position + 1 }
    return .found ⟨single, .text single, lexer.line, position, none⟩
  change fun lexer => { lexer with position }
  if lexer.current.error.isPresent then
    let rest := Text.slice (lexer.text.getD "") position none
    let token ← call again lexer.current.error ⟨"error", .text rest, lexer.line, position, none⟩
    let after := (← get).lexer.position
    if after = position then fail (.scanning s!"Scanning error. Illegal character '{c}'")
    match token with
    | some token => return .found token
    | none => return .onward after ignore
  fail (.scanning s!"Illegal character '{c}' at index {position}")

def handleEnd (again : Task Scanning (Option LexToken)) (position : Int) : Task Scanning (Option LexToken) := do
  let lexer := (← get).lexer
  if lexer.current.atEnd.isPresent then
    change fun lexer => { lexer with position }
    call again lexer.current.atEnd ⟨"eof", .text "", lexer.line, position, none⟩
  else
    change fun lexer => { lexer with position := position + 1 }
    if lexer.text.isNone then fail (.noInput "No input string given with input()")
    return none

/-- Handles a place in the text: the first rule that matches there decides, or the lack of one. -/
def progressAt (again : Task Scanning (Option LexToken)) (chars : Array Char) (ignore : String) (position : Int)
    (c : Char) : Task Scanning Progress := do
  match firstMatch? (pointAt chars position) (← get).lexer.current.rules with
  | some (rule, q) => handleMatch again chars ignore position rule q
  | none => handleMismatch again ignore position c

/-- Looks for the next token from a place on, at no more than `fuel` places. -/
def scan (again : Task Scanning (Option LexToken)) (chars : Array Char) :
    Nat → String → Int → Task Scanning (Option LexToken)
  | 0, _, _ => fail .endless
  | fuel + 1, ignore, position => do
    if position < chars.size then
      match Text.item? chars position with
      | none => fail .charOutOfRange
      | some c =>
        if ignore.toList.contains c then scan again chars fuel ignore (position + 1)
        else
          match ← progressAt again chars ignore position c with
          | .found token => return some token
          | .onward position ignore => scan again chars fuel ignore position
    else handleEnd again position

/-- Looks for the next token of the present text. -/
def scanText (again : Task Scanning (Option LexToken)) : Task Scanning (Option LexToken) := do
  let lexer := (← get).lexer
  let chars := (lexer.text.getD "").toList.toArray
  if lexer.text.isNone && lexer.position < 0 then
    fail (.wrongKind "'NoneType' object is not subscriptable")
  scan again chars (1000 * (chars.size + 8)) lexer.current.ignore lexer.position

/-- The next token. A rule can go on with another text once, so that no rule does while that text is read. -/
def token : Task Scanning (Option LexToken) := scanText (scanText (return none))

/-- The next token, of which there has to be one. -/
def next : Task Scanning LexToken := do
  match ← token with
  | some t => return t
  | none => fail .exhausted

/-- All tokens up to the end, at most `fuel` of them. -/
def collect : Nat → Array LexToken → Task Scanning (List LexToken)
  | 0, _ => fail .endless
  | fuel + 1, done => do
    match ← token with
    | some t => collect fuel (done.push t)
    | none => return done.toList

/-- The longest list of tokens that is collected. -/
def longestList : Nat := 1000000

def all : Task Scanning (List LexToken) := collect longestList #[]

end Lexer

end Labyrinth.Lexing
