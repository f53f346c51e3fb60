import Labyrinth.Token.Scan
import Labyrinth.Text.Blank

/-!
# Cursors

A cursor hands out the tokens of a source one by one, remembers those it has handed out, and can go back.
Tokens are taken from the source only when they are first needed, and what the scanner has to say about a
token is reported at that moment. Comments and blank tokens are passed over.
-/

namespace Labyrinth

/-- What a source of tokens yields next. -/
inductive FeedItem where
  /-- A token, with the complaint about it and the file it is reported in. -/
  | token (t : Token) (complaint : Option (String × String))
  /-- The place where no token begins, and its line. -/
  | illegal (loc : Location) (line : String)
deriving Inhabited

inductive Feed where
  /-- A text that nobody has begun to scan. -/
  | unopened (text file : String)
  /-- What is still to come. -/
  | items (rest : List FeedItem)
deriving Inhabited

namespace Feed

def ofTokens (tokens : List Token) : Feed :=
  .items (tokens.map fun t => .token t none)

/-- What a scan of a file yields; a complete scan is followed by `last`. -/
def itemsOfScan (file : String) (scan : Scan) (last : List Token) : List FeedItem :=
  scan.steps.map (fun step => .token step.token (step.complaint.map fun c => (c, file))) ++
    match scan.finish with
    | .complete => last.map fun t => .token t none
    | .illegal line column text => [.illegal ⟨file, line, column, none, none⟩ text]

end Feed

/-- A place among the tokens of a source. -/
structure Cursor where
  session : Session := {}
  feed : Feed
  /-- The tokens taken from the source so far. -/
  tokens : Array Token := #[]
  /-- How many of them lie before the cursor. -/
  index : Nat := 0
  /-- Whether movements are printed. -/
  verbose : Bool := false
  /-- The file that lines are read from; the lines of the tokens themselves are kept if it is empty. -/
  path : String := ""
  /-- The first line text seen for each line number. -/
  lines : List (Int × String) := []
deriving Inhabited

instance : HasSession Cursor := ⟨Cursor.session, fun c s => { c with session := s }⟩

namespace Cursor

/-- Prints where the cursor stands. -/
def trace (known back : Bool) : Task Cursor Unit := do
  let c ← get
  let mark := if back then "-" else if known then ">" else "*"
  let fill := Text.repeated "-" c.index ++ mark
  if c.index = 0 then inSession (Session.writeLine s!"{fill} (Bof)")
  else
    let short ← ofExcept (c.tokens.getD (c.index - 1) default).shortSummary
    inSession (Session.writeLine s!"{fill} {short}")

/-- The number of the kind of line ends. -/
def newlineCode : Int := 4

/-- Whether a token is passed over: comments, empty lines, blank rests, and line ends after line ends. -/
def skips (tokens : Array Token) (t : Token) : Bool :=
  t.kind == .comment || t.kind == .foreign 62 ||
    (t.kind == .foreign 60 && Text.isBlankText t.text) ||
    (t.kind == .foreign newlineCode && (tokens.back?.any fun last => last.kind == .foreign newlineCode))

/-- Begins to scan a text: its lines become the lines of the session. -/
def openFeed : Task Cursor Unit := do
  match (← get).feed with
  | .items _ => pure ()
  | .unopened text file =>
    let text := Text.normalizeBreaks text
    let scan := Scan.ofNormalized text
    let lines := Text.splitLines text
    modify fun c => { c with
      feed := .items (Feed.itemsOfScan file scan [Scan.endToken lines])
      session := { c.session with lines } }

/-- Collects what the scanner has to say about a token. -/
def reportComplaint (t : Token) : Option (String × String) → Run Unit
  | some (message, file) => Session.report (t.loc file) Diagnostic.syntaxKind message (.line t.line)
  | none => pure ()

def reportIllegal {α : Type} (loc : Location) (line : String) : Run α :=
  Session.reportFatal loc Diagnostic.syntaxKind "illegal combination of characters" (.line line)

/-- Takes the first token that is not passed over. -/
def takeFrom : List FeedItem → Task Cursor Token
  | [] => do
    modify fun c => { c with feed := .items [] }
    fail .exhausted
  | .illegal loc line :: _ => do
    modify fun c => { c with feed := .items [] }
    inSession (reportIllegal loc line)
  | .token t complaint :: rest => do
    modify fun c => { c with feed := .items rest }
    inSession (reportComplaint t complaint)
    if skips (← get).tokens t then takeFrom rest
    else
      modify fun c => { c with
        tokens := c.tokens.push t
        lines :=
          if c.path.isEmpty && !(c.lines.any fun entry => entry.1 == t.start.1) then
            c.lines ++ [(t.start.1, t.line)]
          else c.lines }
      return t

def peek : Task Cursor Token := do
  let c ← get
  match c.tokens[c.index]? with
  | some t => return t
  | none =>
    openFeed
    match (← get).feed with
    | .items items => takeFrom items
    | .unopened _ _ => fail .exhausted

/-- The token at the cursor; the cursor moves past it. -/
def next : Task Cursor Token := do
  let known := (← get).index < (← get).tokens.size
  let t ← peek
  modify fun c => { c with index := c.index + 1 }
  if (← get).verbose then trace known false
  return t

/-- The last token taken from the source. -/
def lastTaken : Task Cursor Token := do
  if (← get).tokens.isEmpty then
    let _ ← next
  return (← get).tokens.back?.getD default

/-- Whether a token ends a search for the last token of weight: it is no end marker and no layout. -/
def hasWeight (t : Token) : Except Fault Bool :=
  match t.kind with
  | .endMarker => .ok false
  | .unknown => .error (.unordered "NoneType" "int")
  | kind => .ok (match kind.code? with
    | some code => code < 4 || code > 6
    | none => false)

/-- The last token of weight among the first `count`, looked for from the last one down; the first token if
none has weight. -/
def lastOfWeight (tokens : Array Token) (found : Option Token) : (count : Nat) → Except Fault (Option Token)
  | 0 => .ok found
  | i + 1 => do
    let t := tokens.getD i default
    if ← hasWeight t then return some t
    lastOfWeight tokens (some t) i

/-- The last token before the cursor that is neither an end marker nor layout. -/
def lastPassed : Task Cursor Token := do
  let c ← get
  match ← ofExcept (lastOfWeight c.tokens none c.index) with
  | some t => return t
  | none => fail (.unset "tok")

/-- Moves the cursor to a place among the tokens taken so far. -/
def reset (index : Int) : Task Cursor Unit := do
  let c ← get
  unless index = c.index do
    unless 0 ≤ index ∧ index ≤ c.tokens.size do
      fail (.assertion s!"({index}, {c.tokens.size})")
    set { c with index := index.toNat }
    if c.verbose then trace true (index < c.index)

/-- The lines with given numbers: those of the tokens taken, or else those of the file. -/
def linesAt (numbers : List Int) : Task Cursor (List String) := do
  let c ← get
  let lines ←
    if c.lines.isEmpty then do
      let text ← ofExcept (c.session.folder.readText c.path)
      pure ((Text.readLines text).zipIdx.map fun (line, i) => ((i : Int) + 1, line))
    else pure c.lines
  numbers.mapM fun n =>
    match lines.lookup n with
    | some line => pure line
    | none => fail (.missingKey (toString n))

/-- Takes all tokens, passing over none of them, up to the end or to an illegal character. -/
def drain : List FeedItem → Task Cursor Unit
  | [] => modify fun c => { c with feed := .items [] }
  | .illegal loc line :: _ => do
    modify fun c => { c with feed := .items [] }
    inSession (reportIllegal loc line)
  | .token t complaint :: rest => do
    inSession (reportComplaint t complaint)
    modify fun c => { c with tokens := c.tokens.push t }
    drain rest

/-- Takes all tokens of the source, comments included. -/
def takeAll : Task Cursor Unit := do
  openFeed
  match (← get).feed with
  | .items items => drain items
  | .unopened _ _ => pure ()

end Cursor

end Labyrinth
