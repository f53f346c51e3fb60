import Labyrinth.Grammar.ResultTable
import Labyrinth.Token.Cursor

/-!
# The parser's state

A parser has a cursor over the tokens, a memory of the results of rules by place, and the signs of the
literals read so far.
-/

namespace Labyrinth

structure Parser where
  cursor : Cursor
  /-- The file that reports name. -/
  file : String
  /-- Whether the rules that are tried are printed. -/
  verbose : Bool := false
  /-- How deep the printed rules are nested. -/
  level : Nat := 0
  /-- Whether the alternatives that only complain are tried. -/
  complaining : Bool := false
  /-- The results of calls, with the places where they ended. -/
  memory : ResultTable := {}
  /-- The signs of the literals read so far. -/
  signs : Array Sign := #[]
  /-- Names that are not taken for names. -/
  reserved : List String := []
  /-- Names that are keywords in some places. -/
  softReserved : List String := []
deriving Inhabited

instance : HasSession Parser :=
  ⟨fun p => p.cursor.session, fun p s => { p with cursor := { p.cursor with session := s } }⟩

namespace Parser

/-- Runs a computation on the cursor of a parser. -/
def inCursor {α : Type} (act : Task Cursor α) : Task Parser α :=
  ExceptT.mk fun p =>
    let (result, cursor) := act.run p.cursor
    (result, { p with cursor })

def peek : Task Parser Token := inCursor Cursor.peek

def next : Task Parser Token := inCursor Cursor.next

/-- Where the cursor stands. -/
def mark : Task Parser Nat := do return (← get).cursor.index

def reset (index : Int) : Task Parser Unit := inCursor (Cursor.reset index)

/-- The sign of a literal as far as it is known. -/
def signOf (p : Parser) (ref : SignRef) : Sign :=
  p.signs.getD ref .unsigned

def newSign (sign : Sign) : Task Parser SignRef := do
  let ref := (← get).signs.size
  modify fun p => { p with signs := p.signs.push sign }
  return ref

def setSign (ref : SignRef) (sign : Sign) : Task Parser Unit :=
  modify fun p => { p with signs := p.signs.setIfInBounds ref sign }

/-- Prints a line, indented by the depth of the rules. -/
def traceAt (level : Nat) (line : String) : Task Parser Unit :=
  inSession (Session.writeLine (Text.repeated "  " level ++ line))

/-- The first characters of the text of a result. -/
def shownResult (result : Parsed) : Task Parser String := do
  let p ← get
  let shape ← ofExcept (result.writableShape p.signOf Parsed.tokenRecord)
  return Text.firstChars 200 shape.record

/-- The summary of the token at the cursor. -/
def lookingAt : Task Parser String := do
  ofExcept (← peek).summary

/-- Reports something about a stretch of the text. The line comes along or is taken from the lines of the
text opened last. -/
def reportBetween (message : String) (start stop : Int × Int) (line : Option String := none)
    (fatal : Bool := false) : Task Parser Unit := do
  let p ← get
  let loc := (Span.mk start stop false).loc p.file
  let line ← match line with
    | some line => pure line
    | none => match Text.item? p.cursor.session.lines (start.1 - 1) with
      | some line => pure line
      | none => fail .indexOutOfRange
  if fatal then inSession (Session.reportFatal loc Diagnostic.syntaxKind message (.line line))
  else inSession (Session.report loc Diagnostic.syntaxKind message (.line line))

def reportSpan (message : String) (span : Span) (fatal : Bool := false) : Task Parser Unit :=
  reportBetween message span.start span.stop none fatal

/-- Reports something about the last token taken. -/
def reportLast (message : String) (fatal : Bool := false) : Task Parser Unit := do
  let last ← inCursor Cursor.lastTaken
  reportBetween message last.start last.stop none fatal

/-- Reports something about the stretch from a result to the last token taken. -/
def reportFrom (message : String) (first : Parsed) (fatal : Bool := false) : Task Parser Unit := do
  let span ← ofExcept first.spanOf
  let last ← inCursor Cursor.lastTaken
  reportBetween message span.start last.start none fatal

def ofText (session : Session) (text file : String) : Parser :=
  { cursor := { session, feed := .unopened text file, path := file }, file }

end Parser

end Labyrinth
