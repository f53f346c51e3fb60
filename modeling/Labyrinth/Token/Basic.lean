import Labyrinth.Session
import Labyrinth.Token.Keyword

/-!
# Tokens

A token is a stretch of a source line with a kind. Kinds have numbers and names; besides the kinds that the
language uses there are others that a token may carry when it comes from elsewhere.
-/

namespace Labyrinth

inductive TokenKind where
  | endMarker
  | name
  | number
  | op
  | comment
  | keyword (k : Keyword)
  /-- A kind that the language does not use, by its number. -/
  | foreign (code : Int)
  /-- No kind at all. -/
  | unknown
deriving DecidableEq, Repr, Inhabited

namespace TokenKind

/-- The number of the first keyword. -/
def firstKeyword : Nat := 64

/-- The number past the last kind. -/
def codeLimit : Nat := 80

def code? : TokenKind → Option Int
  | endMarker => some 0
  | name => some 1
  | number => some 2
  | op => some 54
  | comment => some 61
  | keyword k => some (firstKeyword + k.index)
  | foreign code => some code
  | unknown => none

def ofCode (code : Int) : TokenKind :=
  if code = 0 then endMarker
  else if code = 1 then name
  else if code = 2 then number
  else if code = 54 then op
  else if code = 61 then comment
  else match Keyword.ofIndex? (code - firstKeyword).toNat with
    | some k => if code ≥ firstKeyword then keyword k else foreign code
    | none => foreign code

/-- The names of the kinds below the keywords, by number. -/
def codeNames : Array String := #[
  "ENDMARKER", "NAME", "NUMBER", "STRING", "NEWLINE", "INDENT", "DEDENT", "LPAR", "RPAR", "LSQB", "RSQB",
  "COLON", "COMMA", "SEMI", "PLUS", "MINUS", "STAR", "SLASH", "VBAR", "AMPER", "LESS", "GREATER", "EQUAL",
  "DOT", "PERCENT", "LBRACE", "RBRACE", "EQEQUAL", "NOTEQUAL", "LESSEQUAL", "GREATEREQUAL", "TILDE",
  "CIRCUMFLEX", "LEFTSHIFT", "RIGHTSHIFT", "DOUBLESTAR", "PLUSEQUAL", "MINEQUAL", "STAREQUAL", "SLASHEQUAL",
  "PERCENTEQUAL", "AMPEREQUAL", "VBAREQUAL", "CIRCUMFLEXEQUAL", "LEFTSHIFTEQUAL", "RIGHTSHIFTEQUAL",
  "DOUBLESTAREQUAL", "DOUBLESLASH", "DOUBLESLASHEQUAL", "AT", "ATEQUAL", "RARROW", "ELLIPSIS", "COLONEQUAL",
  "OP", "AWAIT", "ASYNC", "TYPE_IGNORE", "TYPE_COMMENT", "SOFT_KEYWORD", "ERRORTOKEN", "COMMENT", "NL",
  "ENCODING"]

/-- The name of the number that separates token kinds from others. -/
def offsetCode : Int × String := (256, "NT_OFFSET")

def name? (kind : TokenKind) : Option String :=
  match kind with
  | keyword k => some k.name
  | _ => kind.code?.bind fun code =>
    if code = offsetCode.1 then some offsetCode.2
    else if code < 0 then none
    else codeNames[code.toNat]?

/-- The name of a kind; a kind without one is a fault. -/
def nameOf (kind : TokenKind) : Except Fault String :=
  match kind.name? with
  | some text => .ok text
  | none => .error (.missingKey (Location.showPlace kind.code?))

/-- Exact spellings of operators that have a kind of their own, with the number of the kind. -/
def spellings : List (String × Nat) := [
  ("!=", 28), ("%", 24), ("%=", 40), ("&", 19), ("&=", 41), ("(", 7), (")", 8), ("*", 16), ("**", 35),
  ("**=", 46), ("*=", 38), ("+", 14), ("+=", 36), (",", 12), ("-", 15), ("-=", 37), ("->", 51), (".", 23),
  ("...", 52), ("/", 17), ("//", 47), ("//=", 48), ("/=", 39), (":", 11), (":=", 53), (";", 13), ("<", 20),
  ("<<", 33), ("<<=", 44), ("<=", 29), ("=", 22), ("==", 27), (">", 21), (">=", 30), (">>", 34),
  (">>=", 45), ("@", 49), ("@=", 50), ("[", 9), ("]", 10), ("^", 32), ("^=", 43), ("\x7b", 25), ("|", 18),
  ("|=", 42), ("\x7d", 26), ("~", 31)]

/-- The number of the kind that a spelling or a constant's name stands for. -/
def codeNamed? (text : String) : Option Int :=
  if text = "N_TOKENS" then some codeLimit
  else if text = offsetCode.2 then some offsetCode.1
  else (codeNames.toList.idxOf? text).map Int.ofNat

end TokenKind

/-- A token: its kind, its text, where it starts and stops, and the line it starts on. -/
structure Token where
  kind : TokenKind
  text : String
  /-- Line and column of its first character. -/
  start : Int × Int
  /-- Line and column after its last character. -/
  stop : Int × Int
  line : String
deriving DecidableEq, Repr, Inhabited

namespace Token

def loc (file : String) (t : Token) : Location :=
  ⟨file, t.start.1, t.start.2, some t.stop.1, some t.stop.2⟩

/-- Line, column, kind and text of a token. -/
def summary (t : Token) : Except Fault String := do
  let name ← t.kind.nameOf
  return s!"{t.start.1}.{t.start.2}: {name}:{Text.quoted t.text}"

/-- A summary in exactly 25 characters. -/
def shortSummary (t : Token) : Except Fault String := do
  return Text.padRight 25 (Text.firstChars 25 (← t.summary))

def showRecord (t : Token) : Except Fault String := do
  let name ← t.kind.nameOf
  return s!"TokenInfo(type={Location.showPlace t.kind.code?} ({name}), string={Text.quoted t.text}, " ++
    s!"start=({t.start.1}, {t.start.2}), end=({t.stop.1}, {t.stop.2}), line={Text.quoted t.line})"

end Token

end Labyrinth
