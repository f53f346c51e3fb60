/-!
# Lines of a text

Two notions of line stand side by side. `normalizeBreaks` turns each carriage return, alone or before a
line feed, into one line feed. `splitLines` cuts a text at every character that ends a line, of which the
line feed is only one; a break at the very end opens no further line.
-/

namespace Labyrinth.Text

/-- Carriage returns, alone or before a line feed, become line feeds. -/
def normalizeChars : List Char → List Char
  | [] => []
  | '\r' :: '\n' :: rest => '\n' :: normalizeChars rest
  | c :: rest => (if c = '\r' then '\n' else c) :: normalizeChars rest

def normalizeBreaks (text : String) : String :=
  String.ofList (normalizeChars text.toList)

def isLineBreak (c : Char) : Bool :=
  c == '\n' || c == '\r' || c == '\x0b' || c == '\x0c' || c == '\x1c' || c == '\x1d' || c == '\x1e' ||
    c == '\u0085' || c == '\u2028' || c == '\u2029'

/-- Cuts at line breaks; `current` holds the characters of the open line, last first. -/
def splitLinesFrom (current : List Char) : List Char → List (List Char)
  | [] => if current.isEmpty then [] else [current.reverse]
  | '\r' :: '\n' :: rest => current.reverse :: splitLinesFrom [] rest
  | c :: rest =>
    if isLineBreak c then current.reverse :: splitLinesFrom [] rest
    else splitLinesFrom (c :: current) rest

/-- The lines of a text, without the characters that end them. -/
def splitLines (text : String) : Array String :=
  ((splitLinesFrom [] text.toList).map String.ofList).toArray

/-- Cuts after each line feed; `current` holds the characters of the open line, last first. -/
def readLinesFrom (current : List Char) : List Char → List (List Char)
  | [] => if current.isEmpty then [] else [current.reverse]
  | c :: rest =>
    if c = '\n' then (c :: current).reverse :: readLinesFrom [] rest
    else readLinesFrom (c :: current) rest

/-- The lines of a file: each keeps its line feed, after carriage returns have become line feeds. -/
def readLines (text : String) : List String :=
  (readLinesFrom [] (normalizeChars text.toList)).map String.ofList

/-- Normalising twice changes no more than normalising once. -/
theorem normalizeChars_eq_self : ∀ {cs : List Char}, '\r' ∉ cs → normalizeChars cs = cs
  | [], _ => by simp [normalizeChars]
  | c :: rest, h => by
    have hc : c ≠ '\r' := fun e => h (by simp [e])
    have hr : '\r' ∉ rest := fun m => h (by simp [m])
    rw [normalizeChars]
    · simp [hc, normalizeChars_eq_self hr]
    · intro t e
      exact absurd e hc

end Labyrinth.Text
