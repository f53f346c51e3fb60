import Labyrinth.Text.WordChar
import Labyrinth.Token.Word

/-!
# Scanning

A text is scanned from left to right. Blanks and line feeds separate tokens; `#` begins a comment that runs to
the end of its line; an operator is one token; a run of word characters is one token, a name, a keyword or a
number. A run that is none of these, but is made of the characters that names and numbers have, is mended: it
becomes a token that carries a complaint. Anything else ends the scan.
-/

namespace Labyrinth

/-- The operators, none of which begins another. -/
def operators : List String :=
  [",", ".", "<<", ">>", "+", "-", "\\", "/", "==", "<>", "<=", "=>", "(", ")", "[", "]"]

/-- The operator at the start of some characters. -/
def operator? (chars : List Char) : Option String :=
  operators.find? fun op => op.toList.isPrefixOf chars

structure ScanStep where
  token : Token
  /-- What is wrong with it, if it had to be mended. -/
  complaint : Option String := none
deriving DecidableEq, Repr, Inhabited

inductive ScanEnd where
  /-- The whole text was scanned. -/
  | complete
  /-- No token begins at a place of the text: its line, its column and the text of the line. -/
  | illegal (line column : Int) (text : String)
deriving DecidableEq, Repr, Inhabited

/-- All tokens of a text, up to its end or to the first illegal character. -/
structure Scan where
  steps : List ScanStep
  finish : ScanEnd
deriving DecidableEq, Repr, Inhabited

namespace Scan

/-- The scan with one more step in front. -/
def push (step : ScanStep) (scan : Scan) : Scan :=
  { scan with steps := step :: scan.steps }

/-- Lines of a text and where each of them begins, counted as one character past the end of the one before. -/
structure LineTable where
  lines : Array String
  starts : Array Nat

/-- The line table of a text. -/
def LineTable.ofText (text : String) : LineTable :=
  let lines := Text.splitLines text
  ⟨lines, lines.foldl (fun starts line => starts.push (starts.back?.getD 0 + line.length + 1)) #[0]⟩

/-- The column of a place of the text on a line. -/
def LineTable.column (table : LineTable) (line offset : Nat) : Int :=
  (offset : Int) - (table.starts.getD (line - 1) 0 : Nat)

def LineTable.text (table : LineTable) (line : Nat) : String :=
  table.lines.getD (line - 1) ""

/-- The token made of some characters at a place of the text. -/
def tokenAt (table : LineTable) (kind : TokenKind) (chars : List Char) (line offset : Nat) : Token :=
  let column := table.column line offset
  ⟨kind, String.ofList chars, (line, column), (line, column + chars.length), table.text line⟩

/-- Whether the scanner takes well-formed words as they are, or mends the next word in any case. -/
inductive Mode where
  | regular
  | mending
deriving DecidableEq, Repr, Inhabited

/-- Whether a character leaves the line open. -/
def staysInLine (c : Char) : Bool :=
  c != '\n'

/-- Scans the characters from a place of the text on. -/
def scanFrom (table : LineTable) (mode : Mode) (line offset : Nat) (chars : List Char) : Scan :=
  match chars with
  | [] => ⟨[], .complete⟩
  | c :: rest =>
    if c = ' ' ∨ c = '\t' then scanFrom table mode line (offset + 1) rest
    else if c = '\n' then scanFrom table mode (line + 1) (offset + 1) rest
    else if c = '#' then
      let comment := c :: rest.takeWhile staysInLine
      have : (rest.dropWhile staysInLine).length ≤ rest.length := (List.dropWhile_sublist _).length_le
      push ⟨tokenAt table .comment comment line offset, none⟩
        (scanFrom table mode line (offset + comment.length) (rest.dropWhile staysInLine))
    else match operator? (c :: rest) with
      | some op =>
        have : (rest.drop (op.length - 1)).length ≤ rest.length := by simp
        push ⟨tokenAt table .op op.toList line offset, none⟩
          (scanFrom table mode line (offset + op.length) (rest.drop (op.length - 1)))
      | none =>
        let word := c :: rest.takeWhile Text.isWordChar
        have : (rest.dropWhile Text.isWordChar).length ≤ rest.length := (List.dropWhile_sublist _).length_le
        let onward := rest.dropWhile Text.isWordChar
        if !Text.isWordChar c then
          ⟨[], .illegal line (table.column line offset) (table.text line)⟩
        else match mode, Word.kind? word with
          | .regular, some kind =>
            push ⟨tokenAt table kind word line offset, none⟩
              (scanFrom table .regular line (offset + word.length) onward)
          | _, _ =>
            if word.all Word.isMendable then
              let (kind, complaint) := Word.mend word
              push ⟨tokenAt table kind word line offset, some complaint⟩
                (scanFrom table .regular line (offset + word.length) onward)
            else ⟨[], .illegal line (table.column line offset) (table.text line)⟩
termination_by chars.length
decreasing_by all_goals (simp only [List.length_cons]; omega)

/-- Scans a text whose line breaks are all line feeds. -/
def ofNormalized (text : String) (mode : Mode := .regular) : Scan :=
  scanFrom (.ofText text) mode 1 0 text.toList

/-- The token past the last line of a text. -/
def endToken (lines : Array String) : Token :=
  let place := ((lines.size : Int) + 1, (0 : Int))
  ⟨.endMarker, "", place, place, ""⟩

end Scan

end Labyrinth
