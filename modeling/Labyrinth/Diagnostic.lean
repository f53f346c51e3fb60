import Labyrinth.Location
import Labyrinth.Folder
import Labyrinth.Path

/-!
# Diagnostics

A diagnostic says what is wrong with a program and where. It carries the source line it points into, given
with the report or read from the file that the location names.
-/

namespace Labyrinth

/-- The line that comes with a report. -/
inductive SourceLine where
  /-- No line: it is looked up in the file of the location, if there is such a file. -/
  | unknown
  | line (text : String)
  | all (lines : Array String)
deriving Inhabited

/-- A report of something wrong at a location. -/
structure Diagnostic where
  loc : Location
  /-- The kind of error, as it is printed. -/
  kind : String
  message : String
  /-- The source line the location starts on, if it is known. -/
  line : Option String
deriving DecidableEq, Repr, Inhabited

namespace Diagnostic

def lineAmong (loc : Location) (lines : Array String) : Except Fault (Option String) :=
  match Text.item? lines (loc.line - 1) with
  | some line => .ok (some line)
  | none => .error .indexOutOfRange

/-- A diagnostic together with the source line it points into. -/
def make (folder : Folder) (loc : Location) (kind message : String) (source : SourceLine) :
    Except Fault Diagnostic := do
  let line ← match source with
    | .line text => .ok (some text)
    | .all lines => lineAmong loc lines
    | .unknown =>
      let path := (Path.ofText loc.file).text
      match folder.entry path with
      | .file text => lineAmong loc (Text.splitLines (Text.normalizeBreaks text))
      | .tooLong => .error (.nameTooLong path)
      | _ => .ok none
  return ⟨loc, kind, message, line⟩

/-- The source line with marks under the stretch in question. -/
def excerpt (d : Diagnostic) : String :=
  match d.line with
  | some line => s!"  {line}\n  {d.loc.pointer (some line)}\n"
  | none => s!"  <could not get the line '{d.loc.text}'>\n\n"

def text (d : Diagnostic) : String :=
  s!"Error in file \"{d.loc.file}\", line {d.loc.line}, column {d.loc.column}\n\n" ++
    d.excerpt ++ s!"{d.kind}: {d.message}"

/-- The record of a diagnostic, field by field, without the line. -/
def showRecord (d : Diagnostic) : String :=
  s!"CompilerError(loc={d.loc.showRecord}, error_name={Text.quoted d.kind}, " ++
    s!"message={Text.quoted d.message})"

def syntaxKind : String := "SyntaxError"

def typeKind : String := "TypeError"

def nameKind : String := "NameError"

end Diagnostic

end Labyrinth
