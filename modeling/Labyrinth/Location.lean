import Labyrinth.Text.Slice
import Labyrinth.Fault

/-!
# Locations

A location is a stretch of a source file: where it starts and, unless it is a single point, where it ends.
Lines count from one and columns from zero.
-/

namespace Labyrinth

/-- A stretch of a source file. -/
structure Location where
  file : String
  line : Int
  column : Int
  endLine : Option Int := none
  endColumn : Option Int := none
deriving DecidableEq, Repr, Inhabited

namespace Location

/-- The location of what the language brings along. -/
def builtin : Location := ⟨"<built-in>", -1, -1, some (-1), some (-1)⟩

/-- The earlier of two starts. -/
def mergeStart (a b : Location) : Int × Int :=
  if a.line = b.line then (a.line, min a.column b.column)
  else if a.line < b.line then (a.line, a.column)
  else (b.line, b.column)

/-- The later of two ends; a missing end, or a missing column, yields to one that is there. -/
def mergeEnd? (a b : Location) : Option (Int × Option Int) :=
  match a.endLine, b.endLine with
  | none, none => none
  | some line, none => some (line, a.endColumn)
  | none, some line => some (line, b.endColumn)
  | some line, some line' =>
    if line = line' then
      some (line, match a.endColumn, b.endColumn with
        | none, column => column
        | column, none => column
        | some column, some column' => some (max column column'))
    else if line > line' then some (line, a.endColumn)
    else some (line', b.endColumn)

/-- The least stretch that covers two stretches of one file. One of them must have an end. -/
def merge (a b : Location) : Except Fault Location :=
  if a.file ≠ b.file then .error .differentFiles
  else match mergeEnd? a b with
    | none => .error (.unset "end_lineno")
    | some (endLine, endColumn) =>
      let (line, column) := mergeStart a b
      .ok ⟨a.file, line, column, some endLine, endColumn⟩

/-- The start of a stretch alone. -/
def withoutEnd (loc : Location) : Location :=
  ⟨loc.file, loc.line, loc.column, none, none⟩

/-- File, line and column of the start, then those of the end if both are known. -/
def text (loc : Location) : String :=
  let start := s!"{loc.file}:{loc.line}:{loc.column}"
  match loc.endLine, loc.endColumn with
  | some line, some column => s!"{start}:{line}:{column}"
  | _, _ => start

/-- The source text of a stretch, as far as it stands on the first line. -/
def sourceText (loc : Location) (lines : Array String) : Except Fault (Option String) :=
  if loc.line > lines.size then .ok none
  else match Text.item? lines (loc.line - 1) with
    | some line => .ok (some (Text.slice line loc.column loc.endColumn))
    | none => .error .indexOutOfRange

/-- The column where a stretch ends on its first line, if it can be told. -/
def firstLineEnd? (loc : Location) (line : Option String) : Option Int :=
  if some loc.line = loc.endLine then loc.endColumn
  else match line, loc.endLine with
    | some line, some _ => some line.length
    | _, _ => none

/-- Marks under the first line of a stretch; a stretch without an end gets one mark. -/
def pointer (loc : Location) (line : Option String) : String :=
  match loc.firstLineEnd? line with
  | some stop => Text.repeated " " loc.column ++ Text.repeated "^" (stop - loc.column)
  | none => Text.repeated " " loc.column ++ "^ "

/-- The integer of an optional place, as it is shown. -/
def showPlace : Option Int → String
  | some place => toString place
  | none => "None"

def showRecord (loc : Location) : String :=
  s!"Location(filepath={Text.quoted loc.file}, lineno={loc.line}, col_offset={loc.column}, " ++
    s!"end_lineno={showPlace loc.endLine}, end_col_offset={showPlace loc.endColumn})"

end Location

end Labyrinth
