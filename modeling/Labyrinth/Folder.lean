import Labyrinth.Fault
import Labyrinth.Text.Lines

/-!
# Folders

The files a run can see: texts under paths. A directory exists when some file lies below it or when it is listed.
-/

namespace Labyrinth

/-- The files that a run sees, by their paths. -/
structure Folder where
  /-- Path components and text of each file; a later entry for a path hides an earlier one. -/
  files : List (List String × String) := []
  /-- Directories that exist even if no file lies below them. -/
  directories : List (List String) := []
deriving Inhabited

/-- What a path leads to. -/
inductive Entry where
  | file (text : String)
  | directory
  | missing
  | belowFile
  | tooLong
deriving DecidableEq, Repr, Inhabited

namespace Folder

/-- The names a path is made of, without the ones that stay in place. -/
def components (path : String) : List String :=
  (path.splitOn "/").filter fun name => name ≠ "" ∧ name ≠ "."

/-- Where a path starts: at the root of all paths, which is a name of its own, or here. -/
def origin (path : String) : List String := if path.startsWith "/" then ["/"] else []

/-- The names above a list of names; nothing lies above the root or above the start. -/
def above (names : List String) : List String := if names = ["/"] then names else names.dropLast

/-- Follows names and parent steps. -/
def resolve (here : List String) : List String → List String
  | [] => here
  | ".." :: rest => resolve (above here) rest
  | name :: rest => resolve (here ++ [name]) rest

/-- What lies under a list of names without parent steps. -/
def entryAt (folder : Folder) (names : List String) : Entry :=
  match folder.files.find? fun file => file.1 == names with
  | some (_, text) => .file text
  | none =>
    if names.isEmpty || folder.directories.contains names ||
        folder.files.any fun file => names.isPrefixOf file.1 then .directory
    else if folder.files.any fun file => file.1.isPrefixOf names then .belowFile
    else .missing

/-- The longest name of a file or a directory, in bytes. -/
def longestName : Nat := 255

/-- Walks down a path from a directory, going back up at each parent step. A name that is too long is noticed in
the directory where it would be looked up. -/
def walk (folder : Folder) (here : List String) : List String → Entry
  | [] => folder.entryAt here
  | ".." :: rest =>
    match folder.entryAt here with
    | .directory => walk folder (above here) rest
    | .file _ => .belowFile
    | other => other
  | name :: rest =>
    if name.utf8ByteSize ≤ longestName then walk folder (here ++ [name]) rest
    else match folder.entryAt here with
      | .directory => .tooLong
      | .file _ => .belowFile
      | other => other

/-- The longest path, in bytes. -/
def longestPath : Nat := 4095

/-- Whether a text can be a path at all: it has no character of code zero. -/
def isPath (text : String) : Bool := !text.toList.contains '\x00'

/-- The complaint about a text that cannot be a path. -/
def noPath : Fault := .badValue "embedded null byte"

/-- What a path leads to; the empty path and a text that is no path lead nowhere. -/
def entry (folder : Folder) (path : String) : Entry :=
  if path.isEmpty || !isPath path then .missing
  else if path.utf8ByteSize > longestPath then .tooLong
  else folder.walk (origin path) (components path)

/-- Whether a path asks for a directory by the way it ends. -/
def endsInside (path : String) : Bool := path.endsWith "/" || path.endsWith "/."

/-- The text of the file that a path leads to, if it leads to one. -/
def file? (folder : Folder) (path : String) : Option String :=
  match folder.entry path with
  | .file text => some text
  | _ => none

/-- The text of a file, with every line break as a line feed. -/
def readText (folder : Folder) (path : String) : Except Fault String :=
  if !isPath path then .error noPath else
  match folder.entry path with
  | .file text =>
    if endsInside path then .error (.notDirectory path) else .ok (Text.normalizeBreaks text)
  | .directory => .error (.isDirectory path)
  | .missing => .error (.noSuchFile path)
  | .belowFile => .error (.notDirectory path)
  | .tooLong => .error (.nameTooLong path)

/-- The folder with a file put under a list of names. -/
def put (folder : Folder) (names : List String) (text : String) : Folder :=
  { folder with files := (names, text) :: folder.files.filter fun file => file.1 != names }

/-- The folder that holds the given files. -/
def ofFiles (files : List (String × String)) : Folder :=
  files.foldl (fun folder file => folder.put (components file.1) file.2) {}

/-- Writes a file; the directory it goes into has to exist. -/
def write (folder : Folder) (path text : String) : Except Fault Folder :=
  let written := folder.put (resolve (origin path) (components path)) text
  if !isPath path then .error noPath else
  match folder.entry path with
  | .directory => .error (.isDirectory path)
  | .belowFile => .error (.notDirectory path)
  | .tooLong => .error (.nameTooLong path)
  | .file _ => .ok written
  | .missing =>
    match folder.walk (origin path) (components path).dropLast with
    | .directory => .ok written
    | _ => .error (.noSuchFile path)

def pathOf : List String → String
  | "/" :: names => "/" ++ Text.joined "/" names
  | names => Text.joined "/" names

/-- The files that are new or different in a later folder, by path and in the order of paths. -/
def changes (before after : Folder) : List (String × String) :=
  let changed := after.files.filter fun file => before.files.lookup file.1 != some file.2
  (changed.map fun file => (pathOf file.1, file.2)).mergeSort fun a b => a.1 ≤ b.1

end Folder

end Labyrinth
