import Labyrinth.Command.Build

/-!
# The compiler as a command

Reads the program that the arguments name, compiles it, and writes the C file. The command line for the C
compiler is printed and left to the caller.
-/

namespace Labyrinth.Console

def namedPaths (args : List String) : List String :=
  match ((BuildPlan.command.read args).run {}).1 with
  | .ok given => given.operands ++ (given.value? "-c").toList ++ (given.value? "-o").toList
  | .error _ => []

def directoryOf (path : String) : String :=
  let p := Path.ofText path
  Path.text { p with names := p.names.dropLast }

def fileText? (path : String) : IO (Option String) :=
  try some <$> IO.FS.readFile path catch _ => return none

def isDirectory (path : String) : IO Bool :=
  try
    (← IO.FS.realPath path).isDir
  catch _ => return false

/-- What is found under a path and around it, added to a folder. -/
def survey (folder : Folder) (path : String) : IO Folder := do
  let names (path : String) := Folder.resolve (Folder.origin path) (Folder.components path)
  let directories ← [path, directoryOf path].filterM isDirectory
  let folder := { folder with directories := folder.directories ++ directories.map names }
  match ← fileText? path with
  | some text => return folder.put (names path) text
  | none => return folder

partial def readInput (stdin : IO.FS.Stream) (done : String) : IO String := do
  let line ← stdin.getLine
  if line.isEmpty then return done else readInput stdin (done ++ line)

/-- The C compiler is not called: every call counts as successful. -/
def leftToCaller (_ : CompilerCall) : CompilerReply := ⟨0, ""⟩

/-- Runs the build in the real world. -/
def run (args : List String) : IO UInt32 := do
  let paths := namedPaths args
  let folder ← paths.foldlM survey {}
  let wantsInput := paths.any fun path => path == "-" || path == ""
  let input ← if wantsInput then readInput (← IO.getStdin) "" else pure ""
  let start : Workbench := { session := { folder, input } }
  let (result, bench) := (BuildPlan.run leftToCaller { headers := "." } args).run start
  (← IO.getStdout).putStr bench.session.out
  (← IO.getStderr).putStr bench.session.err
  for (path, text) in Folder.changes folder bench.session.folder do
    IO.FS.writeFile path text
  match result with
  | .ok _ => return 0
  | .error (.exit status) => return UInt32.ofNat status.toNat
  | .error (.fault cause) =>
    IO.eprintln cause.message
    return 1

end Labyrinth.Console

/-- Compiles the program that the arguments name. -/
def main (args : List String) : IO UInt32 := Labyrinth.Console.run args
