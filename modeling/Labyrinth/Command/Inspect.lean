import Labyrinth.Command.Build

/-!
# Inspecting programs

The command that reads a program and prints its tree, and on request how long that took, how much was read and
what was tried.
-/

namespace Labyrinth.Inspection

def command : Command where
  program := "parser"
  switches := [
    { names := ["-v", "--verbose"], help := "Print timing stats; repeat for more debug output" },
    { names := ["-q", "--quiet"], help := "Don't print the parsed program" }]
  operands := [⟨"filename", "Input file ('-' to use stdin)"⟩]

/-- What standard input is connected to. -/
inductive InputKind where
  /-- Its position can be asked for. -/
  | file
  | terminal
  | pipe
deriving DecidableEq, Repr, Inhabited

/-- When the inspection started and ended. -/
structure Clock where
  start : Ratio := Ratio.zero
  stop : Ratio := Ratio.zero
deriving DecidableEq, Repr, Inhabited

/-- A program to inspect: its name in reports, its text, and how much was read if that is known. -/
structure Source where
  name : String
  text : String
  size : Nat
deriving DecidableEq, Repr, Inhabited

/-- The program that an operand names. A file is measured in bytes, standard input in characters. -/
def source (kind : InputKind) (file : String) : Run Source := do
  if file == "" || file == "-" then
    let text ← BuildPlan.takeInput
    return ⟨BuildPlan.standardInput, text, if kind = .file then text.length else 0⟩
  let text ← ofExcept ((← get).folder.readText file)
  let size := (((← get).folder.file? file).getD "").utf8ByteSize
  return ⟨file, text, size⟩

/-- The tree of a program, with the parser that read it. -/
def readTree (verbosity : Nat) (s : Source) : Run (Program Sign × Parser) := ExceptT.mk fun session =>
  let start : Parser :=
    { cursor := { session, feed := .unopened s.text s.name, verbose := verbosity ≥ 3 }
      file := s.name
      verbose := verbosity = 2 || verbosity ≥ 4 }
  let (result, p) := (do
    if verbosity ≥ 3 then Parser.inCursor (Cursor.trace false false)
    Parser.parse (.rule .start)).run start
  match result with
  | .error stop => (.error stop, p.cursor.session)
  | .ok (.program tree) => (.ok (tree.mapSign p.signOf, p), p.cursor.session)
  | .ok _ => (.error (.fault (.absent "body")), p.cursor.session)

/-- The line about time and size. -/
def timing (clock : Clock) (lines : Nat) (size : Nat) : String :=
  let taken := clock.stop.difference clock.start
  s!"Total time: {taken.fixed 3} sec; {lines} lines" ++
    (if size = 0 then "" else s!" ({size} bytes)") ++
    (if taken.num = 0 then "" else s!"; {(taken.divideInto lines).fixed 0} lines/sec")

/-- The number of lines up to the last token; the line of the end marker does not count. -/
def lineCount (tokens : Array Token) : Nat :=
  match tokens.back? with
  | none => 0
  | some t => if t.kind = TokenKind.endMarker then (t.stop.1 - 1).toNat else t.stop.1.toNat

def run (kind : InputKind) (clock : Clock) (args : List String) : Run Unit := do
  let given ← command.read args
  let verbosity := given.count "-v"
  let s ← source kind (given.operands.headD "")
  let (tree, parser) ← readTree verbosity s
  Session.reportCollected
  if given.count "-q" = 0 then
    Session.writeLine (tree.shape.dump { indent := some "    " })
  if verbosity > 0 then
    let tokens := parser.cursor.tokens
    Session.writeLine (timing clock (lineCount tokens) s.size)
    Session.writeLine "Caches sizes:"
    Session.writeLine s!"  token array : {Text.padLeft 10 (toString tokens.size)}"
    Session.writeLine s!"        cache : {Text.padLeft 10 (toString parser.memory.size)}"

end Labyrinth.Inspection
