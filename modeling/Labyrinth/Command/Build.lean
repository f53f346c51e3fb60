import Labyrinth.Command.Arguments
import Labyrinth.Code.Emission

/-!
# Building programs

The command that compiles a program to C, writes the C file, and calls a C compiler on it. The compiler is
given as a function from calls to replies; the calls are kept.
-/

namespace Labyrinth

/-- A call of the C compiler: its arguments and what it reads. -/
structure CompilerCall where
  args : List String
  input : String
deriving DecidableEq, Repr, Inhabited

/-- What the C compiler answers. -/
structure CompilerReply where
  status : Int
  errors : String
deriving DecidableEq, Repr, Inhabited

/-- Where a build takes place. -/
structure Platform where
  /-- The folder with the headers that programs include. -/
  headers : String
  system : String := "Linux"
  android : Bool := false
deriving DecidableEq, Repr, Inhabited

/-- How the C compiler is called. -/
structure CompilerSettings where
  compiler : String := "clang"
  optimize : Int := 0
  debug : Bool := false
  memoryCheck : Bool := false
  maxErrors : Int := 3
deriving DecidableEq, Repr, Inhabited

/-- What is to be built. -/
structure BuildPlan where
  /-- The name of the program in reports. -/
  source : String
  /-- The program itself. -/
  text : String
  /-- Where the C file goes. -/
  code : Path
  /-- Where the binary goes. -/
  binary : Path
deriving DecidableEq, Repr, Inhabited

/-- A session with the calls of the C compiler. -/
structure Workbench where
  session : Session := {}
  calls : List CompilerCall := []
deriving Inhabited

instance : HasSession Workbench := ⟨Workbench.session, fun w s => { w with session := s }⟩

namespace CompilerSettings

/-- The checks that are compiled in when memory is checked. -/
def sanitizers (p : Platform) : String :=
  "-fsanitize=address" ++
    if p.android then "" else ",undefined" ++ if p.system == "Windows" then "" else ",vptr"

def commandLine (s : CompilerSettings) (p : Platform) (binary : Path) : List String :=
  [s.compiler, "-x", "c", "-", "-o", binary.text, "-std=c11", s!"-O{s.optimize}", "-I", p.headers, "-l", "ltdl",
    (if s.compiler.startsWith "clang" then "-ferror-limit=" else "-fmax-errors=") ++ toString s.maxErrors] ++
  (if s.debug then ["-g"] else []) ++ (if s.memoryCheck then [sanitizers p] else [])

end CompilerSettings

namespace Workbench

/-- Calls the C compiler. Its command line is printed, and what it complains about if it fails. -/
def callCompiler (cc : CompilerCall → CompilerReply) (settings : CompilerSettings) (p : Platform)
    (code : String) (binary : Path) : Task Workbench Int := do
  let call : CompilerCall := ⟨settings.commandLine p binary, code⟩
  inSession (Session.writeLine (Text.joined " " call.args))
  modify fun w => { w with calls := w.calls ++ [call] }
  let reply := cc call
  unless reply.status = 0 do inSession (Session.writeLine reply.errors)
  return reply.status

end Workbench

namespace BuildPlan

def command : Command where
  program := "slabes"
  switches := [
    { names := ["-c"], value := some "C", help := "Output c file" },
    { names := ["-o", "--output"], value := some "OUTPUT", help := "Output binary file" }]
  operands := [⟨"filename", "Input file ('-' to use stdin)"⟩]

/-- The name of standard input in reports. -/
def standardInput : String := "<stdin>"

/-- Takes all that is left of standard input. -/
def takeInput : Run String := do
  let text := (← get).input
  modify fun s => { s with input := "" }
  return text

/-- The path given for an output, or the one made from the source. -/
def output (given : Option String) (source ending : String) : Except Fault Path :=
  match given with
  | some text => .ok (Path.ofText text)
  | none => (Path.ofText source).withEnding ending

/-- The plan that arguments ask for. -/
def ofArguments (args : List String) : Run BuildPlan := do
  let given ← command.read args
  let file := given.operands.headD ""
  let isInput := file == "" || file == "-"
  let source := if isInput then standardInput else file
  let text ← if isInput then takeInput else ofExcept ((← get).folder.readText (Path.ofText file).text)
  let code ← ofExcept (output (given.value? "-c") source ".c")
  let binary ← ofExcept (output (given.value? "-o") source ".out")
  return ⟨source, text, code, binary⟩

def writeFile (path : Path) (text : String) : Run Unit := do
  let folder ← ofExcept ((← get).folder.write path.text text)
  modify fun s => { s with folder }

def compiled (plan : BuildPlan) : Run String := ExceptT.mk fun session =>
  let (result, analysis) := (Code.compile plan.text plan.source).run ({ session } : Analysis)
  (result.map fun program => program.text plan.source, analysis.session)

/-- Builds a program and ends with the status of the C compiler. -/
def run (cc : CompilerCall → CompilerReply) (p : Platform) (args : List String) : Task Workbench Unit := do
  let plan ← inSession (ofArguments args)
  let code ← inSession plan.compiled
  inSession (writeFile plan.code code)
  let status ← Workbench.callCompiler cc {} p code plan.binary
  throw (.exit status)

end BuildPlan

end Labyrinth
