import Labyrinth.Value.Type

/-!
# Values

What analysis knows about an expression: its type, and for literals the number. A function is known by its
name, its parameters and what it gives back.
-/

namespace Labyrinth

/-- Where a function comes from. -/
inductive FunctionKind where
  | declared | print | assert | generateMaze | go | rotateLeft | rotateRight | sonar | compass
deriving DecidableEq, Repr, Inhabited

namespace FunctionKind

def className : FunctionKind → String
  | declared => "Function"
  | print => "FuncPrint"
  | assert => "FuncAssert"
  | generateMaze => "FuncGenerateMaze"
  | go => "RobotCommandGo"
  | rotateLeft => "RobotCommandRL"
  | rotateRight => "RobotCommandRR"
  | sonar => "RobotCommandSonar"
  | compass => "RobotCommandCompass"

end FunctionKind

/-- What is known about the result of an expression. -/
inductive Value where
  | int (loc : Location) (type : IntType) (value : Int)
  | matrix (loc : Location) (item index : IntType) (value : Int)
  /-- A function; without parameters given, any arguments are accepted. -/
  | function (loc : Location) (kind : FunctionKind) (name : String) (params : Option (List (String × Value)))
      (returns : Value)
  | module
deriving Inhabited

namespace Value

def type : Value → ValueType
  | int _ type _ => .int type
  | matrix _ item index _ => .matrix item index
  | function _ _ _ _ _ => .function
  | module => .module

def className : Value → String
  | int _ _ _ => "Int"
  | matrix _ _ _ _ => "Matrix"
  | function _ kind _ _ _ => kind.className
  | module => "Module"

/-- A value as one of the type of another: numbers go to any number type, fields to fields with the same
elements, functions to functions. -/
def convertTo (value other : Value) : Option Value :=
  match value, other.type with
  | int loc _ n, .int type => some (int loc type n)
  | matrix loc item _ n, .matrix item' index => if item = item' then some (matrix loc item' index n) else none
  | function loc kind name params returns, .function => some (function loc kind name params returns)
  | module, .module => some module
  | _, _ => none

/-- The result of arithmetic, if both operands are numbers. -/
def binary? (lhs rhs : Value) : Option Value :=
  match lhs, rhs with
  | int loc a _, int _ b _ => some (int loc (a.join b) 0)
  | _, _ => none

/-- The type of truth values. -/
def truthType : IntType := ⟨.tiny, .unsigned⟩

/-- The result of a comparison, if both operands are numbers or both are fields. -/
def compare? (lhs rhs : Value) : Option Value :=
  match lhs, rhs with
  | int loc _ _, int _ _ _ => some (int loc truthType 0)
  | matrix loc _ _ _, matrix _ _ _ _ => some (int loc truthType 0)
  | _, _ => none

/-- Checks arguments against parameters, one after another. -/
def checkEach (function : String) (loc : Location) : List (String × Value) → List Value → Run Unit
  | (name, param) :: params, arg :: args => do
    if (arg.convertTo param).isNone then
      Session.reportFatal loc Diagnostic.typeKind
        (s!"function '{function}' expected argument '{name}' of type '{param.type.shown}', " ++
          s!"got '{arg.type.shown}'")
    checkEach function loc params args
  | _, _ => pure ()

/-- Checks the arguments of a call: their number, then their types. -/
def checkArgs (callee : Value) (args : List Value) (loc : Location) : Run Unit :=
  match callee with
  | function _ _ _ none _ => pure ()
  | function _ _ name (some params) _ => do
    if args.length ≠ params.length then
      Session.reportFatal loc Diagnostic.typeKind
        s!"function '{name}' expected {params.length} arguments, got {args.length}"
    checkEach name loc params args
  | other => fail (.noPart s!"'{other.className}' object has no attribute 'check_args'")

/-- A function that the language brings along, with a result of a width. -/
def builtin (kind : FunctionKind) (name : String) (anyArgs : Bool) (width : NumberKind) : Value :=
  function .builtin kind name (if anyArgs then none else some []) (int .builtin ⟨width, .unsigned⟩ 0)

/-- The functions that the language brings along, with the names they are called by. -/
def builtins : List (String × Value) := [
  ("print", builtin .print "print" true .tiny),
  ("assert", builtin .assert "__assert" true .tiny),
  ("generate_maze", builtin .generateMaze "__generate_maze" false .tiny),
  ("__robot_command_go", builtin .go "__robot_command_go" false .tiny),
  ("__robot_command_rl", builtin .rotateLeft "__robot_command_rl" false .tiny),
  ("__robot_command_rr", builtin .rotateRight "__robot_command_rr" false .tiny),
  ("__robot_command_sonar", builtin .sonar "__robot_command_sonar" false .small),
  ("__robot_command_compass", builtin .compass "__robot_command_compass" false .tiny)]

/-- The function behind a command to the robot. -/
def robotCommand (op : RobotOp) : Value :=
  let name := match op with
    | .move => "__robot_command_go"
    | .rotateLeft => "__robot_command_rl"
    | .rotateRight => "__robot_command_rr"
    | .sonar => "__robot_command_sonar"
    | .compass => "__robot_command_compass"
  (builtins.lookup name).getD default

end Value

end Labyrinth
