import Labyrinth.Analysis.Lowering
import Labyrinth.Grammar.Reading

/-!
# Evaluation

Evaluation finds out the type of every value and binds names to values on the way. What does not fit together
is reported; most such reports end the run.
-/

namespace Labyrinth

namespace Analysis

/-- Reports a mistake in types and ends the run. -/
def reportType {α : Type} (loc : Location) (message : String) : Task Analysis α :=
  inSession (Session.reportFatal loc Diagnostic.typeKind message)

def binaryValue (loc : Location) (op : BinOp) (lhs rhs : Value) : Task Analysis Value :=
  match lhs.binary? rhs with
  | some value => return value
  | none => reportType loc
      s!"binary operation 'BinOp.{op.name}' not supported for '{lhs.type.shown}' and '{rhs.type.shown}'"

def compareValue (loc : Location) (op : CmpOp) (lhs rhs : Value) : Task Analysis Value :=
  match lhs.compare? rhs with
  | some value => return value
  | none => reportType loc
      s!"compare operation 'CmpOp.{op.name}' not supported for '{lhs.type.shown}' and '{rhs.type.shown}'"

def checkIndex (loc : Location) (type : IntType) (index : Value) : Task Analysis Unit := do
  if (index.convertTo (.int loc type 0)).isNone then
    reportType loc s!"cannot use {index.type.shown} as index (cannot convert to {type.shown})"

def elementValue (loc : Location) (field : Value) : Task Analysis (IntType × Value) :=
  match field with
  | .matrix _ item index _ => return (index, .int loc item 0)
  | other => reportType loc s!"subscript is supported only for Matrix, not {other.type.shown}"

/-- The value that a callee gives back. -/
def calleeResult (loc : Location) (callee : Value) : Task Analysis Value :=
  match callee with
  | .function _ _ _ _ returns => return returns
  | other => reportType loc s!"call operation expected function type, got '{other.type.shown}'"

/-- The value that the function around must give back. -/
def returnType (loc : Location) : Task Analysis Value := do
  let role := ((← get).frames.headD default).role
  match role with
  | .function returns => return returns
  | other => reportType loc s!"return can be used only inside function, not '{other.className}'"

/-- A value as the result of the function around. -/
def returnValue (loc : Location) (value returns : Value) : Task Analysis Value :=
  match value.convertTo returns with
  | some converted => return converted
  | none => reportType loc
      s!"expression type '{value.type.shown}' does not match return type '{returns.type.shown}'"

end Analysis

namespace Node

open Analysis

/-- What a literal or a function is, before anything is evaluated. -/
def literal? : Node → Option Value
  | int info type value => some (.int info.loc type value)
  | matrix info item index value => some (.matrix info.loc item index value)
  | function info head _ _ => some (functionValue info.loc head)
  | builtin f => some f
  | _ => none

mutual

def evaluate : Node → Task Analysis (Node × Value)
  | .assign info targets value => do
    match value.literal? with
    | some result =>
      let targets ← bindTargets info.loc result targets
      let (value, _) ← value.evaluate
      return (.assign { info with value := some result } targets value, result)
    | none =>
      let (value, result) ← value.evaluate
      let targets ← bindTargets info.loc result targets
      return (.assign { info with value := some result } targets value, result)
  | .call info operand args => do
    let (operand, callee) ← operand.evaluate
    let result ← calleeResult info.loc callee
    let args ← evaluateAll args
    inSession (callee.checkArgs (args.map Prod.snd) info.loc)
    return (.call { info with value := some result } operand (args.map Prod.fst), result)
  | .giveBack info value => do
    let returns ← returnType info.loc
    let (value, result) ← value.evaluate
    let result ← returnValue info.loc result returns
    return (.giveBack { info with value := some result } value, result)
  | .binary info lhs op rhs => do
    let (lhs, left) ← lhs.evaluate
    let (rhs, right) ← rhs.evaluate
    let result ← binaryValue info.loc op left right
    return (.binary { info with value := some result } lhs op rhs, result)
  | .compare info operand ops operands => do
    let (operand, first) ← operand.evaluate
    let (operands, result) ← evaluateChain operand.info.loc first none ops operands
    return (.compare { info with value := some result } operand ops operands, result)
  | .subscript info field i j => do
    let (field, value) ← field.evaluate
    let (index, result) ← elementValue info.loc value
    let (i, first) ← i.evaluate
    let (j, second) ← j.evaluate
    checkIndex info.loc index first
    checkIndex info.loc index second
    return (.subscript { info with value := some result } field i j, result)
  | .name info text => do
    let result ← lookup text info.loc
    return (.name { info with value := some result } text, result)
  | .condition info test body => do
    let (test, result) ← test.evaluate
    let body ← evaluateAll body
    return (.condition { info with value := some result } test (body.map Prod.fst), result)
  | .loop info test body => do
    let (test, result) ← test.evaluate
    let body ← evaluateAll body
    return (.loop { info with value := some result } test (body.map Prod.fst), result)
  | .int info type value =>
    let result := .int info.loc type value
    return (.int { info with value := some result } type value, result)
  | .matrix info item index value =>
    let result := .matrix info.loc item index value
    return (.matrix { info with value := some result } item index value, result)
  | .function info head scope body => do
    let result := functionValue info.loc head
    push { scope := { scope with values := head.params }, role := .function head.returns }
    let body ← evaluateAll body
    let frame ← pop
    return (.function { info with value := some result } head frame.scope (body.map Prod.fst), result)
  | .builtin f => return (.builtin f, f)
  | .missing => fail (.absent "evaluate")

def evaluateAll : List Node → Task Analysis (List (Node × Value))
  | [] => return []
  | n :: ns => do
    let first ← n.evaluate
    let rest ← evaluateAll ns
    return first :: rest

/-- Finds out the values of the operands of a chain of comparisons, each against the one before it. -/
def evaluateChain (loc : Location) (lhs : Value) (last : Option Value) (ops : List CmpOp) :
    List Node → Task Analysis (List Node × Value)
  | [] => match last with
    | some value => return ([], value)
    | none => fail (.unset "res")
  | n :: ns => match ops with
    | [] => match last with
      | some value => return (n :: ns, value)
      | none => fail (.unset "res")
    | op :: ops => do
      let (n, rhs) ← n.evaluate
      let value ← compareValue loc op lhs rhs
      let (ns, result) ← evaluateChain n.info.loc rhs (some value) ops ns
      return (n :: ns, result)

/-- Gives a value to the targets of an assignment. -/
def bindTargets (loc : Location) (value : Value) : List Node → Task Analysis (List Node)
  | [] => return []
  | .name info text :: rest => do
    Analysis.assign text value loc
    let rest ← bindTargets loc value rest
    return .name info text :: rest
  | target :: rest => do
    let (target, _) ← target.evaluate
    let rest ← bindTargets loc value rest
    return target :: rest

end

end Node

/-- Finds out all values of a program, inside the frames given. -/
def Module.evaluate (m : Module) : Task Analysis Module := do
  Analysis.push { scope := m.scope, role := .module }
  let body ← Node.evaluateAll m.body
  let frame ← Analysis.pop
  return ⟨{ m.info with value := some .module }, frame.scope, body.map Prod.fst⟩

namespace Analysis

/-- The analysis of a text: it is parsed and taken apart, what was reported so far ends the run, and then its
values are found out if that is asked for. The frames are those of the surroundings. -/
def ofText (text file : String) (evaluate : Bool := true) : Task Analysis Module := do
  let tree ← inSession (Program.ofText text file)
  let m ← inSession (tree.lower text file)
  inSession Session.reportCollected
  if evaluate then m.evaluate else return m

end Analysis

end Labyrinth
