import Labyrinth.Code.Tree
import Labyrinth.Analysis.Evaluation

/-!
# C code of a program

The emission of an analysed program. Functions are moved to the top, inner ones before outer ones. Names
are looked up in the scope they are used in, and only there.
-/

namespace Labyrinth.Code

/-- What is needed during emission. -/
structure Emission where
  session : Session
  lines : Array String
  scope : Scope := {}
  functions : Array CFunction := #[]
deriving Inhabited

instance : HasSession Emission := ⟨Emission.session, fun t s => { t with session := s }⟩

namespace Emission

def valueOf (n : Node) : Task Emission Value :=
  match n with
  | .missing => fail (.absent "evaluated")
  | n => match n.info.value with
    | some value => return value
    | none => fail (.assertion "")

def typeOf (n : Node) : Task Emission ValueType := do
  return (← valueOf n).type

def typesOf : List Node → Task Emission (List ValueType)
  | [] => return []
  | n :: ns => do
    let first ← typeOf n
    let rest ← typesOf ns
    return first :: rest

def unsupported {α : Type} (cls : String) (loc : Location) : Task Emission α := do
  let lines := (← get).lines
  inSession (Session.reportFatal loc Diagnostic.syntaxKind
    s!"analysis node '{cls}' is currently not supported for codegen" (.all lines))

/-- The message of an assertion: the text of its argument and where it stands. -/
def assertMessage (loc : Location) : Task Emission String := do
  let source ← ofExcept (loc.sourceText (← get).lines)
  let what := match source with
    | some text => "'" ++ text ++ "'"
    | none => "expression"
  return s!"{what} evaluated to false (at {loc.text})"

def assertMessages : List Node → Task Emission (List String)
  | [] => return []
  | n :: ns => do
    let first ← assertMessage n.info.loc
    let rest ← assertMessages ns
    return first :: rest

def scopeType (name : String) : Task Emission ValueType := do
  match (← get).scope.value? name with
  | some value => return value.type
  | none => fail (.missingKey (Text.quoted name))

/-- The fields that a scope has set up itself, in order. -/
def freesOf (s : Scope) : List String :=
  s.values.filterMap fun (name, value) => match value with
    | .matrix _ _ _ _ => if s.names.isParam name then none else some name
    | _ => none

/-- The variables of a scope, without parameters and functions, in order. -/
def variablesOf (s : Scope) : List (ValueType × String) :=
  s.values.filterMap fun (name, value) =>
    if s.names.isParam name || !value.type.isVariable then none else some (value.type, name)

def indexType (t : ValueType) : Task Emission IntType :=
  match t with
  | .matrix _ index => return index
  | _ => fail (.noPart "the type has no index type")

/-- Stores a value in a variable, or leaves it alone if there is no variable. -/
def storeIn (type : ValueType) (name : String) (value : CExpr) : CStore :=
  if type.isVariable then .variable type name value else .bare value

/-- An assignment of a value to a name of a type. A literal counts as big, whatever width it was declared
with. -/
def storeNamed (value : Node) (written : Task Emission CExpr) (name : String) (type : ValueType) :
    Task Emission CStore := do
  match value, type with
  | .matrix _ _ index n, .matrix item _ => return .setUp item name (.plain n) index
  | .matrix _ _ _ _, _ => fail (.assertion "Matrix evaluated not to MatrixType")
  | .int _ literal n, .int t => return storeIn type name (.convert ⟨.big, t.sign⟩ t (.literal literal n))
  | .int _ _ _, _ => fail (.assertion "Int evaluated not to IntType")
  | value, .int t =>
    match ← typeOf value with
    | .int s => return storeIn type name (.convert s t (← written))
    | _ => return storeIn type name (← written)
  | _, _ => return storeIn type name (← written)

mutual

def emitExpr : Node → Task Emission CExpr
  | .int _ type value => return .literal type value
  | .matrix _ _ _ value => return .plain value
  | .name _ name => return .variable name
  | .call info operand args => do
    match ← valueOf operand with
    | .function _ .print _ _ _ => do
      let types ← typesOf args
      return .print types (← emitExprs args)
    | .function _ .assert _ _ _ => emitAsserts [] [] [] args
    | .function _ _ name _ _ => return .apply name (← emitExprs args)
    | _ => inSession (Session.reportFatal info.loc Diagnostic.typeKind "Not a function")
  | .binary _ lhs op rhs => do
    let left ← typeOf lhs
    let right ← typeOf rhs
    let lhs ← emitExpr lhs
    let rhs ← emitExpr rhs
    return .binary op left right lhs rhs
  | .compare _ operand ops operands => do
    let first ← typeOf operand
    let types ← typesOf operands
    let operand ← emitExpr operand
    let operands ← emitExprs operands
    return .compare operand first ops types operands
  | .subscript _ field i j => do
    let index ← indexType (← typeOf field)
    let field ← emitExpr field
    let i ← emitExpr i
    let j ← emitExpr j
    return .element field index i j
  | .function _ head scope body => do
    let outer := (← get).scope
    modify fun t => { t with scope }
    let body ← emitStmts body
    modify fun t => { t with
      scope := outer
      functions := t.functions.push
        ⟨⟨head.returns.type, head.name, head.params.map fun (name, value) => (value.type, name)⟩,
         ⟨variablesOf scope, body, freesOf scope⟩⟩ }
    return .nothing
  | .builtin f => unsupported f.className f.loc
  | .missing => fail (.absent "loc")
  | .assign _ _ _ => return .nothing
  | .giveBack _ _ => return .nothing
  | .condition _ _ _ => return .nothing
  | .loop _ _ _ => return .nothing

def emitExprs : List Node → Task Emission (List CExpr)
  | [] => return []
  | n :: ns => do
    let first ← emitExpr n
    let rest ← emitExprs ns
    return first :: rest

/-- Emits the arguments of an assertion, one after another. -/
def emitAsserts (types : List ValueType) (exprs : List CExpr) (messages : List String) :
    List Node → Task Emission CExpr
  | [] => return .asserts types.reverse exprs.reverse messages.reverse
  | n :: ns => do
    let type ← typeOf n
    let message ← assertMessage n.info.loc
    let expr ← emitExpr n
    emitAsserts (type :: types) (expr :: exprs) (message :: messages) ns

/-- Emits an assignment of a value, target by target. The value is written once for each target. -/
def emitStores (value : Node) (written : Task Emission CExpr) :
    List Node → Task Emission (List CStore)
  | [] => return []
  | .name _ name :: rest => do
    let type ← scopeType name
    let store ← storeNamed value written name type
    let stores ← emitStores value written rest
    return store :: stores
  | target :: rest => do
    let target ← emitExpr target
    let store := .element target (← written)
    let stores ← emitStores value written rest
    return store :: stores

/-- Emits a statement, or what is given for it if the node is an expression. -/
def emitStmtOr (expr : Task Emission CExpr) : Node → Task Emission CStmt
  | .assign _ targets value => return .assign (← emitStores value (emitExpr value) targets)
  | .giveBack info value => do
    match info.value with
    | some (.int _ _ _) =>
      let frees := freesOf (← get).scope
      return .giveBack frees (← emitExpr value)
    | some other =>
      inSession (Session.reportFatal info.loc Diagnostic.typeKind
        s!"return type '{other.type.shown}' is not supported in codegen")
    | none => fail (.assertion "")
  | .condition _ test body => do
    let test ← emitExpr test
    return .condition test (← emitStmts body)
  | .loop _ test body => do
    let test ← emitExpr test
    return .loop test (← emitStmts body)
  | _ => return .expr (← expr)

def emitStmts : List Node → Task Emission (List CStmt)
  | [] => return []
  | n :: ns => do
    let first ← emitStmtOr (emitExpr n) n
    let rest ← emitStmts ns
    return first :: rest

end

def emitStmt (n : Node) : Task Emission CStmt :=
  emitStmtOr (emitExpr n) n

/-- The parts of the text that a single statement becomes. -/
def partsOf (node : Node) : Run (List String) := ExceptT.mk fun session =>
  let (result, t) := (emitStmt node).run { session, lines := #[] }
  (result.map CStmt.parts, t.session)

end Emission

def emit (text : String) (m : Module) : Run CProgram := ExceptT.mk fun session =>
  let act : Task Emission CProgram := do
    let body ← Emission.emitStmts m.body
    return ⟨(← get).functions.toList,
      ⟨Emission.variablesOf m.scope, body, Emission.freesOf m.scope⟩⟩
  let (result, t) := act.run { session, lines := Text.splitLines text, scope := m.scope }
  (result, t.session)

/-- A text compiled to C: the analysis of the text, then its emission. -/
def compile (text file : String) : Task Analysis CProgram := do
  let m ← Analysis.ofText text file
  inSession (emit text m)

end Labyrinth.Code
