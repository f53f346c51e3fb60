import Labyrinth.Analysis.Node

/-!
# From syntax trees to analysis trees

Statements become nodes of a body. A declaration becomes an assignment of a literal. An assignment inside an
expression becomes a node of the body in front of the statement it stands in, and leaves nothing behind.
-/

namespace Labyrinth

/-- What is needed while a tree is taken apart. -/
structure Lowering where
  session : Session
  file : String
  lines : Array String
  /-- The nodes of the body that is being filled. -/
  body : Array Node := #[]
deriving Inhabited

instance : HasSession Lowering := ⟨Lowering.session, fun l s => { l with session := s }⟩

namespace Lowering

def locOf (span : Span) : Task Lowering Location := do
  return span.loc (← get).file

def infoOf (span : Span) : Task Lowering NodeInfo := do
  return ⟨← locOf span, none⟩

def append (node : Node) : Task Lowering Unit :=
  modify fun l => { l with body := l.body.push node }

/-- Fills a body of its own and yields it. -/
def collect (act : Task Lowering Unit) : Task Lowering (List Node) := do
  let outer := (← get).body
  modify fun l => { l with body := #[] }
  act
  let inner := (← get).body
  modify fun l => { l with body := outer }
  return inner.toList

def unsupported {α : Type} (cls : String) (span : Span) : Task Lowering α := do
  let loc ← locOf span
  let lines := (← get).lines
  inSession (Session.reportFatal loc Diagnostic.syntaxKind
    s!"analysis node '{cls}' is currently not supported for evalation" (.all lines))

/-- Reports a command to the robot that there is not. -/
def unknownRobotOp {α : Type} (op : String) (span : Span) : Task Lowering α := do
  let loc ← locOf span
  inSession (Session.reportFatal loc Diagnostic.syntaxKind
    s!"robot operation '{op}' is not implemented for eval")

/-- Reports a result type that is a name and no type. -/
def namedReturnType {α : Type} (name : String) (span : Span) : Task Lowering α := do
  let loc ← locOf span
  inSession (Session.reportFatal loc Diagnostic.typeKind
    s!"return type 'Name(_evaluated=None, value={Text.quoted name})' is not supported")

def literalValue (n : NumberNode Sign) : Int :=
  if n.sign = .negative then -n.value else n.value

/-- The type of a literal of a width: a number with a plus sign is unsigned. -/
def literalType (kind : NumberKind) (n : NumberNode Sign) : IntType :=
  ⟨kind, Signedness.ofBool (n.sign ≠ .positive)⟩

def lowerName (n : NameNode) : Task Lowering Node := do
  return .name (← infoOf n.span) n.value

def lowerNames : List NameNode → Task Lowering (List Node)
  | [] => return []
  | n :: ns => do
    let first ← lowerName n
    let rest ← lowerNames ns
    return first :: rest

def lowerNumber (kind : NumberKind) (n : NumberNode Sign) : Task Lowering Node := do
  return .int (← infoOf n.span) (literalType kind n) (literalValue n)

mutual

def lowerExpr : Expr Sign → Task Lowering Node
  | .name n => lowerName n
  | .number n => lowerNumber .big n
  | .robot span op => do return .call (← infoOf span) (.builtin (Value.robotCommand op)) []
  | .subscript span value i j => do
    let value ← lowerName value
    let i ← lowerExpr i
    let j ← lowerExpr j
    return .subscript (← infoOf span) value i j
  | .call span callee args => do
    let callee ← lowerName callee
    let args ← lowerExprs args
    return .call (← infoOf span) callee args
  | .unary span _ _ => unsupported "UnaryOperation" span
  | .binary span lhs op rhs => do
    let lhs ← lowerExpr lhs
    let rhs ← lowerExpr rhs
    return .binary (← infoOf span) lhs op rhs
  | .compare span operand ops operands => do
    let operands ← lowerExprs operands
    let operand ← lowerExpr operand
    return .compare (← infoOf span) operand ops operands
  | .assign _ parts => do
    lowerParts parts
    return .missing
  | .hole span => unsupported "Statement" span

def lowerExprs : List (Expr Sign) → Task Lowering (List Node)
  | [] => return []
  | e :: es => do
    let first ← lowerExpr e
    let rest ← lowerExprs es
    return first :: rest

/-- Appends the assignments that a part of a chain stands for. -/
def lowerPart : AssignPart Sign → Task Lowering Unit
  | .mk span targets value => do
    let value ← lowerExpr value
    let targets ← lowerExprs targets
    append (.assign (← infoOf span) targets value)

def lowerParts : List (AssignPart Sign) → Task Lowering Unit
  | [] => return ()
  | p :: ps => do
    lowerPart p
    lowerParts ps

end

/-- Parameters with values of their types; a repeated name keeps its first place and its last type. -/
def paramValues (loc : Location) (params : List ParamNode) : List (String × Value) :=
  Scope.byName (params.map fun p => (p.name.value, .int loc ⟨p.type.kind, .unsigned⟩ 0))

/-- Appends an expression that stands as a statement. -/
def appendExpr (node : Node) : Task Lowering Unit :=
  match node with
  | .missing => pure ()
  | node => append node

mutual

def lowerStmt : Stmt Sign → Task Lowering Unit
  | .expr _ body => do appendExpr (← lowerExpr body)
  | .declareNumber span type names value => do
    let value ← lowerNumber type.kind value
    let targets ← lowerNames names
    append (.assign (← infoOf span) targets value)
  | .declareField span element size names value => do
    let info ← infoOf span
    let targets ← lowerNames names
    append (.assign info targets
      (.matrix info (literalType element.kind value) ⟨size.kind, .positive⟩ (literalValue value)))
  | .loop span test body => do
    let body ← collect (lowerStmts body)
    let test ← lowerExpr test
    append (.loop (← infoOf span) test body)
  | .check span test body => do
    let body ← collect (lowerStmts body)
    let test ← lowerExpr test
    append (.condition (← infoOf span) test body)
  | .function span returns name params body => do
    let info ← infoOf span
    let head : FunctionHead :=
      ⟨name, paramValues info.loc params, .int info.loc ⟨returns.kind, .unsigned⟩ 0⟩
    let names := NameTable.ofFunction params body
    let body ← collect (lowerStmts body)
    append (.assign info [.name info name] (.function info head { names } body))
  | .giveBack span value => do
    let value ← lowerExpr value
    append (.giveBack (← infoOf span) value)

def lowerStmts : List (Stmt Sign) → Task Lowering Unit
  | [] => return ()
  | s :: ss => do
    lowerStmt s
    lowerStmts ss

end

/-- Runs a computation on a program's text. -/
def within {α : Type} (text file : String) (act : Task Lowering α) : Run α := ExceptT.mk fun session =>
  let (result, l) := act.run { session, file, lines := Text.splitLines text }
  (result, l.session)

end Lowering

/-- The analysis tree of a program, before evaluation. -/
def Program.lower (text file : String) (p : Program Sign) : Run Module :=
  Lowering.within text file do
    let info ← Lowering.infoOf p.span
    let body ← Lowering.collect (Lowering.lowerStmts p.body)
    return ⟨info, { names := NameTable.ofProgram p }, body⟩

end Labyrinth
