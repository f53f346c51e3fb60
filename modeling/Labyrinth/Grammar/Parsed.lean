import Labyrinth.Tree.Chain
import Labyrinth.Tree.Shape

/-!
# Results of rules

What a rule yields: nothing, a token, a part of the tree, or a sequence of such results. Literals carry a
number in place of a sign, the place of the sign in the parser's table, because a sign in front of a literal
is only read after the literal's result may have been remembered.
-/

namespace Labyrinth

/-- The place of a literal's sign in the parser's table. -/
abbrev SignRef := Nat

/-- The result of a rule. -/
inductive Parsed where
  /-- The rule failed. -/
  | nothing
  | token (t : Token)
  | cmpOp (op : CmpOp)
  | expr (e : Expr SignRef)
  | stmt (s : Stmt SignRef)
  | type (t : TypeNode)
  | param (p : ParamNode)
  | program (p : Program SignRef)
  | list (items : List Parsed)
  | tuple (items : List Parsed)
  /-- A node of a class with parts of any kind. No rule makes one. -/
  | node (cls : String) (span : Span) (names : List String) (parts : List Parsed)
deriving Inhabited

namespace Parsed

/-- Whether a result counts as a success: an empty list does not. -/
def succeeds : Parsed → Bool
  | nothing => false
  | list items => !items.isEmpty
  | tuple items => !items.isEmpty
  | _ => true

/-- Whether a rule failed altogether. -/
def isNothing : Parsed → Bool
  | nothing => true
  | _ => false

/-- The shape of a token in a record: the record of the token. -/
def tokenRecord (t : Token) : Except Fault Shape := t.showRecord.map .plain

/-- The shape of a token in a layout: its fields, one after another. -/
def tokenFields (t : Token) : Except Fault Shape :=
  let place (p : Int × Int) : Shape := .tuple [.number p.1, .number p.2]
  .ok (.tuple [.plain (Location.showPlace t.kind.code?), .plain (Text.quoted t.text), place t.start, place t.stop,
    .plain (Text.quoted t.line)])

mutual

/-- The shape of a result, with signs looked up and tokens shaped in a given way. -/
def shape (signs : SignRef → Sign) (tokenShape : Token → Except Fault Shape) : Parsed → Except Fault Shape
  | nothing => .ok (.plain "None")
  | token t => tokenShape t
  | cmpOp op => .ok (.plain op.shown)
  | expr e => .ok (e.mapSign signs).shape
  | stmt s => .ok (s.mapSign signs).shape
  | type t => .ok t.shape
  | param p => .ok p.shape
  | program p => .ok (p.mapSign signs).shape
  | list items => (shapes signs tokenShape items).map .list
  | tuple items => (shapes signs tokenShape items).map .tuple
  | node cls span names parts => (shapes signs tokenShape parts).map (.node cls span names)

def shapes (signs : SignRef → Sign) (tokenShape : Token → Except Fault Shape) :
    List Parsed → Except Fault (List Shape)
  | [] => .ok []
  | p :: ps => do
    let first ← p.shape signs tokenShape
    let rest ← shapes signs tokenShape ps
    return first :: rest

end

/-- The shape of a result of which everything can be written. -/
def writableShape (signs : SignRef → Sign) (tokenShape : Token → Except Fault Shape) (p : Parsed) :
    Except Fault Shape := do
  let shape ← p.shape signs tokenShape
  if shape.isWritable then return shape else .error .longResult

/-- The items of a result that is a sequence. -/
def items : Parsed → List Parsed
  | list items => items
  | tuple items => items
  | _ => []

/-- The class of a result, as it is named in reports. -/
def className : Parsed → String
  | nothing => "NoneType"
  | token _ => "TokenInfo"
  | cmpOp _ => "CmpOp"
  | expr e => e.className
  | stmt s => match (s.mapSign fun _ => Sign.unsigned).shape with
    | .node cls _ _ _ => cls
    | _ => ""
  | type _ => "NumberTypeRef"
  | param _ => "Argument"
  | program _ => "Module"
  | list _ => "list"
  | tuple _ => "tuple"
  | node cls _ _ _ => cls

def stmtSpan : Stmt SignRef → Span
  | .expr span _ => span
  | .declareNumber span _ _ _ => span
  | .declareField span _ _ _ _ => span
  | .loop span _ _ => span
  | .check span _ _ => span
  | .function span _ _ _ _ => span
  | .giveBack span _ => span

/-- The span of a result, if it is a token or a part of the tree. -/
def span? : Parsed → Option Span
  | token t => some (Span.ofToken t)
  | expr e => some e.span
  | stmt s => some (stmtSpan s)
  | type t => some t.span
  | param p => some p.span
  | program p => some p.span
  | node _ span _ _ => some span
  | _ => none

def isTarget : Parsed → Bool
  | expr e => e.isTarget
  | _ => false

instance : ChainOperand Parsed := ⟨fun p => p.span?.getD default, isTarget⟩

/-- The span of a result; a result without one is a fault. -/
def spanOf (p : Parsed) : Except Fault Span :=
  match p.span? with
  | some span => .ok span.asRead
  | none => .error (.noPart s!"'{p.className}' object has no attribute 'lineno'")

end Parsed

end Labyrinth
