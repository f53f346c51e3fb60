import Labyrinth.Plain
import Labyrinth.Radix
import Labyrinth.Tree.Basic

/-!
# Shapes of trees

The shape of a value is what its printed forms show: classes with named parts, sequences, and plain texts.
`Shape.dump` lays a shape out, on one line or indented; `Shape.record` writes every class with its span first.
-/

namespace Labyrinth

/-- What the printed forms of a value show. -/
inductive Shape where
  /-- A node of a class: its span, the names of its parts, and the parts. -/
  | node (cls : String) (span : Span) (names : List String) (parts : List Shape)
  | list (items : List Shape)
  | tuple (items : List Shape)
  | number (value : Int)
  /-- Anything else, as it is written. -/
  | plain (text : String)
deriving Inhabited

namespace NumberKind

def name : NumberKind → String
  | tiny => "TINY"
  | small => "SMALL"
  | normal => "NORMAL"
  | big => "BIG"

def rank : NumberKind → Nat
  | tiny => 1
  | small => 2
  | normal => 3
  | big => 4

def all : List NumberKind := [tiny, small, normal, big]

def shown (k : NumberKind) : String := s!"<NumberType.{k.name}: {k.rank}>"

end NumberKind

namespace Sign

def shown : Sign → String
  | positive => "<Signedness.POSITIVE: 1>"
  | negative => "<Signedness.NEGATIVE: 2>"
  | unsigned => "<Signedness.UNSIGNED: 3>"

end Sign

namespace BinOp

def name : BinOp → String
  | add => "ADD"
  | sub => "SUB"
  | mul => "MUL"
  | div => "DIV"

def all : List BinOp := [add, sub, mul, div]

def shown (op : BinOp) : String := s!"<BinOp.{op.name}: {all.idxOf op + 1}>"

end BinOp

namespace UnaryOp

def shown : UnaryOp → String
  | pos => "<UnrOp.POS: 1>"
  | neg => "<UnrOp.NEG: 2>"

end UnaryOp

namespace CmpOp

def name : CmpOp → String
  | eq => "EQ"
  | ne => "NE"
  | le => "LE"
  | ge => "GE"

def all : List CmpOp := [eq, ne, le, ge]

def shown (op : CmpOp) : String := s!"<CmpOp.{op.name}: {all.idxOf op + 1}>"

end CmpOp

namespace RobotOp

def shown : RobotOp → String
  | move => "<RobOp.MOVE: 1>"
  | rotateLeft => "<RobOp.ROT_LEFT: 2>"
  | rotateRight => "<RobOp.ROT_RIGHT: 3>"
  | sonar => "<RobOp.SONAR: 4>"
  | compass => "<RobOp.COMPASS: 5>"

end RobotOp

def NameNode.shape (n : NameNode) : Shape :=
  .node "Name" n.span ["value"] [.plain (Text.quoted n.value)]

def TypeNode.shape (t : TypeNode) : Shape :=
  .node "NumberTypeRef" t.span ["type"] [.plain t.kind.shown]

def NumberNode.shape (n : NumberNode Sign) : Shape :=
  .node "NumericLiteral" n.span ["value", "signedness"] [.number n.value, .plain n.sign.shown]

def ParamNode.shape (p : ParamNode) : Shape :=
  .node "Argument" p.span ["type", "name"] [p.type.shape, p.name.shape]

mutual

def Expr.shape : Expr Sign → Shape
  | .name n => n.shape
  | .number n => n.shape
  | .robot span op => .node "RobotOperation" span ["op"] [.plain op.shown]
  | .subscript span value i j =>
    .node "Subscript" span ["value", "index1", "index2"] [value.shape, i.shape, j.shape]
  | .call span callee args =>
    .node "Call" span ["name", "args"] [callee.shape, .list (exprShapes args)]
  | .unary span op operand =>
    .node "UnaryOperation" span ["op", "operand"] [.plain op.shown, operand.shape]
  | .binary span lhs op rhs =>
    .node "BinaryOperation" span ["lhs", "op", "rhs"] [lhs.shape, .plain op.shown, rhs.shape]
  | .compare span operand ops operands =>
    .node "CompareOperation" span ["operand", "ops", "operands"]
      [operand.shape, .tuple (ops.map fun op => .plain op.shown), .tuple (exprShapes operands)]
  | .assign span parts => .node "Assignment" span ["parts"] [.list (partShapes parts)]
  | .hole span => .node "Statement" span [] []

def exprShapes : List (Expr Sign) → List Shape
  | [] => []
  | e :: es => e.shape :: exprShapes es

def AssignPart.shape : AssignPart Sign → Shape
  | .mk span targets value =>
    .node "BasicAssignment" span ["targets", "value"] [.list (exprShapes targets), value.shape]

def partShapes : List (AssignPart Sign) → List Shape
  | [] => []
  | p :: ps => p.shape :: partShapes ps

end

mutual

def Stmt.shape : Stmt Sign → Shape
  | .expr span body => .node "SingleExpression" span ["body"] [body.shape]
  | .declareNumber span type names value =>
    .node "NumberDeclaration" span ["type", "names", "value"]
      [type.shape, .list (names.map NameNode.shape), value.shape]
  | .declareField span element size names value =>
    .node "ArrayDeclaration" span ["element_type", "size_type", "names", "value"]
      [element.shape, size.shape, .list (names.map NameNode.shape), value.shape]
  | .loop span test body => .node "Until" span ["test", "body"] [test.shape, .list (stmtShapes body)]
  | .check span test body => .node "Check" span ["test", "body"] [test.shape, .list (stmtShapes body)]
  | .function span returns name params body =>
    .node "Function" span ["return_type", "name", "args", "body"]
      [returns.shape, .plain (Text.quoted name), .list (params.map ParamNode.shape), .list (stmtShapes body)]
  | .giveBack span value => .node "Return" span ["value"] [value.shape]

def stmtShapes : List (Stmt Sign) → List Shape
  | [] => []
  | s :: ss => s.shape :: stmtShapes ss

end

def Program.shape (p : Program Sign) : Shape :=
  .node "Module" p.span ["body"] [.list (stmtShapes p.body)]

/-- How a shape is laid out. -/
structure DumpStyle where
  names : Bool := true
  spans : Bool := false
  /-- What one level of indentation is, or nothing to stay on one line. -/
  indent : Option String := none
deriving Inhabited

namespace Span

/-- Names and texts of the parts of a span. -/
def entries (s : Span) : List (String × String) :=
  [("lineno", toString s.start.1), ("col_offset", toString s.start.2), ("end_lineno", toString s.stop.1),
    ("end_col_offset", toString s.stop.2), ("error_recovered", showBool s.recovered)]

/-- The parts of a span as written assignments. -/
def entryTexts (s : Span) : List String :=
  s.entries.map fun (name, text) => s!"{name}={text}"

end Span

namespace Shape

/-- Puts parts between brackets. Up to three simple parts stay on the line, and so does a single part;
otherwise each part gets a line of its own when there is an indentation. The flag tells whether the whole is
simple in turn. -/
def enclose (style : DumpStyle) (level : Int) (opening closing : String) (allSimple : Bool)
    (parts : List String) : String × Bool :=
  if allSimple && parts.length ≤ 3 then
    (opening ++ Text.joined ", " parts ++ closing, parts.isEmpty)
  else if parts.length = 1 then (opening ++ Text.joined "" parts ++ closing, allSimple)
  else match style.indent with
    | none => (opening ++ Text.joined ", " parts ++ closing, false)
    | some indent =>
      let inner := "\n" ++ Text.repeated indent level
      (opening ++ inner ++ Text.joined ("," ++ inner) parts ++ "\n" ++ Text.repeated indent (level - 1) ++
        closing, false)

mutual

/-- Lays a shape out at a level of indentation, and tells whether it is simple. -/
def dumpAt (style : DumpStyle) (level : Int) : Shape → String × Bool
  | .node cls span names parts =>
    let level := if style.spans || parts.length ≥ 2 then level + 1 else level
    let dumped := dumpAll style level parts
    let texts :=
      if style.names then (names.zip dumped).map fun (name, text, _) => s!"{name}={text}"
      else dumped.map Prod.fst
    let texts := if style.spans then texts ++ span.entryTexts else texts
    enclose style level (cls ++ "(") ")" (dumped.all Prod.snd) texts
  | .list items =>
    let level := if items.length ≥ 2 then level + 1 else level
    let dumped := dumpAll style level items
    enclose style level "[" "]" (dumped.all Prod.snd) (dumped.map Prod.fst)
  | .tuple items =>
    let level := if items.length ≥ 2 then level + 1 else level
    let dumped := dumpAll style level items
    enclose style level "(" ")" (dumped.all Prod.snd) (dumped.map Prod.fst)
  | .number value => (toString value, true)
  | .plain text => (text, true)

/-- Lays shapes out at a level of indentation. -/
def dumpAll (style : DumpStyle) (level : Int) : List Shape → List (String × Bool)
  | [] => []
  | s :: ss => dumpAt style level s :: dumpAll style level ss

end

def dump (style : DumpStyle) (s : Shape) : String :=
  (dumpAt style 0 s).1

mutual

/-- The record of a shape: every class with its span first, every part by name. -/
def record : Shape → String
  | .node cls span names parts =>
    let texts := (names.zip (records parts)).map fun (name, text) => s!"{name}={text}"
    cls ++ "(" ++ Text.joined ", " (span.entryTexts ++ texts) ++ ")"
  | .list items => "[" ++ Text.joined ", " (records items) ++ "]"
  | .tuple [item] => "(" ++ record item ++ ",)"
  | .tuple items => "(" ++ Text.joined ", " (records items) ++ ")"
  | .number value => toString value
  | .plain text => text

def records : List Shape → List String
  | [] => []
  | s :: ss => record s :: records ss

end

mutual

/-- Whether every number in a shape is short enough to be written. -/
def isWritable : Shape → Bool
  | .node _ _ _ parts => areWritable parts
  | .list items => areWritable items
  | .tuple items => areWritable items
  | .number value => Radix.isWritable value
  | .plain _ => true

def areWritable : List Shape → Bool
  | [] => true
  | s :: ss => isWritable s && areWritable ss

end

end Shape

end Labyrinth
