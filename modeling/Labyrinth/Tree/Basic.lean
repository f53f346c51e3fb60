import Labyrinth.Token.Basic

/-!
# Syntax trees

The tree of a program. Every node has a span, which also tells whether the node stands in for something that
could not be read. Number literals carry their sign in a type `ς` of its own: a finished tree has `Sign` there,
a tree under construction a reference to a sign that may still be read.
-/

namespace Labyrinth

inductive NumberKind where
  | tiny | small | normal | big
deriving DecidableEq, Repr, Inhabited

/-- The sign written in front of a number. -/
inductive Sign where
  | positive | negative | unsigned
deriving DecidableEq, Repr, Inhabited

inductive BinOp where
  | add | sub | mul | div
deriving DecidableEq, Repr, Inhabited

/-- Signs as operations. -/
inductive UnaryOp where
  | pos | neg
deriving DecidableEq, Repr, Inhabited

inductive CmpOp where
  | eq | ne | le | ge
deriving DecidableEq, Repr, Inhabited

inductive RobotOp where
  | move | rotateLeft | rotateRight | sonar | compass
deriving DecidableEq, Repr, Inhabited

/-- The stretch of a text that a node covers. -/
structure Span where
  start : Int × Int
  stop : Int × Int
  /-- Whether the node stands in for something that could not be read. -/
  recovered : Bool := false
deriving DecidableEq, Repr, Inhabited

namespace Span

def ofToken (t : Token) : Span := ⟨t.start, t.stop, false⟩

def loc (file : String) (s : Span) : Location :=
  ⟨file, s.start.1, s.start.2, some s.stop.1, some s.stop.2⟩

/-- A span whose node stands in for something that could not be read. -/
def asRecovered (s : Span) : Span := { s with recovered := true }

/-- A span whose node was read as it is. -/
def asRead (s : Span) : Span := { s with recovered := false }

end Span

structure NameNode where
  span : Span
  value : String
deriving DecidableEq, Repr, Inhabited

structure TypeNode where
  span : Span
  kind : NumberKind
deriving DecidableEq, Repr, Inhabited

structure NumberNode (ς : Type) where
  span : Span
  value : Int
  sign : ς
deriving DecidableEq, Repr, Inhabited

structure ParamNode where
  span : Span
  type : TypeNode
  name : NameNode
deriving DecidableEq, Repr, Inhabited

mutual

inductive Expr (ς : Type) where
  | name (n : NameNode)
  | number (n : NumberNode ς)
  | robot (span : Span) (op : RobotOp)
  | subscript (span : Span) (value : NameNode) (index1 index2 : Expr ς)
  | call (span : Span) (callee : NameNode) (args : List (Expr ς))
  | unary (span : Span) (op : UnaryOp) (operand : Expr ς)
  | binary (span : Span) (lhs : Expr ς) (op : BinOp) (rhs : Expr ς)
  | compare (span : Span) (operand : Expr ς) (ops : List CmpOp) (operands : List (Expr ς))
  /-- A chain of assignments, split into parts that each assign one value. -/
  | assign (span : Span) (parts : List (AssignPart ς))
  /-- A place where an expression could not be read. -/
  | hole (span : Span)

/-- One value assigned to some targets. -/
inductive AssignPart (ς : Type) where
  | mk (span : Span) (targets : List (Expr ς)) (value : Expr ς)

end

inductive Stmt (ς : Type) where
  | expr (span : Span) (body : Expr ς)
  | declareNumber (span : Span) (type : TypeNode) (names : List NameNode) (value : NumberNode ς)
  | declareField (span : Span) (element size : TypeNode) (names : List NameNode) (value : NumberNode ς)
  | loop (span : Span) (test : Expr ς) (body : List (Stmt ς))
  | check (span : Span) (test : Expr ς) (body : List (Stmt ς))
  | function (span : Span) (returns : TypeNode) (name : String) (params : List ParamNode)
      (body : List (Stmt ς))
  | giveBack (span : Span) (value : Expr ς)

structure Program (ς : Type) where
  span : Span
  body : List (Stmt ς)

instance {ς : Type} : Inhabited (Expr ς) := ⟨.hole default⟩
instance {ς : Type} : Inhabited (AssignPart ς) := ⟨.mk default [] default⟩
instance {ς : Type} : Inhabited (Stmt ς) := ⟨.expr default default⟩
instance {ς : Type} : Inhabited (Program ς) := ⟨⟨default, []⟩⟩

namespace AssignPart

variable {ς : Type}

def span : AssignPart ς → Span
  | mk span _ _ => span

def targets : AssignPart ς → List (Expr ς)
  | mk _ targets _ => targets

def value : AssignPart ς → Expr ς
  | mk _ _ value => value

end AssignPart

namespace Expr

variable {ς τ : Type}

def span : Expr ς → Span
  | name n => n.span
  | number n => n.span
  | robot span _ => span
  | subscript span _ _ _ => span
  | call span _ _ => span
  | unary span _ _ => span
  | binary span _ _ _ => span
  | compare span _ _ _ => span
  | assign span _ => span
  | hole span => span

def className : Expr ς → String
  | name _ => "Name"
  | number _ => "NumericLiteral"
  | robot _ _ => "RobotOperation"
  | subscript _ _ _ _ => "Subscript"
  | call _ _ _ => "Call"
  | unary _ _ _ => "UnaryOperation"
  | binary _ _ _ _ => "BinaryOperation"
  | compare _ _ _ _ => "CompareOperation"
  | assign _ _ => "Assignment"
  | hole _ => "Statement"

def isTarget : Expr ς → Bool
  | name _ => true
  | subscript _ _ _ _ => true
  | _ => false

end Expr

/-- A literal with its sign settled. -/
def NumberNode.mapSign {ς τ : Type} (f : ς → τ) (n : NumberNode ς) : NumberNode τ :=
  ⟨n.span, n.value, f n.sign⟩

mutual

def Expr.mapSign {ς τ : Type} (f : ς → τ) : Expr ς → Expr τ
  | .name n => .name n
  | .number n => .number (n.mapSign f)
  | .robot span op => .robot span op
  | .subscript span value i j => .subscript span value (i.mapSign f) (j.mapSign f)
  | .call span callee args => .call span callee (mapSigns f args)
  | .unary span op operand => .unary span op (operand.mapSign f)
  | .binary span lhs op rhs => .binary span (lhs.mapSign f) op (rhs.mapSign f)
  | .compare span operand ops operands => .compare span (operand.mapSign f) ops (mapSigns f operands)
  | .assign span parts => .assign span (mapPartSigns f parts)
  | .hole span => .hole span

def mapSigns {ς τ : Type} (f : ς → τ) : List (Expr ς) → List (Expr τ)
  | [] => []
  | e :: es => e.mapSign f :: mapSigns f es

def AssignPart.mapSign {ς τ : Type} (f : ς → τ) : AssignPart ς → AssignPart τ
  | .mk span targets value => .mk span (mapSigns f targets) (value.mapSign f)

def mapPartSigns {ς τ : Type} (f : ς → τ) : List (AssignPart ς) → List (AssignPart τ)
  | [] => []
  | p :: ps => p.mapSign f :: mapPartSigns f ps

end

mutual

def Stmt.mapSign {ς τ : Type} (f : ς → τ) : Stmt ς → Stmt τ
  | .expr span body => .expr span (body.mapSign f)
  | .declareNumber span type names value => .declareNumber span type names (value.mapSign f)
  | .declareField span element size names value => .declareField span element size names (value.mapSign f)
  | .loop span test body => .loop span (test.mapSign f) (mapStmtSigns f body)
  | .check span test body => .check span (test.mapSign f) (mapStmtSigns f body)
  | .function span returns name params body => .function span returns name params (mapStmtSigns f body)
  | .giveBack span value => .giveBack span (value.mapSign f)

def mapStmtSigns {ς τ : Type} (f : ς → τ) : List (Stmt ς) → List (Stmt τ)
  | [] => []
  | s :: ss => s.mapSign f :: mapStmtSigns f ss

end

def Program.mapSign {ς τ : Type} (f : ς → τ) (p : Program ς) : Program τ :=
  ⟨p.span, mapStmtSigns f p.body⟩

end Labyrinth
