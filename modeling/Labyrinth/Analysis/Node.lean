import Labyrinth.Scope.Basic

/-!
# Analysis trees

The tree that analysis works on. Declarations have become assignments, and every node has room for what is
found out about its value.
-/

namespace Labyrinth

/-- What every node has. -/
structure NodeInfo where
  loc : Location
  /-- What was found out about the value. -/
  value : Option Value := none
deriving Inhabited

/-- The head of a function: its name, its parameters and what it gives back. -/
structure FunctionHead where
  name : String
  params : List (String × Value)
  returns : Value
deriving Inhabited

inductive Node where
  | assign (info : NodeInfo) (targets : List Node) (value : Node)
  | call (info : NodeInfo) (operand : Node) (args : List Node)
  | giveBack (info : NodeInfo) (value : Node)
  | binary (info : NodeInfo) (lhs : Node) (op : BinOp) (rhs : Node)
  | compare (info : NodeInfo) (operand : Node) (ops : List CmpOp) (operands : List Node)
  | subscript (info : NodeInfo) (value index1 index2 : Node)
  | name (info : NodeInfo) (name : String)
  | condition (info : NodeInfo) (test : Node) (body : List Node)
  | loop (info : NodeInfo) (test : Node) (body : List Node)
  | int (info : NodeInfo) (type : IntType) (value : Int)
  | matrix (info : NodeInfo) (item index : IntType) (value : Int)
  | function (info : NodeInfo) (head : FunctionHead) (scope : Scope) (body : List Node)
  /-- A function that the language brings along. -/
  | builtin (f : Value)
  /-- A place where an expression ought to stand and an assignment stood. -/
  | missing
deriving Inhabited

def Value.loc : Value → Location
  | .int loc _ _ => loc
  | .matrix loc _ _ _ => loc
  | .function loc _ _ _ _ => loc
  | .module => .builtin

namespace Node

def info : Node → NodeInfo
  | assign info _ _ => info
  | call info _ _ => info
  | giveBack info _ => info
  | binary info _ _ _ => info
  | compare info _ _ _ => info
  | subscript info _ _ _ => info
  | name info _ => info
  | condition info _ _ => info
  | loop info _ _ => info
  | int info _ _ => info
  | matrix info _ _ _ => info
  | function info _ _ _ => info
  | builtin f => ⟨f.loc, some f⟩
  | missing => default

/-- The function that a function node stands for. -/
def functionValue (loc : Location) (head : FunctionHead) : Value :=
  .function loc .declared head.name (some head.params) head.returns

mutual

/-- Whether no expression is missing in a node. -/
def isWhole : Node → Bool
  | assign _ targets value => areWhole targets && value.isWhole
  | call _ operand args => operand.isWhole && areWhole args
  | giveBack _ value => value.isWhole
  | binary _ lhs _ rhs => lhs.isWhole && rhs.isWhole
  | compare _ operand _ operands => operand.isWhole && areWhole operands
  | subscript _ value i j => value.isWhole && i.isWhole && j.isWhole
  | condition _ test body => test.isWhole && areWhole body
  | loop _ test body => test.isWhole && areWhole body
  | function _ _ _ body => areWhole body
  | missing => false
  | name _ _ => true
  | int _ _ _ => true
  | matrix _ _ _ _ => true
  | builtin _ => true

def areWhole : List Node → Bool
  | [] => true
  | n :: ns => n.isWhole && areWhole ns

end

end Node

/-- An analysed program. -/
structure Module where
  info : NodeInfo
  scope : Scope
  body : List Node
deriving Inhabited

def Module.checkWhole (m : Module) : Except Fault Unit :=
  if Node.areWhole m.body then .ok () else .error (.absent "loc")

end Labyrinth
