import Labyrinth.Tree.Datum

/-!
# Mentions

The names, numbers and functions that a tree mentions, in the order of its parts.
-/

namespace Labyrinth

/-- What a tree can mention. -/
inductive Mention where
  | name (s : String)
  | number (n : Int)
  | function (name : String)
deriving DecidableEq, Repr, Inhabited

def NameNode.mention (n : NameNode) : Mention := .name n.value

def NumberNode.mention (n : NumberNode Sign) : Mention := .number n.value

mutual

/-- What an expression mentions. -/
def Expr.mentions : Expr Sign → List Mention
  | .name n => [n.mention]
  | .number n => [n.mention]
  | .robot _ _ => []
  | .subscript _ value i j => value.mention :: i.mentions ++ j.mentions
  | .call _ callee args => callee.mention :: exprMentions args
  | .unary _ _ operand => operand.mentions
  | .binary _ lhs _ rhs => lhs.mentions ++ rhs.mentions
  | .compare _ operand _ operands => operand.mentions ++ exprMentions operands
  | .assign _ parts => partMentions parts
  | .hole _ => []

def exprMentions : List (Expr Sign) → List Mention
  | [] => []
  | e :: es => e.mentions ++ exprMentions es

def AssignPart.mentions : AssignPart Sign → List Mention
  | .mk _ targets value => exprMentions targets ++ value.mentions

def partMentions : List (AssignPart Sign) → List Mention
  | [] => []
  | p :: ps => p.mentions ++ partMentions ps

end

mutual

/-- What a statement mentions; the inside of functions counts only if asked for. -/
def Stmt.mentions (deep : Bool) : Stmt Sign → List Mention
  | .expr _ body => body.mentions
  | .declareNumber _ _ names value => names.map NameNode.mention ++ [value.mention]
  | .declareField _ _ _ names value => names.map NameNode.mention ++ [value.mention]
  | .loop _ test body => test.mentions ++ stmtMentions deep body
  | .check _ test body => test.mentions ++ stmtMentions deep body
  | .function _ _ name params body =>
    .function name ::
      if deep then params.map (fun p => p.name.mention) ++ stmtMentions deep body else []
  | .giveBack _ value => value.mentions

def stmtMentions (deep : Bool) : List (Stmt Sign) → List Mention
  | [] => []
  | s :: ss => s.mentions deep ++ stmtMentions deep ss

end

mutual

/-- What the trees inside a value mention. -/
def Datum.mentions (deep : Bool) : Datum → List Mention
  | .program tree => stmtMentions deep tree.body
  | .list items => datumMentions deep items
  | .tuple items => datumMentions deep items
  | .plain _ => []

def datumMentions (deep : Bool) : List Datum → List Mention
  | [] => []
  | d :: ds => d.mentions deep ++ datumMentions deep ds

end

end Labyrinth
