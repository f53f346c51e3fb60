import Labyrinth.Radix
import Labyrinth.Tree.Chain
import Labyrinth.Token.Scan

/-!
# Writing programs

A tree is written as a sequence of lexemes with blanks between them. Parentheses stand only where the order of
precedence or the way operations associate asks for them: `\` and `/` bind closer than `+` and `-`, those closer
than comparisons, and those closer than assignments; operations of one level associate to the left.
-/

namespace Labyrinth

/-! ### Lexemes -/

/-- A piece of a written text: what it is read as, its characters, and whether it is a number with a sign of its
own in front. -/
structure Lexeme where
  kind : TokenKind
  text : String
  led : Bool := false
deriving DecidableEq, Repr, Inhabited

namespace Lexeme

def name (text : String) : Lexeme := ⟨.name, text, false⟩

def op (text : String) : Lexeme := ⟨.op, text, false⟩

def keyword (k : Keyword) : Lexeme := ⟨.keyword k, k.word, false⟩

def number (value : Int) (led : Bool) : Lexeme :=
  ⟨.number, (Radix.numeral 32 value).toOption.getD "", led⟩

end Lexeme

def textOf (lexemes : List Lexeme) : String :=
  Text.joined " " (lexemes.map Lexeme.text)

def BinOp.spelling : BinOp → String
  | add => "+"
  | sub => "-"
  | mul => "\\"
  | div => "/"

def UnaryOp.spelling : UnaryOp → String
  | pos => "+"
  | neg => "-"

def CmpOp.spelling : CmpOp → String
  | eq => "=="
  | ne => "<>"
  | le => "<="
  | ge => "=>"

def RobotOp.keyword : RobotOp → Keyword
  | move => .go
  | rotateLeft => .rl
  | rotateRight => .rr
  | sonar => .sonar
  | compass => .compass

def NumberKind.keyword : NumberKind → Keyword
  | tiny => .tiny
  | small => .small
  | normal => .normal
  | big => .big

def Sign.lexemes : Sign → List Lexeme
  | positive => [.op "+"]
  | negative => [.op "-"]
  | unsigned => []

/-! ### Expressions -/

/-- How close a binary operation binds. -/
def BinOp.level : BinOp → Nat
  | add | sub => 2
  | mul | div => 3

/-- How close an expression holds together: assignments least, names and calls most. -/
def Expr.level : Expr Sign → Nat
  | .name _ | .robot _ _ | .subscript _ _ _ _ | .call _ _ _ => 5
  | .number n => if n.sign = .unsigned then 5 else 4
  | .unary _ _ _ => 4
  | .binary _ _ op _ => op.level
  | .compare _ _ _ _ => 1
  | .assign _ _ | .hole _ => 0

/-- Lexemes in parentheses, if they are needed. -/
def bracketed (needed : Bool) (lexemes : List Lexeme) : List Lexeme :=
  if needed then .op "(" :: (lexemes ++ [.op ")"]) else lexemes

def NumberNode.written (n : NumberNode Sign) : List Lexeme :=
  n.sign.lexemes ++ [.number n.value (n.sign ≠ .unsigned)]

def Flow.spelling : Flow → String
  | left => "<<"
  | right => ">>"

/-- The order in which the operands of a chain are written, with some of its targets to the left of the value.
A value flows outwards, so targets to the left are written last first. -/
def Chain.laid {α : Type} (count : Nat) (targets : List α) (value : α) : α × List (Flow × α) :=
  match (targets.take count).reverse with
  | [] => (value, (targets.drop count).map (.right, ·))
  | first :: others => (first, (others ++ [value]).map (.left, ·) ++ (targets.drop count).map (.right, ·))

/-- A first operand and others after their arrows. -/
def chained (operands : List Lexeme × List (Flow × List Lexeme)) : List Lexeme :=
  operands.1 ++ (operands.2.map fun operand => .op operand.1.spelling :: operand.2).flatten

mutual

/-- The lexemes of an expression; `left` tells how many targets of a chain stand to the left of the value. -/
def Expr.written (left : Span → Nat) : Expr Sign → List Lexeme
  | .name n => [.name n.value]
  | .number n => n.written
  | .robot _ op => [.keyword op.keyword]
  | .subscript _ n i j => .name n.value :: .op "[" :: (i.written left ++ (j.written left ++ [.op "]"]))
  | .call _ n args => .name n.value :: .op "(" :: ((operandsWritten left 0 args).flatten ++ [.op ")"])
  | .unary _ op e => .op op.spelling :: bracketed (e.level < 4) (e.written left)
  | .binary _ l op r =>
    bracketed (l.level < op.level) (l.written left) ++
      .op op.spelling :: bracketed (r.level < op.level + 1) (r.written left)
  | .compare _ e ops es =>
    bracketed (e.level < 2) (e.written left) ++
      (List.zipWith (fun op e => .op op.spelling :: e) ops (operandsWritten left 2 es)).flatten
  | .assign _ parts => partsWritten left parts
  | .hole _ => []

/-- Operands that have to hold together as close as a level asks. -/
def operandsWritten (left : Span → Nat) (level : Nat) : List (Expr Sign) → List (List Lexeme)
  | [] => []
  | e :: es => bracketed (e.level < level) (e.written left) :: operandsWritten left level es

def partsWritten (left : Span → Nat) : List (AssignPart Sign) → List Lexeme
  | [] => []
  | .mk span targets value :: rest =>
    chained (Chain.laid (left span) (operandsWritten left 0 targets) (value.written left)) ++ partsWritten left rest

end

/-! ### Statements -/

def separated : List (List Lexeme) → List Lexeme
  | [] => []
  | first :: rest => first ++ (rest.map (.op "," :: ·)).flatten

def NameNode.written (n : NameNode) : Lexeme := .name n.value

def TypeNode.written (t : TypeNode) : Lexeme := .keyword t.kind.keyword

def ParamNode.written (p : ParamNode) : List Lexeme := [p.type.written, p.name.written]

mutual

def Stmt.written (left : Span → Nat) : Stmt Sign → List Lexeme
  | .expr _ e => e.written left
  | .declareNumber _ t names n => t.written :: (names.map NameNode.written ++ .op "<<" :: n.written)
  | .declareField _ element size names n =>
    .keyword .field :: element.written :: size.written :: (names.map NameNode.written ++ .op "<<" :: n.written)
  | .loop _ test body =>
    .keyword .untilWord :: (test.written left ++ .keyword .doWord :: (separated (stmtsWritten left body) ++ [.op "."]))
  | .check _ test body =>
    .keyword .check :: (test.written left ++ .keyword .doWord :: (separated (stmtsWritten left body) ++ [.op "."]))
  | .function _ returns name params body =>
    returns.written :: .name name :: (separated (params.map ParamNode.written) ++
      .keyword .begin :: ((separated (stmtsWritten left body) ++ [.op "."]) ++ [.keyword .endWord]))
  | .giveBack _ value => .keyword .returnWord :: value.written left

def stmtsWritten (left : Span → Nat) : List (Stmt Sign) → List (List Lexeme)
  | [] => []
  | s :: ss => s.written left :: stmtsWritten left ss

end

/-- A group of statements, with commas between them and a full stop at the end. -/
def groupWritten (left : Span → Nat) (body : List (Stmt Sign)) : List Lexeme :=
  separated (stmtsWritten left body) ++ [.op "."]

/-- The text of a program that consists of groups of statements. -/
def writeProgram (left : Span → Nat) (groups : List (List (Stmt Sign))) : String :=
  textOf (groups.map (groupWritten left)).flatten

/-! ### What can be written -/

/-- A name that is read as a name. -/
def NameNode.Writable (n : NameNode) : Prop :=
  n.span.recovered = false ∧ Word.kind? n.value.toList = some .name

/-- A literal that some type can represent. -/
def NumberNode.Writable (n : NumberNode Sign) : Prop :=
  n.span.recovered = false ∧ 0 ≤ n.value ∧ n.value ≤ 32767

def TypeNode.Writable (t : TypeNode) : Prop := t.span.recovered = false

def ParamNode.Writable (p : ParamNode) : Prop :=
  p.span.recovered = false ∧ p.type.Writable ∧ p.name.Writable

/-- Expressions that can stand side by side: all but the first start with a name, a number or a command. -/
def Juxtaposed (left : Span → Nat) (es : List (Expr Sign)) : Prop :=
  ∀ e ∈ es.tail, ∃ first rest, e.written left = first :: rest ∧ first.kind ≠ .op

/-- Whether a literal has no sign. -/
def Expr.isUnsigned : Expr Sign → Bool
  | .number n => n.sign = .unsigned
  | _ => false

mutual

/-- An expression that has a written form. A sign in front of an unsigned literal belongs to the literal, and
parentheses hold no assignment. -/
def Expr.Writable (left : Span → Nat) : Expr Sign → Prop
  | .name n => n.Writable
  | .number n => n.Writable
  | .robot span _ => span.recovered = false
  | .subscript span n i j =>
    span.recovered = false ∧ n.Writable ∧ i.Writable left ∧ j.Writable left ∧ Juxtaposed left [i, j]
  | .call span n args => span.recovered = false ∧ n.Writable ∧ ExprsWritable left 0 args ∧ Juxtaposed left args
  | .unary span _ e => span.recovered = false ∧ e.Writable left ∧ 1 ≤ e.level ∧ e.isUnsigned = false
  | .binary span l _ r =>
    span.recovered = false ∧ (l.Writable left ∧ 1 ≤ l.level) ∧ r.Writable left ∧ 1 ≤ r.level
  | .compare span e ops es =>
    span.recovered = false ∧ (e.Writable left ∧ 1 ≤ e.level) ∧ ExprsWritable left 1 es ∧
      ops.length = es.length ∧ es ≠ []
  | .assign span parts => span.recovered = false ∧ PartsWritable left parts
  | .hole _ => False

/-- Expressions that have written forms and hold together at least as close as a level. -/
def ExprsWritable (left : Span → Nat) (level : Nat) : List (Expr Sign) → Prop
  | [] => True
  | e :: es => (e.Writable left ∧ level ≤ e.level) ∧ ExprsWritable left level es

/-- A single part that assigns one value to at least one target. -/
def PartsWritable (left : Span → Nat) : List (AssignPart Sign) → Prop
  | [.mk span targets value] =>
    span.recovered = false ∧ (ExprsWritable left 0 targets ∧ targets ≠ [] ∧ ∀ e ∈ targets, e.isTarget = true) ∧
      value.Writable left ∧ 1 ≤ value.level
  | _ => False

end

mutual

/-- A statement that has a written form. -/
def Stmt.Writable (left : Span → Nat) : Stmt Sign → Prop
  | .expr span e => span.recovered = false ∧ e.Writable left
  | .declareNumber span t names n =>
    span.recovered = false ∧ t.Writable ∧ names ≠ [] ∧ (∀ name ∈ names, name.Writable) ∧ n.Writable
  | .declareField span element size names n =>
    span.recovered = false ∧ element.Writable ∧ size.Writable ∧ names ≠ [] ∧ (∀ name ∈ names, name.Writable) ∧
      n.Writable
  | .loop span test body => span.recovered = false ∧ test.Writable left ∧ StmtsWritable left body
  | .check span test body => span.recovered = false ∧ test.Writable left ∧ StmtsWritable left body
  | .function span returns name params body =>
    span.recovered = false ∧ returns.Writable ∧ Word.kind? name.toList = some .name ∧
      (∀ p ∈ params, p.Writable) ∧ StmtsWritable left body
  | .giveBack span value => span.recovered = false ∧ value.Writable left

def StmtsWritable (left : Span → Nat) : List (Stmt Sign) → Prop
  | [] => True
  | s :: ss => s.Writable left ∧ StmtsWritable left ss

end

end Labyrinth
