import Labyrinth.Code.IntInfo

/-!
# Arithmetic operators in C

The body of each arithmetic operator is a small piece of C over `lhs`, `rhs` and `result`. It can be written
out and it can be run: arithmetic and comparisons work on C's `int`, and storing into `result` drops the bits
that its type has no room for.
-/

namespace Labyrinth

namespace BinOp

/-- The word for an operation in the names of its operators. -/
def word (op : BinOp) : String := op.name.toLower

def symbol : BinOp → String
  | add => "+"
  | sub => "-"
  | mul => "*"
  | div => "/"

/-- The exact result of an operation on integers; a quotient is cut off. -/
def exact : BinOp → Int → Int → Int
  | add, a, b => a + b
  | sub, a, b => a - b
  | mul, a, b => a * b
  | div, a, b => a.tdiv b

end BinOp

namespace CmpOp

/-- The word for a comparison in the names of its operators. -/
def word (op : CmpOp) : String := op.name.toLower

def symbol : CmpOp → String
  | eq => "=="
  | ne => "!="
  | le => "<="
  | ge => ">="

def holds : CmpOp → Int → Int → Bool
  | eq, a, b => a == b
  | ne, a, b => a != b
  | le, a, b => a ≤ b
  | ge, a, b => a ≥ b

end CmpOp

namespace Operator

/-- What the body of an operator can refer to. -/
inductive Term where
  | lhs | rhs | result | least | greatest | zero
  /-- The bits in which the operands differ. -/
  | difference
deriving DecidableEq, Repr, Inhabited

/-- What the body of an operator can ask. -/
inductive Test where
  | less (a b : Term)
  | greater (a b : Term)
  | atLeast (a b : Term)
  | equal (a b : Term)
  /-- Stores what fits of the exact result, and tells whether something was lost. -/
  | overflow (op : BinOp)
deriving DecidableEq, Repr, Inhabited

/-- One simple step. -/
inductive Move where
  | set (t : Term)
  | compute (op : BinOp)
  | finish (t : Term)
deriving DecidableEq, Repr, Inhabited

/-- What stands in a branch. -/
inductive Branch where
  | one (m : Move)
  /-- Two steps to choose from, on a line each. -/
  | choose (test : Test) (yes no : Move)
  /-- The same, in a paragraph of its own. -/
  | chooseApart (test : Test) (yes no : Move)
deriving DecidableEq, Repr, Inhabited

/-- A paragraph of a body. -/
inductive Paragraph where
  | move (m : Move)
  /-- Branches, of which the first one whose test holds is taken; `spread` sets them apart by empty lines. -/
  | branches (spread : Bool) (list : List (Test × Branch))
deriving DecidableEq, Repr, Inhabited

abbrev Body := List Paragraph

/-- Branches that keep a result between bounds. -/
def tooSmall : Test × Branch := (.less .result .least, .one (.set .least))
def tooLarge : Test × Branch := (.greater .result .greatest, .one (.set .greatest))

/-- The body of the operator for an operation on numbers of one type. -/
def bodyOf (op : BinOp) (signed : Bool) : Body :=
  match op, signed with
  | .add, true => [.move (.compute .add), .branches false [tooSmall, tooLarge]]
  | .add, false => [.move (.compute .add), .branches false [tooLarge]]
  | .sub, true => [.move (.compute .sub), .branches false [tooSmall, tooLarge]]
  | .sub, false => [.branches false [(.overflow .sub, .one (.set .least))]]
  | .mul, true =>
    [.branches true
      [(.overflow .mul, .chooseApart (.atLeast .difference .zero) (.set .greatest) (.set .least)),
       tooLarge, tooSmall]]
  | .mul, false => [.branches true [(.overflow .mul, .one (.set .greatest)), tooLarge, tooSmall]]
  | .div, _ =>
    [.branches false
      [(.equal .rhs .zero, .choose (.atLeast .lhs .zero) (.finish .greatest) (.finish .least))],
     .move (.compute .div)]

/-! ## Writing -/

/-- A term in C; the type is known by its name. -/
def Term.text (type : String) : Term → String
  | .lhs => "lhs"
  | .rhs => "rhs"
  | .result => "result"
  | .least => s!"slabes_min_value_{type}"
  | .greatest => s!"slabes_max_value_{type}"
  | .zero => "0"
  | .difference => "(lhs ^ rhs)"

def Test.text (type : String) : Test → String
  | .less a b => s!"{a.text type} < {b.text type}"
  | .greater a b => s!"{a.text type} > {b.text type}"
  | .atLeast a b => s!"{a.text type} >= {b.text type}"
  | .equal a b => s!"{a.text type} == {b.text type}"
  | .overflow op => s!"ckd_{op.word}(&result, lhs, rhs)"

/-- A step in C, without the semicolon. -/
def Move.text (type : String) : Move → String
  | .set t => s!"result = {t.text type}"
  | .compute op => s!"result = lhs {op.symbol} rhs"
  | .finish t => s!"return {t.text type}"

def Branch.text (type : String) : Branch → String
  | .one m => s!"    {m.text type};\n"
  | .choose test yes no =>
    s!"    if ({test.text type}) {yes.text type};\n    else {no.text type};\n"
  | .chooseApart test yes no =>
    s!"    \nif ({test.text type}) {yes.text type};\nelse {no.text type};\n;\n"

def branchText (type : String) (entry : Test × Branch) : String :=
  s!"if ({entry.1.text type}) \x7b\n" ++ entry.2.text type ++ "\x7d\n"

def Paragraph.text (type : String) : Paragraph → String
  | .move m => s!"\n{m.text type};\n"
  | .branches spread list =>
    "\n" ++ Text.joined (if spread then "\nelse " else "else ") (list.map (branchText type))

def Body.text (type : String) (body : Body) : String :=
  String.join (body.map (Paragraph.text type))

/-! ## Running -/

/-- What a body works on. -/
structure Memory where
  lhs : Int
  rhs : Int
  result : Int := 0
  /-- What was handed back, once something was. -/
  done : Option Int := none
deriving DecidableEq, Repr, Inhabited

/-- Whether two numbers have different signs decides the sign of the bits in which they differ. -/
def differenceSign (a b : Int) : Int :=
  if (a < 0) = (b < 0) then 0 else -1

def Term.value (type : IntType) (m : Memory) : Term → Int
  | .lhs => m.lhs
  | .rhs => m.rhs
  | .result => m.result
  | .least => type.minValue
  | .greatest => type.maxValue
  | .zero => 0
  | .difference => differenceSign m.lhs m.rhs

/-- The answer to a test, with its effect. -/
def Test.run (type : IntType) (m : Memory) : Test → Bool × Memory
  | .less a b => (a.value type m < b.value type m, m)
  | .greater a b => (a.value type m > b.value type m, m)
  | .atLeast a b => (a.value type m ≥ b.value type m, m)
  | .equal a b => (a.value type m == b.value type m, m)
  | .overflow op =>
    let exact := op.exact m.lhs m.rhs
    (type.store exact != exact, { m with result := type.store exact })

def Move.run (type : IntType) (m : Memory) : Move → Memory
  | .set t => { m with result := type.store (t.value type m) }
  | .compute op => { m with result := type.store (op.exact m.lhs m.rhs) }
  | .finish t => { m with done := some (type.store (t.value type m)) }

def runChoice (type : IntType) (m : Memory) (test : Test) (yes no : Move) : Memory :=
  let (answer, m) := test.run type m
  if answer then yes.run type m else no.run type m

def Branch.run (type : IntType) (m : Memory) : Branch → Memory
  | .one step => step.run type m
  | .choose test yes no => runChoice type m test yes no
  | .chooseApart test yes no => runChoice type m test yes no

/-- Takes the first branch whose test holds. -/
def runBranches (type : IntType) (m : Memory) : List (Test × Branch) → Memory
  | [] => m
  | (test, branch) :: rest =>
    let (answer, m) := test.run type m
    if answer then branch.run type m else runBranches type m rest

/-- Carries a paragraph out, unless something was handed back before. -/
def Paragraph.run (type : IntType) (m : Memory) (p : Paragraph) : Memory :=
  if m.done.isSome then m
  else match p with
    | .move step => step.run type m
    | .branches _ list => runBranches type m list

/-- What an operator hands back. -/
def Body.run (type : IntType) (body : Body) (lhs rhs : Int) : Int :=
  let m := body.foldl (Paragraph.run type) { lhs, rhs }
  m.done.getD m.result

end Operator

namespace IntType

/-- What the operator for an operation hands back on two numbers of one type. -/
def applySame (t : IntType) (op : BinOp) (a b : Int) : Int :=
  (Operator.bodyOf op t.sign.isSigned).run t a b

/-- What the conversion from one number type to another hands back. Between equal widths only the bound that
can be exceeded is looked at, and a type is not converted to itself at all. -/
def convert (source target : IntType) (n : Int) : Int :=
  if source = target then n
  else if source.kind = target.kind then
    if target.sign.isSigned then
      if n > target.maxValue then target.store target.maxValue else target.store n
    else
      if n < target.minValue then target.store target.minValue else target.store n
  else if n > target.maxValue then target.store target.maxValue
  else if n < target.minValue then target.store target.minValue
  else target.store n

/-- The type in which two numbers are combined: the wider one, and of equal widths the right one. -/
def operatorType (a b : IntType) : IntType :=
  if a.kind.rank > b.kind.rank then a else b

/-- What the operator for an operation hands back on numbers of two types. -/
def apply (a b : IntType) (op : BinOp) (m n : Int) : Int :=
  if a = b then a.applySame op m n
  else
    let t := operatorType a b
    t.applySame op (convert a t m) (convert b t n)

def applyCompare (op : CmpOp) (m n : Int) : Int :=
  if op.holds m n then 1 else 0

end IntType

end Labyrinth
