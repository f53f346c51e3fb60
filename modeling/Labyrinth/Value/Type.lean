import Labyrinth.Tree.Shape

/-!
# Types of values

A number has a width and a sign; a field has the type of its elements and the type of its indices. A declared
field counts its indices from zero, and its index type carries a mark of its own for that, which behaves like
a sign.
-/

namespace Labyrinth

/-- Whether a number type admits negative numbers. -/
inductive Signedness where
  | signed
  | unsigned
  /-- The mark of the index type of a declared field. It counts as signed. -/
  | positive
deriving DecidableEq, Repr, Inhabited

namespace Signedness

/-- Signed or unsigned. -/
def ofBool (b : Bool) : Signedness := if b then signed else unsigned

/-- Whether the name of a type stands without "unsigned". -/
def isSigned : Signedness → Bool
  | unsigned => false
  | _ => true

def shown : Signedness → String
  | signed => "True"
  | unsigned => "False"
  | positive => Sign.positive.shown

/-- Unsigned comes before signed. -/
def rank : Signedness → Nat
  | unsigned => 0
  | _ => 1

end Signedness

structure IntType where
  kind : NumberKind
  sign : Signedness := .unsigned
deriving DecidableEq, Repr, Inhabited

namespace NumberKind

/-- The word for a width in names. -/
def word (k : NumberKind) : String := k.name.toLower

end NumberKind

namespace IntType

def name (t : IntType) : String :=
  (if t.sign.isSigned then "" else "unsigned_") ++ t.kind.word

def shown (t : IntType) : String :=
  s!"IntType(kind={t.kind.shown}, signed={t.sign.shown})"

/-- Whether a type comes before another: by width, then by sign. -/
def before (a b : IntType) : Bool :=
  a.kind.rank < b.kind.rank || (a.kind.rank == b.kind.rank && a.sign.rank < b.sign.rank)

/-- The type of an operation on two numbers: the wider one, and of equal widths the signed one. -/
def join (a b : IntType) : IntType :=
  if a.before b then b else a

/-- All number types that a program can declare. -/
def all : List IntType :=
  NumberKind.all.flatMap fun kind => [⟨kind, .signed⟩, ⟨kind, .unsigned⟩]

end IntType

inductive ValueType where
  | int (t : IntType)
  | matrix (item index : IntType)
  | module
  | function
deriving DecidableEq, Repr, Inhabited

namespace ValueType

def name : ValueType → String
  | int t => t.name
  | matrix item _ => "matrix_" ++ item.name
  | module => "module"
  | function => "function"

/-- The record of a type. -/
def shown : ValueType → String
  | int t => t.shown
  | matrix item index => s!"MatrixType(item_type={item.shown}, index_type={index.shown})"
  | module => "ModuleType()"
  | function => "FunctionType()"

/-- Whether values of a type live in variables. -/
def isVariable : ValueType → Bool
  | function => false
  | _ => true

end ValueType

/-- A type put together freely, which need not make sense. -/
inductive TypeSketch where
  /-- A type that says nothing. -/
  | base
  | proper (t : ValueType)
  /-- A number of a width that does not exist. -/
  | oddInt (kind : Plain) (sign : Signedness)
  | matrixOf (item index : TypeSketch)
deriving Inhabited

namespace TypeSketch

/-- The name of a type, if it makes enough sense to have one. -/
def name : TypeSketch → Except Fault String
  | base => .error .notImplemented
  | proper t => .ok t.name
  | oddInt kind _ => .error (.assertion s!"Unknown number kind: {kind.printed}")
  | matrixOf item _ => do return "matrix_" ++ (← item.name)

end TypeSketch

end Labyrinth
