import Labyrinth.Tree.Shape

/-!
# Data

Values that can be laid out like trees: programs, sequences, and plain values.
-/

namespace Labyrinth

/-- A value that can be laid out. -/
inductive Datum where
  | program (tree : Program Sign)
  | list (items : List Datum)
  | tuple (items : List Datum)
  | plain (value : Plain)
deriving Inhabited

namespace Datum

mutual

/-- A plain value, with its sequences as sequences that can be laid out. -/
def ofPlain : Plain → Datum
  | .list items => .list (ofPlains items)
  | .tuple items => .tuple (ofPlains items)
  | value => .plain value

def ofPlains : List Plain → List Datum
  | [] => []
  | value :: values => ofPlain value :: ofPlains values

end

mutual

def shape : Datum → Shape
  | .program tree => tree.shape
  | .list items => .list (shapes items)
  | .tuple items => .tuple (shapes items)
  | .plain value => .plain value.shown

def shapes : List Datum → List Shape
  | [] => []
  | d :: ds => d.shape :: shapes ds

end

/-- The layout of a value, which has to be a tree or a sequence. -/
def dump (style : DumpStyle) : Datum → Except Fault String
  | .plain value => .error (.wrongKind s!"expected AST, got {Text.quoted value.kind}")
  | d => .ok (d.shape.dump style)

end Datum

end Labyrinth
