/-!
# Tables of character ranges

A property of characters is given by a table of ranges of code points, both ends included. A table is written down
as the lengths of the runs of characters that do not have the property and that have it, in turns.
-/

namespace Labyrinth.Text

/-- The ranges that runs of characters make up, from a code point on. -/
def rangesOfRuns (first : Nat) : List Nat → List (Nat × Nat)
  | without :: having :: rest =>
    (first + without, first + without + having - 1) :: rangesOfRuns (first + without + having) rest
  | _ => []

/-- Whether a character lies in one of the ranges of a table. -/
def inRanges (table : Array (Nat × Nat)) (c : Char) : Bool :=
  table.any fun range => range.1 ≤ c.toNat && c.toNat ≤ range.2

end Labyrinth.Text
