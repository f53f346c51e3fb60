import Labyrinth.Text.Ranges

/-!
# Blanks

The characters that count as white space: the separators of Unicode 14 and the controls that move the
writing position or separate records.
-/

namespace Labyrinth.Text

/-- The white space characters. -/
def blankRanges : Array (Nat × Nat) := #[
  (0x9, 0xd), (0x1c, 0x20), (0x85, 0x85), (0xa0, 0xa0), (0x1680, 0x1680), (0x2000, 0x200a), (0x2028, 0x2029),
  (0x202f, 0x202f), (0x205f, 0x205f), (0x3000, 0x3000)]

def isBlank (c : Char) : Bool :=
  inRanges blankRanges c

/-- Whether a text is white space throughout, and not empty. -/
def isBlankText (text : String) : Bool :=
  !text.isEmpty && text.toList.all isBlank

/-- A text without the white space at its two ends. -/
def strip (text : String) : String :=
  String.ofList ((text.toList.dropWhile isBlank).reverse.dropWhile isBlank).reverse

end Labyrinth.Text
