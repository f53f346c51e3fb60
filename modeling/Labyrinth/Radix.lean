import Labyrinth.Fault
import Labyrinth.Text.Numeral

/-!
# Positional notation

The digits of an integer in a base. Division rounds down, so in a negative base the digits are negative or
zero. A number has finitely many digits in every base below -1, and in a base above 1 unless it is negative.
-/

namespace Labyrinth.Radix

/-- Puts the digits of a number in front of those found already, for at most `fuel` digits. -/
def digitsFrom (base : Int) : Nat → Int → List Int → Except Fault (List Int)
  | 0, x, found => if x = 0 then .ok found else .error .endless
  | fuel + 1, x, found =>
    if x = 0 then .ok found else digitsFrom base fuel (x.fdiv base) (x.fmod base :: found)

/-- More digits than a number with finitely many digits can have. -/
def digitBound (x : Int) : Nat := 2 * x.natAbs.log2 + 4

/-- The digits of a number, most significant first; zero has none. -/
def digits (base x : Int) : Except Fault (List Int) :=
  if x = 0 then .ok []
  else if base = 0 then .error .zeroDivision
  else digitsFrom base (digitBound x) x []

/-- The usual digits. -/
def alphabet : String := "0123456789ABCDEFGHIJKLMNOPQRSTUVWXYZ"

/-- The character for a digit. Negative digits count from the end of the alphabet. -/
def digitChar (alphabet : String) (digit : Int) : Except Fault Char :=
  let chars := alphabet.toList
  let index := if digit < 0 then digit + chars.length else digit
  if index < 0 then .error .charOutOfRange
  else match chars.drop index.toNat with
    | c :: _ => .ok c
    | [] => .error .charOutOfRange

/-- The characters for digits. -/
def digitChars (alphabet : String) : List Int → Except Fault (List Char)
  | [] => .ok []
  | d :: ds =>
    match digitChar alphabet d with
    | .error cause => .error cause
    | .ok c => (digitChars alphabet ds).map (c :: ·)

/-- A number written in a base; zero is written as `0` whatever the alphabet. -/
def numeral (base x : Int) (alphabet : String := alphabet) : Except Fault String :=
  match digits base x with
  | .error cause => .error cause
  | .ok [] => .ok "0"
  | .ok ds => (digitChars alphabet ds).map String.ofList

/-- The longest decimal numeral that is read or written, in digits. -/
def longestNumeral : Nat := 4300

/-- Reads a decimal numeral. Its length is judged before what follows the digits. -/
def readDecimal (text : String) : Except Fault Int :=
  let count := Text.leadingCount text
  if count > longestNumeral then .error (.longNumeral count)
  else match Text.readInt? 10 text with
    | some value => .ok value
    | none => .error (.badNumeral 10 text)

/-- Whether a number has a decimal numeral that is short enough to be written. -/
def isWritable (n : Int) : Bool := (toString n.natAbs).length ≤ longestNumeral

def writeDecimal (n : Int) : Except Fault String :=
  if isWritable n then .ok (toString n) else .error .longResult

end Labyrinth.Radix
