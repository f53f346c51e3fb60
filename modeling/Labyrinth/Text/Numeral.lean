import Labyrinth.Text.Blank

/-!
# Numerals

Reading an integer written in a base from 2 to 36: blanks around it, one sign, and digits of any script, with
single underscores allowed between digits. Writing goes through an alphabet of digits.
-/

namespace Labyrinth.Text

/-- The zeros of the decimal digits of Unicode 14; the other nine digits follow each of them. -/
def decimalZeros : Array Nat := #[
  
  48,1632,1776,1984,2406,2534,2662,2790,2918,3046,3174,3302,3430,3558,3664,3792,3872,4160,4240,6112,6160,6470,6608,6784,6800,6992,7088,7232,7248,42528,43216,43264,43472,43504,43600,44016,65296,66720,68912,69734,69872,69942,70096,70384,70736,70864,71248,71360,71472,71904,72016,72784,73040,73120,92768,92864,93008,120782,120792,120802,120812,120822,123200,123632,125264,130032]

/-- The value of a decimal digit of any script. -/
def decimalValue? (c : Char) : Option Nat :=
  (decimalZeros.find? fun first => first ≤ c.toNat && c.toNat < first + 10).map fun first => c.toNat - first

/-- The value of a digit in bases up to 36: decimal digits, then the letters in either case. -/
def digitValue? (c : Char) : Option Nat :=
  if 'a' ≤ c ∧ c ≤ 'z' then some (c.toNat - 'a'.toNat + 10)
  else if 'A' ≤ c ∧ c ≤ 'Z' then some (c.toNat - 'A'.toNat + 10)
  else decimalValue? c

/-- The white space that may stand around a numeral. Among the first 128 characters only the blank and the
five controls from tab to carriage return count. -/
def isNumeralBlank (c : Char) : Bool :=
  if c.toNat < 127 then c == ' ' || (9 ≤ c.toNat && c.toNat ≤ 13) else isBlank c

/-- Reads digits and single underscores between them up to the end; `afterDigit` tells whether an underscore
may stand next. -/
def readDigits? (base : Nat) (value : Nat) (afterDigit : Bool) : List Char → Option Nat
  | [] => if afterDigit then some value else none
  | c :: rest =>
    if c = '_' then
      if afterDigit then readDigits? base value false rest else none
    else match digitValue? c with
      | some digit => if digit < base then readDigits? base (value * base + digit) true rest else none
      | none => none

/-- The integer that a text writes in a base, if it does. -/
def readInt? (base : Nat) (text : String) : Option Int :=
  let chars := text.toList.dropWhile isNumeralBlank
  let chars := (chars.reverse.dropWhile isNumeralBlank).reverse
  match chars with
  | '+' :: digits => (readDigits? base 0 false digits).map Int.ofNat
  | '-' :: digits => (readDigits? base 0 false digits).map fun value => -Int.ofNat value
  | digits => (readDigits? base 0 false digits).map Int.ofNat

/-- How many decimal digits a text starts with, after blanks and one sign. Single underscores may stand between
them; a start with any other underscore counts as none. What follows the last digit does not matter. -/
def leadingCount (text : String) : Nat :=
  let unsigned := match text.toList.dropWhile isNumeralBlank with
    | '+' :: rest => rest
    | '-' :: rest => rest
    | chars => chars
  let start := unsigned.takeWhile fun c => c == '_' || (decimalValue? c).isSome
  if (readDigits? 10 0 false start).isSome then (start.filter (· != '_')).length else 0

end Labyrinth.Text
