import Labyrinth.Text.Layout

/-!
# Fractions

Fractions with a sign of their own, rounded to the precision of doubles or to decimal digits. A fraction is written
with a fixed number of places, with an exponent, or with the fewest digits that round back to it.
-/

namespace Labyrinth

/-- A fraction with a sign of its own, so that zero may have one. -/
structure Ratio where
  negative : Bool
  num : Nat
  den : Nat
deriving DecidableEq, Repr, Inhabited

/-- The integer nearest to a quotient; of two that are equally near, the even one. -/
def roundDiv (num den : Nat) : Nat :=
  let low := num / den
  let rest := num % den
  if 2 * rest < den then low
  else if den < 2 * rest then low + 1
  else if low % 2 = 0 then low else low + 1

namespace Ratio

/-- Zero, with the sign of positive numbers. -/
def zero : Ratio := ⟨false, 0, 1⟩

def ofInt (n : Int) : Ratio := ⟨n < 0, n.natAbs, 1⟩

/-- A fraction times a power of ten. -/
def timesTen (q : Ratio) (power : Int) : Ratio :=
  { q with num := q.num * Nat.pow 10 power.toNat, den := q.den * Nat.pow 10 (-power).toNat }

/-- Whether two fractions are equal but for their signs. -/
def sameSize (a b : Ratio) : Bool := a.num * b.den == b.num * a.den

/-- The nearest fraction with 53 significant bits that is a multiple of 2 to the power of -1074. -/
def toDouble (q : Ratio) : Ratio :=
  if q.num = 0 || q.den = 0 then q else
  let step (e : Int) : Nat × Nat := (q.num * Nat.pow 2 (-e).toNat, q.den * Nat.pow 2 e.toNat)
  let e : Int := (q.num.log2 : Int) - q.den.log2 - 53
  let (num, den) := step e
  let e := if num ≥ den * Nat.pow 2 53 then e + 1 else e
  let e := max e (-1074)
  let (num, den) := step e
  let bits := roundDiv num den
  ⟨q.negative, bits * Nat.pow 2 e.toNat, Nat.pow 2 (-e).toNat⟩

/-- The difference of two fractions, in the precision of doubles. -/
def difference (a b : Ratio) : Ratio :=
  let signed (q : Ratio) : Int := if q.negative then -q.num else q.num
  let num := signed a * b.den - signed b * a.den
  toDouble ⟨num < 0, num.natAbs, a.den * b.den⟩

/-- The quotient of a natural number and a fraction, in the precision of doubles. -/
def divideInto (q : Ratio) (n : Nat) : Ratio :=
  toDouble ⟨q.negative, n * q.den, q.num⟩

/-- A fraction written with a fixed number of places. -/
def fixed (q : Ratio) (places : Nat) : String :=
  let scaled := roundDiv (q.num * Nat.pow 10 places) q.den
  let sign := if q.negative then "-" else ""
  let whole := toString (scaled / Nat.pow 10 places)
  if places = 0 then sign ++ whole
  else
    let part := toString (scaled % Nat.pow 10 places)
    sign ++ whole ++ "." ++ Text.repeated "0" (places - part.length) ++ part

/-- The power of ten of the leading digit. -/
def leadingPower (q : Ratio) : Int :=
  let guess : Int := (toString q.num).length - (toString q.den).length
  if q.den * Nat.pow 10 guess.toNat ≤ q.num * Nat.pow 10 (-guess).toNat then guess else guess - 1

/-- The digits of a fraction as one number, rounded to `places` digits after the leading one, and the power of
ten of the leading digit. -/
def leadingDigits (q : Ratio) (places : Nat) : Nat × Int :=
  if q.num = 0 then (0, 0) else
  let power := q.leadingPower
  let shift : Int := places - power
  let digits := roundDiv (q.num * Nat.pow 10 shift.toNat) (q.den * Nat.pow 10 (-shift).toNat)
  if digits < Nat.pow 10 (places + 1) then (digits, power) else (digits / 10, power + 1)

/-- The mantissa and the exponent of a fraction written with an exponent of at least two digits. -/
def exponential (q : Ratio) (places : Nat) : String × String :=
  let (digits, power) := q.leadingDigits places
  let digits := (Text.padLeft (places + 1) (toString digits)).map fun c => if c = ' ' then '0' else c
  let exponent := toString power.natAbs
  let exponent := (if power < 0 then "-" else "+") ++ Text.repeated "0" (2 - exponent.length) ++ exponent
  let mantissa := Text.firstChars 1 digits
  (if places = 0 then mantissa else mantissa ++ "." ++ String.ofList (digits.toList.drop 1), exponent)

/-- The digits of a fraction as one number and the power of ten they are multiples of, with the fewest digits that
round back to the fraction in the precision of doubles. The leading digit has a given power, and at least `places`
digits follow it. Of two numbers with as many digits the nearer one goes first. -/
def shortestFrom (q : Ratio) (power : Int) : Nat → Nat → Nat × Int
  | 0, places => q.leadingDigits places
  | fuel + 1, places =>
    let scale : Int := power - places
    let scaled := q.timesTen (-scale)
    let near := roundDiv scaled.num scaled.den
    let low := scaled.num / scaled.den
    let far := if near = low then low + 1 else low
    let roundsBack (digits : Nat) := ((Ratio.ofInt digits).timesTen scale).toDouble.sameSize q
    if roundsBack near then (near, scale)
    else if roundsBack far then (far, scale)
    else shortestFrom q power fuel (places + 1)

/-- The digits of a fraction other than zero that is a double, with the fewest digits that round back to it. Seventeen
digits always do. -/
def shortest (q : Ratio) : Nat × Int := q.shortestFrom q.leadingPower 17 0

/-- A number without the zeros at its end, and how many there were. -/
def trimZeros : Nat → Nat → Nat × Nat
  | 0, n => (n, 0)
  | fuel + 1, n =>
    if n ≠ 0 ∧ n % 10 = 0 then
      let (m, count) := trimZeros fuel (n / 10)
      (m, count + 1)
    else (n, 0)

/-- The notation of a double with the fewest digits: positional with at least one place if the leading digit stands
for 10 to a power from -4 to 15, with an exponent of at least two digits otherwise. -/
def shown (q : Ratio) : String :=
  let sign := if q.negative then "-" else ""
  if q.num = 0 then sign ++ "0.0" else
  let (digits, scale) := q.shortest
  let (digits, trimmed) := trimZeros (toString digits).length digits
  let digits := toString digits
  let scale : Int := scale + trimmed
  -- `power` is the power of the leading digit.
  let power : Int := scale + digits.length - 1
  if -4 ≤ power ∧ power < 16 then
    if 0 ≤ scale then sign ++ digits ++ Text.repeated "0" scale ++ ".0"
    else if power < 0 then sign ++ "0." ++ Text.repeated "0" (-power - 1) ++ digits
    else
      let chars := digits.toList
      let whole := power.toNat + 1
      sign ++ String.ofList (chars.take whole) ++ "." ++ String.ofList (chars.drop whole)
  else
    let chars := digits.toList
    let fraction := if chars.length ≤ 1 then "" else "." ++ String.ofList (chars.drop 1)
    let exponent := toString power.natAbs
    sign ++ String.ofList (chars.take 1) ++ fraction ++ "e" ++ (if power < 0 then "-" else "+") ++
      Text.repeated "0" (2 - exponent.length) ++ exponent

end Ratio

end Labyrinth
