import Labyrinth.Fault
import Labyrinth.Ratio

/-!
# Doubles

Numbers in double precision: fractions of 53 significant bits, the two infinities, and what is no number.
-/

namespace Labyrinth

inductive Double where
  | finite (value : Ratio)
  | infinite (negative : Bool)
  | notNumber
deriving DecidableEq, Repr, Inhabited

namespace Double

/-- The double nearest to a fraction; it is infinite from 2 to the power of 1024 on. -/
def ofRatio (q : Ratio) : Double :=
  let rounded := q.toDouble
  if rounded.den * Nat.pow 2 1024 ≤ rounded.num then .infinite q.negative else .finite rounded

/-- The double nearest to `mantissa / 10 ^ places`. -/
def ofDecimal (negative : Bool) (mantissa places : Nat) : Double := ofRatio ⟨negative, mantissa, Nat.pow 10 places⟩

/-- The double nearest to an integer, which has to be finite. -/
def ofInt (n : Int) : Except Fault Double :=
  match ofRatio (Ratio.ofInt n) with
  | .finite q => .ok (.finite q)
  | _ => .error (.overflow "int too large to convert to float")

def whole : Double → Except Fault Int
  | finite q => .ok (if q.negative then -(q.num / q.den : Nat) else (q.num / q.den : Nat))
  | infinite _ => .error (.overflow "cannot convert float infinity to integer")
  | notNumber => .error (.badValue "cannot convert float NaN to integer")

def isZero : Double → Bool
  | finite q => q.num == 0
  | _ => false

def isNegative : Double → Bool
  | finite q => q.negative
  | infinite negative => negative
  | notNumber => false

def shown : Double → String
  | finite q => q.shown
  | infinite negative => if negative then "-inf" else "inf"
  | notNumber => "nan"

end Double

end Labyrinth
