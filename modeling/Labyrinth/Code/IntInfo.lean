import Labyrinth.Value.Type

/-!
# Number types in C

Every width stands for two C types, a signed one and an unsigned one, and for two ranges of numbers. The C
types are wider than the ranges.
-/

namespace Labyrinth

/-- What a width means in C. -/
structure IntInfo where
  name : String
  bits : Int
  /-- The signed C type; the unsigned one has a prefix. -/
  ctype : String
  /-- The start of the conversion specification for printing. -/
  format : String
  /-- Whether there are negative numbers at all. -/
  canBeSigned : Bool
deriving DecidableEq, Repr, Inhabited

namespace IntInfo

/-- The least and the greatest signed number of some bits. One bit has no room for a sign. -/
def signedRange (bits : Int) : Int × Int :=
  if bits ≤ 0 then (0, 0)
  else if bits = 1 then (0, 1)
  else (-(Int.pow 2 (bits - 1).toNat), Int.pow 2 (bits - 1).toNat - 1)

/-- The least and the greatest unsigned number of some bits. -/
def unsignedRange (bits : Int) : Except Fault (Int × Int) :=
  if bits < 0 then .error (.badValue "negative shift count")
  else .ok (0, Int.pow 2 bits.toNat - 1)

/-- Widths by name: of several with one name the last counts, at the place of the first. -/
def byName (infos : List IntInfo) : List IntInfo :=
  infos.foldl (fun done info =>
    if done.any fun other => other.name == info.name then
      done.map fun other => if other.name = info.name then info else other
    else done ++ [info]) []

/-- The four widths of the language. -/
def standard : List IntInfo := [
  ⟨"tiny", 1, "int8_t", "%hh", true⟩,
  ⟨"small", 5, "int8_t", "%hh", true⟩,
  ⟨"normal", 10, "int16_t", "%h", true⟩,
  ⟨"big", 15, "int16_t", "%h", true⟩]

end IntInfo

namespace NumberKind

/-- How many bits a number of a width has. -/
def bits : NumberKind → Nat
  | tiny => 1
  | small => 5
  | normal => 10
  | big => 15

/-- How many bits the C type of a width has. -/
def storage : NumberKind → Nat
  | tiny => 8
  | small => 8
  | normal => 16
  | big => 16

end NumberKind

namespace IntType

def minValue (t : IntType) : Int :=
  if t.sign.isSigned then (IntInfo.signedRange t.kind.bits).1 else 0

def maxValue (t : IntType) : Int :=
  if t.sign.isSigned then (IntInfo.signedRange t.kind.bits).2 else Int.pow 2 t.kind.bits - 1

/-- The number of a type that is nearest to a number. -/
def clamp (t : IntType) (n : Int) : Int :=
  max (min n t.maxValue) t.minValue

/-- What is left of a number when it is stored in the C type of a number type. -/
def store (t : IntType) (n : Int) : Int :=
  if t.sign.isSigned then Int.bmod n (Nat.pow 2 t.kind.storage) else n % Int.pow 2 t.kind.storage

/-- The number type with a name. -/
def ofName? (name : String) : Option IntType :=
  all.find? fun t => t.name == name

end IntType

end Labyrinth
