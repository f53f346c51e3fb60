import Mathlib
import Labyrinth.Code.Operator

/-!
# Rounding to a type

The numbers of a type are fewer than those of its C type. A number of one type is rounded to another type by the
conversion between them, as long as it is in the range that the conversion is made for. Storing a number does not
round it.
-/

namespace Labyrinth.IntType

variable {s t : IntType} {v : Int}

/-- A number is in the range of a type. -/
def Holds (t : IntType) (v : Int) : Prop :=
  t.minValue ≤ v ∧ v ≤ t.maxValue

/-- A number is in the range of the C type of a type. -/
def Fits (t : IntType) (v : Int) : Prop :=
  if t.sign.isSigned then -2 ^ (t.kind.storage - 1) ≤ v ∧ v < 2 ^ (t.kind.storage - 1)
  else 0 ≤ v ∧ v < 2 ^ t.kind.storage

instance : Decidable (t.Holds v) :=
  inferInstanceAs (Decidable (_ ∧ _))

instance : Decidable (t.Fits v) := by
  unfold Fits
  infer_instance

theorem store_of_fits (h : t.Fits v) : t.store v = v := by
  rw [Fits] at h
  rw [store]
  split
  · next hsigned =>
    rw [if_pos hsigned] at h
    generalize t.kind = k at h ⊢
    cases k <;> exact Int.bmod_eq_of_le (by simpa [NumberKind.storage] using h.1) (by simpa [NumberKind.storage] using h.2)
  · next hsigned =>
    rw [if_neg hsigned] at h
    exact Int.emod_eq_of_lt h.1 h.2

theorem fits_of_holds (h : t.Holds v) : t.Fits v := by
  rw [Holds, minValue, maxValue] at h
  rw [Fits]
  split
  · next hsigned =>
    simp only [hsigned, if_true] at h
    generalize t.kind = k at h ⊢
    cases k <;> simp [IntInfo.signedRange, NumberKind.bits, NumberKind.storage] at h ⊢ <;> omega
  · next hsigned =>
    simp only [hsigned] at h
    generalize t.kind = k at h ⊢
    cases k <;> simp [NumberKind.bits, NumberKind.storage] at h ⊢ <;> omega

/-- The range of a type depends on its width and on whether it is signed, and is not empty. -/
theorem minValue_le_maxValue (t : IntType) : t.minValue ≤ t.maxValue := by
  rw [minValue, maxValue]
  generalize t.kind = k
  cases t.sign.isSigned <;> cases k <;> decide

theorem holds_clamp (t : IntType) (v : Int) : t.Holds (t.clamp v) := by
  have := t.minValue_le_maxValue
  rw [Holds, clamp]
  omega

theorem clamp_eq_self_iff : t.clamp v = v ↔ t.Holds v := by
  constructor
  · intro h
    exact h ▸ t.holds_clamp v
  · intro h
    rw [Holds] at h
    rw [clamp]
    omega

theorem store_of_holds (h : t.Holds v) : t.store v = v :=
  store_of_fits (fits_of_holds h)

theorem store_clamp (t : IntType) (v : Int) : t.store (t.clamp v) = t.clamp v :=
  store_of_holds (t.holds_clamp v)

/-- Between types of one width only the bound that can be exceeded has to be looked at. -/
theorem range_of_kind_eq (h : s.kind = t.kind) :
    (t.sign.isSigned = true → t.minValue ≤ s.minValue) ∧ (t.sign.isSigned = false → s.maxValue ≤ t.maxValue) := by
  rw [minValue, maxValue, minValue, maxValue, h]
  generalize t.kind = k
  cases s.sign.isSigned <;> cases t.sign.isSigned <;> cases k <;> decide

/-- A number in the range of its type is rounded by the conversion to another type. -/
theorem convert_eq_clamp (h : s.Holds v) : s.convert t v = t.clamp v := by
  have hrange := t.minValue_le_maxValue
  have hmax : t.store t.maxValue = t.maxValue := store_of_holds ⟨hrange, Int.le_refl _⟩
  have hmin : t.store t.minValue = t.minValue := store_of_holds ⟨Int.le_refl _, hrange⟩
  rw [convert]
  split
  · next heq =>
    subst heq
    exact (clamp_eq_self_iff.2 h).symm
  · split
    · next hkind =>
      obtain ⟨hlow, hhigh⟩ := range_of_kind_eq hkind
      split
      · next hsigned =>
        have := hlow hsigned
        split
        · rw [hmax, clamp]
          omega
        · have hv : t.Holds v := ⟨Int.le_trans this h.1, by omega⟩
          rw [store_of_holds hv, clamp_eq_self_iff.2 hv]
      · next hsigned =>
        have := hhigh (Bool.not_eq_true _ ▸ hsigned)
        split
        · rw [hmin, clamp]
          omega
        · have hv : t.Holds v := ⟨by omega, Int.le_trans h.2 this⟩
          rw [store_of_holds hv, clamp_eq_self_iff.2 hv]
    · split
      · rw [hmax, clamp]
        omega
      · split
        · rw [hmin, clamp]
          omega
        · have hv : t.Holds v := ⟨by omega, by omega⟩
          rw [store_of_holds hv, clamp_eq_self_iff.2 hv]

end Labyrinth.IntType
