import Mathlib
import Labyrinth.Radix
import Labyrinth.Token.Scan

/-!
# Numerals in base 32

A number has no more digits in base 32 than it needs. Its numeral is read as the number again, and is scanned as a
number.
-/

namespace Labyrinth.Radix

open List

variable (ds : List (Fin 32)) (d : Fin 32)

def digit32 : Char := alphabet.toList.getD d '0'

/-- The value of digits in base 32, after those that give `start`. -/
def value32 (start : Nat) (ds : List (Fin 32)) : Nat :=
  ds.foldl (fun (value : Nat) (d : Fin 32) => value * 32 + d.val) start

theorem digitChar_eq : digitChar alphabet d.val = .ok (digit32 d) := by
  have h : ∀ d : Fin 32, (digitChar alphabet d.val).toOption = some (digit32 d) := by decide
  cases hc : digitChar alphabet d.val with
  | ok c => simpa [hc, Except.toOption] using h d
  | error cause => simpa [hc, Except.toOption] using h d

theorem isNumberChar_digit32 : ∀ d : Fin 32, Word.isNumberChar (digit32 d) = true := by
  decide

theorem digitChars_eq :
    digitChars alphabet (ds.map fun (d : Fin 32) => (d.val : Int)) = .ok (ds.map digit32) := by
  induction ds with
  | nil => rfl
  | cons d ds ih =>
    simp only [map_cons, digitChars, digitChar_eq, ih]
    rfl

theorem value32_concat : value32 0 (ds ++ [d]) = value32 0 ds * 32 + d.val := by
  rw [value32, foldl_append]
  rfl

/-- The digits of a number are found, and there are no more of them than the number needs. -/
theorem digitsFrom_eq {fuel n : Nat} (hn : n < 32 ^ fuel) (found : List Int) :
    ∃ ds : List (Fin 32), (∀ count, n < 32 ^ count → ds.length ≤ count) ∧ value32 0 ds = n ∧
      digitsFrom 32 fuel n found = .ok (ds.map (fun (d : Fin 32) => (d.val : Int)) ++ found) := by
  induction fuel generalizing n found with
  | zero =>
    have h0 : n = 0 := Nat.lt_one_iff.1 hn
    exact ⟨[], fun _ _ => Nat.zero_le _, h0.symm, by simp [digitsFrom, h0]⟩
  | succ fuel ih =>
    by_cases h0 : n = 0
    · exact ⟨[], fun _ _ => Nat.zero_le _, h0.symm, by simp [digitsFrom, h0]⟩
    have hlt : ∀ {count}, n < 32 ^ (count + 1) → n / 32 < 32 ^ count := by
      intro count h
      rw [Nat.pow_succ] at h
      omega
    obtain ⟨ds, hlen, hvalue, hds⟩ := ih (hlt hn) ((n % 32 : Nat) :: found)
    refine ⟨ds ++ [⟨n % 32, Nat.mod_lt _ (by decide)⟩], fun count hcount => ?_, ?_, ?_⟩
    · cases count with
      | zero => exact absurd (Nat.lt_one_iff.1 hcount) h0
      | succ count =>
        rw [length_append]
        exact Nat.succ_le_succ (hlen count (hlt hcount))
    · rw [value32_concat, hvalue]
      exact Nat.div_add_mod' n 32
    · rw [digitsFrom, if_neg (by omega), Int.fdiv_eq_ediv_of_nonneg _ (by decide),
        Int.fmod_eq_emod_of_nonneg _ (by decide), map_append, append_assoc]
      exact hds

/-- The numeral of a number, which has no more digits than the number needs. -/
theorem exists_numeral (n : Nat) :
    ∃ ds : List (Fin 32), ds ≠ [] ∧ (∀ count, 0 < count → n < 32 ^ count → ds.length ≤ count) ∧ value32 0 ds = n ∧
      numeral 32 n = .ok (String.ofList (ds.map digit32)) := by
  by_cases h0 : n = 0
  · subst h0
    exact ⟨[0], nofun, fun _ h _ => h, rfl, rfl⟩
  have hbound : n < 32 ^ digitBound n := calc
    n < 2 ^ (n.log2 + 1) := Nat.lt_log2_self
    _ ≤ 32 ^ (n.log2 + 1) := Nat.pow_le_pow_left (by decide) _
    _ ≤ 32 ^ digitBound n := Nat.pow_le_pow_right (by decide) (by simp only [digitBound, Int.natAbs_natCast]; omega)
  obtain ⟨ds, hlen, hvalue, hds⟩ := digitsFrom_eq hbound []
  have hdigits : digits 32 n = .ok (ds.map fun (d : Fin 32) => (d.val : Int)) := by
    rw [digits, if_neg (by omega), if_neg (by decide), hds, append_nil]
  cases ds with
  | nil => exact absurd hvalue.symm h0
  | cons d ds =>
    refine ⟨d :: ds, nofun, fun count _ => hlen count, hvalue, ?_⟩
    rw [numeral, hdigits]
    change (digitChars alphabet ((d :: ds).map fun (d : Fin 32) => (d.val : Int))).map String.ofList = _
    rw [digitChars_eq]
    rfl

/-- Digits give a number below the power of the base that their count tells. -/
theorem value32_lt (start : Nat) : value32 start ds < (start + 1) * 32 ^ ds.length := by
  induction ds generalizing start with
  | nil => simp [value32]
  | cons d ds ih =>
    calc value32 (start * 32 + d.val) ds < (start * 32 + d.val + 1) * 32 ^ ds.length := ih _
      _ ≤ ((start + 1) * 32) * 32 ^ ds.length := Nat.mul_le_mul_right _ (by omega)
      _ = (start + 1) * 32 ^ (d :: ds).length := by rw [length_cons, Nat.pow_succ', Nat.mul_assoc]

/-- A character is read as a digit, and is neither a blank nor a sign nor an underscore. -/
def Reads32 (c : Char) (d : Fin 32) : Prop :=
  Text.digitValue? c = some d.val ∧ Text.isNumeralBlank c = false ∧ c ∉ ['_', '+', '-']

/-- A digit is read with its value. -/
theorem reads32_digit32 : ∀ d : Fin 32, Reads32 (digit32 d) d := by
  unfold Reads32
  decide

theorem reads32_digits : Forall₂ Reads32 (ds.map digit32) ds :=
  forall₂_map_left_iff.2 (forall₂_same.2 fun d _ => reads32_digit32 d)

theorem underscore_notMem_digits : '_' ∉ ds.map digit32 := by
  intro hmem
  obtain ⟨d, -, hd⟩ := mem_map.1 hmem
  exact (reads32_digit32 d).2.2 (by rw [hd]; exact mem_cons_self)

theorem filter_digits : (ds.map digit32).filter (· ≠ '_') = ds.map digit32 :=
  filter_eq_self.2 fun _ hc => decide_eq_true fun heq => underscore_notMem_digits ds (heq ▸ hc)

theorem readDigits?_digits {cs : List Char} {ds : List (Fin 32)} (h : Forall₂ Reads32 cs ds) (start : Nat)
    (afterDigit : Bool) (hne : ds ≠ [] ∨ afterDigit = true) :
    Text.readDigits? 32 start afterDigit cs = some (value32 start ds) := by
  induction h generalizing start afterDigit with
  | nil =>
    have hafter : afterDigit = true := hne.resolve_left (fun h => h rfl)
    rw [hafter]
    rfl
  | @cons c d cs ds hc _ ih =>
    obtain ⟨hvalue, _, hsign⟩ := hc
    have hne : c ≠ '_' := by
      rintro rfl
      exact hsign mem_cons_self
    rw [Text.readDigits?, if_neg hne]
    simp only [hvalue, d.isLt, if_true]
    exact ih _ _ (.inr rfl)

/-- Without blanks and signs, a numeral is read digit by digit. -/
theorem readInt?_unsigned {cs : List Char} (h : ∀ c ∈ cs, Text.isNumeralBlank c = false ∧ c ∉ ['+', '-']) :
    Text.readInt? 32 (String.ofList cs) = (Text.readDigits? 32 0 false cs).map Int.ofNat := by
  have hblank : ∀ cs' : List Char, (∀ c ∈ cs', c ∈ cs) → cs'.dropWhile Text.isNumeralBlank = cs' := by
    intro cs' hsub
    cases cs' with
    | nil => rfl
    | cons c cs' => rw [dropWhile_cons_of_neg (by simp [(h c (hsub c mem_cons_self)).1])]
  rw [Text.readInt?, String.toList_ofList, hblank cs fun _ hc => hc, hblank cs.reverse fun _ hc => mem_reverse.1 hc,
    List.reverse_reverse]
  split
  · exact absurd mem_cons_self (h '+' mem_cons_self).2
  · exact absurd (by decide) (h '-' mem_cons_self).2
  · rfl

/-- Digits are read as the number that they give. -/
theorem readInt?_digits {cs : List Char} {ds : List (Fin 32)} (h : Forall₂ Reads32 cs ds) (hne : ds ≠ []) :
    Text.readInt? 32 (String.ofList cs) = some (value32 0 ds : Int) := by
  have hplain : ∀ c ∈ cs, Text.isNumeralBlank c = false ∧ c ∉ ['+', '-'] := by
    intro c hc
    obtain ⟨i, hi, rfl⟩ := mem_iff_getElem.1 hc
    obtain ⟨-, hblank, hsign⟩ := h.get hi (h.length_eq ▸ hi)
    exact ⟨hblank, fun hmem => hsign (mem_cons_of_mem _ hmem)⟩
  rw [readInt?_unsigned hplain, readDigits?_digits h 0 false (.inl hne)]
  rfl

end Labyrinth.Radix
