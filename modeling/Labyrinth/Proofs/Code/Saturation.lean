import Mathlib.Algebra.Order.Ring.Int
import Mathlib.Tactic.Positivity
import Labyrinth.Proofs.Code.Promotion

/-!
# Operators that round

The operators for sums, differences and products hand back the exact result, rounded to their type. Each of their
bodies is right only because the C type is wider than the range by enough: a result that is stored before it is looked
at has to fit, and one that may not fit has to be tested as it is stored.

The operator for quotients looks at nothing afterwards. One quotient of two numbers in the range is not in the range.
-/

namespace Labyrinth

namespace IntType

variable {t : IntType} {x y v : Int}

/-! ### Room in the C types -/

theorem fits_store (t : IntType) (v : Int) : t.Fits (t.store v) := by
  rw [Fits, store]
  split
  · have hlow := Int.le_bmod (x := v) (m := 2 ^ t.kind.storage) (by positivity)
    have hhigh := Int.bmod_lt (x := v) (m := 2 ^ t.kind.storage) (by positivity)
    generalize t.kind = k at hlow hhigh ⊢
    cases k <;> simp [NumberKind.storage] at hlow hhigh ⊢ <;> omega
  · have hpos : 0 < Int.pow 2 t.kind.storage := pow_pos (by decide : (0 : Int) < 2) _
    exact ⟨Int.emod_nonneg v hpos.ne', Int.emod_lt_of_pos v hpos⟩

/-- A number is stored as it is exactly if it fits. -/
theorem store_eq_self_iff : t.store v = v ↔ t.Fits v :=
  ⟨fun h => h ▸ t.fits_store v, store_of_fits⟩

theorem minValue_le_zero (t : IntType) : t.minValue ≤ 0 := by
  rw [minValue]
  generalize t.kind = k
  cases t.sign.isSigned <;> cases k <;> decide

theorem maxValue_pos (t : IntType) : 0 < t.maxValue := by
  rw [maxValue]
  generalize t.kind = k
  cases t.sign.isSigned <;> cases k <;> decide

theorem minValue_of_unsigned (h : t.sign.isSigned = false) : t.minValue = 0 := by
  rw [minValue, h]
  rfl

theorem store_minValue (t : IntType) : t.store t.minValue = t.minValue :=
  store_of_holds ⟨Int.le_refl _, t.minValue_le_maxValue⟩

theorem store_maxValue (t : IntType) : t.store t.maxValue = t.maxValue :=
  store_of_holds ⟨t.minValue_le_maxValue, Int.le_refl _⟩

/-- There is room for the sum of two numbers. -/
theorem fits_add (hx : t.Holds x) (hy : t.Holds y) : t.Fits (x + y) := by
  rw [Holds, minValue, maxValue] at hx hy
  rw [Fits]
  generalize t.kind = k, t.sign.isSigned = s at hx hy ⊢
  cases s <;> cases k <;>
    simp [IntInfo.signedRange, NumberKind.bits, NumberKind.storage] at hx hy ⊢ <;> omega

/-- There is room for the difference of two numbers, if it may be negative. -/
theorem fits_sub_iff (hx : t.Holds x) (hy : t.Holds y) : t.Fits (x - y) ↔ t.sign.isSigned = true ∨ y ≤ x := by
  rw [Holds, minValue, maxValue] at hx hy
  rw [Fits]
  generalize t.kind = k, t.sign.isSigned = s at hx hy ⊢
  cases s <;> cases k <;>
    simp [IntInfo.signedRange, NumberKind.bits, NumberKind.storage] at hx hy ⊢ <;> omega

/-- There is room for the quotient of two numbers. -/
theorem fits_tdiv (hx : t.Holds x) (hy : t.Holds y) : t.Fits (x.tdiv y) := by
  have habs := Int.natAbs_tdiv_le_natAbs x y
  have hsign : 0 ≤ x → 0 ≤ y → 0 ≤ x.tdiv y := Int.tdiv_nonneg
  rw [Holds, minValue, maxValue] at hx hy
  rw [Fits]
  generalize x.tdiv y = q at habs hsign ⊢
  generalize t.kind = k, t.sign.isSigned = s at hx hy ⊢
  cases s <;> cases k <;>
    simp [IntInfo.signedRange, NumberKind.bits, NumberKind.storage] at hx hy ⊢ <;> omega

/-! ### Rounding -/

theorem clamp_of_lt (h : v < t.minValue) : t.clamp v = t.minValue := by
  have := t.minValue_le_maxValue
  rw [clamp]
  omega

theorem clamp_of_gt (h : t.maxValue < v) : t.clamp v = t.maxValue := by
  have := t.minValue_le_maxValue
  rw [clamp]
  omega

/-- A number that does not fit is rounded to the bound on its side of zero. -/
theorem clamp_of_not_fits (h : ¬t.Fits v) : 0 < v ∧ t.clamp v = t.maxValue ∨ v < 0 ∧ t.clamp v = t.minValue := by
  have hmin := t.minValue_le_zero
  have hmax := t.maxValue_pos
  have hout : v < t.minValue ∨ t.maxValue < v := by
    by_contra hin
    exact h (fits_of_holds ⟨by omega, by omega⟩)
  rcases hout with hlow | hhigh
  · exact .inr ⟨by omega, clamp_of_lt hlow⟩
  · exact .inl ⟨by omega, clamp_of_gt hhigh⟩

end IntType

/-! ### Runs that lose nothing -/

namespace Operator

/-- A step stores, or hands back, all of a number. A test that stores tells whether something was lost. -/
def Move.Keeps (t : IntType) (m : Memory) : Move → Prop
  | .set u | .finish u => t.Fits (u.value t m)
  | .compute op => t.Fits (op.exact m.lhs m.rhs)

/-- The step that is chosen keeps all of its number. -/
def ChoiceKeeps (t : IntType) (m : Memory) (test : Test) (yes no : Move) : Prop :=
  if (test.run t m).1 = true then yes.Keeps t (test.run t m).2 else no.Keeps t (test.run t m).2

def Branch.Keeps (t : IntType) (m : Memory) : Branch → Prop
  | .one step => step.Keeps t m
  | .choose test yes no | .chooseApart test yes no => ChoiceKeeps t m test yes no

/-- The branch that is taken keeps all of its numbers. -/
def BranchesKeep (t : IntType) (m : Memory) : List (Test × Branch) → Prop
  | [] => True
  | (test, branch) :: rest =>
    if (test.run t m).1 = true then branch.Keeps t (test.run t m).2 else BranchesKeep t (test.run t m).2 rest

/-- A paragraph that is carried out keeps all of its numbers. -/
def Paragraph.Keeps (t : IntType) (m : Memory) (p : Paragraph) : Prop :=
  m.done = none → match p with
    | .move step => step.Keeps t m
    | .branches _ list => BranchesKeep t m list

/-- All steps that a body takes from a memory on keep all of their numbers. -/
def Body.KeepsFrom (t : IntType) (m : Memory) : Body → Prop
  | [] => True
  | p :: rest => p.Keeps t m ∧ Body.KeepsFrom t (p.run t m) rest

/-- In a run of a body no step loses anything of a number. -/
def Body.Keeps (t : IntType) (body : Body) (lhs rhs : Int) : Prop :=
  Body.KeepsFrom t { lhs, rhs } body

variable {t : IntType} {x y : Int}

/-- A result that was looked at on both sides is the exact one, rounded; the order of the tests does not matter. -/
theorem runBranches_bounds {m : Memory} {list : List (Test × Branch)}
    (hlist : list = [tooSmall, tooLarge] ∨ list = [tooLarge, tooSmall] ∨ list = [tooLarge] ∧ t.minValue ≤ m.result) :
    runBranches t m list = { m with result := t.clamp m.result } ∧ BranchesKeep t m list := by
  have hrange := t.minValue_le_maxValue
  have hmin : t.Fits t.minValue := IntType.fits_of_holds ⟨Int.le_refl _, hrange⟩
  have hmax : t.Fits t.maxValue := IntType.fits_of_holds ⟨hrange, Int.le_refl _⟩
  have hclamp : t.clamp m.result =
      if m.result < t.minValue then t.minValue else if t.maxValue < m.result then t.maxValue else m.result := by
    rw [IntType.clamp]
    omega
  obtain ⟨lhs, rhs, result, done⟩ := m
  rcases hlist with rfl | rfl | ⟨rfl, hlow⟩ <;>
    simp only [runBranches, BranchesKeep, tooSmall, tooLarge, Test.run, Term.value, Branch.run, Branch.Keeps, Move.run,
      Move.Keeps, hclamp, t.store_minValue, t.store_maxValue, gt_iff_lt, decide_eq_true_eq] <;>
    grind

/-- An operation whose exact result always fits may be stored before it is looked at. -/
theorem run_computed {op : BinOp} {list : List (Test × Branch)} (hfits : t.Fits (op.exact x y))
    (hlist : list = [tooSmall, tooLarge] ∨ list = [tooLarge] ∧ t.minValue ≤ op.exact x y) :
    Body.run t [.move (.compute op), .branches false list] x y = t.clamp (op.exact x y) ∧
      Body.Keeps t [.move (.compute op), .branches false list] x y := by
  have hstore := IntType.store_of_fits hfits
  obtain ⟨hrun, hkeeps⟩ := runBranches_bounds (m := { lhs := x, rhs := y, result := op.exact x y })
    (hlist.imp_right .inr)
  constructor
  · simp [Body.run, Paragraph.run, Move.run, hstore, hrun]
  · simp only [Body.Keeps, Body.KeepsFrom, Paragraph.Keeps, Paragraph.run, Move.run, Move.Keeps, hstore]
    exact ⟨fun _ => hfits, fun _ => hkeeps, trivial⟩

/-- An operation whose exact result fits unless it is negative may be tested as it is stored. -/
theorem run_tested_below {op : BinOp} (hfits : t.Fits (op.exact x y) ↔ 0 ≤ op.exact x y)
    (hunsigned : t.minValue = 0) (hhigh : op.exact x y ≤ t.maxValue) :
    Body.run t [.branches false [(.overflow op, .one (.set .least))]] x y = t.clamp (op.exact x y) ∧
      Body.Keeps t [.branches false [(.overflow op, .one (.set .least))]] x y := by
  by_cases h : t.Fits (op.exact x y)
  · have hclamp : t.clamp (op.exact x y) = op.exact x y :=
      IntType.clamp_eq_self_iff.2 ⟨hunsigned ▸ hfits.1 h, hhigh⟩
    have hstore := IntType.store_of_fits h
    simp [Body.run, Body.Keeps, Body.KeepsFrom, Paragraph.run, Paragraph.Keeps, runBranches, BranchesKeep, Test.run,
      hstore, hclamp]
  · have hneg : op.exact x y < t.minValue := by
      rw [hfits] at h
      omega
    have hstore : t.store (op.exact x y) ≠ op.exact x y := fun heq => h (IntType.store_eq_self_iff.1 heq)
    have hmin : t.Fits t.minValue := IntType.fits_of_holds ⟨Int.le_refl _, t.minValue_le_maxValue⟩
    simp [Body.run, Body.Keeps, Body.KeepsFrom, Paragraph.run, Paragraph.Keeps, runBranches, BranchesKeep, Test.run,
      Branch.run, Branch.Keeps, Move.run, Move.Keeps, Term.value, hstore, IntType.clamp_of_lt hneg, t.store_minValue,
      hmin]

/-- A product is tested as it is stored: what does not fit is rounded to the bound that `lost` chooses. -/
theorem run_product {lost : Branch}
    (hlost : ¬t.Fits (x * y) → ∀ r, lost.run t { lhs := x, rhs := y, result := r } =
      { lhs := x, rhs := y, result := t.clamp (x * y) } ∧ lost.Keeps t { lhs := x, rhs := y, result := r }) :
    Body.run t [.branches true [(.overflow .mul, lost), tooLarge, tooSmall]] x y = t.clamp (x * y) ∧
      Body.Keeps t [.branches true [(.overflow .mul, lost), tooLarge, tooSmall]] x y := by
  by_cases h : t.Fits (x * y)
  · have hstore := IntType.store_of_fits h
    obtain ⟨hrun, hkeeps⟩ := runBranches_bounds (m := { lhs := x, rhs := y, result := x * y }) (.inr (.inl rfl))
    simp only [Body.run, Body.Keeps, Body.KeepsFrom, List.foldl_cons, List.foldl_nil, Paragraph.run, Paragraph.Keeps,
      runBranches.eq_2 t _ (.overflow .mul), BranchesKeep.eq_2 t _ (.overflow .mul), Test.run, BinOp.exact, hstore,
      bne_self_eq_false, Option.isSome_none, Bool.false_eq_true, if_false]
    exact ⟨by rw [hrun, Option.getD_none], fun _ => hkeeps, trivial⟩
  · have hstore : (t.store (x * y) != x * y) = true := bne_iff_ne.2 fun heq => h (IntType.store_eq_self_iff.1 heq)
    obtain ⟨hrun, hkeeps⟩ := hlost h (t.store (x * y))
    simp only [Body.run, Body.Keeps, Body.KeepsFrom, List.foldl_cons, List.foldl_nil, Paragraph.run, Paragraph.Keeps,
      runBranches, BranchesKeep, Test.run, BinOp.exact, hstore, if_true, Option.isSome_none, Bool.false_eq_true,
      if_false, hrun, Option.getD_none]
    exact ⟨trivial, fun _ => hkeeps, trivial⟩

end Operator

namespace IntType

open Operator

variable {t : IntType} {x y : Int}

theorem applySame_add (hx : t.Holds x) (hy : t.Holds y) :
    t.applySame .add x y = t.clamp (x + y) ∧ (bodyOf .add t.sign.isSigned).Keeps t x y := by
  rw [applySame]
  cases hs : t.sign.isSigned with
  | true => exact run_computed (fits_add hx hy) (.inl rfl)
  | false =>
    refine run_computed (fits_add hx hy) (.inr ⟨rfl, ?_⟩)
    have hx := hx.1
    have hy := hy.1
    rw [minValue_of_unsigned hs] at hx hy ⊢
    exact Int.add_nonneg hx hy

theorem applySame_sub (hx : t.Holds x) (hy : t.Holds y) :
    t.applySame .sub x y = t.clamp (x - y) ∧ (bodyOf .sub t.sign.isSigned).Keeps t x y := by
  have hfits := fits_sub_iff hx hy
  rw [applySame]
  cases hs : t.sign.isSigned with
  | true => exact run_computed (hfits.2 (.inl hs)) (.inl rfl)
  | false =>
    rw [hs] at hfits
    have hmin := minValue_of_unsigned hs
    refine run_tested_below (hfits.trans ?_) hmin ?_
    · simp [BinOp.exact, Int.sub_nonneg]
    · have hx := hx.2
      have hy := hy.1
      rw [BinOp.exact]
      omega

theorem applySame_mul (hx : t.Holds x) (hy : t.Holds y) :
    t.applySame .mul x y = t.clamp (x * y) ∧ (bodyOf .mul t.sign.isSigned).Keeps t x y := by
  have hmin : t.Fits t.minValue := fits_of_holds ⟨Int.le_refl _, t.minValue_le_maxValue⟩
  have hmax : t.Fits t.maxValue := fits_of_holds ⟨t.minValue_le_maxValue, Int.le_refl _⟩
  rw [applySame]
  cases hs : t.sign.isSigned with
  | true =>
    refine run_product fun hlost r => ?_
    -- The sign of the bits in which two numbers differ is the sign of their product, unless that is zero.
    rcases clamp_of_not_fits hlost with ⟨hpos, hclamp⟩ | ⟨hneg, hclamp⟩
    · have hsame : differenceSign x y = 0 := by
        rw [differenceSign, if_pos]
        rcases pos_and_pos_or_neg_and_neg_of_mul_pos hpos with h | h <;> simp <;> omega
      simp [Branch.run, runChoice, Branch.Keeps, ChoiceKeeps, Test.run, Term.value, Move.run, Move.Keeps, hsame, hclamp,
        t.store_maxValue, hmax]
    · have hdiffer : differenceSign x y = -1 := by
        rw [differenceSign, if_neg]
        rcases mul_neg_iff.1 hneg with h | h <;> simp <;> omega
      simp [Branch.run, runChoice, Branch.Keeps, ChoiceKeeps, Test.run, Term.value, Move.run, Move.Keeps, hdiffer,
        hclamp, t.store_minValue, hmin]
  | false =>
    refine run_product fun hlost r => ?_
    have hx := hx.1
    have hy := hy.1
    rw [minValue_of_unsigned hs] at hx hy
    have hnonneg := Int.mul_nonneg hx hy
    rcases clamp_of_not_fits hlost with ⟨-, hclamp⟩ | ⟨hneg, -⟩
    · simp [Branch.run, Branch.Keeps, Move.run, Move.Keeps, Term.value, hclamp, t.store_maxValue, hmax]
    · omega

/-- The operands of an operator are rounded to the type that they are combined in. -/
theorem apply_eq {op : BinOp} {a b : IntType} (hx : a.Holds x) (hy : b.Holds y) :
    a.apply b op x y = (a.operatorType b).applySame op ((a.operatorType b).clamp x) ((a.operatorType b).clamp y) := by
  rw [apply]
  split
  · next h =>
    subst h
    rw [operatorType, ite_self, clamp_eq_self_iff.2 hx, clamp_eq_self_iff.2 hy]
  · simp only [convert_eq_clamp hx, convert_eq_clamp hy]

/-- An operation that is no division is rounded, and loses nothing on the way. -/
theorem applySame_eq_clamp {op : BinOp} (hop : op ≠ .div) (hx : t.Holds x) (hy : t.Holds y) :
    t.applySame op x y = t.clamp (op.exact x y) ∧ (bodyOf op t.sign.isSigned).Keeps t x y := by
  cases op with
  | add => exact applySame_add hx hy
  | sub => exact applySame_sub hx hy
  | mul => exact applySame_mul hx hy
  | div => exact absurd rfl hop

/-- Sums, differences and products of numbers of any two types are taken in the wider type, in the right one of two of
equal width: both operands are rounded to it, and so is the exact result. The operator is among those of a program, and
no number is lost in its body before it is looked at. -/
theorem apply_saturates {op : BinOp} (hop : op ≠ .div) {a b : IntType} (hx : a.Holds x) (hy : b.Holds y) :
    ∃ t : IntType, (b.kind.rank < a.kind.rank → t = a) ∧ (a.kind.rank ≤ b.kind.rank → t = b) ∧
      Code.operatorFor op a b ∈ Code.arithmetic ∧
      (Code.operatorFor op a b).names = [Code.operatorName op.word a.name b.name] ∧
      (bodyOf op t.sign.isSigned).Keeps t (t.clamp x) (t.clamp y) ∧
      a.apply b op x y = t.clamp (op.exact (t.clamp x) (t.clamp y)) := by
  obtain ⟨hsame, hkeeps⟩ := applySame_eq_clamp hop ((a.operatorType b).holds_clamp x) ((a.operatorType b).holds_clamp y)
  refine ⟨a.operatorType b, ?_, ?_, Code.operatorFor_mem op a b, Code.operatorFor_names op a b, hkeeps, ?_⟩
  · intro h
    rw [operatorType, if_pos h]
  · intro h
    rw [operatorType, if_neg (Nat.not_lt.2 h)]
  · rw [apply_eq hx hy, hsame]

/-- The product of the least numbers of two widths. -/
theorem apply_saturates_mixed : IntType.apply ⟨.normal, .signed⟩ ⟨.small, .signed⟩ .mul (-512) (-16) = 511 := by
  obtain ⟨t, hleft, -, -, -, -, happly⟩ :=
    @apply_saturates (-512) (-16) .mul nofun ⟨.normal, .signed⟩ ⟨.small, .signed⟩ (by decide) (by decide)
  rw [happly, hleft (by decide)]
  decide

/-! ### Quotients -/

/-- Where there are negative numbers, there is one more of them than there are positive ones. -/
theorem minValue_eq (h : t.minValue < 0) : t.minValue = -t.maxValue - 1 := by
  revert h
  rw [minValue, maxValue]
  generalize t.kind = k, t.sign.isSigned = s
  cases s <;> cases k <;> decide

/-- A quotient of two numbers of a type lies in its range, but for the least number, if it is negative, divided by minus
one. -/
theorem holds_tdiv_iff (hx : t.Holds x) (hy : t.Holds y) (hzero : y ≠ 0) :
    t.Holds (x.tdiv y) ↔ ¬(t.minValue < 0 ∧ x = t.minValue ∧ y = -1) := by
  have hmin := t.minValue_le_zero
  have hrange : t.minValue < 0 → t.minValue = -t.maxValue - 1 := minValue_eq
  rw [Holds] at hx hy ⊢
  by_cases hone : y.natAbs = 1
  · obtain rfl | rfl : y = 1 ∨ y = -1 := by omega
    · rw [Int.tdiv_one]
      omega
    · rw [Int.tdiv_neg, Int.tdiv_one]
      omega
  · -- The quotient is nearer to zero than the dividend, or both are zero.
    have hnear : x ≠ 0 → (x.tdiv y).natAbs < x.natAbs := by
      intro hx0
      rw [Int.natAbs_tdiv]
      exact Nat.div_lt_self (by omega) (by omega)
    have hx0 : x = 0 → x.tdiv y = 0 := by
      rintro rfl
      exact Int.zero_tdiv y
    have hsign : 0 ≤ x → 0 ≤ y → 0 ≤ x.tdiv y := Int.tdiv_nonneg
    generalize x.tdiv y = q at hnear hx0 hsign ⊢
    omega

/-- What the operator for quotients hands back. -/
theorem applySame_div (hx : t.Holds x) (hy : t.Holds y) :
    t.applySame .div x y = if y = 0 then if 0 ≤ x then t.maxValue else t.minValue else x.tdiv y := by
  have hstore := store_of_fits (fits_tdiv hx hy)
  simp only [applySame, bodyOf, Body.run, List.foldl_cons, List.foldl_nil, Paragraph.run, runBranches, Branch.run,
    runChoice, Test.run, Term.value, Move.run, t.store_maxValue, t.store_minValue, BinOp.exact]
  by_cases hy0 : y = 0
  · by_cases hx0 : 0 ≤ x <;> simp [hy0, hx0]
  · simp [hy0, hstore]

/-- Quotients are cut off and fit the C type, and a division by zero gives the bound on the side of the dividend. Only
the least number divided by minus one, if it is negative, is not rounded and leaves the range. -/
theorem applySame_div_saturates_iff (hx : t.Holds x) (hy : t.Holds y) :
    t.applySame .div x y = (if y = 0 then if 0 ≤ x then t.maxValue else t.minValue else x.tdiv y) ∧
      t.Fits (t.applySame .div x y) ∧
      (t.Holds (t.applySame .div x y) ↔ ¬(t.minValue < 0 ∧ x = t.minValue ∧ y = -1)) ∧
      (t.applySame .div x y =
          (if y = 0 then if 0 ≤ x then t.maxValue else t.minValue else t.clamp (x.tdiv y)) ↔
        ¬(t.minValue < 0 ∧ x = t.minValue ∧ y = -1)) := by
  have hmin : t.Holds t.minValue := ⟨Int.le_refl _, t.minValue_le_maxValue⟩
  have hmax : t.Holds t.maxValue := ⟨t.minValue_le_maxValue, Int.le_refl _⟩
  have hdiv := applySame_div hx hy
  refine ⟨hdiv, ?_, ?_⟩
  all_goals rw [hdiv]
  · split
    · split
      · exact fits_of_holds hmax
      · exact fits_of_holds hmin
    · exact fits_tdiv hx hy
  · split
    · next hzero =>
      have hone : y ≠ -1 := by omega
      split <;> simp [hone, hmin, hmax]
    · next hzero =>
      have hquotient := holds_tdiv_iff hx hy hzero
      exact ⟨hquotient, eq_comm.trans (clamp_eq_self_iff.trans hquotient)⟩

theorem applySame_div_saturates_iff_least : IntType.applySame ⟨.big, .signed⟩ .div (-16384) (-1) = 16384 ∧
    ¬IntType.Holds ⟨.big, .signed⟩ 16384 := by
  obtain ⟨hdiv, -, hholds, -⟩ := applySame_div_saturates_iff (t := ⟨.big, .signed⟩) (x := -16384) (y := -1)
    (by decide) (by decide)
  have hvalue : IntType.applySame ⟨.big, .signed⟩ .div (-16384) (-1) = 16384 := hdiv.trans (by decide)
  rw [hvalue] at hholds
  exact ⟨hvalue, fun h => hholds.1 h (by decide)⟩

end IntType

end Labyrinth
