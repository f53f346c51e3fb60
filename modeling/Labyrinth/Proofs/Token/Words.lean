import Mathlib.Data.List.Infix
import Mathlib.Data.List.Nodup
import Mathlib.Data.List.TakeWhile
import Mathlib.Tactic.Tauto
import Labyrinth.Token.Scan

/-!
# Words and operators

What a word is read as, said in terms of its characters: a keyword or a name, a number, or something that is nearly one
of them. Words and operators have no characters in common.
-/

namespace Labyrinth

open List

/-! ### Characters -/

/-- A list begins with a run of characters that pass a test. -/
theorem exists_run (test : Char → Bool) (text : List Char) :
    ∃ run after, text = run ++ after ∧ (∀ c ∈ run, test c = true) ∧ ∀ c ∈ after.head?, test c = false := by
  refine ⟨text.takeWhile test, text.dropWhile test, takeWhile_append_dropWhile.symm,
    fun c => mem_takeWhile_imp, fun c hc => ?_⟩
  have hnot := head?_dropWhile_not test text
  rwa [Option.mem_def.1 hc] at hnot

/-- A list is cut where a run of characters ends. -/
theorem takeWhile_run {test : Char → Bool} {run after : List Char} (hrun : ∀ c ∈ run, test c = true)
    (hafter : ∀ c ∈ after.head?, test c = false) :
    (run ++ after).takeWhile test = run ∧ (run ++ after).dropWhile test = after := by
  rw [takeWhile_append_of_pos hrun, dropWhile_append_of_pos hrun]
  cases after with
  | nil => simp
  | cons c rest =>
    have hc : test c = false := hafter c rfl
    simp [hc]

variable {c : Char}

theorem isUpper_iff : c.isUpper = true ↔ 'A' ≤ c ∧ c ≤ 'Z' :=
  decide_eq_true_iff

theorem isLower_iff : c.isLower = true ↔ 'a' ≤ c ∧ c ≤ 'z' :=
  (Bool.and_eq_true_iff ..).trans (and_congr decide_eq_true_iff decide_eq_true_iff)

theorem isDigit_iff : c.isDigit = true ↔ '0' ≤ c ∧ c ≤ '9' :=
  (Bool.and_eq_true_iff ..).trans (and_congr decide_eq_true_iff decide_eq_true_iff)

theorem isAlphanum_iff : c.isAlphanum = true ↔ (c.isUpper = true ∨ c.isLower = true) ∨ c.isDigit = true :=
  Bool.or_eq_true_iff.trans (or_congr_left Bool.or_eq_true_iff)

theorem isWordChar_of_isAlphanum (h : c.isAlphanum = true) : Text.isWordChar c = true := by
  have hlt : c.toNat < 128 := by
    rw [isAlphanum_iff, isUpper_iff, isLower_iff, isDigit_iff] at h
    rcases h with (⟨_, h⟩ | ⟨_, h⟩) | ⟨_, h⟩ <;> exact Nat.lt_of_le_of_lt h (by decide)
  rw [Text.isWordChar, Text.isAlnum, if_pos hlt, h, Bool.true_or]

theorem isWordChar_of_isNameChar (h : Word.isNameChar c = true) : Text.isWordChar c = true := by
  simp only [Word.isNameChar, Bool.or_eq_true, beq_iff_eq] at h
  rcases h with (h | h) | rfl
  · exact isWordChar_of_isAlphanum (isAlphanum_iff.2 (.inl (.inr h)))
  · exact isWordChar_of_isAlphanum (isAlphanum_iff.2 (.inr h))
  · rfl

theorem isWordChar_of_isNumberChar (h : Word.isNumberChar c = true) : Text.isWordChar c = true := by
  simp only [Word.isNumberChar, Bool.or_eq_true, Bool.and_eq_true, decide_eq_true_eq, beq_iff_eq] at h
  rcases h with (⟨hlow, hhigh⟩ | h) | rfl
  · have hupper : c.isUpper = true := isUpper_iff.2 ⟨hlow, Nat.le_trans hhigh (by decide)⟩
    exact isWordChar_of_isAlphanum (isAlphanum_iff.2 (.inl (.inl hupper)))
  · exact isWordChar_of_isAlphanum (isAlphanum_iff.2 (.inr h))
  · rfl

theorem isWordChar_of_kind? {word : List Char} {kind : TokenKind} (h : Word.kind? word = some kind) :
    ∀ c ∈ word, Text.isWordChar c = true := by
  intro c hc
  rw [Word.kind?] at h
  split at h
  · next hname =>
    rw [Word.isName, Bool.and_eq_true, all_eq_true] at hname
    exact isWordChar_of_isNameChar (hname.1 c hc)
  · split at h
    · next hnumber =>
      rw [Word.isNumber, Bool.and_eq_true, Bool.and_eq_true, all_eq_true] at hnumber
      exact isWordChar_of_isNumberChar (hnumber.1.1 c hc)
    · cases h

/-- No operator begins another. -/
theorem operator?_append {op : String} (h : op ∈ operators) (rest : List Char) :
    operator? (op.toList ++ rest) = some op := by
  simp only [operators, mem_cons, not_mem_nil, or_false] at h
  rcases h with rfl | rfl | rfl | rfl | rfl | rfl | rfl | rfl | rfl | rfl | rfl | rfl | rfl | rfl | rfl | rfl
  all_goals rfl

theorem operators_chars : ∀ op ∈ operators, op.toList ≠ [] ∧
    ∀ c ∈ op.toList, Text.isWordChar c = false ∧ c ∉ [' ', '\t', '\n', '\r', '#'] := by
  have hall : (operators.all fun op => !op.toList.isEmpty && op.toList.all fun c =>
      !Text.isWordChar c && !contains [' ', '\t', '\n', '\r', '#'] c) = true := rfl
  simpa only [all_eq_true, Bool.and_eq_true, Bool.not_eq_true', isEmpty_eq_false_iff, contains_eq_mem,
    decide_eq_false_iff_not] using hall

theorem operator?_eq_none (h : Text.isWordChar c = true ∨ c = '#') (rest : List Char) :
    operator? (c :: rest) = none := by
  rw [operator?, find?_eq_none]
  intro op hop hstart
  obtain ⟨hne, hchars⟩ := operators_chars op hop
  obtain ⟨d, w, hw⟩ := exists_cons_of_ne_nil hne
  rw [hw, isPrefixOf, Bool.and_eq_true, beq_iff_eq] at hstart
  obtain ⟨hword, hbreak⟩ := hchars c (by simp [hw, hstart.1])
  rcases h with h | rfl
  · rw [h] at hword
    cases hword
  · simp at hbreak

theorem notBreak_of_isWordChar (h : Text.isWordChar c = true) : c ∉ [' ', '\t', '\n', '\r', '#'] := by
  simp only [mem_cons, not_mem_nil, or_false]
  rintro (rfl | rfl | rfl | rfl | rfl) <;> cases h

/-! ### Words -/

namespace Word

variable {w : List Char} {c : Char} {kind : TokenKind} {flawed : Bool}

/-- A keyword begins with the word, and no other keyword does. -/
def StandsFor (w : List Char) (k : Keyword) : Prop :=
  w <+: k.word.toList ∧ ∀ k' : Keyword, w <+: k'.word.toList → k' = k

/-- A small letter or an underscore, followed by such characters and digits. -/
def IsNameLike (w : List Char) : Prop :=
  (∃ first ∈ w.head?, first.isLower = true ∨ first = '_') ∧
    ∀ c ∈ w, c.isLower = true ∨ c.isDigit = true ∨ c = '_'

/-- Digits up to `W` and underscores, with an underscore neither first nor last. -/
def IsNumberLike (w : List Char) : Prop :=
  w ≠ [] ∧ (∀ c ∈ w, ('A' ≤ c ∧ c ≤ 'W') ∨ c.isDigit = true ∨ c = '_') ∧ w.head? ≠ some '_' ∧ w.getLast? ≠ some '_'

/-- Letters up to `w`, small or capital, digits and underscores, but neither a name nor a number. -/
def IsNearMiss (w : List Char) : Prop :=
  ¬IsNameLike w ∧ ¬IsNumberLike w ∧ w ≠ [] ∧
    ∀ c ∈ w, ('a' ≤ c ∧ c ≤ 'w') ∨ ('A' ≤ c ∧ c ≤ 'W') ∨ c.isDigit = true ∨ c = '_'

/-- A digit comes first, and the letters are not all capital, or there are none. -/
def IsSmallNumber (w : List Char) : Prop :=
  (∃ first ∈ w.head?, first.isDigit = true) ∧ ((∀ c ∈ w, c.isUpper = false) ∨ ∃ c ∈ w, c.isLower = true)

/-- The kind of token that a word becomes, and whether there is something wrong with the word. -/
inductive ReadAs (w : List Char) : TokenKind → Bool → Prop where
  | keyword {k : Keyword} : IsNameLike w → StandsFor w k → ReadAs w (.keyword k) false
  | name : IsNameLike w → (∀ k, ¬StandsFor w k) → ReadAs w .name false
  | number : IsNumberLike w → ReadAs w .number false
  | flawedNumber : IsNearMiss w → IsSmallNumber w → ReadAs w .number true
  | flawedName : IsNearMiss w → ¬IsSmallNumber w → ReadAs w .name true

theorem standsFor_iff {k : Keyword} : StandsFor w k ↔ Keyword.ofChars? w = some k := by
  have hmem : ∀ k, k ∈ Keyword.beginningWith w ↔ w <+: k.word.toList := by
    intro k
    rw [Keyword.beginningWith, mem_filter, isPrefixOf_iff_prefix]
    exact and_iff_right (by cases k <;> decide)
  have hnodup : (Keyword.beginningWith w).Nodup :=
    List.Pairwise.filter _ (show Keyword.all.Nodup by decide)
  rw [StandsFor, Keyword.ofChars?]
  generalize Keyword.beginningWith w = ks at hmem hnodup
  simp only [← hmem]
  match ks, hnodup with
  | [], _ => simp
  | [k'], _ =>
    simp only [mem_singleton, forall_eq, Option.some.injEq]
    exact ⟨fun h => h.2, fun h => ⟨h.symm, h⟩⟩
  | k₁ :: k₂ :: rest, hnodup =>
    simp only [reduceCtorEq, iff_false, not_and]
    intro _ hall
    have h₁ := hall k₁ mem_cons_self
    have h₂ := hall k₂ (mem_cons_of_mem _ mem_cons_self)
    exact (nodup_cons.1 hnodup).1 (h₁.trans h₂.symm ▸ mem_cons_self)

theorem isDigit_eq_false_of_isLower (h : c.isLower = true) : c.isDigit = false := by
  refine Bool.eq_false_iff.2 fun hdigit => absurd (Nat.le_trans (isLower_iff.1 h).1 (isDigit_iff.1 hdigit).2) ?_
  decide

theorem lt_of_isLower (h : c.isLower = true) : 'W' < c := by
  exact Nat.lt_of_lt_of_le (show 'W'.val.toNat < 'a'.val.toNat by decide) (isLower_iff.1 h).1

theorem isName_iff : isName w = true ↔ IsNameLike w := by
  cases w with
  | nil => simp [isName, IsNameLike]
  | cons first rest =>
    simp only [isName, IsNameLike, Bool.and_eq_true, all_eq_true, isNameChar, Bool.or_eq_true, beq_iff_eq,
      or_assoc, head?_cons, Option.any_some, Option.mem_some_iff, exists_eq_left', Bool.not_eq_true',
      forall_mem_cons]
    constructor
    · rintro ⟨⟨hfirst, hrest⟩, hdigit⟩
      rw [hdigit] at hfirst
      simp_all
    · rintro ⟨hfirst | rfl, hall, hrest⟩
      · exact ⟨⟨hall, hrest⟩, isDigit_eq_false_of_isLower hfirst⟩
      · exact ⟨⟨hall, hrest⟩, rfl⟩

theorem isNumber_iff : isNumber w = true ↔ IsNumberLike w := by
  have hends : ∀ o : Option Char, o.any (· != '_') = true ↔ o ≠ none ∧ o ≠ some '_' := by
    rintro (_ | c) <;> simp
  simp only [isNumber, IsNumberLike, Bool.and_eq_true, all_eq_true, hends, isNumberChar, Bool.or_eq_true,
    decide_eq_true_eq, beq_iff_eq, or_assoc, ne_eq, head?_eq_none_iff, getLast?_eq_none_iff]
  tauto

theorem isMendable_iff : isMendable c = true ↔
    ('a' ≤ c ∧ c ≤ 'w') ∨ ('A' ≤ c ∧ c ≤ 'W') ∨ c.isDigit = true ∨ c = '_' := by
  simp [isMendable, isNumberChar, or_assoc]

theorem IsNameLike.not_isNumberLike (h : IsNameLike w) : ¬IsNumberLike w := by
  rintro ⟨_, hall, hhead, _⟩
  obtain ⟨⟨first, hfirst, hlower | rfl⟩, _⟩ := h
  · rcases hall first (mem_of_mem_head? hfirst) with ⟨_, hle⟩ | hdigit | rfl
    · exact absurd hle (Nat.not_le_of_lt (lt_of_isLower hlower))
    · rw [isDigit_eq_false_of_isLower hlower] at hdigit
      cases hdigit
    · cases hlower
  · exact hhead hfirst

/-- A word is taken as it is exactly if there is nothing wrong with it. -/
theorem kind?_eq_some_iff : kind? w = some kind ↔ ReadAs w kind false := by
  rw [kind?]
  constructor
  · intro h
    split at h
    · next hname =>
      rw [isName_iff] at hname
      cases h
      split
      · next k hk => exact .keyword hname (standsFor_iff.2 hk)
      · next hnone => exact .name hname fun k hk => by rw [standsFor_iff, hnone] at hk; cases hk
    · split at h
      · next hnumber =>
        cases h
        exact .number (isNumber_iff.1 hnumber)
      · cases h
  · intro h
    cases h with
    | keyword hname hk => rw [if_pos (isName_iff.2 hname), standsFor_iff.1 hk]
    | name hname hno =>
      have hnone : Keyword.ofChars? w = none :=
        Option.eq_none_iff_forall_ne_some.2 fun k hk => hno k (standsFor_iff.2 hk)
      rw [if_pos (isName_iff.2 hname), hnone]
    | number hnumber =>
      rw [if_neg fun hname => (isName_iff.1 hname).not_isNumberLike hnumber, if_pos (isNumber_iff.2 hnumber)]

theorem kind?_eq_none_iff : kind? w = none ↔ ¬IsNameLike w ∧ ¬IsNumberLike w := by
  rw [kind?, ← isName_iff, ← isNumber_iff]
  split <;> simp_all

theorem isSmallNumber_iff : (w.head?.any Char.isDigit && !isUpper w) = true ↔ IsSmallNumber w := by
  have hhead : w.head?.any Char.isDigit = true ↔ ∃ first ∈ w.head?, first.isDigit = true := by
    cases w.head? <;> simp
  have hcase : (!isUpper w) = true ↔ (∀ c ∈ w, c.isUpper = false) ∨ ∃ c ∈ w, c.isLower = true := by
    rw [isUpper, Bool.not_and, Bool.or_eq_true, Bool.not_not, any_eq_true, Bool.not_eq_true',
      any_eq_false]
    simp only [Bool.not_eq_true]
  rw [Bool.and_eq_true, hhead, hcase, IsSmallNumber]

/-- The kind of a mended word does not depend on what the complaint about it is. -/
theorem mend_fst (w : List Char) :
    (mend w).1 = if (w.head?.any Char.isDigit && !isUpper w) = true then .number else .name := by
  rw [mend]
  dsimp only
  cases hdigit : w.head?.any Char.isDigit <;> cases hupper : isUpper w <;> cases hlower : isLower w <;>
    simp <;> (repeat' split) <;> rfl

/-- A word that is not taken as it is gets a complaint, if it is mended at all. -/
theorem readAs_true_iff (hw : w ≠ []) :
    ReadAs w kind true ↔ kind? w = none ∧ w.all isMendable = true ∧ (mend w).1 = kind := by
  rw [kind?_eq_none_iff, mend_fst, all_eq_true]
  simp only [isMendable_iff]
  constructor
  · intro h
    cases h with
    | flawedNumber hnear hsmall => exact ⟨⟨hnear.1, hnear.2.1⟩, hnear.2.2.2, if_pos (isSmallNumber_iff.2 hsmall)⟩
    | flawedName hnear hsmall =>
      exact ⟨⟨hnear.1, hnear.2.1⟩, hnear.2.2.2, if_neg fun h => hsmall (isSmallNumber_iff.1 h)⟩
  · rintro ⟨⟨hname, hnumber⟩, hall, rfl⟩
    split
    · next hsmall => exact .flawedNumber ⟨hname, hnumber, hw, hall⟩ (isSmallNumber_iff.1 hsmall)
    · next hsmall => exact .flawedName ⟨hname, hnumber, hw, hall⟩ fun h => hsmall (isSmallNumber_iff.2 h)

theorem ReadAs.ne_nil (h : ReadAs w kind flawed) : w ≠ [] := by
  rintro rfl
  cases h with
  | keyword hname => exact absurd hname.1 (by simp)
  | name hname => exact absurd hname.1 (by simp)
  | number hnumber => exact hnumber.1 rfl
  | flawedNumber hnear => exact hnear.2.2.1 rfl
  | flawedName hnear => exact hnear.2.2.1 rfl

theorem ReadAs.unique {kind' : TokenKind} {flawed' : Bool} (h : ReadAs w kind flawed)
    (h' : ReadAs w kind' flawed') : kind = kind' ∧ flawed = flawed' := by
  have hw := h.ne_nil
  cases flawed <;> cases flawed' <;>
    simp only [← kind?_eq_some_iff, readAs_true_iff hw] at h h' <;> simp_all

theorem isWordChar_of_isMendable (h : isMendable c = true) : Text.isWordChar c = true := by
  rw [isMendable, Bool.or_eq_true] at h
  rcases h with hsmall | hnumber
  · refine isWordChar_of_isNameChar ?_
    simp only [Bool.and_eq_true, decide_eq_true_eq] at hsmall
    have hlower : c.isLower = true := isLower_iff.2 ⟨hsmall.1, Nat.le_trans hsmall.2 (by decide)⟩
    rw [isNameChar, hlower]
    rfl
  · exact isWordChar_of_isNumberChar hnumber

theorem ReadAs.isWordChar (h : ReadAs w kind flawed) :
    ∀ c ∈ w, Text.isWordChar c = true := by
  cases flawed with
  | false => exact fun c hc => isWordChar_of_kind? (kind?_eq_some_iff.2 h) c hc
  | true =>
    have hall := ((readAs_true_iff h.ne_nil).1 h).2.1
    exact fun c hc => isWordChar_of_isMendable (all_eq_true.1 hall c hc)

end Word

end Labyrinth
