import Mathlib
import Labyrinth.Proofs.Tree.WellFormed
import Labyrinth.Proofs.Token.Supply
import Labyrinth.Text.Numeral

/-!
# Tokens without reports

A scanner that finds nothing wrong with a token hands out a name that is an identifier, or a number that has only
digits. As long as nothing is reported, all tokens of a cursor are of this kind.
-/

namespace Labyrinth

open List Labyrinth.Task

/-- Names are identifiers, and numbers are made of digits. -/
def Token.WellFormed (t : Token) : Prop :=
  (t.kind = .name → IsIdentifier t.text) ∧ (t.kind = .number → Word.isNumber t.text.toList = true)

/-! ### What the scanner finds -/

variable {word : List Char}

theorem Word.isIdentifier_of_kind? (h : Word.kind? word = some .name) : IsIdentifier (String.ofList word) := by
  rw [Word.kind?] at h
  split at h
  · next hname =>
    split at h
    · cases h
    · next hkeyword =>
      rw [Word.isName, Bool.and_eq_true] at hname
      cases word with
      | nil => cases hname.2
      | cons first rest =>
        obtain ⟨hall, hfirst⟩ := hname
        simp only [all_cons, Bool.and_eq_true, all_eq_true, Word.isNameChar, Bool.or_eq_true,
          beq_iff_eq] at hall
        simp only [head?_cons, Option.any_some, Bool.not_eq_true'] at hfirst
        refine ⟨by rw [String.toList_ofList, hkeyword], first, rest, String.toList_ofList, ?_, ?_⟩
        · rcases hall.1 with (h | h) | h
          · exact .inl h
          · rw [hfirst] at h
            cases h
          · exact .inr h
        · exact fun c hc => or_assoc.1 (hall.2 c hc)
  · split at h <;> cases h

theorem Word.isNumber_of_kind? (h : Word.kind? word = some .number) : Word.isNumber word = true := by
  rw [Word.kind?] at h
  split at h
  · split at h <;> cases h
  · split at h
    · assumption
    · cases h

theorem Scan.wellFormed_tokenAt {table : LineTable} {kind : TokenKind} {line offset : Nat}
    (h : Word.kind? word = some kind) : (tokenAt table kind word line offset).WellFormed := by
  refine ⟨?_, ?_⟩
  · rintro rfl
    exact Word.isIdentifier_of_kind? h
  · rintro rfl
    change Word.isNumber (String.ofList word).toList = true
    rw [String.toList_ofList]
    exact Word.isNumber_of_kind? h

/-- A token is well formed unless the scanner complains about it. -/
theorem Scan.scanFrom_wellFormed (table : LineTable) (mode : Mode) (line offset : Nat) (chars : List Char) :
    ∀ step ∈ (scanFrom table mode line offset chars).steps, step.complaint = none → step.token.WellFormed := by
  fun_induction scanFrom table mode line offset chars with
  | case1 => simp
  | case2 mode line offset c rest _ ih => exact ih
  | case3 mode line offset rest _ ih => exact ih
  | case4 mode line offset rest _ _ comment _ ih | case5 mode line offset c rest _ _ _ op _ _ ih =>
    exact forall_mem_cons.2 ⟨fun _ => ⟨nofun, nofun⟩, ih⟩
  | case6 => simp
  | case7 line offset c rest _ _ _ _ word _ onward _ kind hkind ih =>
    exact forall_mem_cons.2 ⟨fun _ => wellFormed_tokenAt hkind, ih⟩
  | case8 mode line offset c rest _ _ _ _ word _ onward _ _ _ kind complaint _ ih =>
    exact forall_mem_cons.2 ⟨nofun, ih⟩
  | case9 => simp

/-! ### Numerals in range -/

namespace Text

variable {base : Nat}

theorem readDigits?_lt {chars : List Char} {value n : Nat} {afterDigit : Bool}
    (h : readDigits? base value afterDigit chars = some n) : n < (value + 1) * base ^ chars.length := by
  induction chars generalizing value afterDigit with
  | nil =>
    rw [readDigits?] at h
    split at h
    · cases h
      simp
    · cases h
  | cons c rest ih =>
    rw [readDigits?] at h
    split at h
    · split at h
      · have hlt := ih h
        by_cases hb : base = 0
        · subst hb
          cases rest with
          | nil => simp [readDigits?] at h
          | cons d ds => simp at hlt
        · refine Nat.lt_of_lt_of_le hlt (Nat.mul_le_mul_left _ (Nat.pow_le_pow_right (by omega) ?_))
          simp
      · cases h
    · split at h
      · next digit _ =>
        split at h
        · next hdigit =>
          have hstep : value * base + digit + 1 ≤ (value + 1) * base := by
            rw [Nat.add_mul]
            omega
          calc n < (value * base + digit + 1) * base ^ rest.length := ih h
            _ ≤ (value + 1) * base * base ^ rest.length := Nat.mul_le_mul_right _ hstep
            _ = (value + 1) * base ^ (c :: rest).length := by
              rw [length_cons, Nat.pow_succ, Nat.mul_assoc, Nat.mul_comm base]
        · cases h
      · cases h

/-- A numeral without a minus is read as a number with as many digits as it has characters. -/
theorem readInt?_bounds {count : Nat} {text : String} {v : Int} (h : readInt? base text = some v) (hbase : 0 < base)
    (hsign : '-' ∉ text.toList) (hlen : text.length ≤ count) : 0 ≤ v ∧ v < base ^ count := by
  rw [readInt?] at h
  generalize hchars : ((text.toList.dropWhile isNumeralBlank).reverse.dropWhile isNumeralBlank).reverse = chars at h
  have hsub : chars.Sublist text.toList := by
    rw [← hchars, ← reverse_sublist, List.reverse_reverse]
    exact (dropWhile_sublist _).trans (reverse_sublist.2 (dropWhile_sublist _))
  have hbound : ∀ {digits : List Char} {n : Nat}, digits.length ≤ chars.length →
      readDigits? base 0 false digits = some n → 0 ≤ Int.ofNat n ∧ Int.ofNat n < base ^ count := by
    intro digits n hle hn
    have hlt : n < base ^ count := by
      refine Nat.lt_of_lt_of_le (readDigits?_lt hn) ?_
      rw [Nat.zero_add, Nat.one_mul]
      refine Nat.pow_le_pow_right hbase (Nat.le_trans hle (Nat.le_trans hsub.length_le ?_))
      rwa [String.length_toList]
    refine ⟨Int.natCast_nonneg n, ?_⟩
    rw [Int.ofNat_eq_natCast]
    exact_mod_cast hlt
  split at h
  · obtain ⟨n, hn, rfl⟩ := Option.map_eq_some_iff.1 h
    exact hbound (by simp) hn
  · exact absurd (hsub.subset mem_cons_self) hsign
  · obtain ⟨n, hn, rfl⟩ := Option.map_eq_some_iff.1 h
    exact hbound (Nat.le_refl _) hn

end Text

/-! ### Runs without reports -/

/-- Nothing is reported that is not printed yet. -/
def Unreported {σ : Type} [HasSession σ] (s : σ) : Prop :=
  (HasSession.session s).pending = #[]

theorem Session.not_unreported_of_report {loc : Location} {kind message : String} {source : SourceLine}
    {s s' : Session} {u : Unit} (h : Yields (Session.report loc kind message source) s u s') :
    ¬Unreported s' := by
  simp only [Session.report, yields_bind, yields_get, yields_ofExcept, yields_modify] at h
  obtain ⟨_, _, ⟨rfl, rfl⟩, d, _, ⟨_, rfl⟩, rfl⟩ := h
  exact Array.push_ne_empty

/-! ### Cursors -/

namespace Cursor

/-- All tokens of a cursor are well formed unless there is a complaint about them. -/
structure Sound (c : Cursor) : Prop where
  taken : ∀ t ∈ c.tokens, t.WellFormed
  upcoming : ∀ t, .token t none ∈ c.upcoming → t.WellFormed

variable {items : List FeedItem} {c c' : Cursor} {t : Token}

/-- The token that is taken is put behind all others. -/
theorem takeFrom_push (h : Yields (takeFrom items) c t c') : c'.tokens = c.tokens.push t ∧ c'.index = c.index := by
  induction items generalizing c with
  | nil => simp [takeFrom] at h
  | cons item rest ih =>
    cases item with
    | illegal loc line => simp [takeFrom, reportIllegal, Session.reportFatal] at h
    | token u complaint =>
      simp only [takeFrom, yields_bind, yields_modify, yields_get, yields_inSession] at h
      obtain ⟨_, c₁, rfl, _, c₂, ⟨session, -, rfl⟩, _, _, ⟨rfl, rfl⟩, h⟩ := h
      split at h
      · obtain ⟨htokens, hindex⟩ := ih h
        exact ⟨htokens, hindex⟩
      · simp only [yields_bind, yields_modify, yields_pure] at h
        obtain ⟨_, _, rfl, rfl, rfl⟩ := h
        exact ⟨rfl, rfl⟩

theorem takeFrom_sound (h : Yields (takeFrom items) c t c') (hu : Unreported c') :
    Unreported c ∧ ((∀ u, .token u none ∈ items → u.WellFormed) →
      t.WellFormed ∧ ∀ u, .token u none ∈ c'.upcoming → u.WellFormed) := by
  induction items generalizing c with
  | nil => simp [takeFrom] at h
  | cons item rest ih =>
    cases item with
    | illegal loc line => simp [takeFrom, reportIllegal, Session.reportFatal] at h
    | token u complaint =>
      simp only [takeFrom, yields_bind, yields_modify, yields_get, yields_inSession] at h
      obtain ⟨_, c₁, rfl, _, c₂, ⟨session, hreport, rfl⟩, _, _, ⟨rfl, rfl⟩, h⟩ := h
      -- A complaint would still be there at the end.
      have hcomplaint : Unreported session → complaint = none ∧ Unreported c := by
        intro hs
        cases complaint with
        | none =>
          obtain ⟨_, rfl⟩ := yields_pure.1 hreport
          exact ⟨rfl, hs⟩
        | some entry => exact absurd hs (Session.not_unreported_of_report hreport)
      split at h
      · obtain ⟨hu', hrest⟩ := ih h
        obtain ⟨rfl, hc⟩ := hcomplaint hu'
        exact ⟨hc, fun hi => hrest fun u hu => hi u (mem_cons_of_mem _ hu)⟩
      · simp only [yields_bind, yields_modify, yields_pure] at h
        obtain ⟨_, _, rfl, rfl, rfl⟩ := h
        obtain ⟨rfl, hc⟩ := hcomplaint hu
        exact ⟨hc, fun hi => ⟨hi u mem_cons_self, fun w hw => hi w (mem_cons_of_mem _ hw)⟩⟩

theorem lastPassed_eq (h : Yields lastPassed c t c') : c = c' := by
  simp only [lastPassed, yields_bind, yields_get, yields_ofExcept] at h
  obtain ⟨_, _, ⟨rfl, rfl⟩, found, _, ⟨_, rfl⟩, h⟩ := h
  cases found with
  | some t => exact (yields_pure.1 h).2
  | none => exact absurd h not_yields_fail

/-- A cursor over a text that nobody has begun to scan. -/
theorem sound_unopened (session : Session) (text file path : String) :
    Sound { session, feed := .unopened text file, path } := by
  refine ⟨fun t ht => absurd ht (Array.not_mem_empty t), fun t ht => ?_⟩
  rcases mem_append.1 ht with hfound | hlast
  · obtain ⟨step, hstep, heq⟩ := mem_map.1 hfound
    obtain ⟨rfl, hnone⟩ := FeedItem.token.inj heq
    exact Scan.scanFrom_wellFormed _ _ _ _ _ step hstep (Option.map_eq_none_iff.1 hnone)
  · split at hlast
    · obtain ⟨last, hmem, heq⟩ := mem_map.1 hlast
      obtain ⟨rfl, -⟩ := FeedItem.token.inj heq
      rw [mem_singleton.1 hmem]
      exact ⟨nofun, nofun⟩
    · cases mem_singleton.1 hlast

end Cursor

end Labyrinth
