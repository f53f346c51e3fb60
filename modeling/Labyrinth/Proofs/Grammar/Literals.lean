import Labyrinth.Grammar.Build
import Labyrinth.Proofs.Numeral
import Labyrinth.Proofs.Token.Positions

/-!
# Numerals and literals

The scanner takes the digits up to `W`, in either case, for parts of a number, but in base 32 there is no digit for `W`.
A numeral that the notation of a number writes is scanned and read as this number, with underscores between its digits
or without. Every other number that the scanner finds is read, too, unless it has a `W`.
-/

namespace Labyrinth

open List Labyrinth.Task

/-! ### Digits -/

namespace Word

variable {c : Char} {w : List Char} {flawed : Bool}

/-- The characters of numbers have the values of the characters up to `W` in the alphabet. -/
theorem digitValue?_of_isMendable (h : isMendable c = true) (hc : c ≠ '_') :
    (∃ value ≤ 32, Text.digitValue? c = some value ∧ c.toUpper = Radix.alphabet.toList.getD value '0') ∧
      Text.isNumeralBlank c = false ∧ c ∉ ['_', '+', '-'] := by
  have hlt : c.toNat < 128 := by
    rw [isMendable_iff] at h
    simp only [Char.isDigit, Bool.and_eq_true, decide_eq_true_eq, Char.le_def, UInt32.le_iff_toNat_le] at h
    change c.val.toNat < 128
    rcases h with ⟨-, h⟩ | ⟨-, h⟩ | ⟨-, h⟩ | rfl
    · exact Nat.lt_of_le_of_lt h (by decide)
    · exact Nat.lt_of_le_of_lt h (by decide)
    · exact Nat.lt_of_le_of_lt h (by decide)
    · decide
  have hall : ∀ n < 128, isMendable (Char.ofNat n) = true → Char.ofNat n ≠ '_' →
      (Text.digitValue? (Char.ofNat n)).any (fun value => value ≤ 32 &&
        (Char.ofNat n).toUpper == Radix.alphabet.toList.getD value '0') = true ∧
      Text.isNumeralBlank (Char.ofNat n) = false ∧ Char.ofNat n ∉ ['_', '+', '-'] := by
    decide +kernel
  obtain ⟨hvalue, hplain⟩ := hall c.toNat hlt (by rwa [Char.ofNat_toNat]) (by rwa [Char.ofNat_toNat])
  rw [Char.ofNat_toNat] at hvalue hplain
  obtain ⟨value, hv, htest⟩ := (Option.any_eq_true _ _).1 hvalue
  simp only [Bool.and_eq_true, decide_eq_true_eq, beq_iff_eq] at htest
  exact ⟨⟨value, htest.1, hv, htest.2⟩, hplain⟩

def digits (w : List Char) : List Char := w.filter (· ≠ '_')

/-- Only the characters up to `W` are digits. -/
def AreDigits (cs : List Char) : Prop := ∀ c ∈ cs, isMendable c = true ∧ c ≠ '_'

/-- A word that is read as a number has digits. -/
theorem ReadAs.digits (h : ReadAs w .number flawed) : digits w ≠ [] ∧ AreDigits (digits w) := by
  have hword : (∃ first ∈ w.head?, first ≠ '_') ∧ ∀ c ∈ w, isMendable c = true := by
    simp only [isMendable_iff]
    cases h with
    | number h =>
      obtain ⟨first, rest, rfl⟩ := exists_cons_of_ne_nil h.1
      exact ⟨⟨first, rfl, fun hfirst => h.2.2.1 (congrArg some hfirst)⟩, fun c hc => .inr (h.2.1 c hc)⟩
    | flawedNumber h hsmall =>
      obtain ⟨first, hfirst, hdigit⟩ := hsmall.1
      exact ⟨⟨first, hfirst, fun h => by simp [h] at hdigit⟩, h.2.2.2⟩
  obtain ⟨⟨first, hfirst, hne⟩, hall⟩ := hword
  constructor
  · exact ne_nil_of_mem (mem_filter.2 ⟨mem_of_mem_head? hfirst, by simpa using hne⟩)
  · intro c hc
    obtain ⟨hmem, hc⟩ := mem_filter.1 hc
    exact ⟨hall c hmem, by simpa using hc⟩

variable {cs : List Char}

/-- Characters without a `W` are read as the digits in base 32 that they are in upper case. -/
theorem AreDigits.exists_reads (h : AreDigits cs) (hW : 'W' ∉ cs.map Char.toUpper) :
    ∃ ds : List (Fin 32), cs.map Char.toUpper = ds.map Radix.digit32 ∧ Forall₂ Radix.Reads32 cs ds := by
  induction cs with
  | nil => exact ⟨[], rfl, .nil⟩
  | cons c cs ih =>
    rw [map_cons, mem_cons, not_or] at hW
    obtain ⟨ds, hupper, hreads⟩ := ih (fun c' hc' => h c' (mem_cons_of_mem _ hc')) hW.2
    obtain ⟨hc, hne⟩ := h c mem_cons_self
    obtain ⟨⟨value, hle, hvalue, hchar⟩, hblank, hsign⟩ := digitValue?_of_isMendable hc hne
    have hlt : value < 32 := by
      refine Nat.lt_of_le_of_ne hle fun heq => hW.1 ?_
      rw [hchar, heq]
      rfl
    exact ⟨⟨value, hlt⟩ :: ds, by rw [map_cons, map_cons, hupper, hchar]; rfl,
      .cons ⟨hvalue, hblank, hsign⟩ hreads⟩

theorem readDigits?_eq_none (h : AreDigits cs) (hW : 'W' ∈ cs.map Char.toUpper) (start : Nat) (afterDigit : Bool) :
    Text.readDigits? 32 start afterDigit cs = none := by
  have hlast : ∀ value ≤ 32, Radix.alphabet.toList.getD value '0' = 'W' → ¬value < 32 := by decide
  induction cs generalizing start afterDigit with
  | nil => cases hW
  | cons c cs ih =>
    obtain ⟨hc, hne⟩ := h c mem_cons_self
    obtain ⟨⟨value, hle, hvalue, hchar⟩, -⟩ := digitValue?_of_isMendable hc hne
    rw [Text.readDigits?, if_neg hne]
    simp only [hvalue]
    rcases mem_cons.1 hW with hupper | hW
    · exact if_neg (hlast value hle (hchar.symm.trans hupper.symm))
    · rw [ih (fun c' hc' => h c' (mem_cons_of_mem _ hc')) hW, ite_self]

/-- Characters with a `W` are not read as a number in base 32. -/
theorem AreDigits.readInt?_eq_none (h : AreDigits cs) (hW : 'W' ∈ cs.map Char.toUpper) :
    Text.readInt? 32 (String.ofList cs) = none := by
  have hplain : ∀ c ∈ cs, Text.isNumeralBlank c = false ∧ c ∉ ['+', '-'] := by
    intro c hc
    obtain ⟨-, hblank, hsign⟩ := digitValue?_of_isMendable (h c hc).1 (h c hc).2
    exact ⟨hblank, fun hmem => hsign (mem_cons_of_mem _ hmem)⟩
  rw [Radix.readInt?_unsigned hplain, readDigits?_eq_none h hW]
  rfl

end Word

/-! ### Literals -/

/-- The report on a literal with more than three digits. -/
def Parser.lengthReport (file : String) (t : Token) (line : String) : Diagnostic :=
  ⟨t.loc file, Diagnostic.syntaxKind, "number literal too large to be represented by any integral type", some line⟩

variable {p : Parser} {t : Token}

/-- A literal is made of a token if its digits are read. -/
theorem Parser.literalOf_run (large : Bool) (span : Span) :
    (literalOf t large none span).run p = match Text.readInt? 32 (digitsOf t) with
      | some value => (.ok ⟨if large then span.asRecovered else span, value, p.signs.size⟩,
          { p with signs := p.signs.push .unsigned })
      | none => (.error (.fault (.badNumeral 32 (digitsOf t))), p) := by
  unfold literalOf
  cases Text.readInt? 32 (digitsOf t) with
  | none => rfl
  | some value => rfl

variable {line text : String}

/-- A literal with more than three digits is reported, if it stands on a line of the text opened last. -/
theorem Parser.reportLength_yields (hline : Text.item? p.cursor.session.lines (t.start.1 - 1) = some line) :
    ∃ p', Yields (reportLength t) p (decide (3 < (digitsOf t).length)) p' ∧ p'.cursor.session.pending =
      p.cursor.session.pending ++ if 3 < (digitsOf t).length then #[lengthReport p.file t line] else #[] := by
  unfold reportLength
  by_cases hlarge : 3 < (digitsOf t).length
  · have hreport : Yields (reportSpan (lengthReport p.file t line).message (Span.ofToken t)) p ()
        (HasSession.withSession p { p.cursor.session with
          pending := p.cursor.session.pending.push (lengthReport p.file t line) }) := by
      simp only [reportSpan, reportBetween, Span.ofToken, yields_get_bind, hline, pure_bind]
      rfl
    simp only [hlarge]
    exact ⟨_, hreport.bind (yields_pure.2 ⟨rfl, rfl⟩), rfl⟩
  · simp [hlarge]

/-- What becomes of a number token that stands on a line of the text opened last. -/
theorem Parser.makeNumber_run (span : Span) (hline : Text.item? p.cursor.session.lines (t.start.1 - 1) = some line) :
    ∃ p' : Parser, p'.cursor.session.pending = p.cursor.session.pending ++
        (if 3 < (digitsOf t).length then #[lengthReport p.file t line] else #[]) ∧
      (makeNumber t span).run p = match Text.readInt? 32 (digitsOf t) with
        | some value => (.ok ⟨if decide (3 < (digitsOf t).length) then span.asRecovered else span, value, p'.signs.size⟩,
            { p' with signs := p'.signs.push .unsigned })
        | none => (.error (.fault (.badNumeral 32 (digitsOf t))), p') := by
  obtain ⟨p', hlength, hpending⟩ := reportLength_yields hline
  refine ⟨p', hpending, ?_⟩
  have hbind : (makeNumber t span).run p = (literalOf t (decide (3 < (digitsOf t).length)) none span).run p' := by
    rw [makeNumber, run_bind, show (reportLength t).run p = _ from hlength]
  rw [hbind, literalOf_run]

/-- Some pieces of a text become tokens that are read as numbers. -/
theorem Scan.stepsOf_readAs {text tail : List Char} {pieces : List Piece} (h : Cut text pieces tail) (table : LineTable)
    (before : List Char) {step : ScanStep} (hstep : step ∈ stepsOf table before pieces) (hkind : step.token.kind = .number) :
    ∃ flawed, Word.ReadAs step.token.text.toList .number flawed := by
  induction h generalizing before with
  | stop => cases hstep
  | @piece p _ _ _ hp _ ih =>
    rw [stepsOf, mem_append] at hstep
    rcases hstep with hstep | hstep
    · rw [Option.mem_toList, step?, Option.map_eq_some_iff] at hstep
      obtain ⟨_, htoken, rfl⟩ := hstep
      cases p with
      | word w kind flawed =>
        cases htoken
        cases hkind
        exact ⟨flawed, by simpa [tokenAt, Piece.chars] using hp.1⟩
      | blank => cases htoken
      | comment => cases htoken; cases hkind
      | operator => cases htoken; cases hkind
    · exact ih _ hstep

/-- A number token that is found in a text stands on one of its lines, and is read as a number. -/
theorem Cursor.takeAll_number {session : Session} {file : String} {c : Cursor}
    (hc : (takeAll.run { session, feed := .unopened text file }).2 = c) (ht : t ∈ c.tokens) (hkind : t.kind = .number)
    :
    (∃ line, Text.item? c.session.lines (t.start.1 - 1) = some line) ∧
      ∃ flawed, Word.ReadAs t.text.toList .number flawed := by
  obtain ⟨pieces, tail, hcut⟩ := Cut.exists_of_text (Text.normalizeChars text.toList)
  have hscan : Scan.ofNormalized (Text.normalizeBreaks text) = _ := Scan.ofNormalized_cut hcut
  have hrun := takeAll_cut hcut session file ""
  generalize htable : Scan.LineTable.ofText (String.ofList (Text.normalizeChars text.toList)) = table at hrun hscan
  have hfound : c.session.lines = table.lines ∧ ∃ step ∈ Scan.stepsOf table [] pieces, step.token = t := by
    subst hc
    rw [hrun] at ht ⊢
    split at ht
    · next htail =>
      rw [if_pos htail]
      refine ⟨rfl, ?_⟩
      simp only [mem_toArray, mem_append, mem_map, mem_singleton] at ht
      exact ht.resolve_right fun h => by rw [h] at hkind; cases hkind
    · next htail =>
      rw [if_neg htail]
      refine ⟨rfl, ?_⟩
      simpa using ht
  obtain ⟨hlines, step, hstep, rfl⟩ := hfound
  refine ⟨?_, Scan.stepsOf_readAs hcut _ [] hstep hkind⟩
  have hmem : step.token ∈ (Scan.ofNormalized (Text.normalizeBreaks text)).significant := by
    rw [hscan]
    exact mem_filter.2 ⟨mem_map_of_mem hstep, by rw [hkind]; rfl⟩
  have hline := Scan.hasLine_of_significant hmem
  rw [hlines, ← htable]
  exact Text.exists_item? hline.1 hline.2

/-- A text that is one word is scanned as one token, with a report only if something is wrong with the word. -/
theorem Cursor.takeAll_word {kind : TokenKind} {flawed : Bool} (h : Word.ReadAs text.toList kind flawed)
    (session : Session) (file : String) : ∃ t c, takeAll.run { session, feed := .unopened text file } = (.ok (), c) ∧
      c.tokens = #[t, Scan.endToken (Text.splitLines text)] ∧ t.kind = kind ∧ t.text = text ∧
        (flawed = false → c.session.pending = session.pending) := by
  have hreturn : '\r' ∉ text.toList := fun hmem => notBreak_of_isWordChar (h.isWordChar _ hmem) (by decide)
  have hnormal := Text.normalizeChars_eq_self hreturn
  have hend : Cut [] [] [] := .stop fun p after hnil hp => by
    obtain ⟨c, rest, hchars, -⟩ := hp.head
    simp [hchars] at hnil
  have hcut : Cut (Text.normalizeChars text.toList) [.word text.toList kind flawed] [] := by
    rw [hnormal]
    simpa [Piece.chars] using Cut.piece (p := .word text.toList kind flawed) ⟨h, by simp⟩ hend
  have hrun := takeAll_cut hcut session file ""
  simp only [if_true, hnormal, String.ofList_toList] at hrun
  refine ⟨_, _, hrun, rfl, rfl, String.ofList_toList, ?_⟩
  rintro rfl
  exact Array.append_empty

/-- Every number token that is found in a text, mended or not, gives a literal with the value of its digits in base 32,
read in upper case, unless one of them is a `W`. This breaks the parser off. -/
theorem Parser.makeNumber_found (session : Session) (text file : String) (p : Parser) (t : Token) (span : Span)
    (hp : (Cursor.takeAll.run { session, feed := .unopened text file }).2 = p.cursor) (ht : t ∈ p.cursor.tokens)
    (hkind : t.kind = .number) :
    let digits := Word.digits t.text.toList
    ('W' ∉ digits.map Char.toUpper → ∃ (ds : List (Fin 32)) (node : NumberNode SignRef) (p' : Parser),
      digits.map Char.toUpper = ds.map Radix.digit32 ∧ Yields (makeNumber t span) p node p' ∧
        node.value = Radix.value32 0 ds) ∧
    ('W' ∈ digits.map Char.toUpper →
      ∃ p', (makeNumber t span).run p = (.error (.fault (.badNumeral 32 (String.ofList digits))), p')) := by
  intro digits
  obtain ⟨⟨line, hline⟩, flawed, hread⟩ := Cursor.takeAll_number hp ht hkind
  obtain ⟨hne, hdigits⟩ := hread.digits
  obtain ⟨p', -, hrun⟩ := makeNumber_run span hline
  refine ⟨fun hW => ?_, fun hW => ?_⟩
  · obtain ⟨ds, hupper, hreads⟩ := hdigits.exists_reads hW
    have hds : ds ≠ [] := by
      rintro rfl
      exact hne (map_eq_nil_iff.1 hupper)
    have hvalue : Text.readInt? 32 (digitsOf t) = some _ := Radix.readInt?_digits hreads hds
    rw [hvalue] at hrun
    exact ⟨ds, _, _, hupper, hrun, rfl⟩
  · have hvalue : Text.readInt? 32 (digitsOf t) = none := hdigits.readInt?_eq_none hW
    rw [hvalue] at hrun
    exact ⟨p', hrun⟩

/-- The number `1v_0`, which is mended, is read, but `W` breaks the parser off. -/
theorem Parser.makeNumber_found_mended :
    (∃ t c node p', (Cursor.takeAll.run { feed := .unopened "1v_0" "" }).2 = c ∧ t ∈ c.tokens ∧ t.kind = .number ∧
      Yields (makeNumber t default) { cursor := c, file := "" } node p' ∧ node.value = 2016) ∧
    ∃ t c p', (Cursor.takeAll.run { feed := .unopened "W" "" }).2 = c ∧ t ∈ c.tokens ∧ t.kind = .number ∧
      (makeNumber t default).run { cursor := c, file := "" } = (.error (.fault (.badNumeral 32 "W")), p') := by
  have hmended : Word.ReadAs "1v_0".toList .number true := (Word.readAs_true_iff (by decide)).2 (by decide)
  have hlast : Word.ReadAs "W".toList .number false := Word.kind?_eq_some_iff.1 (by decide)
  constructor
  · obtain ⟨t, c, hrun, htokens, hkind, htext, -⟩ := Cursor.takeAll_word hmended {} ""
    have ht : t ∈ c.tokens := by simp [htokens]
    have hfound := makeNumber_found {} "1v_0" "" { cursor := c, file := "" } t default (congrArg Prod.snd hrun) ht hkind
    obtain ⟨ds, node, p', hds, hmake, hvalue⟩ := hfound.1 (by rw [htext]; decide)
    refine ⟨t, c, node, p', congrArg Prod.snd hrun, ht, hkind, hmake, hvalue.trans ?_⟩
    rw [htext] at hds
    have hinjective : ∀ d d' : Fin 32, Radix.digit32 d = Radix.digit32 d' → d = d' := by decide
    have hdigits : ds = [1, 31, 0] := map_injective_iff.2 hinjective (hds.symm.trans (by decide))
    rw [hdigits]
    rfl
  · obtain ⟨t, c, hrun, htokens, hkind, htext, -⟩ := Cursor.takeAll_word hlast {} ""
    have ht : t ∈ c.tokens := by simp [htokens]
    have hfound := makeNumber_found {} "W" "" { cursor := c, file := "" } t default (congrArg Prod.snd hrun) ht hkind
    rw [htext] at hfound
    obtain ⟨p', hmake⟩ := hfound.2 (by decide)
    exact ⟨t, c, p', congrArg Prod.snd hrun, ht, hkind, hmake⟩

/-! ### Numerals that are read back -/

/-- A text is a numeral with underscores between its digits, or without any. -/
def Radix.Grouped (numeral text : String) : Prop :=
  Word.digits text.toList = numeral.toList ∧ text.toList.head? ≠ some '_' ∧ text.toList.getLast? ≠ some '_'

theorem Radix.grouped_digits (ds : List (Fin 32)) :
    Grouped (String.ofList (ds.map digit32)) (String.ofList (ds.map digit32)) := by
  have hnone := underscore_notMem_digits ds
  rw [Grouped, String.toList_ofList]
  exact ⟨filter_digits ds, fun h => hnone (mem_of_mem_head? h), fun h => hnone (mem_of_mem_getLast? h)⟩

theorem Radix.Grouped.readAs {ds : List (Fin 32)} (h : Grouped (String.ofList (ds.map digit32)) text) (hne : ds ≠ []) :
    Word.ReadAs text.toList .number false := by
  obtain ⟨hdigits, hends⟩ := h
  rw [String.toList_ofList] at hdigits
  refine .number ⟨fun hnil => hne ?_, fun c hc => ?_, hends⟩
  · rw [hnil] at hdigits
    exact map_eq_nil_iff.1 hdigits.symm
  · by_cases hunderscore : c = '_'
    · exact .inr (.inr hunderscore)
    · have hmem : c ∈ Word.digits text.toList := mem_filter.2 ⟨hc, decide_eq_true hunderscore⟩
      rw [hdigits] at hmem
      obtain ⟨d, -, rfl⟩ := mem_map.1 hmem
      simpa [Word.isNumberChar, or_assoc] using isNumberChar_digit32 d

/-- The numeral of a number, with underscores between its digits or without, is scanned as one number token with nothing
wrong about it. The literal that is made of the token has the number as its value, and is reported as too large exactly
if the number is 32768 or more. -/
theorem Parser.makeNumber_numeral (n : Nat) (session : Session) (file : String) :
    ∃ numeral, Radix.numeral 32 n = .ok numeral ∧ Radix.Grouped numeral numeral ∧
      ∀ text, Radix.Grouped numeral text → ∃ t c,
        Cursor.takeAll.run { session, feed := .unopened text file } = (.ok (), c) ∧
        c.tokens = #[t, Scan.endToken (Text.splitLines text)] ∧ c.session.pending = session.pending ∧
        t.kind = .number ∧ t.text = text ∧
        ∀ (p : Parser) (span : Span), p.cursor = c → ∃ node p' line, Yields (makeNumber t span) p node p' ∧
          node.value = n ∧ p'.cursor.session.pending =
            c.session.pending ++ if 32768 ≤ n then #[lengthReport p.file t line] else #[] := by
  obtain ⟨ds, hne, hlen, hvalue, hnumeral⟩ := Radix.exists_numeral n
  have hlarge : 3 < ds.length ↔ 32768 ≤ n := by
    constructor
    · intro h
      by_contra hn
      exact absurd (hlen 3 (by decide) (by omega)) (by omega)
    · intro h
      by_contra hle
      have hlt := Radix.value32_lt ds 0
      have hpow : 32 ^ ds.length ≤ 32 ^ 3 := Nat.pow_le_pow_right (by decide) (by omega)
      omega
  refine ⟨_, hnumeral, Radix.grouped_digits ds, fun text hgrouped => ?_⟩
  obtain ⟨t, c, hrun, htokens, hkind, htext, hpending⟩ := Cursor.takeAll_word (hgrouped.readAs hne) session file
  refine ⟨t, c, hrun, htokens, hpending rfl, hkind, htext, fun p span hp => ?_⟩
  subst hp
  obtain ⟨⟨line, hline⟩, -⟩ := Cursor.takeAll_number (congrArg Prod.snd hrun) (by simp [htokens]) hkind
  obtain ⟨p', hreports, hmake⟩ := makeNumber_run span hline
  have hdigits : digitsOf t = String.ofList (ds.map Radix.digit32) := by
    rw [digitsOf, htext]
    exact congrArg String.ofList (hgrouped.1.trans String.toList_ofList)
  rw [hdigits, Radix.readInt?_digits (Radix.reads32_digits ds) hne] at hmake
  rw [hdigits, String.length_ofList, length_map] at hreports
  simp only [hlarge] at hreports
  exact ⟨_, _, line, hmake, by rw [hvalue], hreports⟩

/-- The numeral of 1000, with an underscore, is read as 1000. -/
theorem Parser.makeNumber_numeral_grouped :
    Radix.numeral 32 1000 = .ok "V8" ∧ Radix.Grouped "V8" "V_8" ∧ ∃ t c node p',
      Cursor.takeAll.run { feed := .unopened "V_8" "" } = (.ok (), c) ∧ t.kind = .number ∧ t.text = "V_8" ∧
        Yields (makeNumber t default) { cursor := c, file := "" } node p' ∧ node.value = 1000 := by
  have hwritten : Radix.numeral 32 1000 = .ok "V8" := rfl
  have hgrouped : Radix.Grouped "V8" "V_8" := by
    unfold Radix.Grouped
    decide
  obtain ⟨numeral, hnumeral, -, hread⟩ := makeNumber_numeral 1000 {} ""
  obtain rfl : numeral = "V8" := Except.ok.inj (hnumeral.symm.trans hwritten)
  obtain ⟨t, c, hrun, -, -, hkind, htext, hmake⟩ := hread "V_8" hgrouped
  obtain ⟨node, p', -, hyields, hvalue, -⟩ := hmake { cursor := c, file := "" } default rfl
  exact ⟨hwritten, hgrouped, t, c, node, p', hrun, hkind, htext, hyields, hvalue⟩

end Labyrinth
