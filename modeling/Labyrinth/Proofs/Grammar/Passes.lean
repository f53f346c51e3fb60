import Labyrinth.Proofs.Grammar.Agreement
import Labyrinth.Proofs.Grammar.Running
import Labyrinth.Proofs.Token.Positions

/-!
# The two passes of a parser

A text that is not read in the first pass is read once more, with the alternatives that only complain. They find what
to blame, but they never turn a failure into a success: the second pass comes to what the first one came to, or it ends
the run with a report. If it finds nothing to blame, the last token is blamed.
-/

namespace Labyrinth

open Labyrinth.Task

/-! ### The tokens of a text -/

/-- If all tokens of a text can be taken, its scan is complete. -/
theorem Cursor.complete_of_takeAll {session : Session} {text file path : String} {c : Cursor}
    (h : Yields takeAll { session, feed := .unopened text file, path } () c) :
    (Scan.ofNormalized (Text.normalizeBreaks text)).finish = .complete ∧
      ∀ t ∈ (Scan.ofNormalized (Text.normalizeBreaks text)).significant, t ∈ c.tokens := by
  obtain ⟨pieces, tail, hcut⟩ := Cut.exists_of_text (Text.normalizeChars text.toList)
  have hscan : Scan.ofNormalized (Text.normalizeBreaks text) = _ := Scan.ofNormalized_cut hcut
  have hrun := takeAll_cut hcut session file path
  by_cases htail : tail = []
  · simp only [if_pos htail] at hrun
    obtain rfl := (Prod.mk.inj (h.symm.trans hrun)).2
    rw [hscan]
    refine ⟨if_pos htail, fun t ht => ?_⟩
    have hmem := List.mem_of_mem_filter ht
    simp [hmem]
  · simp only [if_neg htail] at hrun
    cases (Prod.mk.inj (h.symm.trans hrun)).1

/-- The tokens of a text that was scanned to its end are of use to builders. -/
theorem Grammar.Source.closed_of_complete {text : String} (hnumber : ∀ t ∈ (Scan.ofNormalized text).significant,
    t.kind = .number → (Text.readInt? 32 (Parser.digitsOf t)).isSome = true) (led : Nat → Bool) :
    Closed (Text.splitLines text)
      ⟨(Scan.ofNormalized text).significant ++ [Scan.endToken (Text.splitLines text)], led⟩ := by
  refine ⟨Source.whole_of_scan rfl, fun {i t} hi ht => ?_⟩
  rw [List.length_append, List.length_singleton] at hi
  rw [List.getElem?_append_left (by omega)] at ht
  have hmem := List.mem_of_getElem? ht
  obtain ⟨hregular, hline⟩ := Scan.isSome_item?_of_significant hmem
  exact ⟨hregular, hline, hnumber t hmem⟩

/-- The last token taken is a token of the source. -/
theorem Cursor.ends_lastTaken {tokens : List Token} {c : Cursor} (h : Offers tokens c) (hne : 0 < tokens.length)
    (hregular : ∀ t ∈ tokens, t.kind.isRegular = true) :
    Ends lastTaken c (fun t c' => t.kind.isRegular = true ∧ c'.session.out = c.session.out) fun _ _ => False := by
  have hback : ∀ {c : Cursor}, Offers tokens c → 0 < c.tokens.size →
      (c.tokens.back?.getD default).kind.isRegular = true := by
    intro c hc hsize
    obtain ⟨t, ht⟩ : ∃ t, c.tokens.back? = some t := by
      rw [Array.back?_eq_getElem?, Array.getElem?_eq_getElem (by omega)]
      exact ⟨_, rfl⟩
    rw [ht, Option.getD_some]
    rw [Array.back?_eq_getElem?, ← hc.getElem?_eq (by omega)] at ht
    exact hregular t (List.mem_of_getElem? ht)
  unfold lastTaken
  simp only [ends_bind, ends_get]
  split
  · next hempty =>
    have hsize : c.tokens.size = 0 := by simpa using hempty
    have hindex := h.index_le
    obtain ⟨t, c', hnext⟩ := h.exists_next (by omega)
    obtain ⟨-, ho, hi, -, -⟩ := h.next hnext
    simp only [ends_bind, ends_iff_of_yields hnext, ends_pure, ends_get]
    have hindex' := ho.index_le
    exact ⟨hback ho (by omega), ((modest_next _ h.quiet).of_yields hnext).2.out⟩
  · next hempty =>
    have hsize : c.tokens.size ≠ 0 := by simpa using hempty
    simp only [ends_bind, ends_get, ends_pure, and_true]
    exact hback h (by omega)

namespace Grammar

/-! ### What both passes agree on -/

/-- Results that fail or succeed alike. -/
def Parsed.Alike (x y : Parsed) : Prop :=
  x.succeeds = y.succeeds ∧ x.isNothing = y.isNothing

theorem Parsed.likeness_alike : Likeness Parsed.Alike where
  token _ := ⟨rfl, rfl⟩
  nothing := ⟨rfl, rfl⟩
  list h := by
    refine ⟨?_, rfl⟩
    cases h <;> rfl
  gather _ _ := ⟨rfl, rfl⟩
  succeeds h := h.1
  isNothing h := h.2

/-- A text that is not read at all is not read either if complaints are tried. -/
theorem Reads.nothing_of_nothing {src : Source} {complaining : Bool} {c : Call} {i : Nat} {j k : Nat} {y : Parsed}
    (h : Reads src fruitful false none c i .nothing j) (h' : Reads src fruitful complaining none c i y k) :
    y = .nothing := by
  have hfruit : ∀ {x : Parsed}, x.succeeds = true → x.isNothing = false := by
    intro x hx
    cases x <;> first | rfl | cases hx
  obtain ⟨⟨-, hnothing⟩, -⟩ := h.agree Parsed.likeness_alike
    (fun _ _ _ _ _ _ _ _ hx hy => ⟨hx.2.trans hy.2.symm, (hfruit hx.2).trans (hfruit hy.2).symm⟩)
    (fun a _ _ _ _ hblames hmade => by rw [hmade.1] at hblames; cases hblames) h' .none
  cases y <;> first | rfl | cases hnothing

end Grammar

namespace Parser

open Labyrinth.Grammar

/-- The parser as it begins the second pass: at the first token, with nothing remembered, and with the alternatives that
only complain. -/
def restarted (p : Parser) : Parser :=
  { p with complaining := true, memory := {}, cursor := { p.cursor with index := 0 } }

/-- The parser is about to read a source from its first token on. -/
structure Fresh (lines : Array String) (src : Source) (p : Parser) : Prop where
  offers : p.cursor.Offers src.tokens
  steady : p.cursor.Steady lines
  index : p.cursor.index = 0
  quiet : p.verbose = false
  reserved : p.reserved = []
  softReserved : p.softReserved = []
  memory : p.memory = {}

variable {lines : Array String} {src : Source} {p : Parser}

/-- A pass comes to a program or to nothing, or it ends the run with a report. -/
theorem Fresh.ends_read (hsrc : src.Closed lines) (hne : 0 < src.tokens.length) (h : Fresh lines src p) :
    Ends (read (.rule .start)) p (fun x p' =>
      ((x = .nothing ∨ ∃ tree, x = .program tree) ∧
        ∃ j, Reads src fruitful p.complaining none (.rule .start) 0 x j) ∧
      Fresh lines src p'.restarted ∧ p'.cursor.Offers src.tokens ∧ p'.cursor.session.out = p.cursor.session.out)
      (Blamed p.cursor.session.out) := by
  have hready := Account.ready_fresh (A := shown lines hsrc p.complaining p.cursor.session.out) (n := ())
    ⟨h.steady, rfl⟩ h.offers h.quiet h.reserved h.softReserved rfl h.memory (src.depth (.rule .start) p.cursor.index + 1)
  have hplace : p.cursor.index < src.tokens.length := by
    rw [h.index]
    exact hne
  have hmemory : ∀ r, Call.rule .start = .rule r → r.memory ≠ .forgotten := by
    rintro _ ⟨rfl⟩
    nofun
  refine Ends.mono (hready.read hplace hmemory) (fun x p' hy ⟨n, _, h', _, hgives⟩ => ?_) fun _ _ h => h
  obtain ⟨_, rfl, hreads⟩ := hgives
  obtain ⟨hsteady, hout⟩ := h'.fits
  rw [h.index] at hreads
  obtain ⟨hlies, hfruitful⟩ := hreads.lies hsrc.last False.elim (Grammar.suits_showing src lines) nofun
  have hx : x = .nothing ∨ ∃ tree, x = .program tree := by
    rcases hlies.shows rfl with hnothing | ⟨tree, htree, -⟩
    · exact .inl hnothing
    · exact .inr ⟨tree, htree⟩
  exact ⟨⟨hx, _, hfruitful⟩, ⟨h'.offers.goTo (Nat.zero_le _), hsteady.goTo 0, rfl,
    h'.quiet, h'.reserved, h'.softReserved, rfl⟩, h'.offers, hout⟩

/-- Blaming the last token ends the run with a report. -/
theorem ends_blame (hsrc : src.Closed lines) (hne : 0 < src.tokens.length) (h : p.cursor.Offers src.tokens)
    {Q : Parsed → Parser → Prop} :
    Ends (do
      let last ← inCursor Cursor.lastTaken
      inSession (Session.writeLine s!"DEBUG: last_token = {← ofExcept last.showRecord}")
      inSession (Session.reportFatal (last.loc (← get).file) Diagnostic.syntaxKind "invalid syntax" (.line last.line)) :
      Task Parser Parsed) p Q (Blamed p.cursor.session.out) := by
  rw [ends_bind, ends_inCursor]
  refine (Cursor.ends_lastTaken h hne hsrc.regular).mono (fun last c _ hlast => ?_) fun _ _ h => h.elim
  obtain ⟨hregular, hout⟩ := hlast
  obtain ⟨name, hname⟩ := exists_nameOf hregular
  have hrecord : ∃ record, last.showRecord = .ok record := by
    rw [Token.showRecord, hname]
    exact ⟨_, rfl⟩
  obtain ⟨record, hrecord⟩ := hrecord
  simp only [hrecord, ends_bind, ends_ofExcept, ends_inSession, Session.writeLine, Session.write, ends_modify, ends_get,
    Session.reportFatal, ends_throw]
  refine ⟨fun shown _ => ⟨fun d hd => ?_, fun _ h => by cases h⟩, fun _ h => by cases h⟩
  refine ⟨rfl, s!"DEBUG: last_token = {shown}" ++ "\n", d, (Diagnostic.make_eq hd).2.1, ?_⟩
  rw [← hout]
  rfl

/-- How both passes together end: with the program of the first pass, or else with a report. -/
theorem Fresh.ends_parse (hsrc : src.Closed lines) (hne : 0 < src.tokens.length) (h : Fresh lines src p)
    (hmode : p.complaining = false) :
    Ends (parse (.rule .start)) p
      (fun x p' => (∃ tree, x = .program tree) ∧ Yields (read (.rule .start)) p x p')
      (Blamed p.cursor.session.out) := by
  have hsame : { p with complaining := false } = p := by rw [← hmode]
  simp only [parse, ends_bind, ends_modify, hsame]
  refine (h.ends_read hsrc hne).mono (fun x p₁ hy hfirst => ?_) fun _ _ h => h
  obtain ⟨⟨hx, j, hreads⟩, hfresh, hoffers, hout⟩ := hfirst
  rw [hmode] at hreads
  rcases hx with rfl | ⟨tree, rfl⟩
  · -- The second pass starts over, and can come to nothing but nothing.
    have hreset : Yields (reset 0) { p₁ with complaining := true } () { p₁.restarted with memory := p₁.memory } :=
      Parser.yields_inCursor.2 ⟨_, Cursor.Offers.reset_yields (i := 0) hoffers (Nat.zero_le _), rfl⟩
    simp only [Parsed.isNothing, Bool.not_true, Bool.false_eq_true, if_false, ends_bind, ends_modify]
    refine (ends_iff_of_yields hreset).2 ((hfresh.ends_read hsrc hne).mono (fun y p₂ hy hsecond => ?_) fun _ _ h => ?_)
    · obtain ⟨⟨-, k, hreads'⟩, -, hoffers₂, hout₂⟩ := hsecond
      obtain rfl := hreads.nothing_of_nothing hreads'
      have hblame := ends_blame hsrc hne hoffers₂
        (Q := fun x p' => (∃ tree, x = .program tree) ∧ Yields (read (.rule .start)) p x p')
      rw [hout₂, show p₁.restarted.cursor.session.out = p.cursor.session.out from hout] at hblame
      simpa only [Parsed.isNothing, Bool.not_true, Bool.false_eq_true, if_false, ends_bind] using hblame
    · rwa [show p₁.restarted.cursor.session.out = p.cursor.session.out from hout] at h
  · simp only [Parsed.isNothing, Bool.not_false, if_true, ends_pure]
    exact ⟨⟨tree, rfl⟩, hy⟩

/-- A text that can be scanned to its end, and whose literals are numbers in base 32, has a tree if and only if the
first pass comes to one, and it is this tree. If the first pass comes to nothing, so does the second one, unless it ends
the run. Without a tree, the run always ends with a report on the form of the text. -/
theorem parse_passes {session : Session} {text file : String} {c : Cursor}
    (hlex : Yields Cursor.takeAll (ofText session text file).cursor () c)
    (hnumber : ∀ t ∈ c.tokens, t.kind = .number → (Text.readInt? 32 (digitsOf t)).isSome = true) :
    (∀ x p', Yields (parse (.rule .start)) (ofText session text file) x p' ↔
      (∃ tree, x = .program tree) ∧ Yields (read (.rule .start)) (ofText session text file) x p') ∧
    (∀ p₁, Yields (read (.rule .start)) (ofText session text file) .nothing p₁ →
      ∀ y p₂, Yields (read (.rule .start)) p₁.restarted y p₂ → y = .nothing) ∧
    ((∀ tree p', ¬Yields (read (.rule .start)) (ofText session text file) (.program tree) p') →
      ∃ p', (parse (.rule .start)).run (ofText session text file) = (.error (.exit 1), p') ∧
        ∃ (log : String) (d : Diagnostic), d.kind = Diagnostic.syntaxKind ∧
          p'.cursor.session.out = session.out ++ log ++ (d.text ++ "\n")) := by
  obtain ⟨hcomplete, htokens⟩ := Cursor.complete_of_takeAll hlex
  have hsrc := Source.closed_of_complete (fun t ht => hnumber t (htokens t ht)) fun _ => false
  have ho := Cursor.offers_unopened session text file file
  rw [hcomplete] at ho
  have hfresh : Fresh (Text.splitLines (Text.normalizeBreaks text))
      ⟨(Scan.ofNormalized (Text.normalizeBreaks text)).significant ++
        [Scan.endToken (Text.splitLines (Text.normalizeBreaks text))], fun _ => false⟩ (ofText session text file) :=
    ⟨ho, ⟨rfl, nofun⟩, rfl, rfl, rfl, rfl, rfl⟩
  have hne : 0 < ((Scan.ofNormalized (Text.normalizeBreaks text)).significant ++
      [Scan.endToken (Text.splitLines (Text.normalizeBreaks text))]).length := by simp
  have hread := hfresh.ends_read hsrc hne
  have hparse := hfresh.ends_parse hsrc hne rfl
  refine ⟨fun x p' => ⟨hparse.of_yields, ?_⟩, fun p₁ hfirst y p₂ hsecond => ?_, fun hno => ?_⟩
  · rintro ⟨⟨tree, rfl⟩, hy⟩
    exact yields_bind.2 ⟨(), _, yields_modify.2 rfl, yields_bind.2 ⟨_, _, hy, yields_pure.2 ⟨rfl, rfl⟩⟩⟩
  · obtain ⟨⟨-, j, hreads⟩, hfresh₁, -, -⟩ := hread.of_yields hfirst
    obtain ⟨⟨-, k, hreads'⟩, -⟩ := (hfresh₁.ends_read hsrc hne).of_yields hsecond
    exact hreads.nothing_of_nothing hreads'
  · rcases hrun : (parse (.rule .start)).run (ofText session text file) with ⟨stop | x, p'⟩
    · obtain ⟨rfl, hblamed⟩ := hparse.of_stops hrun
      exact ⟨p', rfl, hblamed⟩
    · obtain ⟨⟨tree, rfl⟩, hy⟩ := hparse.of_yields hrun
      exact absurd hy (hno tree p')

/-- A command without its end. -/
def endlessText : String := "go"

/-- A command without its end can be scanned, but it has no tree. -/
theorem parse_passes_endless :
    Yields Cursor.takeAll (ofText {} endlessText "").cursor () (Cursor.takeAll.run (ofText {} endlessText "").cursor).2 ∧
      ∃ p', (parse (.rule .start)).run (ofText {} endlessText "") = (.error (.exit 1), p') ∧
        ∃ (log : String) (d : Diagnostic), d.kind = Diagnostic.syntaxKind ∧
          p'.cursor.session.out = "" ++ log ++ (d.text ++ "\n") := by
  have hlex : Yields Cursor.takeAll (ofText {} endlessText "").cursor ()
      (Cursor.takeAll.run (ofText {} endlessText "").cursor).2 := by
    have hgives : gives Cursor.takeAll (ofText {} endlessText "").cursor (fun _ _ => true) = true := by decide +kernel
    obtain ⟨_, c, hrun, -⟩ := yields_of_gives hgives
    rw [show Cursor.takeAll.run (ofText {} endlessText "").cursor = (.ok (), c) from hrun]
    exact hrun
  have hnumber : ∀ t ∈ (Cursor.takeAll.run (ofText {} endlessText "").cursor).2.tokens, t.kind ≠ .number := by
    decide +kernel
  have hgives : gives (read (.rule .start)) (ofText {} endlessText "") (fun x _ => !x.succeeds) = true := by
    decide +kernel
  refine ⟨hlex, (parse_passes hlex fun t ht hkind => absurd hkind (hnumber t ht)).2.2 fun tree p' hy => ?_⟩
  obtain ⟨_, _, hx, hfails⟩ := yields_of_gives hgives
  cases (hx.unique hy).1
  cases hfails

end Parser

end Labyrinth
