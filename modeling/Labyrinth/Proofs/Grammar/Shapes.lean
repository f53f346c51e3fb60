import Mathlib.Data.List.Forall2
import Labyrinth.Proofs.Grammar.Categories
import Labyrinth.Proofs.Grammar.Touching
import Labyrinth.Proofs.Tree.Placed

/-!
# What builders make

A builder is given results of the categories that its action is made for, and makes a result of a category again.
Whatever it makes lies where the tokens lie that it was made of, and every node of it inside the nodes around it. If a
builder makes a node to stand in for something that could not be read, it reports that; so what is made without a report
is well formed if all that it was made of is.

A builder breaks off with a fault only if it cannot make a report, because the line that the report points into is not
there, or if a literal is no number. If all tokens of a stretch can be done with, none does so: it ends the run with a
report at most.
-/

namespace Labyrinth

open List

def OnLine (lines : Array String) (place : Int × Int) : Prop :=
  (Text.item? lines (place.1 - 1)).isSome = true

/-- A token that builders can do with: it is of a kind that scans find and stands on one of given lines, and it can be
read as a number if it is meant to be one. -/
structure Token.Usable (lines : Array String) (t : Token) : Prop where
  regular : t.kind.isRegular = true
  line : OnLine lines t.start
  numeral : t.kind = .number → (Text.readInt? 32 (Parser.digitsOf t)).isSome = true

namespace Grammar

/-! ### Stretches of tokens -/

/-- A stretch of tokens, up to a token that is no longer part of it, and the lines that reports on it point into. -/
structure Stretch where
  tokens : List Token
  lines : Array String
  first : Nat
  stop : Nat

namespace Stretch

variable {g g' : Stretch} {span outer inner : Span} {t : Token} {c d : Prop}

def Takes (g : Stretch) (t : Token) : Prop :=
  ∃ k, g.first ≤ k ∧ k < g.stop ∧ g.tokens[k]? = some t

/-- Builders can do with all tokens of the stretch. -/
def Fair (g : Stretch) : Prop :=
  ∀ t, g.Takes t → t.Usable g.lines

/-- A span from the start of one token to the end of another. -/
def Runs (g : Stretch) (k l : Nat) (span : Span) : Prop :=
  ∃ t u, g.tokens[k]? = some t ∧ g.tokens[l]? = some u ∧ span.start = t.start ∧ span.stop = u.stop

/-- One span of tokens of the stretch inside another one. -/
def Within (g : Stretch) (outer inner : Span) : Prop :=
  ∃ a k l b, g.first ≤ a ∧ a ≤ k ∧ k ≤ l ∧ l ≤ b ∧ b < g.stop ∧ g.Runs a b outer ∧ g.Runs k l inner

def At (g : Stretch) (span : Span) : Prop :=
  g.Within span span

structure Site (g : Stretch) (span : Span) : Prop where
  lt : g.first < g.stop
  runs : g.Runs g.first (g.stop - 1) span

theorem Site.within (hs : g.Site span) (h : g.Within outer inner) : g.Within span inner := by
  obtain ⟨a, k, l, b, ha, hk, hl, hb, hstop, -, hinner⟩ := h
  exact ⟨_, k, l, _, Nat.le_refl _, by omega, hl, by omega, Nat.sub_one_lt_of_lt hs.lt, hs.runs, hinner⟩

theorem Site.at (hs : g.Site span) : g.At span :=
  ⟨_, _, _, _, Nat.le_refl _, Nat.le_refl _, Nat.le_sub_one_of_lt hs.lt, Nat.le_refl _, Nat.sub_one_lt_of_lt hs.lt,
    hs.runs, hs.runs⟩

theorem Site.asRecovered (hs : g.Site span) : g.Site span.asRecovered :=
  ⟨hs.lt, hs.runs⟩

theorem Takes.at (h : g.Takes t) : g.At (.ofToken t) := by
  obtain ⟨k, hk, hstop, ht⟩ := h
  exact ⟨k, k, k, k, hk, Nat.le_refl k, Nat.le_refl k, Nat.le_refl k, hstop, ⟨t, t, ht, ht, rfl, rfl⟩,
    ⟨t, t, ht, ht, rfl, rfl⟩⟩

theorem Within.onLine (h : g.Within outer inner) (hf : g.Fair) : OnLine g.lines inner.start := by
  obtain ⟨a, k, l, b, ha, hk, hl, hb, hstop, -, t, u, ht, -, hstart, -⟩ := h
  rw [hstart]
  exact (hf t ⟨k, by omega, by omega, ht⟩).line

/-- One stretch is part of another. -/
structure Into (g g' : Stretch) : Prop where
  tokens : g'.tokens = g.tokens
  first : g'.first ≤ g.first
  stop : g.stop ≤ g'.stop

theorem Takes.widen (h : g.Takes t) (hg : g.Into g') : g'.Takes t := by
  obtain ⟨k, hk, hstop, ht⟩ := h
  exact ⟨k, Nat.le_trans hg.first hk, Nat.lt_of_lt_of_le hstop hg.stop, hg.tokens ▸ ht⟩

theorem Within.widen (h : g.Within outer inner) (hg : g.Into g') : g'.Within outer inner := by
  obtain ⟨a, k, l, b, ha, hk, hl, hb, hstop, houter, hinner⟩ := h
  have hruns : ∀ {k l span}, g.Runs k l span → g'.Runs k l span := fun h => by rwa [Runs, hg.tokens]
  exact ⟨a, k, l, b, Nat.le_trans hg.first ha, hk, hl, hb, Nat.lt_of_lt_of_le hstop hg.stop, hruns houter,
    hruns hinner⟩

/-! What is known of the parts of results: they lie in the stretch, and they are well formed if `c` holds. -/

def HasToken (g : Stretch) (c : Prop) (t : Token) : Prop :=
  g.Takes t ∧ (c → t.WellFormed)

def HasName (g : Stretch) (c : Prop) (n : NameNode) : Prop :=
  g.At n.span ∧ (c → n.WellFormed)

def HasNumber (g : Stretch) (c : Prop) (n : NumberNode SignRef) : Prop :=
  g.At n.span ∧ (c → n.WellFormed)

def HasType (g : Stretch) (c : Prop) (t : TypeNode) : Prop :=
  g.At t.span ∧ (c → t.WellFormed)

def HasParam (g : Stretch) (c : Prop) (q : ParamNode) : Prop :=
  q.Placed g.Within q.span ∧ (c → q.WellFormed)

def HasExpr (g : Stretch) (c : Prop) (e : Expr SignRef) : Prop :=
  e.Placed g.Within e.span ∧ (c → e.WellFormed)

def HasStmt (g : Stretch) (c : Prop) (s : Stmt SignRef) : Prop :=
  s.Placed g.Within s.span ∧ (c → s.WellFormed)

theorem HasExpr.at {e : Expr SignRef} (h : g.HasExpr c e) : g.At e.span :=
  h.1.span

theorem HasName.expr {n : NameNode} (h : g.HasName c n) : g.HasExpr c (.name n) :=
  ⟨.name h.1, fun hc => .name (h.2 hc)⟩

theorem Site.expr (hs : g.Site span) {e : Expr SignRef} (h : g.HasExpr c e) : e.Placed g.Within span :=
  h.1.under (hs.within h.at)

theorem Site.stmt (hs : g.Site span) {s : Stmt SignRef} (h : g.HasStmt c s) : s.Placed g.Within span :=
  h.1.under (hs.within h.1.span)

theorem Site.param (hs : g.Site span) {q : ParamNode} (h : g.HasParam c q) : q.Placed g.Within span :=
  ⟨hs.within h.1.span, h.1.type, h.1.name⟩

end Stretch

/-! ### Results -/

/-- A result is of a category, its parts lie in a stretch, and they are well formed if `c` holds. -/
def Category.Shows (g : Stretch) (c : Prop) : Category → Parsed → Prop
  | token, r => ∃ t, r = .token t ∧ g.HasToken c t
  | number, r => ∃ t, r = .token t ∧ g.HasToken c t ∧ t.kind = .number
  | name, r => ∃ n, r = .expr (.name n) ∧ g.HasName c n
  | expr, r => ∃ e, r = .expr e ∧ g.HasExpr c e
  | type, r => ∃ t, r = .type t ∧ g.HasType c t
  | param, r => ∃ q, r = .param q ∧ g.HasParam c q
  | stmt, r => ∃ s, r = .stmt s ∧ g.HasStmt c s
  | block, r => ∃ items, r = .tuple [.list items] ∧ ∀ item ∈ items, ∃ s, item = .stmt s ∧ g.HasStmt c s
  | program, r => ∃ p, r = .program p ∧ (c → p.WellFormed)
  | arrow, r => ∃ t e, r = .list [.token t, .expr e] ∧ g.HasExpr c e
  | test, r => ∃ op e, r = .tuple [.cmpOp op, .expr e] ∧ g.HasExpr c e
  | many k, r => ∃ items, r = .list items ∧ ∀ item ∈ items, k.Shows g c item
  | never, _ => False

section Shows

variable {g g' : Stretch} {c d : Prop} {k l : Category} {r : Parsed}

/-- What lies in a stretch lies in a wider one. -/
theorem Category.Shows.mono (h : k.Shows g c r) (hg : g.Into g') (hc : d → c) : k.Shows g' d r := by
  have hw : ∀ outer inner, g.Within outer inner → g'.Within outer inner := fun _ _ h => h.widen hg
  have hstmt : ∀ {s}, g.HasStmt c s → g'.HasStmt d s := fun h => ⟨h.1.mono hw, h.2 ∘ hc⟩
  induction k generalizing r with
  | token =>
    obtain ⟨t, rfl, ht⟩ := h
    exact ⟨t, rfl, ht.1.widen hg, ht.2 ∘ hc⟩
  | number =>
    obtain ⟨t, rfl, ht, hk⟩ := h
    exact ⟨t, rfl, ⟨ht.1.widen hg, ht.2 ∘ hc⟩, hk⟩
  | name | type =>
    obtain ⟨n, rfl, hn⟩ := h
    exact ⟨n, rfl, hn.1.widen hg, hn.2 ∘ hc⟩
  | expr | param =>
    obtain ⟨e, rfl, he⟩ := h
    exact ⟨e, rfl, he.1.mono hw, he.2 ∘ hc⟩
  | stmt =>
    obtain ⟨s, rfl, hs⟩ := h
    exact ⟨s, rfl, hstmt hs⟩
  | block =>
    obtain ⟨items, rfl, hall⟩ := h
    refine ⟨items, rfl, fun item hitem => ?_⟩
    obtain ⟨s, rfl, hs⟩ := hall item hitem
    exact ⟨s, rfl, hstmt hs⟩
  | program =>
    obtain ⟨p, rfl, hp⟩ := h
    exact ⟨p, rfl, hp ∘ hc⟩
  | arrow | test =>
    obtain ⟨t, e, rfl, he⟩ := h
    exact ⟨t, e, rfl, he.1.mono hw, he.2 ∘ hc⟩
  | many k ih =>
    obtain ⟨items, rfl, hall⟩ := h
    exact ⟨items, rfl, fun item hitem => ih (hall item hitem)⟩
  | never => exact h

theorem Category.Shows.weaken (h : k.Shows g c r) (hc : d → c) : k.Shows g d r :=
  h.mono ⟨rfl, Nat.le_refl _, Nat.le_refl _⟩ hc

theorem Category.Shows.fit (h : k.Shows g c r) (hfit : k.fits l = true) : l.Shows g c r := by
  simp only [fits, Bool.or_eq_true, Bool.and_eq_true, beq_iff_eq] at hfit
  rcases hfit with (rfl | ⟨rfl, rfl⟩) | ⟨rfl, rfl⟩
  · exact h
  · obtain ⟨n, rfl, hn⟩ := h
    exact ⟨_, rfl, hn.expr⟩
  · obtain ⟨t, rfl, ht, _⟩ := h
    exact ⟨t, rfl, ht⟩

/-- A kept result is of its category; it succeeded, unless it may be missing. -/
def Slot.Shows (g : Stretch) (c : Prop) (s : Slot) (r : Parsed) : Prop :=
  if s.optional then r = .nothing ∨ s.category.Shows g c r else r.succeeds = true ∧ s.category.Shows g c r

theorem Slot.shows_must : (Slot.must k).Shows g c r ↔ r.succeeds = true ∧ k.Shows g c r :=
  Iff.rfl

theorem Slot.shows_may : (Slot.may k).Shows g c r ↔ r = .nothing ∨ k.Shows g c r :=
  Iff.rfl

theorem Slot.Shows.weaken {s : Slot} (h : s.Shows g c r) (hc : d → c) : s.Shows g d r := by
  obtain ⟨k, _ | _⟩ := s
  · exact ⟨h.1, h.2.weaken hc⟩
  · exact h.imp_right fun h => h.weaken hc

theorem Slot.Shows.part (h : (Slot.must k).Shows g c r) : k.Shows g c r :=
  (Slot.shows_must.1 h).2

end Shows

section Kept

variable {R : Slot → Parsed → Prop} {a b c d : Slot} {kept : List Parsed}

theorem Slot.one (h : Forall₂ R [a] kept) : ∃ r, kept = [r] ∧ R a r := by
  cases h with
  | cons h hrest =>
    cases hrest
    exact ⟨_, rfl, h⟩

theorem Slot.two (h : Forall₂ R [a, b] kept) : ∃ r s, kept = [r, s] ∧ R a r ∧ R b s := by
  cases h with
  | cons h hrest =>
    obtain ⟨s, rfl, hs⟩ := Slot.one hrest
    exact ⟨_, s, rfl, h, hs⟩

theorem Slot.three (h : Forall₂ R [a, b, c] kept) : ∃ r s t, kept = [r, s, t] ∧ R a r ∧ R b s ∧ R c t := by
  cases h with
  | cons h hrest =>
    obtain ⟨s, t, rfl, hs, ht⟩ := Slot.two hrest
    exact ⟨_, s, t, rfl, h, hs, ht⟩

theorem Slot.four (h : Forall₂ R [a, b, c, d] kept) :
    ∃ r s t u, kept = [r, s, t, u] ∧ R a r ∧ R b s ∧ R c t ∧ R d u := by
  cases h with
  | cons h hrest =>
    obtain ⟨s, t, u, rfl, hs, ht, hu⟩ := Slot.three hrest
    exact ⟨_, s, t, u, rfl, h, hs, ht, hu⟩

end Kept

end Grammar

namespace Parser

open Labyrinth.Task Labyrinth.Grammar

variable {α β : Type} {g : Stretch} {c d : Prop} {span outer : Span} {t : Token} {r : Parsed} {e : Expr SignRef}

/-! ### Ways to end -/

/-- The run was ended by a report on the form of the program, which was the last thing that was printed after what had
been printed before. -/
def Blamed (printed : String) (stop : Stop) (p : Parser) : Prop :=
  stop = .exit 1 ∧ ∃ (log : String) (d : Diagnostic), d.kind = Diagnostic.syntaxKind ∧
    p.cursor.session.out = printed ++ log ++ (d.text ++ "\n")

/-- From every state, a computation touches only signs and reports and comes to a result with a property, or it ends the
run with a report if reports on a stretch can be made. The property may rely on `c`, and on nothing being reported. -/
def Works (g : Stretch) (c : Prop) (act : Task Parser α) (Q : Prop → α → Prop) : Prop :=
  ∀ p, Ends act p (fun a p' => Touches p p' ∧ ∃ d : Prop, (d → c) ∧ (Unreported p' → c → d) ∧ Q d a)
    fun stop p' => g.Fair → p.cursor.session.lines = g.lines → Blamed p.cursor.session.out stop p'

variable {Q R : Prop → α → Prop}

theorem works_pure {a : α} (h : Q c a) : Works g c (pure a) Q := by
  intro p
  rw [ends_pure]
  exact ⟨.refl p, c, id, fun _ => id, h⟩

theorem works_fail {cause : Fault} (h : ¬g.Fair) : Works g c (fail cause) Q := by
  intro p
  rw [ends_fail]
  exact fun hf => absurd hf h

variable {x : Task Parser β} {act : Task Parser α} {message : String} {items : List Parsed} {f : Parsed → Option β}
  {P : β → Prop} {k : Category}

theorem Works.bind {f : β → Task Parser α} {Q : Prop → β → Prop} (hx : Works g c x Q)
    (hf : ∀ d a, (d → c) → Q d a → Works g d (f a) R) : Works g c (x >>= f) R := by
  intro p
  refine (hx p).bind fun a p' _ ⟨htouch, d, hd, hd', ha⟩ => ?_
  refine (hf d a hd ha p').mono (fun b p'' _ ⟨htouch', e, he, he', hb⟩ => ?_) fun stop p'' hstop => ?_
  · exact ⟨htouch.trans htouch', e, hd ∘ he, fun hu hc => he' hu (hd' (htouch'.unreported hu) hc), hb⟩
  · rwa [htouch.lines, htouch.out] at hstop

theorem Works.mono (h : Works g c act Q) (hQR : ∀ d a, (d → c) → Q d a → R d a) : Works g c act R :=
  fun p => (h p).mono (fun a _ _ ⟨htouch, d, hd, hd', ha⟩ => ⟨htouch, d, hd, hd', hQR d a hd ha⟩) fun _ _ h => h

/-- What is done with the result of a computation that always comes to one. -/
theorem Works.after {f : β → Task Parser α} (hx : Works g c x fun _ _ => True)
    (hf : ∀ d a, (d → c) → Works g d (f a) R) : Works g c (x >>= f) R :=
  hx.bind fun d a hd _ => hf d a hd

theorem works_look {f : Parser → Task Parser α} (hf : ∀ p, Works g c (f p) R) : Works g c (get >>= f) R := by
  intro p
  rw [ends_bind, ends_get]
  exact hf p p

/-- A report can be made if its line is there, and a fatal one ends the run. After it nothing is without reports. -/
theorem works_reportSpan (message : String) (fatal : Bool) (h : g.Within outer span) :
    Works g c (reportSpan message span fatal) fun d _ => fatal = false ∧ ¬d := by
  intro p
  have hends : Ends (reportSpan message span fatal) p (fun _ _ => True)
      fun stop p' => g.Fair → p.cursor.session.lines = g.lines → Blamed p.cursor.session.out stop p' := by
    simp only [reportSpan, reportBetween, ends_bind, ends_get]
    cases hline : Text.item? p.cursor.session.lines (span.start.1 - 1) with
    | none =>
      simp only [ends_bind, ends_fail]
      intro hf hlines
      have honline := h.onLine hf
      rw [← hlines, OnLine, hline] at honline
      cases honline
    | some line =>
      simp only [ends_bind, ends_pure]
      cases fatal with
      | false =>
        simp only [Bool.false_eq_true, if_false, ends_inSession, Session.report, ends_bind, ends_get, ends_ofExcept,
          ends_modify]
        exact ⟨fun _ _ => trivial, fun _ h => by cases h⟩
      | true =>
        simp only [if_true, ends_inSession, Session.reportFatal, Session.writeLine, Session.write, ends_bind, ends_get,
          ends_ofExcept, ends_modify, ends_throw]
        exact ⟨fun d hd _ _ => ⟨rfl, "", d, (Diagnostic.make_eq hd).2.1, by rw [String.append_empty]; rfl⟩,
          fun _ h => by cases h⟩
  refine hends.mono (fun u p' hy _ => ?_) fun _ _ h => h
  obtain ⟨hfatal, hreported⟩ := reported_of_reportSpan hy
  exact ⟨touching_reportSpan _ _ _ _ _ _ hy, False, False.elim, fun hu _ => hreported hu, hfatal, id⟩

theorem Works.report (h : g.Within outer span) (hact : Works g False act R) :
    Works g c (do reportSpan message span; act) R :=
  (works_reportSpan message false h).bind fun _ _ _ hd => eq_false hd.2 ▸ hact

theorem works_fatal (h : g.Within outer span) : Works g c (do reportSpan message span true; act) R :=
  (works_reportSpan message true h).bind fun _ _ _ hfatal => nomatch hfatal.1

theorem Works.reportExpr (h : g.At e.span) (hact : Works g False act R) :
    Works g c (do reportSpan message (← ofExcept (Parsed.expr e).spanOf); act) R :=
  Works.report (show g.Within e.span e.span.asRead from h) hact

/-- Every kind that scans find has a name. -/
theorem exists_nameOf {kind : TokenKind} (h : kind.isRegular = true) : ∃ name, kind.nameOf = .ok name := by
  cases kind with
  | endMarker | name | number | op | keyword => exact ⟨_, rfl⟩
  | _ => cases h

theorem Works.kind (ht : g.Takes t) {f : String → Task Parser α} (h : ∀ name, Works g c (f name) R) :
    Works g c (ofExcept t.kind.nameOf >>= f) R := by
  cases hname : t.kind.nameOf with
  | ok name => exact h name
  | error cause =>
    refine (works_fail (Q := fun _ _ => False) fun hf => ?_).bind fun _ _ _ h => h.elim
    obtain ⟨name, hok⟩ := exists_nameOf (hf t ht).regular
    cases hname.symm.trans hok

theorem works_newSign (sign : Sign) : Works g c (newSign sign) fun _ _ => True := by
  intro p
  refine Ends.mono (Q := fun _ _ => True) (E := fun _ _ => False) (by simp [newSign]) (fun a p' hy _ => ?_)
    fun _ _ h => h.elim
  exact ⟨composed_touching.newSign sign _ _ _ hy, c, id, fun _ => id, trivial⟩

theorem works_setSign (ref : SignRef) (sign : Sign) : Works g c (setSign ref sign) fun _ _ => True := by
  intro p
  refine Ends.mono (Q := fun _ _ => True) (E := fun _ _ => False) (by simp [setSign]) (fun a p' hy _ => ?_)
    fun _ _ h => h.elim
  exact ⟨composed_touching.setSign ref sign _ _ _ hy, c, id, fun _ => id, trivial⟩

/-! ### Names, types and literals -/

theorem works_makeName (ht : g.HasToken c t) (hat : g.At span) (hread : span.recovered = false) :
    Works g c (makeName (.token t) span) g.HasName := by
  unfold makeName
  dsimp only
  split
  · exact .kind ht.1 fun _ => .report ht.1.at (works_pure ⟨hat, False.elim⟩)
  · next hkind => exact works_pure ⟨hat, fun hc => ⟨hread, (ht.2 hc).1 (Decidable.not_not.1 hkind)⟩⟩

theorem works_makeTokenName (ht : g.HasToken c t) : Works g c (makeTokenName t) g.HasName :=
  works_makeName ht ht.1.at rfl

theorem works_nameResult (ht : g.HasToken c t) : Works g c (nameResult t) (Category.Shows g · .name) :=
  (works_makeTokenName ht).bind fun _ n _ hn => works_pure ⟨n, rfl, hn⟩

theorem works_makeTokenNames (h : ∀ item ∈ items, Category.token.Shows g c item) :
    Works g c (makeTokenNames items) fun d names => (names = [] → items = []) ∧ ∀ n ∈ names, g.HasName d n := by
  induction items generalizing c with
  | nil => exact works_pure ⟨fun _ => rfl, nofun⟩
  | cons item rest ih =>
    obtain ⟨⟨t, rfl, ht⟩, hrest⟩ := forall_mem_cons.1 h
    refine (works_makeTokenName ht).bind fun d n hd hn => ?_
    refine (ih fun item hitem => (hrest item hitem).weaken hd).bind fun e names he hnames => works_pure ⟨nofun, ?_⟩
    exact forall_mem_cons.2 ⟨⟨hn.1, hn.2 ∘ he⟩, hnames.2⟩

theorem works_makeNumberType (ht : g.Takes t) (hat : g.At span) (hread : span.recovered = false) :
    Works g c (makeNumberType t span) g.HasType := by
  unfold makeNumberType typeOfKind
  split
  · exact works_pure ⟨hat, fun _ => hread⟩
  · exact .kind ht fun _ => .report ht.at (works_pure ⟨hat, False.elim⟩)

theorem works_makeTokenType (ht : g.Takes t) : Works g c (makeTokenType t) g.HasType :=
  works_makeNumberType ht ht.at rfl

/-- The digits of a number have no minus among them. -/
theorem minus_notMem_digitsOf (h : Word.isNumber t.text.toList = true) : '-' ∉ (digitsOf t).toList := by
  intro hmem
  rw [digitsOf, String.toList_ofList] at hmem
  rw [Word.isNumber, Bool.and_eq_true, Bool.and_eq_true, all_eq_true] at h
  exact absurd (h.1.1 '-' (mem_filter.1 hmem).1) (by decide)

theorem works_reportLength (ht : g.Takes t) :
    Works g c (reportLength t) fun d tooLarge => d → tooLarge = false ∧ (digitsOf t).length ≤ 3 := by
  unfold reportLength
  dsimp only
  split
  · exact .report ht.at (works_pure False.elim)
  · next hlen => exact works_pure fun _ => ⟨decide_eq_false hlen, by omega⟩

theorem works_makeNumber (ht : g.HasToken c t) (hkind : t.kind = .number) (hat : g.At span)
    (hread : span.recovered = false) : Works g c (makeNumber t span) g.HasNumber := by
  refine (works_reportLength ht.1).bind fun d tooLarge hd hshort => ?_
  unfold literalOf
  cases hvalue : Text.readInt? 32 (digitsOf t) with
  | some value =>
    refine (works_newSign _).after fun e ref he => works_pure ⟨?_, fun hc => ?_⟩
    · cases tooLarge <;> exact hat
    · obtain ⟨rfl, hlen⟩ := hshort (he hc)
      obtain ⟨hlow, hhigh⟩ := Text.readInt?_bounds hvalue (by decide)
        (minus_notMem_digitsOf ((ht.2 (hd (he hc))).2 hkind)) hlen
      exact ⟨hread, hlow, Int.le_of_lt_add_one hhigh⟩
  | none =>
    refine works_fail fun hf => ?_
    have hnumeral := (hf t ht.1).numeral hkind
    rw [hvalue] at hnumeral
    cases hnumeral

theorem works_makeInitial (what : String) (he : g.HasExpr c e) : Works g c (makeInitial what e) g.HasNumber := by
  unfold makeInitial
  split
  · refine works_pure ⟨he.at, fun hc => ?_⟩
    cases he.2 hc with
    | number hn => exact hn
  · exact .report he.at ((works_newSign _).after fun _ _ hd => works_pure ⟨he.at, fun hc => (hd hc).elim⟩)

/-! ### Expressions -/

/-- The last of some expressions stands on a line, or else what stands in for it. -/
theorem at_last {es : List (Expr SignRef)} (h : g.At span) (hes : ∀ e ∈ es, g.HasExpr c e) :
    g.At ((es.map Expr.span).getLast?.getD span) := by
  cases hlast : (es.map Expr.span).getLast? with
  | none => exact h
  | some place =>
    obtain ⟨e, he, rfl⟩ := mem_map.1 (mem_of_getLast? hlast)
    exact (hes e he).at

theorem works_makeSubscript {indices : List (Expr SignRef)} (he : g.HasExpr c e)
    (hindices : ∀ i ∈ indices, g.HasExpr c i) (hs : g.Site span) (hread : span.recovered = false) :
    Works g c (makeSubscript (.expr e) indices span) g.HasExpr := by
  unfold makeSubscript
  split
  · next n i j heq =>
    cases heq
    have hi := hindices i (by simp)
    have hj := hindices j (by simp)
    refine works_pure ⟨.subscript hs.at (hs.within he.at) (hs.expr hi) (hs.expr hj), fun hc => ?_⟩
    cases he.2 hc with
    | name hn => exact .subscript hread hn (hi.2 hc) (hj.2 hc)
  · next n heq _ =>
    cases heq
    exact .report (at_last he.at hindices) (works_pure ⟨.hole hs.at, False.elim⟩)
  · exact .reportExpr he.at (works_pure ⟨.hole hs.at, False.elim⟩)

theorem works_makeCall {args : List (Expr SignRef)} (he : g.HasExpr c e) (hargs : ∀ a ∈ args, g.HasExpr c a)
    (hs : g.Site span) (hread : span.recovered = false) : Works g c (makeCall (.expr e) args span) g.HasExpr := by
  unfold makeCall
  split
  · next n heq =>
    cases heq
    refine works_pure ⟨.call hs.at (hs.within he.at) fun a ha => hs.expr (hargs a ha), fun hc => ?_⟩
    cases he.2 hc with
    | name hn => exact .call hread hn fun a ha => (hargs a ha).2 hc
  · exact .reportExpr he.at (works_pure ⟨.hole hs.at, False.elim⟩)

theorem works_reportTargets {bads : List (Expr SignRef)} (h : ∀ e ∈ bads, g.At e.span) :
    Works g c (reportTargets (bads.map .expr)) fun d _ => d → bads = [] := by
  induction bads generalizing c with
  | nil => exact works_pure fun _ => rfl
  | cons bad rest ih =>
    obtain ⟨hbad, hrest⟩ := forall_mem_cons.1 h
    exact .reportExpr hbad ((ih hrest).mono fun d _ hd _ hc => (hd hc).elim)

theorem works_makeAssignment {first : Expr SignRef} {rest : List (Flow × Expr SignRef)} (hne : rest ≠ [])
    (hfirst : g.HasExpr c first) (hrest : ∀ a ∈ rest, g.HasExpr c a.2) (hs : g.Site span)
    (hread : span.recovered = false) : Works g c (makeAssignment first rest span) g.HasExpr := by
  obtain ⟨hparts, hbads, hnil⟩ := Chain.assemble_good hne hfirst hrest
  unfold makeAssignment
  generalize Chain.assemble first rest = assembled at hparts hbads hnil ⊢
  obtain ⟨parts, bads⟩ := assembled
  refine (works_reportTargets fun e he => (hbads e he).at).bind fun d _ hd hclean => works_pure ⟨?_, fun hc => ?_⟩
  · have hsite : g.Site (if bads.isEmpty then span else span.asRecovered) := by
      split
      · exact hs
      · exact hs.asRecovered
    refine .assign hsite.at (forall_mem_map.2 fun part hpart => ?_) (forall_mem_map.2 fun part hpart => ?_)
      (forall_mem_map.2 fun part hpart => hsite.expr (hparts part hpart).value)
    · obtain ⟨first, last, hfirst, hlast, heq⟩ := (hparts part hpart).span
      exact ⟨first.span, last.span, hsite.within hfirst.at, hsite.within hlast.at, heq⟩
    · exact fun t ht => hsite.expr ((hparts part hpart).targets t ht).2
  · obtain rfl := hclean hc
    refine .assign hread (mt map_eq_nil_iff.1 (hnil rfl)) ?_ ?_ ?_
    all_goals
      refine forall_mem_map.2 fun part hpart => ?_
      have hp := hparts part hpart
    · exact ⟨hp.read, hp.ne_nil, fun t ht => (hp.targets t ht).1⟩
    · exact fun t ht => (hp.targets t ht).2.2 (hd hc)
    · exact hp.value.2 (hd hc)

theorem works_makeRobotOp (ht : g.Takes t) (hs : g.Site span) (hread : span.recovered = false) :
    Works g c (makeRobotOp t span) g.HasExpr := by
  unfold makeRobotOp robotOpOfKind
  split
  · exact works_pure ⟨.robot hs.at, fun _ => .robot _ hread⟩
  · exact .kind ht fun _ => works_fatal ht.at

theorem works_makeUnary (op : UnaryOp) (he : g.HasExpr c e) (hs : g.Site span) (hread : span.recovered = false) :
    Works g c (makeUnary op e span) g.HasExpr := by
  have hunary : Works g c (pure (.unary span op e)) g.HasExpr :=
    works_pure ⟨.unary hs.at (hs.expr he), fun hc => .unary op hread (he.2 hc)⟩
  unfold makeUnary
  split
  · refine works_look fun p => ?_
    split
    · exact (works_setSign _ _).after fun _ _ hd => works_pure ⟨he.1, he.2 ∘ hd⟩
    · exact hunary
  · exact hunary

/-! ### Parts among results -/

/-- All items of a list are parts of one kind, and none of them is left out. -/
theorem filterMap_shows (h : ∀ item ∈ items, ∃ b, f item = some b ∧ P b) :
    (items.filterMap f = [] → items = []) ∧ ∀ b ∈ items.filterMap f, P b := by
  constructor
  · intro hnil
    refine eq_nil_iff_forall_not_mem.2 fun item hitem => ?_
    obtain ⟨b, hb, _⟩ := h item hitem
    exact absurd (filterMap_eq_nil_iff.1 hnil item hitem) (by rw [hb]; exact Option.some_ne_none b)
  · intro b hb
    obtain ⟨item, hitem, heq⟩ := mem_filterMap.1 hb
    obtain ⟨b', hb', hp⟩ := h item hitem
    rw [heq, Option.some.injEq] at hb'
    exact hb' ▸ hp

/-- What is taken from the items of a list that may be missing. -/
theorem optionsOf_shows (h : (Slot.may (.many k)).Shows g c r)
    (hf : ∀ item, k.Shows g c item → ∃ b, f item = some b ∧ P b) : ∀ b ∈ r.items.filterMap f, P b := by
  rcases Slot.shows_may.1 h with rfl | ⟨items, rfl, hall⟩
  · exact nofun
  · exact (filterMap_shows fun item hitem => hf item (hall item hitem)).2

theorem exprsOf_shows (h : (Slot.may (.many .expr)).Shows g c r) : ∀ e ∈ exprsOf r, g.HasExpr c e := by
  refine optionsOf_shows h ?_
  rintro item ⟨e, rfl, he⟩
  exact ⟨e, rfl, he⟩

theorem paramsOf_shows (h : (Slot.may (.many .param)).Shows g c r) : ∀ q ∈ paramsOf r, g.HasParam c q := by
  refine optionsOf_shows h ?_
  rintro item ⟨q, rfl, hq⟩
  exact ⟨q, rfl, hq⟩

theorem stmtsOf_shows (h : Category.block.Shows g c r) : ∀ s ∈ stmtsOf r, g.HasStmt c s := by
  obtain ⟨items, rfl, hall⟩ := h
  refine (filterMap_shows fun item hitem => ?_).2
  obtain ⟨s, rfl, hs⟩ := hall item hitem
  exact ⟨s, rfl, hs⟩

/-- What is taken from the items of a list that has to succeed is not nothing. -/
theorem partsOf_shows (h : (Slot.must (.many k)).Shows g c r)
    (hf : ∀ item, k.Shows g c item → ∃ b, f item = some b ∧ P b) :
    r.items.filterMap f ≠ [] ∧ ∀ b ∈ r.items.filterMap f, P b := by
  obtain ⟨hsucceeds, items, rfl, hall⟩ := Slot.shows_must.1 h
  obtain ⟨hnil, hparts⟩ := filterMap_shows fun item hitem => hf item (hall item hitem)
  refine ⟨fun h => ?_, hparts⟩
  obtain rfl := hnil h
  cases hsucceeds

theorem namesOf_shows (h : (Slot.must (.many .name)).Shows g c r) : namesOf r ≠ [] ∧ ∀ n ∈ namesOf r, g.HasName c n := by
  refine partsOf_shows h ?_
  rintro item ⟨n, rfl, hn⟩
  exact ⟨n, rfl, hn⟩

theorem tailsOf_shows (h : (Slot.must (.many .arrow)).Shows g c r) :
    tailsOf r ≠ [] ∧ ∀ a ∈ tailsOf r, g.HasExpr c a.2 := by
  refine partsOf_shows h ?_
  rintro item ⟨t, e, rfl, he⟩
  exact ⟨_, rfl, he⟩

theorem comparesOf_shows (h : (Slot.must (.many .test)).Shows g c r) :
    comparesOf r ≠ [] ∧ ∀ a ∈ comparesOf r, g.HasExpr c a.2 := by
  refine partsOf_shows h ?_
  rintro item ⟨op, e, rfl, he⟩
  exact ⟨_, rfl, he⟩

/-- The names made of the tokens of a list that has to succeed. -/
theorem works_tokenNames (h : (Slot.must (.many .token)).Shows g c r) :
    Works g c (makeTokenNames r.items) fun d names => names ≠ [] ∧ ∀ n ∈ names, g.HasName d n := by
  obtain ⟨hsucceeds, items, rfl, hall⟩ := Slot.shows_must.1 h
  refine (works_makeTokenNames hall).mono fun d names _ hnames => ⟨fun hnil => ?_, hnames.2⟩
  obtain rfl : items = [] := hnames.1 hnil
  cases hsucceeds

/-! ### Actions -/

section Statements

variable {names : List NameNode} {value : Expr SignRef} (hs : g.Site span) (hread : span.recovered = false)

include hs hread

variable {type : TypeNode} {name : NameNode}

theorem works_makeNumberDeclaration (ht : g.HasType c type) (hnames : names ≠ [] ∧ ∀ n ∈ names, g.HasName c n)
    (hv : g.HasExpr c value) : Works g c (makeNumberDeclaration type names value span) g.HasStmt := by
  refine (works_makeInitial _ hv).bind fun d n hd hn => works_pure ⟨?_, fun hc => ?_⟩
  · exact .declareNumber hs.at (hs.within ht.1) (fun n hn => hs.within (hnames.2 n hn).1) (hs.within hn.1)
  · exact .declareNumber hread (ht.2 (hd hc)) hnames.1 (fun n hn => (hnames.2 n hn).2 (hd hc)) (hn.2 hc)

theorem works_makeFieldDeclaration {element size : TypeNode} (he : g.HasType c element) (hz : g.HasType c size)
    (hnames : names ≠ [] ∧ ∀ n ∈ names, g.HasName c n) (hv : g.HasExpr c value) :
    Works g c (makeFieldDeclaration element size names value span) g.HasStmt := by
  refine (works_makeInitial _ hv).bind fun d n hd hn => works_pure ⟨?_, fun hc => ?_⟩
  · exact .declareField hs.at (hs.within he.1) (hs.within hz.1) (fun n hn => hs.within (hnames.2 n hn).1)
      (hs.within hn.1)
  · exact .declareField hread (he.2 (hd hc)) (hz.2 (hd hc)) hnames.1 (fun n hn => (hnames.2 n hn).2 (hd hc)) (hn.2 hc)

theorem hasStmt_function {returns : TypeNode} {params body : Parsed} (ht : g.HasType c returns)
    (hn : g.HasName c name) (hp : (Slot.may (.many .param)).Shows g c params) (hb : Category.block.Shows g c body) :
    g.HasStmt c (.function span returns name.value (paramsOf params) (stmtsOf body)) := by
  refine ⟨.function hs.at (hs.within ht.1) (fun q hq => hs.param (paramsOf_shows hp q hq))
    fun s hmem => hs.stmt (stmtsOf_shows hb s hmem), fun hc => ?_⟩
  exact .function hread (ht.2 hc) (hn.2 hc).2 (fun q hq => (paramsOf_shows hp q hq).2 hc)
    fun s hmem => (stmtsOf_shows hb s hmem).2 hc

theorem hasParam (ht : g.HasType c type) (hn : g.HasName c name) : g.HasParam c ⟨span, type, name⟩ :=
  ⟨⟨hs.at, hs.within ht.1, hs.within hn.1⟩, fun hc => ⟨hread, ht.2 hc, hn.2 hc⟩⟩

end Statements

/-- What an action makes of results of the categories it is made for is of its category, and counts as a success. -/
theorem perform_works {action : Action} {slots : List Slot} {kept : List Parsed}
    (hc : action.category? slots = some k) (hk : Forall₂ (Slot.Shows g c) slots kept) (hread : span.recovered = false)
    (hsite : action.located = true → action ≠ .program → g.Site span) :
    Works g c (perform action span kept) fun d x => k.Shows g d x ∧ x.succeeds = true := by
  have hstmt : ∀ {d : Prop} {act : Task Parser (Stmt SignRef)}, Works g d act g.HasStmt →
      Works g d (do return .stmt (← act)) fun d x => Category.stmt.Shows g d x ∧ x.succeeds = true :=
    fun h => h.bind fun _ s _ hs => works_pure ⟨⟨s, rfl, hs⟩, rfl⟩
  have hexpr : ∀ {d : Prop} {act : Task Parser (Expr SignRef)}, Works g d act g.HasExpr →
      Works g d (do return .expr (← act)) fun d x => Category.expr.Shows g d x ∧ x.succeeds = true :=
    fun h => h.bind fun _ e _ he => works_pure ⟨⟨e, rfl, he⟩, rfl⟩
  obtain ⟨_, hsignature⟩ := Action.exists_signature hc
  cases action <;> cases hsignature
  case unclosedBegin | emptyReturn | openUntil | openCheck | unclosedBracket | unclosedParen =>
    -- Reports that end the run.
    obtain ⟨x, rfl, hx⟩ := Slot.one hk
    obtain ⟨t, rfl, ht⟩ := hx.part
    exact works_fatal ht.1.at
  -- The actions that keep what they get, or make a group or a statement of it.
  · obtain ⟨x, rfl, hx⟩ := Slot.one hk
    exact works_pure ⟨hx.part, hx.1⟩
  · obtain ⟨x, y, rfl, hx, hy⟩ := Slot.two hk
    obtain ⟨t, rfl, _⟩ := hx.part
    obtain ⟨e, rfl, he⟩ := hy.part
    exact works_pure ⟨⟨t, e, rfl, he⟩, rfl⟩
  · obtain ⟨x, rfl, hx⟩ := Slot.one hk
    exact works_pure ⟨⟨_, rfl, fun hc => ⟨hread, fun s hs => (stmtsOf_shows hx.part s hs).2 hc⟩⟩, rfl⟩
  · obtain ⟨x, rfl, hx⟩ := Slot.one hk
    obtain ⟨groups, rfl, hall⟩ := hx.part
    refine works_pure ⟨⟨_, rfl, fun item hitem => ?_⟩, rfl⟩
    obtain ⟨group, hgroup, hmem⟩ := mem_flatMap.1 hitem
    obtain ⟨items, rfl, hitems⟩ := hall group hgroup
    exact hitems item hmem
  · obtain ⟨x, rfl, hx⟩ := Slot.one hk
    rcases Slot.shows_may.1 hx with rfl | ⟨items, rfl, hall⟩
    · exact works_pure ⟨⟨_, rfl, nofun⟩, rfl⟩
    · exact works_pure ⟨⟨_, rfl, hall⟩, rfl⟩
  · obtain ⟨x, rfl, hx⟩ := Slot.one hk
    obtain ⟨e, rfl, he⟩ := hx.part
    have hs := hsite rfl nofun
    exact works_pure ⟨⟨_, rfl, .expr hs.at (hs.expr he), fun hc => .expr hread (he.2 hc)⟩, rfl⟩
  -- Functions and their parameters.
  · obtain ⟨x, y, params, body, rfl, hx, hy, hp, hb⟩ := Slot.four hk
    obtain ⟨t, rfl, ht⟩ := hx.part
    obtain ⟨n, rfl, hn⟩ := hy.part
    exact works_pure ⟨⟨_, rfl, hasStmt_function (hsite rfl nofun) hread ht hn hp hb.part⟩, rfl⟩
  · obtain ⟨x, y, params, body, rfl, hx, hy, hp, hb⟩ := Slot.four hk
    obtain ⟨t, rfl, ht⟩ := hx.part
    obtain ⟨u, rfl, hu⟩ := hy.part
    refine (works_makeTokenType ht.1).bind fun d type hd htype => ?_
    refine (works_makeTokenName ⟨hu.1, hu.2 ∘ hd⟩).bind fun e n he hn => works_pure ⟨⟨_, rfl, ?_⟩, rfl⟩
    exact hasStmt_function (hsite rfl nofun) hread ⟨htype.1, htype.2 ∘ he⟩ hn (hp.weaken (hd ∘ he))
      (hb.part.weaken (hd ∘ he))
  · obtain ⟨x, y, rfl, hx, hy⟩ := Slot.two hk
    obtain ⟨t, rfl, ht⟩ := hx.part
    obtain ⟨n, rfl, hn⟩ := hy.part
    exact works_pure ⟨⟨_, rfl, hasParam (hsite rfl nofun) hread ht hn⟩, rfl⟩
  · obtain ⟨x, y, rfl, hx, hy⟩ := Slot.two hk
    obtain ⟨t, rfl, ht⟩ := hx.part
    obtain ⟨u, rfl, hu⟩ := hy.part
    refine (works_makeTokenType ht.1).bind fun d type hd htype => ?_
    refine (works_makeTokenName ⟨hu.1, hu.2 ∘ hd⟩).bind fun e n he hn => works_pure ⟨⟨_, rfl, ?_⟩, rfl⟩
    exact hasParam (hsite rfl nofun) hread ⟨htype.1, htype.2 ∘ he⟩ hn
  -- Statements with expressions.
  · obtain ⟨x, rfl, hx⟩ := Slot.one hk
    obtain ⟨e, rfl, he⟩ := hx.part
    have hs := hsite rfl nofun
    exact works_pure ⟨⟨_, rfl, .giveBack hs.at (hs.expr he), fun hc => .giveBack hread (he.2 hc)⟩, rfl⟩
  · obtain ⟨x, body, rfl, hx, hb⟩ := Slot.two hk
    obtain ⟨e, rfl, he⟩ := hx.part
    have hs := hsite rfl nofun
    have hbody := stmtsOf_shows hb.part
    exact works_pure ⟨⟨_, rfl, .loop hs.at (hs.expr he) fun s hmem => hs.stmt (hbody s hmem),
      fun hc => .loop hread (he.2 hc) fun s hmem => (hbody s hmem).2 hc⟩, rfl⟩
  · obtain ⟨x, body, rfl, hx, hb⟩ := Slot.two hk
    obtain ⟨e, rfl, he⟩ := hx.part
    have hs := hsite rfl nofun
    have hbody := stmtsOf_shows hb.part
    exact works_pure ⟨⟨_, rfl, .check hs.at (hs.expr he) fun s hmem => hs.stmt (hbody s hmem),
      fun hc => .check hread (he.2 hc) fun s hmem => (hbody s hmem).2 hc⟩, rfl⟩
  -- Declarations.
  · obtain ⟨x, y, names, value, rfl, hx, hy, hn, hv⟩ := Slot.four hk
    obtain ⟨t, rfl, ht⟩ := hx.part
    obtain ⟨u, rfl, hu⟩ := hy.part
    obtain ⟨e, rfl, he⟩ := hv.part
    exact hstmt (works_makeFieldDeclaration (hsite rfl nofun) hread ht hu (namesOf_shows hn) he)
  · obtain ⟨x, y, names, value, rfl, hx, hy, hn, hv⟩ := Slot.four hk
    obtain ⟨t, rfl, ht⟩ := hx.part
    obtain ⟨u, rfl, hu⟩ := hy.part
    obtain ⟨e, rfl, he⟩ := hv.part
    refine (works_makeTokenType ht.1).bind fun d element hd helement => ?_
    refine (works_makeTokenType hu.1).bind fun d' size hd' hsize => ?_
    refine (works_tokenNames (hn.weaken (hd ∘ hd'))).bind fun d'' names hd'' hnames => ?_
    exact hstmt (works_makeFieldDeclaration (hsite rfl nofun) hread ⟨helement.1, helement.2 ∘ hd' ∘ hd''⟩
      ⟨hsize.1, hsize.2 ∘ hd''⟩ hnames ⟨he.1, he.2 ∘ hd ∘ hd' ∘ hd''⟩)
  · obtain ⟨x, names, value, rfl, hx, hn, hv⟩ := Slot.three hk
    obtain ⟨t, rfl, ht⟩ := hx.part
    obtain ⟨e, rfl, he⟩ := hv.part
    exact hstmt (works_makeNumberDeclaration (hsite rfl nofun) hread ht (namesOf_shows hn) he)
  · obtain ⟨x, names, value, rfl, hx, hn, hv⟩ := Slot.three hk
    obtain ⟨t, rfl, ht⟩ := hx.part
    obtain ⟨e, rfl, he⟩ := hv.part
    refine (works_makeTokenType ht.1).bind fun d type hd htype => ?_
    refine (works_tokenNames (hn.weaken hd)).bind fun d' names hd' hnames => ?_
    exact hstmt (works_makeNumberDeclaration (hsite rfl nofun) hread ⟨htype.1, htype.2 ∘ hd'⟩ hnames
      ⟨he.1, he.2 ∘ hd ∘ hd'⟩)
  -- Chains and operations.
  · obtain ⟨x, rest, rfl, hx, hr⟩ := Slot.two hk
    obtain ⟨e, rfl, he⟩ := hx.part
    obtain ⟨hne, hall⟩ := tailsOf_shows hr
    exact hexpr (works_makeAssignment hne he hall (hsite rfl nofun) hread)
  · obtain ⟨x, rest, rfl, hx, hr⟩ := Slot.two hk
    obtain ⟨e, rfl, he⟩ := hx.part
    obtain ⟨hne, hall⟩ := comparesOf_shows hr
    have hs := hsite rfl nofun
    refine works_pure ⟨⟨_, rfl, .compare hs.at (hs.expr he) ?_, fun hc => ?_⟩, rfl⟩
    · exact forall_mem_map.2 fun a ha => hs.expr (hall a ha)
    · exact .compare hread (he.2 hc) (by simp) (by simpa using hne) (forall_mem_map.2 fun a ha => (hall a ha).2 hc)
  · obtain ⟨x, rfl, hx⟩ := Slot.one hk
    obtain ⟨e, rfl, he⟩ := hx.part
    exact works_pure ⟨⟨_, e, rfl, he⟩, rfl⟩
  · obtain ⟨x, y, rfl, hx, hy⟩ := Slot.two hk
    obtain ⟨l, rfl, hl⟩ := hx.part
    obtain ⟨r, rfl, hr⟩ := hy.part
    have hs := hsite rfl nofun
    exact works_pure ⟨⟨_, rfl, .binary hs.at (hs.expr hl) (hs.expr hr), fun hc => .binary _ hread (hl.2 hc) (hr.2 hc)⟩,
      rfl⟩
  · obtain ⟨x, rfl, hx⟩ := Slot.one hk
    obtain ⟨e, rfl, he⟩ := hx.part
    exact hexpr (works_makeUnary _ he (hsite rfl nofun) hread)
  -- Elements and calls.
  · obtain ⟨x, indices, rfl, hx, hi⟩ := Slot.two hk
    obtain ⟨e, rfl, he⟩ := hx.part
    exact hexpr (works_makeSubscript he (exprsOf_shows hi) (hsite rfl nofun) hread)
  · obtain ⟨x, indices, rfl, hx, hi⟩ := Slot.two hk
    obtain ⟨t, rfl, ht⟩ := hx.part
    refine (works_nameResult ht).bind fun d name hd hname => ?_
    obtain ⟨n, rfl, hn⟩ := hname
    exact hexpr (works_makeSubscript hn.expr (exprsOf_shows (hi.weaken hd)) (hsite rfl nofun) hread)
  · obtain ⟨x, args, rfl, hx, ha⟩ := Slot.two hk
    obtain ⟨e, rfl, he⟩ := hx.part
    exact hexpr (works_makeCall he (exprsOf_shows ha) (hsite rfl nofun) hread)
  · obtain ⟨x, args, rfl, hx, ha⟩ := Slot.two hk
    obtain ⟨t, rfl, ht⟩ := hx.part
    refine (works_nameResult ht).bind fun d name hd hname => ?_
    obtain ⟨n, rfl, hn⟩ := hname
    exact hexpr (works_makeCall hn.expr (exprsOf_shows (ha.weaken hd)) (hsite rfl nofun) hread)
  -- Single tokens.
  · obtain ⟨x, rfl, hx⟩ := Slot.one hk
    obtain ⟨t, rfl, ht, hkind⟩ := hx.part
    refine (works_makeNumber ht hkind (hsite rfl nofun).at hread).bind fun d n _ hn => works_pure ⟨⟨_, rfl, ?_⟩, rfl⟩
    exact ⟨.number hn.1, fun hc => .number (hn.2 hc)⟩
  · obtain ⟨x, rfl, hx⟩ := Slot.one hk
    obtain ⟨t, rfl, ht⟩ := hx.part
    exact (works_makeName ht (hsite rfl nofun).at hread).bind fun d n _ hn => works_pure ⟨⟨n, rfl, hn⟩, rfl⟩
  · obtain ⟨x, rfl, hx⟩ := Slot.one hk
    obtain ⟨t, rfl, ht⟩ := hx.part
    exact hexpr (works_makeRobotOp ht.1 (hsite rfl nofun) hread)
  · obtain ⟨x, rfl, hx⟩ := Slot.one hk
    obtain ⟨t, rfl, ht⟩ := hx.part
    exact (works_makeNumberType ht.1 (hsite rfl nofun).at hread).bind fun d type _ htype => works_pure ⟨⟨_, rfl, htype⟩, rfl⟩

end Parser

end Labyrinth
