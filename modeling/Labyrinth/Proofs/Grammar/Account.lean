import Labyrinth.Proofs.Grammar.Outcomes
import Labyrinth.Proofs.Grammar.Touching
import Labyrinth.Proofs.Token.Steady

/-!
# Whatever is remembered is read anew

A parser that remembers its results comes to outcomes that calls have when nothing is remembered. What is known
about the actions on the way is kept account of by notes, which only ever say more as the parser goes on: an
account says what notes there are, when they fit a parser, what they say about actions, and for which outcomes the
results of the parser stand.

An account also says how a run may break off. A strict one is kept of runs that break off only where an action does:
the parser has enough fuel for every call that it makes, finds a token wherever it looks for one, and goes back only to
places where it has been.
-/

namespace Labyrinth

open Labyrinth.Task

/-- A cursor looks at a token, takes one, or goes to a place where it has been. -/
inductive Cursor.Steps : Cursor → Cursor → Prop where
  | peek {c c' t} (h : Yields Cursor.peek c t c') : Steps c c'
  | next {c c' t} (h : Yields Cursor.next c t c') : Steps c c'
  | goTo {c : Cursor} {i : Nat} (h : i ≤ c.tokens.size) : Steps c { c with index := i }

theorem Cursor.Offers.steps {tokens : List Token} {c c' : Cursor} (h : Offers tokens c) (hs : Steps c c') :
    Offers tokens c' ∧ c.tokens.size ≤ c'.tokens.size ∧ Moves c c' := by
  cases hs with
  | peek hy =>
    obtain ⟨-, ho, -, hsize, -, hm⟩ := h.peek hy
    exact ⟨ho, hsize, hm⟩
  | next hy =>
    obtain ⟨-, ho, -, hsize, hm⟩ := h.next hy
    exact ⟨ho, hsize, hm⟩
  | goTo hi => exact ⟨h.goTo hi, Nat.le_refl _, id, fun _ hl => hl, fun _ hs => ⟨hs.taken, hs.upcoming⟩⟩

variable {p : Parser}

theorem Parser.yields_inCursor {α : Type} {act : Task Cursor α} {p' : Parser} {a : α} :
    Yields (inCursor act) p a p' ↔ ∃ c, Yields act p.cursor a c ∧ { p with cursor := c } = p' := by
  change ((act.run p.cursor).1, { p with cursor := (act.run p.cursor).2 }) = (Except.ok a, p') ↔ _
  constructor
  · intro h
    obtain ⟨hr, hs⟩ := Prod.mk.inj h
    exact ⟨_, Prod.ext hr rfl, hs⟩
  · rintro ⟨c, h, hs⟩
    unfold Yields at h
    rw [h, hs]

theorem Parser.ends_mark {Q : Nat → Parser → Prop} {E : Stop → Parser → Prop} :
    Ends mark p Q E ↔ Q p.cursor.index p :=
  ends_iff

namespace Grammar

open List (Forall₂)

/-- A step that only looks ahead goes back to its place. -/
def Step.goBack (s : Step) (place : Nat) : Task Parser Unit :=
  match s with
  | .ahead _ => Parser.reset place
  | _ => pure ()

theorem Parser.runSteps_cons {again : Call → Task Parser Parsed} {kept : List Parsed} {settled : Bool} {s : Step}
    {c : Call} {rest : List Step} (hs : s.call? = some c) :
    Parser.runSteps again kept settled (s :: rest) = (do
      let place ← Parser.mark
      let x ← again c
      s.goBack place
      if s.passes x then Parser.runSteps again (s.kept x kept) settled rest else return (none, settled)) := by
  cases s <;> cases hs <;> rfl

/-- The place where the body of a rule at a place may take up a sign. -/
def Rule.held (r : Rule) (i : Nat) : Option Nat :=
  if r = .factor then some i else none

/-- The place where a call that was just carried out may have taken up a sign. -/
def Call.held : Call → Nat → Option Nat
  | .rule r, i => r.held i
  | _, _ => none

/-- Only a rule that is remembered takes up a sign. -/
theorem Rule.held_eq_none {r : Rule} (h : r.memory ≠ .remembered) (i : Nat) : r.held i = none := by
  unfold held
  split
  · next hr =>
    subst hr
    exact absurd rfl h
  · rfl

/-- The span of what an action makes of a stretch of tokens: from its first token to its last one of weight. -/
def Spans (src : Source) (a : Action) (i j : Nat) (span : Span) : Prop :=
  if a.located = true then
    ∃ t u, src.tokens[i]? = some t ∧ Cursor.lastOfWeight src.tokens.toArray none j = .ok (some u) ∧
      span = ⟨t.start, u.stop, false⟩
  else span = default

/-- An account of what a parser does with a source. -/
structure Account (src : Source) (complaining : Bool) where
  Note : Type
  /-- A note is followed by another one. -/
  Later : Note → Note → Prop
  later_refl : ∀ n, Later n n
  later_trans : ∀ {n n' n''}, Later n n' → Later n' n'' → Later n n''
  /-- What actions make, as far as it was noted. -/
  made : Note → Makings
  made_later : ∀ {n n'}, Later n n' → ∀ a i j kept x, made n a i j kept x → made n' a i j kept x
  /-- A result of the parser stands for a result of the call. -/
  Stands : Note → Parsed → Parsed → Prop
  stands_later : ∀ {n n'}, Later n n' → ∀ x y, Stands n x y → Stands n' x y
  likeness : ∀ n, Likeness (Stands n)
  /-- A call is made at a place, with a seed under way. -/
  Place : Option Seed → Call → Nat → Prop
  /-- The body of a rule is carried out at a place, with a seed under way. -/
  Room : Option Seed → Rule → Nat → Prop
  room_anew : ∀ {own r i}, r.memory = .remembered → Place own (.rule r) i → Room none r i
  room_handed : ∀ {own r i}, r.memory = .forgotten → Place own (.rule r) i → Room own r i
  room_grown : ∀ {n own r i entry}, r.memory = .grown → Place own (.rule r) i →
    (∀ seed ∈ own, seed.rule = r → seed.place ≠ i) → Seed.Sprouted src (made n) complaining ⟨r, i, entry⟩ →
    Room (some ⟨r, i, entry⟩) r i
  place_made : ∀ {n own r i c k}, Room own r i → (∀ seed ∈ own, seed.Sprouted src (made n) complaining) →
    Made complaining (Reads src (made n) complaining own) r i c k → Place own c k
  /-- A note fits a parser that has just carried a body out, which may have taken up a sign at a place. -/
  Fits : Note → Option Nat → Parser → Prop
  hold : ∀ {n held p}, Fits n none p → Fits n held p
  moved : ∀ {n held p c level}, Fits n held p → p.cursor.Offers src.tokens → p.cursor.Steps c →
    ∃ n', Later n n' ∧ Fits n' held { p with cursor := c, level }
  remembered : ∀ {n place c entry p}, Fits n (c.held place) p →
    Fits n none { p with memory := p.memory.insert (place, c) entry }
  /-- How a run may break off. -/
  Breaks : Stop → Parser → Prop
  /-- Whether a run breaks off only where an action does. -/
  strict : Prop
  lax : strict ∨ ∀ stop p, Breaks stop p
  within : strict → ∀ {own c i}, Place own c i → i < src.tokens.length
  regular : strict → ∀ t ∈ src.tokens, t.kind.isRegular = true
  performed : ∀ {n own r i a rest kept kept' settled span p}, Fits n none p → p.cursor.Offers src.tokens →
    Room own r i → i < src.tokens.length → (∀ seed ∈ own, seed.Sprouted src (made n) complaining) →
    Left (Reads src (made n) complaining own) r i (a :: rest) → a.invalid = false →
    StepsTo (Reads src (made n) complaining own) [] false i a.steps (some (kept', p.cursor.index)) settled →
    Forall₂ (Stands n) kept kept' → (r.memory = .remembered → p.memory[(i, Call.rule r)]? = none) →
    Spans src a.action i p.cursor.index span →
    Ends (Parser.perform a.action span kept) p
      (fun x p' => ∃ n' y, Later n n' ∧ Stands n' x y ∧ made n' a.action i p.cursor.index kept' y ∧
        Fits n' (r.held i) p') Breaks

namespace Account

variable {src : Source} {complaining : Bool} {A : Account src complaining}

/-- The outcomes of calls, as far as it was noted what actions make. -/
abbrev Reads (A : Account src complaining) (n : A.Note) (own : Option Seed) : Outcomes :=
  Grammar.Reads src (A.made n) complaining own

variable {n n' : A.Note} {own : Option Seed} {c : Call} {B : Nat} {p p' : Parser}

theorem reads_later (hl : A.Later n n') (c : Call) (i : Nat) (x : Parsed) (j : Nat) (h : A.Reads n own c i x j) :
    A.Reads n' own c i x j :=
  h.mono (A.made_later hl)

/-- What the parser comes to stands for an outcome of a call. -/
def Gives (A : Account src complaining) (n : A.Note) (own : Option Seed) : Outcomes :=
  fun c i x j => ∃ y, A.Stands n x y ∧ A.Reads n own c i y j

theorem Gives.later (hl : A.Later n n') {i : Nat} {x : Parsed} {j : Nat} (h : A.Gives n own c i x j) :
    A.Gives n' own c i x j := by
  obtain ⟨y, hxy, hread⟩ := h
  exact ⟨y, A.stands_later hl x y hxy, reads_later hl _ _ _ _ hread⟩

/-- A seed is a result that its rule has on the way. -/
def Seeds (A : Account src complaining) (n : A.Note) (own : Option Seed) : Prop :=
  ∀ seed ∈ own, seed.Sprouted src (A.made n) complaining

theorem Seeds.later (h : A.Seeds n own) (hl : A.Later n n') : A.Seeds n' own :=
  fun seed hs => (h seed hs).mono (A.made_later hl)

theorem Seeds.onward (h : A.Seeds n own) (c : Call) (k : Nat) (x : Parsed) (j : Nat) (hr : A.Reads n own c k x j) :
    Onward c k x j :=
  Grammar.Reads.onward hr fun seed hs => (h seed hs).onward

/-- The parser is ready for calls below a depth, with a seed under way: what it remembers of such calls are their
outcomes. -/
structure Ready (A : Account src complaining) (n : A.Note) (held : Option Nat) (own : Option Seed) (B : Nat)
    (p : Parser) : Prop where
  fits : A.Fits n held p
  offers : p.cursor.Offers src.tokens
  quiet : p.verbose = false
  reserved : p.reserved = []
  softReserved : p.softReserved = []
  mode : p.complaining = complaining
  stops : ∀ (k : Nat) (c : Call) (x : Parsed) (j : Nat), p.memory[(k, c)]? = some (x, j) → j ≤ p.cursor.tokens.size
  knows : ∀ k c x j, src.depth c k < B → p.memory[(k, c)]? = some (x, j) → A.Gives n none c k x j
  seeds : A.Seeds n own
  seeded : ∀ seed ∈ own, seed.rule.memory = .grown ∧ B ≤ src.depth (.rule seed.rule) seed.place ∧
    ∃ x, A.Stands n x seed.result.1 ∧ p.memory[(seed.place, Call.rule seed.rule)]? = some (x, seed.result.2)

/-- What happens between two moments: nothing at or above a depth is remembered anew, and no token taken is lost. -/
structure Frame (src : Source) (B : Nat) (p p' : Parser) : Prop where
  memory : ∀ k c, B ≤ src.depth c k → p'.memory[(k, c)]? = p.memory[(k, c)]?
  taken : p.cursor.tokens.size ≤ p'.cursor.tokens.size

theorem Frame.refl (B : Nat) (p : Parser) : Frame src B p p :=
  ⟨fun _ _ _ => rfl, Nat.le_refl _⟩

theorem Frame.trans {p'' : Parser} (h : Frame src B p p') (h' : Frame src B p' p'') : Frame src B p p'' :=
  ⟨fun k c hd => (h'.memory k c hd).trans (h.memory k c hd), Nat.le_trans h.taken h'.taken⟩

/-- A parser comes to another state in which it is ready. -/
def Comes (A : Account src complaining) (n : A.Note) (held : Option Nat) (own : Option Seed) (B : Nat)
    (p p' : Parser) (Q : A.Note → Prop) : Prop :=
  ∃ n', A.Later n n' ∧ A.Ready n' held own B p' ∧ Frame src B p p' ∧ Q n'

theorem Comes.mono {held : Option Nat} {Q R : A.Note → Prop} (h : A.Comes n held own B p p' Q)
    (hqr : ∀ n', A.Later n n' → Q n' → R n') : A.Comes n held own B p p' R := by
  obtain ⟨n', hl, hr, hf, hq⟩ := h
  exact ⟨n', hl, hr, hf, hqr n' hl hq⟩

/-- A part of a run comes to a result and to a state in which the parser is ready, or it breaks off. -/
def Walks (A : Account src complaining) (n : A.Note) (held : Option Nat) (own : Option Seed) (B : Nat) {α : Type}
    (act : Task Parser α) (p : Parser) (Q : A.Note → α → Parser → Prop) : Prop :=
  Ends act p (fun a p' => A.Comes n held own B p p' fun n' => Q n' a p') A.Breaks

/-- A computation that never breaks off, as far as the account is strict. -/
theorem ends_of_yields {α : Type} {act : Task Parser α} {Q : α → Parser → Prop}
    (hsure : A.strict → ∃ a p', Yields act p a p') (hq : ∀ a p', Yields act p a p' → Q a p') :
    Ends act p Q A.Breaks := by
  refine ⟨hq _ _, fun {stop p'} hstop => A.lax.elim (fun hs => ?_) fun hall => hall stop p'⟩
  obtain ⟨a, p'', hy⟩ := hsure hs
  cases (show act.run p = (.ok a, p'') from hy).symm.trans hstop

section Walks

variable {α β : Type} {n : A.Note} {held held' : Option Nat} {own : Option Seed} {B : Nat} {p : Parser}
variable {Q : A.Note → α → Parser → Prop} {act : Task Parser α} {i : Nat}

theorem walks_pure {a : α} (h : A.Ready n held own B p) (hq : Q n a p) : A.Walks n held own B (pure a) p Q :=
  ends_pure.2 ⟨n, A.later_refl n, h, .refl B p, hq⟩

theorem Walks.mono {R : A.Note → α → Parser → Prop} (h : A.Walks n held own B act p Q)
    (hqr : ∀ n' a p', A.Later n n' → Q n' a p' → R n' a p') : A.Walks n held own B act p R :=
  Ends.mono h (fun a p' _ hc => hc.mono fun n' hl => hqr n' a p' hl) fun _ _ h => h

/-- One part of a run after another. -/
theorem Walks.bind {x : Task Parser α} {f : α → Task Parser β} {R : A.Note → β → Parser → Prop}
    (hx : A.Walks n held own B x p Q)
    (hf : ∀ n' a p', A.Later n n' → A.Ready n' held own B p' → Frame src B p p' → Q n' a p' →
      A.Walks n' held' own B (f a) p' R) : A.Walks n held' own B (x >>= f) p R := by
  refine Ends.bind hx fun a p' _ ⟨n', hl, hr, hframe, hq⟩ => ?_
  refine Ends.mono (hf n' a p' hl hr hframe hq) (fun b p'' _ ⟨n'', hl', hr', hframe', hq'⟩ => ?_) fun _ _ h => h
  exact ⟨n'', A.later_trans hl hl', hr', hframe.trans hframe', hq'⟩

/-! ### Moving the cursor -/

theorem Ready.hold (h : A.Ready n none own B p) : A.Ready n held own B p :=
  ⟨A.hold h.fits, h.offers, h.quiet, h.reserved, h.softReserved, h.mode, h.stops, h.knows, h.seeds, h.seeded⟩

theorem Ready.seeded_later (h : A.Ready n held own B p) {n' : A.Note} (hl : A.Later n n') :
    ∀ seed ∈ own, seed.rule.memory = .grown ∧ B ≤ src.depth (.rule seed.rule) seed.place ∧ ∃ x,
      A.Stands n' x seed.result.1 ∧ p.memory[(seed.place, Call.rule seed.rule)]? = some (x, seed.result.2) := by
  intro seed hs
  obtain ⟨hm, hB, x, hx, hentry⟩ := h.seeded seed hs
  exact ⟨hm, hB, x, A.stands_later hl _ _ hx, hentry⟩

theorem Walks.hold (h : A.Walks n none own B act p Q) : A.Walks n held own B act p Q :=
  Ends.mono h (fun _ _ _ ⟨n', hl, hr, hf, hq⟩ => ⟨n', hl, hr.hold, hf, hq⟩) fun _ _ h => h

/-- A parser whose cursor moves, or that prints deeper, stays ready. -/
theorem Ready.shift (h : A.Ready n held own B p) {c : Cursor} {level : Nat} (hs : p.cursor.Steps c) {Q : A.Note → Prop}
    (hq : ∀ n', Q n') : A.Comes n held own B p { p with cursor := c, level } Q := by
  obtain ⟨ho, hsize, -⟩ := h.offers.steps hs
  obtain ⟨n', hl, hfits⟩ : ∃ n', A.Later n n' ∧ A.Fits n' held { p with cursor := c, level } :=
    A.moved h.fits h.offers hs
  exact ⟨n', hl, ⟨hfits, ho, h.quiet, h.reserved, h.softReserved, h.mode,
    fun k c x j he => Nat.le_trans (h.stops k c x j he) hsize, fun k c x j hd he => (h.knows k c x j hd he).later hl,
    h.seeds.later hl, h.seeded_later hl⟩, ⟨fun _ _ _ => rfl, hsize⟩, hq n'⟩

theorem Ready.peek (h : A.Ready n held own B p) (hi : A.strict → p.cursor.index < src.tokens.length) :
    A.Walks n held own B Parser.peek p fun _ t p' =>
      src.tokens[p.cursor.index]? = some t ∧ p'.cursor.index = p.cursor.index := by
  refine ends_of_yields (fun hs => ?_) fun t p' hy => ?_
  · obtain ⟨t, c, hc⟩ := h.offers.exists_peek (hi hs)
    exact ⟨t, _, Parser.yields_inCursor.2 ⟨c, hc, rfl⟩⟩
  · obtain ⟨c, hc, rfl⟩ := Parser.yields_inCursor.1 hy
    obtain ⟨ht, -, hindex, -⟩ := h.offers.peek hc
    exact h.shift (.peek hc) fun _ => ⟨ht, hindex⟩

theorem Ready.next (h : A.Ready n held own B p) (hi : A.strict → p.cursor.index < src.tokens.length) :
    A.Walks n held own B Parser.next p fun _ t p' =>
      src.tokens[p.cursor.index]? = some t ∧ p'.cursor.index = p.cursor.index + 1 := by
  refine ends_of_yields (fun hs => ?_) fun t p' hy => ?_
  · obtain ⟨t, c, hc⟩ := h.offers.exists_next (hi hs)
    exact ⟨t, _, Parser.yields_inCursor.2 ⟨c, hc, rfl⟩⟩
  · obtain ⟨c, hc, rfl⟩ := Parser.yields_inCursor.1 hy
    obtain ⟨ht, -, hindex, -⟩ := h.offers.next hc
    exact h.shift (.next hc) fun _ => ⟨ht, hindex⟩

theorem Ready.reset (h : A.Ready n held own B p) (hi : i ≤ p.cursor.tokens.size) :
    A.Walks n held own B (Parser.reset i) p fun _ _ p' => p'.cursor.index = i ∧ p'.memory = p.memory := by
  have hy : Yields (Parser.reset i) p () { p with cursor := { p.cursor with index := i } } :=
    Parser.yields_inCursor.2 ⟨_, h.offers.reset_yields hi, rfl⟩
  exact (ends_iff_of_yields hy).2 (h.shift (.goTo hi) fun _ => ⟨rfl, rfl⟩)

theorem Ready.goBack (h : A.Ready n held own B p) (s : Step) (hi : i ≤ p.cursor.tokens.size) :
    A.Walks n held own B (s.goBack i) p fun _ _ p' => p'.cursor.index = s.stop i p.cursor.index := by
  cases s with
  | ahead => exact (h.reset hi).mono fun _ _ _ _ h => h.1
  | _ => exact walks_pure h rfl

theorem Ready.deepen (h : A.Ready n held own B p) (change : Nat → Nat) :
    A.Walks n held own B (Parser.deepen change) p fun _ _ p' => p'.cursor = p.cursor ∧ p'.memory = p.memory :=
  ends_modify.2 (h.shift (.goTo h.offers.index_le) fun _ => ⟨rfl, rfl⟩)

end Walks

/-! ### Bodies of rules -/

/-- A call may be made, with some fuel: it nests less deep than `B` or asks for the seed under way, and a rule that is
not remembered has its seed under way. -/
structure Callable (A : Account src complaining) (own : Option Seed) (B fuel : Nat) (c : Call) (k : Nat) : Prop where
  place : A.Place own c k
  below : src.depth c k < B ∧ (A.strict → src.depth c k < fuel) ∨
    (A.strict → 0 < fuel) ∧ ∃ seed ∈ own, c = .rule seed.rule ∧ k = seed.place
  handed : ∀ r, c = .rule r → r.memory = .forgotten → ∃ seed ∈ own, seed.rule = .primary ∧ seed.place = k

/-- A way of making calls comes to their outcomes. -/
def Follows (A : Account src complaining) (own : Option Seed) (B fuel : Nat) (again : Call → Task Parser Parsed) :
    Prop :=
  ∀ n c p, A.Ready n none own B p → A.Callable own B fuel c p.cursor.index →
    A.Walks n none own B (again c) p fun n' x p' => A.Gives n' own c p.cursor.index x p'.cursor.index

/-- All calls that a rule makes at a place may be made. -/
def MayCall (A : Account src complaining) (own : Option Seed) (B fuel : Nat) (r : Rule) (i : Nat) : Prop :=
  ∀ n c k, A.Seeds n own → Made complaining (A.Reads n own) r i c k → k ≤ src.tokens.length →
    A.Callable own B fuel c k

section Bodies

variable {own : Option Seed} {B fuel : Nat} {again : Call → Task Parser Parsed} (ha : A.Follows own B fuel again)
  {r : Rule} {i : Nat} (hmay : A.MayCall own B fuel r i)

include ha hmay

variable {n : A.Note} {p : Parser} {steps : List Step} {kept kept' : List Parsed} {settled : Bool} {start : Int × Int}
  {limit : Nat}

/-- What a call that a rule makes comes to. -/
theorem Follows.made {c : Call} (h : A.Ready n none own B p)
    (hmade : Made complaining (A.Reads n own) r i c p.cursor.index) :
    A.Walks n none own B (again c) p fun n' x p' => A.Gives n' own c p.cursor.index x p'.cursor.index :=
  ha n c p h (hmay n c _ h.seeds hmade h.offers.index_le_length)

/-- Steps of a rule come to what calls come to. -/
theorem runSteps_walks (h : A.Ready n none own B p) (hk : Forall₂ (A.Stands n) kept kept')
    (hr : Reached complaining (A.Reads n own) r i steps p.cursor.index) :
    A.Walks n none own B (Parser.runSteps again kept settled steps) p fun n' out p' => ∃ out',
      Option.Rel (Forall₂ (A.Stands n')) out.1 out' ∧
        StepsTo (A.Reads n' own) kept' settled p.cursor.index steps (out'.map fun kept => (kept, p'.cursor.index))
          out.2 := by
  induction steps generalizing n p kept kept' settled with
  | nil => exact walks_pure h ⟨_, .some (List.rel_reverse hk), .done⟩
  | cons step rest ih =>
    cases hs : step.call? with
    | none =>
      cases step <;> cases hs
      exact (ih h hk (.on hr .cut)).mono fun _ _ _ _ ⟨out', hrel, hs⟩ => ⟨out', hrel, .cut hs⟩
    | some c =>
      rw [Parser.runSteps_cons hs]
      refine ends_bind.2 (Parser.ends_mark.2 ((ha.made hmay h (.step hr hs)).bind
        fun n₁ x p₁ hl h₁ hf ⟨y, hxy, hread⟩ => ?_))
      refine (h₁.goBack step (Nat.le_trans h.offers.index_le hf.taken)).bind fun n₂ _ p₂ hl' h₂ _ hindex => ?_
      have hread₂ := reads_later hl' _ _ _ _ hread
      have hl₂ := A.later_trans hl hl'
      rw [(A.likeness n₁).passes step hxy]
      split
      · next hx =>
        have hk₂ := step.kept_like (A.stands_later hl' _ _ hxy) (hk.imp (A.stands_later hl₂))
        refine (ih h₂ hk₂ (hindex ▸ .on (hr.mono (reads_later hl₂)) (.on hs hread₂ hx))).mono
          fun _ _ _ hl'' ⟨out', hrel, hsteps⟩ => ⟨out', hrel, .on hs (reads_later hl'' _ _ _ _ hread₂) hx ?_⟩
        rwa [hindex] at hsteps
      · next hx => exact walks_pure h₂ ⟨none, .none, .fails hs hread₂ (by simpa using hx)⟩

omit ha hmay in
/-- The span of an action reaches to the last token of weight before the cursor. -/
theorem Ready.spanFrom {t : Token} {a : Action} (h : A.Ready n none own B p) (ht : src.tokens[i]? = some t)
    (hs : t.start = start) (hl : a.located = true) (hpos : 0 < p.cursor.index) :
    Ends (Parser.spanFrom start) p (fun span p' => p = p' ∧ Spans src a i p.cursor.index span) A.Breaks := by
  refine ends_of_yields (fun hstrict => ?_) fun span p' hy => ?_
  · obtain ⟨u, hu⟩ := h.offers.exists_lastPassed (A.regular hstrict) hpos
    exact ⟨_, _, yields_bind.2 ⟨u, p, Parser.yields_inCursor.2 ⟨_, hu, rfl⟩, yields_pure.2 ⟨rfl, rfl⟩⟩⟩
  simp only [Parser.spanFrom, yields_bind, yields_pure] at hy
  obtain ⟨u, _, hlast, rfl, rfl⟩ := hy
  obtain ⟨c, hc, rfl⟩ := Parser.yields_inCursor.1 hlast
  obtain rfl := Cursor.lastPassed_eq hc
  refine ⟨rfl, ?_⟩
  rw [Spans, if_pos hl]
  refine ⟨t, u, ht, ?_, by rw [hs]⟩
  simp only [Cursor.lastPassed, yields_bind, yields_get, yields_ofExcept] at hc
  obtain ⟨_, _, ⟨rfl, rfl⟩, found, _, ⟨hfound, rfl⟩, hc⟩ := hc
  rw [← h.offers.lastOfWeight_eq none h.offers.index_le, hfound]
  cases found with
  | some v => rw [(yields_pure.1 hc).1]
  | none => exact absurd hc not_yields_fail

omit ha hmay in
/-- An action leaves the parser ready. -/
theorem Ready.perform {a : Alternative} {rest : List Alternative} {span : Span} (h : A.Ready n none own B p)
    (hp : A.Room own r i) (hi : i < src.tokens.length) (hleft : Left (A.Reads n own) r i (a :: rest))
    (hv : a.invalid = false) (hs : StepsTo (A.Reads n own) [] false i a.steps (some (kept', p.cursor.index)) settled)
    (hk : Forall₂ (A.Stands n) kept kept') (hnew : r.memory = .remembered → p.memory[(i, Call.rule r)]? = none)
    (hspan : Spans src a.action i p.cursor.index span) :
    A.Walks n (r.held i) own B (Parser.perform a.action span kept) p fun n' x p' => ∃ y,
      A.Stands n' x y ∧ A.made n' a.action i p.cursor.index kept' y ∧ p'.cursor.index = p.cursor.index := by
  refine (A.performed h.fits h.offers hp hi h.seeds hleft hv hs hk hnew hspan).mono
    (fun x p' hy ⟨n', y, hl, hxy, hmade, hfits⟩ => ?_) fun _ _ h => h
  obtain ⟨signs, session, rfl⟩ := (Parser.touching_perform _ _ _ _ _ _ hy).only
  exact ⟨n', hl, ⟨hfits, ⟨h.offers.quiet, h.offers.all, h.offers.ordinary, h.offers.index_le⟩, h.quiet, h.reserved,
    h.softReserved, h.mode, h.stops, fun k c x j hd he => (h.knows k c x j hd he).later hl, h.seeds.later hl,
    h.seeded_later hl⟩, ⟨fun _ _ _ => rfl, Nat.le_refl _⟩, y, hxy, hmade, rfl⟩

theorem runChoice_walks {alternatives : List Alternative} (hp : A.Room own r i)
    (hB : r.memory = .remembered → B ≤ src.depth (.rule r) i)
    (hstart : ∀ a ∈ alternatives, a.action.located = true → ∃ t, src.tokens[i]? = some t ∧ t.start = start)
    (h : A.Ready n none own B p) (hi : p.cursor.index = i) (hleft : Left (A.Reads n own) r i alternatives)
    (hnew : r.memory = .remembered → p.memory[(i, Call.rule r)]? = none) :
    A.Walks n (r.held i) own B (Parser.runChoice again i start alternatives) p fun n' x p' => ∃ y,
      A.Stands n' x y ∧ ChoiceTo (A.made n') complaining (A.Reads n' own) i alternatives y p'.cursor.index := by
  induction alternatives generalizing n p with
  | nil =>
    refine walks_pure h.hold ⟨.nothing, (A.likeness n).nothing, ?_⟩
    rw [hi]
    exact .none
  | cons a rest ih =>
    have hstart' := fun b hmem => hstart b (List.mem_cons_of_mem a hmem)
    refine ends_bind.2 (ends_get.2 ?_)
    rw [h.mode]
    split
    · next hskip =>
      rw [Bool.and_eq_true, Bool.not_eq_true'] at hskip
      exact (ih hstart' h hi (.skip hleft hskip.1) hnew).mono fun _ _ _ _ ⟨y, hxy, hc⟩ =>
        ⟨y, hxy, .skip hskip.1 hskip.2 hc⟩
    · next hskip =>
      have htried : a.invalid = true → complaining = true := by
        intro hv
        simpa [hv] using hskip
      have hreached : Reached complaining (A.Reads n own) r i a.steps p.cursor.index := by
        rw [hi]
        exact .alternative hleft htried
      refine (runSteps_walks ha hmay h .nil hreached).bind fun n₁ out p₁ hl h₁ hf₁ ⟨out', hrel, hsteps⟩ => ?_
      obtain ⟨out, settled⟩ := out
      rw [hi] at hsteps
      have hnew₁ : r.memory = .remembered → p₁.memory[(i, Call.rule r)]? = none :=
        fun hm => (hf₁.memory _ _ (hB hm)).trans (hnew hm)
      have hleft₁ := hleft.mono (reads_later hl)
      cases hrel with
      | @some kept kept' hk =>
        dsimp only [Option.map_some] at hsteps ⊢
        split
        · next hv => exact walks_pure h₁.hold ⟨.nothing, (A.likeness n₁).nothing, .blamed hv (htried hv) hsteps⟩
        · next hv =>
          have hv : a.invalid = false := by simpa using hv
          have hlt := hsteps.advances h₁.seeds.onward hleft₁
          have hdone : ∀ {span}, Spans src a.action i p₁.cursor.index span →
              A.Walks n₁ (r.held i) own B (Parser.perform a.action span kept) p₁ fun n' x p' => ∃ y,
                A.Stands n' x y ∧ ChoiceTo (A.made n') complaining (A.Reads n' own) i (a :: rest) y p'.cursor.index := by
            intro span hspan
            refine (h₁.perform hp (Nat.lt_of_lt_of_le hlt h₁.offers.index_le_length) hleft₁ hv hsteps hk hnew₁
              hspan).mono fun n₂ x p₂ hl₂ ⟨y, hxy, hmade⟩ => ⟨y, hxy, ?_⟩
            rw [hmade.2]
            exact .done hv (hsteps.mono (reads_later hl₂)) hmade.1
          split
          · next hlocated =>
            obtain ⟨t, ht, hs⟩ := hstart a List.mem_cons_self hlocated
            refine Ends.bind (h₁.spanFrom ht hs hlocated (by omega)) fun span _ _ hspan => ?_
            obtain ⟨rfl, hspan⟩ := hspan
            exact hdone hspan
          · next hlocated => exact hdone (by rw [Spans, if_neg hlocated])
      | none =>
        refine (h₁.reset (Nat.le_trans (hi ▸ h.offers.index_le) hf₁.taken)).bind fun n₂ _ p₂ hl₂ h₂ _ hindex => ?_
        have hsteps₂ := hsteps.mono (reads_later hl₂)
        split
        · next hset =>
          refine walks_pure h₂.hold ⟨.nothing, (A.likeness n₂).nothing, ?_⟩
          rw [hindex.1]
          exact .settled htried (by rw [hset] at hsteps₂; exact hsteps₂)
        · next hset =>
          have hset : settled = false := by simpa using hset
          rw [hset] at hsteps₂
          refine (ih hstart' h₂ hindex.1 (.next (hleft₁.mono (reads_later hl₂)) hsteps₂) ?_).mono
            fun n₃ _ _ hl₃ ⟨y, hxy, hc⟩ => ⟨y, hxy, .next htried (hsteps₂.mono (reads_later hl₃)) hc⟩
          rw [hindex.2]
          exact hnew₁

theorem runRounds_walks (hb : r.body = .rounds steps) {done done' : List Parsed} (h : A.Ready n none own B p)
    (hd : Forall₂ (A.Stands n) done done') (hr : Reached complaining (A.Reads n own) r i steps p.cursor.index)
    (hlimit : A.strict → src.tokens.length - p.cursor.index < limit) :
    A.Walks n none own B (Parser.runRounds again steps limit done) p fun n' x p' => ∃ y,
      A.Stands n' x y ∧ RoundsTo (A.Reads n' own) steps done' p.cursor.index y p'.cursor.index := by
  induction limit generalizing n p done done' with
  | zero => exact ends_of_yields (fun hs => absurd (hlimit hs) (Nat.not_lt_zero _)) fun _ _ hy =>
      absurd hy not_yields_fail
  | succ limit ih =>
    refine ends_bind.2 (Parser.ends_mark.2 ((runSteps_walks ha hmay h .nil hr).bind
      fun n₁ out p₁ hl h₁ hf ⟨out', hrel, hsteps⟩ => ?_))
    obtain ⟨out, settled⟩ := out
    split
    · next item settled' heq =>
      cases heq
      cases hrel with
      | some hitems =>
        obtain ⟨item', _, hitem, hnil, rfl⟩ := List.forall₂_cons_left_iff.1 hitems
        cases hnil
        have hlt : p.cursor.index < p₁.cursor.index := by
          have ho := r.orderedBody_body
          rw [hb] at ho
          exact (hsteps.forward h₁.seeds.onward).2 (Source.Rule.ordered_advances ho)
        have hle := h₁.offers.index_le_length
        refine (ih h₁ (.cons hitem (hd.imp (A.stands_later hl))) (.again hb (hr.mono (reads_later hl)) hsteps)
          fun hs => ?_).mono fun n₂ _ _ hl₂ ⟨y, hxy, hrounds⟩ => ⟨y, hxy, .more (hsteps.mono (reads_later hl₂)) hrounds⟩
        have hlt' := hlimit hs
        omega
    · next hno =>
      refine (h₁.reset (Nat.le_trans h.offers.index_le hf.taken)).bind fun n₂ _ p₂ hl₂ h₂ _ hindex => ?_
      refine walks_pure h₂ ⟨_, (A.likeness n₂).list (List.rel_reverse (hd.imp (A.stands_later (A.later_trans hl hl₂)))),
        ?_⟩
      rw [hindex.1]
      refine .stop (hsteps.mono (reads_later hl₂)) fun item' j heq => ?_
      obtain ⟨kept', rfl, hkept⟩ := Option.map_eq_some_iff.1 heq
      cases hkept
      cases hrel with
      | some hitems =>
        obtain ⟨item, _, _, hnil, rfl⟩ := List.forall₂_cons_right_iff.1 hitems
        cases hnil
        exact hno item settled rfl

theorem runBody_walks (hp : A.Room own r i) (hwithin : A.strict → i < src.tokens.length)
    (hB : r.memory = .remembered → B ≤ src.depth (.rule r) i) (hlimit : A.strict → src.tokens.length - i < limit)
    (h : A.Ready n none own B p) (hi : p.cursor.index = i)
    (hnew : r.memory = .remembered → p.memory[(i, Call.rule r)]? = none) :
    A.Walks n (r.held i) own B (Parser.runBody again limit r.body) p fun n' x p' => ∃ y,
      A.Stands n' x y ∧ BodyTo (A.made n') complaining (A.Reads n' own) i r.body y p'.cursor.index := by
  refine ends_bind.2 (Parser.ends_mark.2 ?_)
  cases hb : r.body with
  | choice alternatives =>
    dsimp only
    split
    · have hstart : A.Walks n none own B (do return (← Parser.peek).start) p fun _ start p' =>
          (∃ t, src.tokens[i]? = some t ∧ t.start = start) ∧ p'.cursor.index = i := by
        refine (h.peek fun hs => hi ▸ hwithin hs).bind fun n₁ t p₁ _ h₁ _ hindex => walks_pure h₁ ?_
        rw [hi] at hindex
        exact ⟨⟨t, hindex.1, rfl⟩, hindex.2⟩
      refine hstart.bind fun n₁ start p₁ _ h₁ hf₁ hindex => ?_
      rw [hi]
      exact runChoice_walks ha hmay hp hB (fun _ _ _ => hindex.1) h₁ hindex.2 (.all hb) fun hm =>
        (hf₁.memory _ _ (hB hm)).trans (hnew hm)
    · next hlocated =>
      refine ends_bind.2 (ends_pure.2 ?_)
      rw [hi]
      refine runChoice_walks ha hmay hp hB (fun a hmem hl => ?_) h hi (.all hb) hnew
      exact absurd (List.any_eq_true.2 ⟨a, hmem, hl⟩) hlocated
  | rounds steps =>
    have hrounds := runRounds_walks ha hmay hb h .nil (by rw [hi]; exact .round hb) (by rw [hi]; exact hlimit)
    rw [hi] at hrounds
    exact hrounds.hold
  | gather first others =>
    have hfirst := ha.made hmay h (by rw [hi]; exact .first hb)
    rw [hi] at hfirst
    refine Walks.hold (hfirst.bind fun n₁ item p₁ hl h₁ hf₁ ⟨item', hitem, hread⟩ => ?_)
    have hback : ∀ {p'}, Frame src B p p' → p.cursor.index ≤ p'.cursor.tokens.size :=
      fun hf => Nat.le_trans h.offers.index_le hf.taken
    rw [(A.likeness n₁).isNothing hitem]
    split
    · next hnone =>
      refine (h₁.reset (hback hf₁)).bind fun n₂ _ p₂ hl₂ h₂ _ hindex =>
        walks_pure h₂ ⟨.nothing, (A.likeness n₂).nothing, ?_⟩
      rw [hindex.1, hi]
      exact .missing (reads_later hl₂ _ _ _ _ hread) hnone
    · next hsome =>
      have hsome : item'.isNothing = false := by simpa using hsome
      refine (ha.made hmay h₁ (.others hb hread hsome)).bind fun n₂ rest p₂ hl₂ h₂ hf₂ ⟨rest', hrest, hread'⟩ => ?_
      have hread₂ := reads_later hl₂ _ _ _ _ hread
      rw [(A.likeness n₂).isNothing hrest]
      split
      · next hnone =>
        refine (h₂.reset (hback (hf₁.trans hf₂))).bind fun n₃ _ p₃ hl₃ h₃ _ hindex =>
          walks_pure h₃ ⟨.nothing, (A.likeness n₃).nothing, ?_⟩
        rw [hindex.1, hi]
        exact .alone (reads_later hl₃ _ _ _ _ hread₂) hsome (reads_later hl₃ _ _ _ _ hread') hnone
      · next hmore => exact walks_pure h₂ ⟨_, (A.likeness n₂).gather (A.stands_later hl₂ _ _ hitem) hrest,
          .both hread₂ hsome hread' (by simpa using hmore)⟩

end Bodies

/-! ### Calls -/

section Calls

variable {own : Option Seed} {B : Nat} {n : A.Note} {p : Parser}
variable {c : Call} {limit stop k i : Nat} {held : Option Nat} {own' : Option Seed} {n' : A.Note} {x last : Parsed}
  {r : Rule} {body : Task Parser Parsed}

/-- A token is taken if it passes a call's test. -/
theorem Ready.takeIf (h : A.Ready n none own B p) (hc : c.isRule = false)
    (hi : A.strict → p.cursor.index < src.tokens.length) :
    A.Walks n none own B (Parser.takeIf c.accepts) p fun n' x p' =>
      ∀ own', A.Gives n' own' c p.cursor.index x p'.cursor.index := by
  refine (h.peek hi).bind fun n₁ t p₁ _ h₁ _ hpeek => ?_
  split
  · next htest =>
    refine (h₁.next (by rw [hpeek.2]; exact hi)).bind fun n₂ u p₂ _ h₂ _ hnext => walks_pure h₂ fun own' => ?_
    rw [hpeek.2, hpeek.1] at hnext
    cases hnext.1
    rw [hnext.2]
    exact ⟨_, (A.likeness n₂).token t, .of_leads (.take hc hpeek.1 htest)⟩
  · next htest =>
    refine walks_pure h₁ fun own' => ?_
    rw [hpeek.2]
    exact ⟨_, (A.likeness n₁).nothing, .of_leads (.refuse hc hpeek.1 (by simpa using htest))⟩

/-- A call that takes a single token tests it by its kind and its text. -/
theorem Ready.runCall (h : A.Ready n none own B p) {again : Call → Task Parser Parsed} (hc : c.isRule = false)
    (hi : A.strict → p.cursor.index < src.tokens.length) :
    A.Walks n none own B (Parser.runCall again limit c) p fun n' x p' =>
      ∀ own', A.Gives n' own' c p.cursor.index x p'.cursor.index := by
  cases c with
  | rule r => cases hc
  | token r =>
    have heq : Parser.matchesRule p r = (Call.token r).accepts := by
      funext t
      cases r <;> simp [Parser.matchesRule, Call.accepts, Source.passes, h.reserved, h.softReserved]
    refine ends_bind.2 (ends_get.2 ?_)
    rw [heq]
    exact h.takeIf hc hi
  | keyword _ | expect _ => exact h.takeIf hc hi

/-- A result is remembered after its body was carried out with whatever seed the body has, so that the parser is
ready again for all calls it was ready for before. -/
theorem Ready.remember {q : Parser} (h : A.Ready n held own B p) (hl : A.Later n n')
    (hbelow : src.depth c p.cursor.index < B)
    (hq : A.Ready n' (c.held p.cursor.index) own' (src.depth c p.cursor.index) q)
    (hf : ∀ k d, src.depth c p.cursor.index ≤ src.depth d k → (k, d) ≠ (p.cursor.index, c) →
      q.memory[(k, d)]? = p.memory[(k, d)]?) (htaken : p.cursor.tokens.size ≤ q.cursor.tokens.size)
    (hstop : stop ≤ q.cursor.tokens.size) (hread : A.Gives n' none c p.cursor.index x stop) :
    A.Ready n' none own B { q with memory := q.memory.insert (p.cursor.index, c) (x, stop) } ∧
      Frame src B p { q with memory := q.memory.insert (p.cursor.index, c) (x, stop) } := by
  have hother : ∀ {k d}, B ≤ src.depth d k → (k, d) ≠ (p.cursor.index, c) := by
    intro k d hd heq
    obtain ⟨rfl, rfl⟩ := Prod.mk.inj heq
    omega
  have hframe : ∀ k d, B ≤ src.depth d k →
      (q.memory.insert (p.cursor.index, c) (x, stop))[(k, d)]? = p.memory[(k, d)]? := by
    intro k d hd
    rw [ResultTable.getElem?_insert, if_neg fun heq => hother hd heq.symm]
    exact hf k d (by omega) (hother hd)
  refine ⟨⟨A.remembered hq.fits, hq.offers, hq.quiet, hq.reserved, hq.softReserved, hq.mode, ?_, ?_, h.seeds.later hl,
    ?_⟩, hframe, htaken⟩
  · intro k d y j he
    rw [ResultTable.getElem?_insert] at he
    split at he
    · cases he
      exact hstop
    · exact hq.stops k d y j he
  · intro k d y j hd he
    rw [ResultTable.getElem?_insert] at he
    split at he
    · next heq =>
      cases heq
      cases he
      exact hread
    · next hne =>
      by_cases hdeep : src.depth d k < src.depth c p.cursor.index
      · exact hq.knows k d y j hdeep he
      · rw [hf k d (by omega) fun heq => hne heq.symm] at he
        exact (h.knows k d y j hd he).later hl
  · intro seed hs
    obtain ⟨hgrown, habove, y, hy, hentry⟩ := h.seeded_later hl seed hs
    exact ⟨hgrown, habove, y, hy, (hframe _ _ habove).trans hentry⟩

/-- The parser is ready for the body of a call that starts with no seed. -/
theorem Ready.inner (h : A.Ready n held own B p) {D : Nat} (hD : D ≤ B) : A.Ready n held none D p :=
  ⟨h.fits, h.offers, h.quiet, h.reserved, h.softReserved, h.mode, h.stops,
    fun k c x j hd => h.knows k c x j (Nat.lt_of_lt_of_le hd hD), nofun, nofun⟩

/-- A call that nests less deep does not ask for the seed under way. -/
theorem Ready.not_seed (h : A.Ready n held own B p) (hbelow : src.depth (.rule r) k < B) :
    ∀ seed ∈ own, seed.rule = r → seed.place ≠ k := by
  rintro seed hs rfl rfl
  have habove := (h.seeded seed hs).2.1
  omega

/-- The seed under way changes nothing for a call that nests less deep. -/
theorem Ready.with_seed (h : A.Ready n held own B p) (hbelow : src.depth c k < B)
    (hm : ∀ r, c = .rule r → r.memory ≠ .forgotten) {j : Nat} (hread : A.Gives n' none c k x j) :
    A.Gives n' own c k x j := by
  obtain ⟨y, hxy, hread⟩ := hread
  refine ⟨y, hxy, Grammar.Reads.with_seed hread fun r hr => ⟨hm r hr, h.not_seed ?_⟩⟩
  rwa [← hr]

/-- A call whose result is remembered comes to its outcome. -/
theorem Ready.remembered (h : A.Ready n none own B p) (hbelow : src.depth c p.cursor.index < B)
    (hm : ∀ r, c = .rule r → r.memory ≠ .forgotten)
    (hbody : ∀ n q, A.Ready n none none (src.depth c p.cursor.index) q → q.cursor.index = p.cursor.index →
      q.memory[(p.cursor.index, c)]? = none →
      A.Walks n (c.held p.cursor.index) none (src.depth c p.cursor.index) body q fun n' y q' =>
        A.Gives n' none c p.cursor.index y q'.cursor.index) :
    A.Walks n none own B (Parser.remembered c body) p fun n' x p' =>
      A.Gives n' own c p.cursor.index x p'.cursor.index := by
  refine ends_bind.2 (ends_get.2 (ends_bind.2 (ends_get.2 (ends_bind.2 (Parser.ends_mark.2 ?_)))))
  dsimp only
  refine ends_bind.2 (ends_get.2 ?_)
  simp only [h.quiet, Bool.false_eq_true, if_false]
  split
  · next result stop hentry =>
    refine (h.reset (h.stops _ _ _ _ hentry)).bind fun n' _ p₁ hl h₁ _ hindex => walks_pure h₁ ?_
    rw [hindex.1]
    exact h.with_seed hbelow hm ((h.knows _ _ _ _ hbelow hentry).later hl)
  · next hmiss =>
    refine Ends.bind ((h.inner (Nat.le_of_lt hbelow)).deepen _) fun _ p₁ _ ⟨n₁, hl₁, h₁, hf₁, hsame₁⟩ => ?_
    refine Ends.bind (hbody n₁ p₁ h₁ (by rw [hsame₁.1]) (by rw [hsame₁.2, hmiss]))
      fun result p₂ _ ⟨n₂, hl₂, h₂, hf₂, hread⟩ => ?_
    refine Ends.bind (h₂.deepen _) fun _ p₃ _ ⟨n₃, hl₃, h₃, hf₃, hsame₃⟩ => ?_
    refine ends_bind.2 (Parser.ends_mark.2 (ends_bind.2 (ends_modify.2 (ends_pure.2 ?_))))
    have hl := A.later_trans hl₁ (A.later_trans hl₂ hl₃)
    have hf := (hf₁.trans hf₂).trans hf₃
    have hread₃ : A.Gives n₃ none c p.cursor.index result p₃.cursor.index := by
      rw [hsame₃.1]
      exact hread.later hl₃
    obtain ⟨hready, hframe⟩ := h.remember hl hbelow h₃ (fun k d hd _ => hf.memory k d hd) hf.taken h₃.offers.index_le
      hread₃
    exact ⟨n₃, hl, hready, hframe, h.with_seed hbelow hm hread₃⟩

/-- The outcomes of the body of a rule at a place with a result and its end as the seed. -/
abbrev Round (A : Account src complaining) (n : A.Note) (r : Rule) (i : Nat) : Parsed → Nat → Parsed → Nat → Prop :=
  fun last stop => BodyTo (A.made n) complaining (A.Reads n (some ⟨r, i, last, stop⟩)) i r.body

theorem round_later (hl : A.Later n n') (last : Parsed) (stop : Nat) (x : Parsed) (j : Nat)
    (h : A.Round n r i last stop x j) : A.Round n' r i last stop x j :=
  h.mono (A.made_later hl) (reads_later hl)

/-- The parser is ready to grow a rule from a result that is remembered. -/
theorem Ready.plant (h : A.Ready n none own' (src.depth (.rule r) i) p) (hm : r.memory = .grown)
    (hstop : stop ≤ p.cursor.tokens.size) (hx : A.Stands n x last) (hs : A.Seeds n (some ⟨r, i, last, stop⟩)) :
    A.Ready n none (some ⟨r, i, last, stop⟩) (src.depth (.rule r) i)
      { p with memory := p.memory.insert (i, .rule r) (x, stop) } := by
  have hheld : (Call.rule r).held i = none := Rule.held_eq_none (by rw [hm]; nofun) i
  refine ⟨A.remembered (by rw [hheld]; exact h.fits), h.offers, h.quiet, h.reserved, h.softReserved, h.mode, ?_, ?_,
    hs, ?_⟩
  · intro k d y j he
    rw [ResultTable.getElem?_insert] at he
    split at he
    · cases he
      exact hstop
    · exact h.stops k d y j he
  · intro k d y j hd he
    have hne : (i, Call.rule r) ≠ (k, d) := by
      intro heq
      obtain ⟨rfl, rfl⟩ := Prod.mk.inj heq
      omega
    rw [ResultTable.getElem?_insert, if_neg hne] at he
    exact h.knows k d y j hd he
  · rintro _ ⟨rfl⟩
    exact ⟨hm, Nat.le_refl _, x, hx, by rw [ResultTable.getElem?_insert, if_pos rfl]⟩

/-- Growing a rule comes to what its seed grows to, and to a result that ends at a token that was taken. -/
theorem Ready.grow (hm : r.memory = .grown)
    (hbody : ∀ n last stop q, A.Ready n none (some ⟨r, i, last, stop⟩) (src.depth (.rule r) i) q →
      q.cursor.index = i →
      A.Walks n none (some ⟨r, i, last, stop⟩) (src.depth (.rule r) i) body q fun n' x q' => ∃ y, A.Stands n' x y ∧
        A.Round n' r i last stop y q'.cursor.index) {level depth : Nat} (hx : A.Stands n x last)
    (h : A.Ready n none (some ⟨r, i, last, stop⟩) (src.depth (.rule r) i) p) (hi : i ≤ p.cursor.tokens.size)
    (hlimit : A.strict → src.tokens.length - stop < limit) :
    Ends (Parser.grow (.rule r) body false level i limit depth (x, stop)) p (fun out p' =>
      ∃ n' y, A.Later n n' ∧ A.Stands n' out.1 y ∧
        A.Ready n' none (some ⟨r, i, y, out.2⟩) (src.depth (.rule r) i) p' ∧
        (∀ k d, src.depth (.rule r) i ≤ src.depth d k → (k, d) ≠ (i, Call.rule r) →
          p'.memory[(k, d)]? = p.memory[(k, d)]?) ∧
        p.cursor.tokens.size ≤ p'.cursor.tokens.size ∧ GrowsTo (A.Round n' r i) last stop y out.2) A.Breaks := by
  induction limit generalizing n p depth x last stop with
  | zero => exact ends_of_yields (fun hs => absurd (hlimit hs) (Nat.not_lt_zero _)) fun _ _ hy =>
      absurd hy not_yields_fail
  | succ limit ih =>
    simp only [Parser.grow, Bool.false_eq_true, if_false]
    refine Ends.bind (h.reset hi) fun _ p₁ _ hreset => ?_
    obtain ⟨n₁, hl₁, h₁, hf₁, hindex⟩ := hreset
    refine Ends.bind (hbody n₁ last stop p₁ h₁ hindex.1) fun result p₂ _ hdone => ?_
    obtain ⟨n₂, hl₂, h₂, hf₂, y, hy, hround⟩ := hdone
    refine ends_bind.2 (Parser.ends_mark.2 ?_)
    have hl := A.later_trans hl₁ hl₂
    have hf := hf₁.trans hf₂
    have hstay (hend : y.succeeds = true → p₂.cursor.index ≤ stop) : ∃ n' y, A.Later n n' ∧ A.Stands n' x y ∧
        A.Ready n' none (some ⟨r, i, y, stop⟩) (src.depth (.rule r) i) p₂ ∧
        (∀ k d, src.depth (.rule r) i ≤ src.depth d k → (k, d) ≠ (i, Call.rule r) →
          p₂.memory[(k, d)]? = p.memory[(k, d)]?) ∧
        p.cursor.tokens.size ≤ p₂.cursor.tokens.size ∧ GrowsTo (A.Round n' r i) last stop y stop :=
      ⟨n₂, last, hl, A.stands_later hl _ _ hx, h₂, fun k d hd _ => hf.memory k d hd, hf.taken, .stop hround hend⟩
    rw [(A.likeness n₂).succeeds hy]
    split
    · next hfailed => exact ends_pure.2 (hstay fun hs => by simp [hs] at hfailed)
    · next hsome =>
      have hsome : y.succeeds = true := by simpa using hsome
      split
      · next hle => exact ends_pure.2 (hstay fun _ => hle)
      · next hlt =>
        have hseeds : A.Seeds n₂ (some ⟨r, i, y, p₂.cursor.index⟩) := by
          rintro _ ⟨rfl⟩
          exact .more (h₂.seeds ⟨r, i, last, stop⟩ rfl) hround hsome (Nat.lt_of_not_le hlt)
        have hle := h₂.offers.index_le_length
        refine ends_bind.2 (ends_modify.2 ((ih hy (h₂.plant hm h₂.offers.index_le hy hseeds)
          (Nat.le_trans hi hf.taken) fun hs => ?_).mono
          (fun out p' _ hmore => ?_) fun _ _ h => h))
        · have hlt' := hlimit hs
          change src.tokens.length - p₂.cursor.index < limit
          omega
        · obtain ⟨n₃, z, hl₃, hz, h₃, hf₃, htaken, hgrows⟩ := hmore
          refine ⟨n₃, z, A.later_trans hl hl₃, hz, h₃, fun k d hd hne => ?_, Nat.le_trans hf.taken htaken,
            .more (round_later hl₃ _ _ _ _ hround) hsome (by omega) hgrows⟩
          rw [hf₃ k d hd hne, ResultTable.getElem?_insert, if_neg fun heq => hne heq.symm]
          exact hf.memory k d hd

/-- A call of a rule that begins with itself comes to its outcome. -/
theorem Ready.grown (h : A.Ready n none own B p) (hm : r.memory = .grown)
    (hcall : A.Callable own B (limit + 1) (.rule r) p.cursor.index)
    (hbody : (∀ seed ∈ own, seed.rule = r → seed.place ≠ p.cursor.index) →
      (A.strict → src.depth (.rule r) p.cursor.index < limit + 1) → ∀ n last stop q,
      A.Ready n none (some ⟨r, p.cursor.index, last, stop⟩) (src.depth (.rule r) p.cursor.index) q →
      q.cursor.index = p.cursor.index →
      A.Walks n none (some ⟨r, p.cursor.index, last, stop⟩) (src.depth (.rule r) p.cursor.index) body q
        fun n' x q' => ∃ y, A.Stands n' x y ∧ A.Round n' r p.cursor.index last stop y q'.cursor.index) :
    A.Walks n none own B (Parser.grown limit (.rule r) body) p fun n' x p' =>
      A.Gives n' own (.rule r) p.cursor.index x p'.cursor.index := by
  have hforgot : ∀ s, Call.rule r = .rule s → s.memory ≠ .forgotten := by
    rintro _ ⟨rfl⟩
    rw [hm]
    nofun
  refine ends_bind.2 (ends_get.2 (ends_bind.2 (ends_get.2 (ends_bind.2 (Parser.ends_mark.2 (ends_bind.2 (ends_get.2
    ?_)))))))
  simp only [h.quiet, Bool.false_eq_true, if_false]
  split
  · next result stop hentry =>
    refine (h.reset (h.stops _ _ _ _ hentry)).bind fun n' _ p₁ hl h₁ _ hindex => walks_pure h₁ ?_
    rw [hindex.1]
    rcases hcall.below with ⟨hbelow, -⟩ | ⟨-, seed, hs, hrule, hplace⟩
    · exact h.with_seed hbelow hforgot ((h.knows _ _ _ _ hbelow hentry).later hl)
    · cases hrule
      obtain ⟨-, -, y, hy, hseed⟩ := h.seeded seed hs
      rw [← hplace, hentry] at hseed
      obtain ⟨rfl, rfl⟩ := Prod.mk.inj (Option.some.inj hseed)
      rw [hplace]
      exact ⟨_, A.stands_later hl _ _ hy, .of_leads (.seed hs hm)⟩
  · next hmiss =>
    obtain ⟨hbelow, hfuel⟩ : src.depth (.rule r) p.cursor.index < B ∧
        (A.strict → src.depth (.rule r) p.cursor.index < limit + 1) := by
      refine hcall.below.resolve_right ?_
      rintro ⟨-, seed, hs, hrule, hplace⟩
      cases hrule
      obtain ⟨-, -, y, -, hseed⟩ := h.seeded seed hs
      rw [← hplace, hmiss] at hseed
      cases hseed
    refine Ends.bind ((h.inner (Nat.le_of_lt hbelow)).deepen _) fun _ p₁ _ ⟨n₁, hl₁, h₁, hf₁, hsame⟩ => ?_
    refine ends_bind.2 (ends_modify.2 ?_)
    have hi₁ : p.cursor.index ≤ p₁.cursor.tokens.size := Nat.le_trans h.offers.index_le hf₁.taken
    have hseeds : A.Seeds n₁ (some ⟨r, p.cursor.index, .nothing, p.cursor.index⟩) := by
      rintro _ ⟨rfl⟩
      exact .seed
    have hnothing := (A.likeness n₁).nothing
    refine Ends.bind (Ready.grow hm (hbody (h.not_seed hbelow) hfuel) hnothing (h₁.plant hm hi₁ hnothing hseeds) hi₁
      fun hs => ?_) fun ⟨result, stop⟩ p₃ _ ⟨n₃, y, hl₃, hy, h₃, hf₃, htaken, hgrows⟩ => ?_
    · exact Source.rounds_lt (hfuel hs)
    obtain ⟨-, -, z, -, hentry⟩ := h₃.seeded _ rfl
    have hstop : stop ≤ p₃.cursor.tokens.size := h₃.stops _ _ _ _ hentry
    have hend : (if result.succeeds = true then stop else p.cursor.index) = stop := by
      rw [(A.likeness n₃).succeeds hy]
      split
      · rfl
      · next hfailed =>
        have hsprout := h₃.seeds _ rfl
        dsimp only [Seed.Sprouted] at hsprout
        cases hsprout with
        | seed => rfl
        | more _ _ hs => exact absurd hs hfailed
    dsimp only
    rw [hend]
    -- Going back and forth at the end changes nothing but the place of the cursor.
    refine Ends.bind (h₃.reset hstop) fun _ p₄ _ ⟨n₄, hl₄, h₄, hf₄, _⟩ => ?_
    refine Ends.bind (h₄.deepen _) fun _ p₅ _ ⟨n₅, hl₅, h₅, hf₅, _⟩ => ?_
    have hf₃₅ := hf₄.trans hf₅
    refine Ends.bind (h₅.reset (Nat.le_trans hstop hf₃₅.taken)) fun _ p₆ _ ⟨n₆, hl₆, h₆, hf₆, hindex⟩ => ?_
    refine ends_bind.2 (ends_modify.2 (ends_pure.2 ?_))
    have hl₃₆ := A.later_trans hl₄ (A.later_trans hl₅ hl₆)
    have hl := A.later_trans hl₁ (A.later_trans hl₃ hl₃₆)
    have hf₃₆ := hf₃₅.trans hf₆
    have hread : A.Gives n₆ none (.rule r) p.cursor.index result stop :=
      ⟨y, A.stands_later hl₃₆ _ _ hy, .of_leads (.grown hm nofun (hgrows.mono (round_later hl₃₆)))⟩
    have hheld : (Call.rule r).held p.cursor.index = none := Rule.held_eq_none (by simp [hm]) _
    obtain ⟨hready, hframe⟩ := h.remember (c := .rule r) hl hbelow (by rw [hheld]; exact h₆) (fun k d hd hne => by
      rw [hf₃₆.memory k d hd, hf₃ k d hd hne, ResultTable.getElem?_insert, if_neg fun heq => hne heq.symm]
      exact hf₁.memory k d hd) (Nat.le_trans hf₁.taken (Nat.le_trans htaken hf₃₆.taken))
      (Nat.le_trans hstop hf₃₆.taken) hread
    refine ⟨n₆, hl, hready, hframe, ?_⟩
    change A.Gives n₆ own (.rule r) p.cursor.index result p₆.cursor.index
    rw [hindex.1]
    exact h.with_seed hbelow hforgot hread

/-! ### What rules call -/

section MayCall

variable {fuel : Nat} {r : Rule} {i : Nat}

/-- A rule that is remembered calls only what nests less deep. -/
theorem mayCall_remembered (hm : r.memory = .remembered) (hp : A.Room none r i)
    (hfuel : A.strict → src.depth (.rule r) i < fuel + 1) : A.MayCall none (src.depth (.rule r) i) fuel r i := by
  intro n c k hs hmade hk
  refine ⟨A.place_made hp hs hmade, .inl ?_, ?_⟩
  · obtain ⟨-, hbelow | hseed⟩ := hmade.allowed hs.onward hk
    · exact ⟨hbelow, fun hstrict => Nat.lt_of_lt_of_le hbelow (Nat.le_of_lt_succ (hfuel hstrict))⟩
    · rw [Rule.seed?_eq_none hm] at hseed
      cases hseed.1
  · rintro s rfl hforgot
    obtain ⟨rfl, -⟩ := hmade.handed hforgot
    cases hm

/-- A rule that is grown calls what nests less deep, or itself as its seed, or hands its seed down. -/
theorem mayCall_grown (hm : r.memory = .grown) {entry : Parsed × Nat} (hp : A.Room (some ⟨r, i, entry⟩) r i)
    (hfuel : A.strict → src.depth (.rule r) i < fuel + 1) :
    A.MayCall (some ⟨r, i, entry⟩) (src.depth (.rule r) i) fuel r i := by
  intro n c k hs hmade hk
  refine ⟨A.place_made hp hs hmade, ?_, ?_⟩
  · obtain ⟨-, hbelow | hseed⟩ := hmade.allowed hs.onward hk
    · exact .inl ⟨hbelow, fun hstrict => Nat.lt_of_lt_of_le hbelow (Nat.le_of_lt_succ (hfuel hstrict))⟩
    · rw [Rule.seed?_of_grown hm] at hseed
      exact .inr ⟨fun hstrict => Nat.zero_lt_of_lt (Source.rounds_lt (hfuel hstrict)), _, rfl,
        (Option.some.inj hseed.1).symm, hseed.2⟩
  · rintro s rfl hforgot
    obtain ⟨rfl, rfl⟩ := hmade.handed hforgot
    exact ⟨_, rfl, rfl, rfl⟩

/-- A rule that is not remembered calls what nests less deep, or asks for the seed that is handed down. -/
theorem mayCall_forgotten (hm : r.memory = .forgotten) (hc : A.Callable own B (fuel + 1) (.rule r) i)
    (hbelow : src.depth (.rule r) i < B) (hfuel : A.strict → src.depth (.rule r) i < fuel + 1) :
    A.MayCall own B fuel r i := by
  obtain ⟨seed, hseed, hprimary, hplace⟩ := hc.handed r rfl hm
  intro n c k hs hmade hk
  refine ⟨A.place_made (A.room_handed hm hc.place) hs hmade, ?_, ?_⟩
  · obtain ⟨-, hless | hasks⟩ := hmade.allowed hs.onward hk
    · exact .inl ⟨Nat.lt_trans hless hbelow,
        fun hstrict => Nat.lt_of_lt_of_le hless (Nat.le_of_lt_succ (hfuel hstrict))⟩
    · have hr : r.seed? = some .primary := by
        cases r <;> first | rfl | cases hm
      rw [hr] at hasks
      exact .inr ⟨fun hstrict => Nat.zero_lt_of_lt (Source.rounds_lt (hfuel hstrict)), seed, hseed,
        by rw [hprimary]; exact (Option.some.inj hasks.1).symm, hasks.2.trans hplace.symm⟩
  · rintro s rfl hforgot
    obtain ⟨rfl, -⟩ := hmade.handed hforgot
    cases hm

theorem Callable.below_of_not_grown {held : Option Nat} (h : A.Ready n held own B p) {c : Call} {k : Nat}
    (hc : A.Callable own B fuel c k) (hm : ∀ r, c = .rule r → r.memory ≠ .grown) :
    src.depth c k < B ∧ (A.strict → src.depth c k < fuel) := by
  refine hc.below.resolve_right ?_
  rintro ⟨-, seed, hs, rfl, -⟩
  exact hm _ rfl (h.seeded seed hs).1

end MayCall

/-- Calls come to their outcomes, however much is remembered. -/
theorem call_walks (fuel : Nat) : ∀ (own : Option Seed) (B : Nat), A.Follows own B fuel (Parser.call fuel) := by
  induction fuel with
  | zero =>
    intro own B n c p _ hc
    refine ends_of_yields (fun hs => ?_) fun _ _ hy => absurd hy not_yields_fail
    rcases hc.below with ⟨-, hfuel⟩ | ⟨hfuel, -⟩ <;> exact absurd (hfuel hs) (Nat.not_lt_zero _)
  | succ fuel ih =>
    intro own B n c p h hc
    have hwithin := fun hs => A.within hs hc.place
    by_cases hrule : c.isRule = true
    · cases c with
      | token _ | keyword _ | expect _ => cases hrule
      | rule r =>
        simp only [Parser.call]
        have hheld : r.memory ≠ .remembered → r.held p.cursor.index = none := fun hm => Rule.held_eq_none hm _
        cases hm : r.memory with
        | remembered =>
          obtain ⟨hbelow, hfuel⟩ := hc.below_of_not_grown h (by rintro _ ⟨rfl⟩; simp [hm])
          have hroom := A.room_anew hm hc.place
          refine h.remembered hbelow (by rintro _ ⟨rfl⟩; simp [hm]) fun n q hq hi hmiss => ?_
          exact (runBody_walks (ih none _) (mayCall_remembered hm hroom hfuel) hroom hwithin (fun _ => Nat.le_refl _)
            (fun hs => Source.rounds_lt (hfuel hs)) hq hi fun _ => hmiss).mono
            fun _ _ _ _ hb => hb.imp fun y hy => ⟨hy.1, .of_leads (.anew hm hy.2)⟩
        | grown =>
          refine h.grown hm hc fun hown hfuel n last stop q hq hi => ?_
          have hroom := A.room_grown hm hc.place hown (hq.seeds _ rfl)
          have hbody := runBody_walks (ih _ _) (mayCall_grown hm hroom hfuel) hroom hwithin
            (by simp [hm]) (fun hs => Source.rounds_lt (hfuel hs)) hq hi
            (by simp [hm])
          rw [hheld (by simp [hm])] at hbody
          exact hbody
        | forgotten =>
          obtain ⟨hbelow, hfuel⟩ := hc.below_of_not_grown h (by rintro _ ⟨rfl⟩; simp [hm])
          refine ends_bind.2 (ends_get.2 ?_)
          rw [h.quiet, Bool.not_false, if_pos rfl]
          have hbody := runBody_walks (ih own B) (mayCall_forgotten hm hc hbelow hfuel) (A.room_handed hm hc.place)
            hwithin (by simp [hm]) (fun hs => Source.rounds_lt (hfuel hs)) h rfl
            (by simp [hm])
          rw [hheld (by simp [hm])] at hbody
          exact hbody.mono fun _ _ _ _ hb => hb.imp fun y hy => ⟨hy.1, .of_leads (.handed hm hy.2)⟩
    · have hrule : c.isRule = false := by simpa using hrule
      have hno : ∀ r, c ≠ .rule r := by
        rintro r rfl
        cases hrule
      have hbelow := (hc.below_of_not_grown h fun r hr => absurd hr (hno r)).1
      have hremembered : A.Walks n none own B (Parser.remembered c (Parser.runCall (Parser.call fuel) fuel c)) p
          fun n' x p' => A.Gives n' own c p.cursor.index x p'.cursor.index := by
        refine h.remembered hbelow (fun r hr => absurd hr (hno r)) fun n q hq hi _ => Walks.hold ?_
        refine (hq.runCall hrule fun hs => hi ▸ hwithin hs).mono fun _ _ _ _ hread => ?_
        rw [← hi]
        exact hread none
      cases c with
      | rule r => cases hrule
      | token _ | keyword _ | expect _ => exact hremembered

end Calls

/-- A parser that remembers nothing yet is ready for every call. -/
theorem ready_fresh (hfits : A.Fits n none p) (ho : p.cursor.Offers src.tokens) (hquiet : p.verbose = false)
    (hreserved : p.reserved = []) (hsoft : p.softReserved = []) (hmode : p.complaining = complaining)
    (hmemory : p.memory = {}) (B : Nat) : A.Ready n none none B p := by
  refine ⟨hfits, ho, hquiet, hreserved, hsoft, hmode, fun k c x j he => ?_, fun k c x j _ he => ?_, nofun, nofun⟩ <;>
    rw [hmemory, ResultTable.getElem?_empty] at he <;> cases he

/-- A parser never has more tokens than it reckons with. -/
theorem length_le_tokenBound {tokens : List Token} (h : p.cursor.Offers tokens) : tokens.length ≤ p.tokenBound := by
  refine Nat.le_trans h.length_le (Nat.add_le_add_left ?_ _)
  cases hfeed : p.cursor.feed with
  | unopened text file => exact Cursor.length_upcoming_le hfeed
  | items rest => exact Nat.le_of_eq (by rw [Cursor.upcoming, hfeed])

/-- What a parser reads is an outcome of the call, and noted as such. -/
theorem Ready.read (h : A.Ready n none none (src.depth c p.cursor.index + 1) p) (hp : A.Place none c p.cursor.index)
    (hc : ∀ r, c = .rule r → r.memory ≠ .forgotten) :
    A.Walks n none none (src.depth c p.cursor.index + 1) (Parser.read c) p fun n' x p' =>
      A.Gives n' none c p.cursor.index x p'.cursor.index := by
  refine ends_bind.2 (ends_get.2 (call_walks _ none _ n c p h
    ⟨hp, .inl ⟨Nat.lt_succ_self _, fun _ => ?_⟩, fun r hr hm => absurd hm (hc r hr)⟩))
  have hlength := length_le_tokenBound h.offers
  have hrank := c.rank_lt
  rw [Source.depth, Parser.fuelFor]
  omega

end Account

end Grammar

end Labyrinth
