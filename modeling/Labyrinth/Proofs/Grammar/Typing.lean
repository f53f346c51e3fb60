import Labyrinth.Proofs.Grammar.Account
import Labyrinth.Proofs.Grammar.Shapes
import Labyrinth.Proofs.Grammar.Spelling

/-!
# Outcomes are of the categories of their rules

Whatever the parser remembers and reports, the results that it comes to are of the categories of their rules and lie
where they were read, and no call but the one that looks for the end reaches past the last token. So builders never break
down on the way, and what an action made counts as a success.
-/

namespace Labyrinth.Grammar

open List Labyrinth.Task

variable {j : Nat} {complaining : Bool} {src : Source} {made : Makings} {lines : Array String}

/-! ### The last token -/

variable {t : Token} {i : Nat} {a : Action} {span : Span} {c : Prop} {call : Call} {x : Parsed} {made' : Makings}

/-- Whether a token passes a call depends on its kind and its text alone. -/
theorem Call.accepts_congr {u : Token} (hkind : t.kind = u.kind) (htext : t.text = u.text) (c : Call) :
    c.accepts t = c.accepts u := by
  cases c with
  | rule => rfl
  | token r => cases r <;> simp only [accepts, Source.passes, hkind]
  | keyword => simp only [accepts, hkind]
  | expect => simp only [accepts, Parser.matchesText, hkind, htext]

/-- The end of a text, wherever it stands. -/
def endToken : Token := ⟨.endMarker, "", default, default, ""⟩

/-- Whether a call does not take the end of a text for itself. -/
def Call.sparesEnd : Call → Bool
  | .rule r => r != .start
  | c => !c.accepts endToken

def Step.sparesEnd (s : Step) : Bool :=
  s.call?.all Call.sparesEnd

/-- Whether only the last step of the rule that a text is read by takes the end. -/
def Rule.sparesEnd (r : Rule) : Body → Bool
  | .choice alternatives => alternatives.all fun a =>
    (if r = .start then a.steps.dropLast else a.steps).all Step.sparesEnd
  | .rounds steps => steps.all Step.sparesEnd
  | .gather first others => first != .start && others != .start

theorem Rule.sparesEnd_body (r : Rule) : r.sparesEnd r.body = true := by
  cases r <;> decide

/-- The end of the text comes last. -/
def Source.Ended (src : Source) : Prop :=
  ∀ ⦃i t⦄, i + 1 = src.tokens.length → src.tokens[i]? = some t → t.kind = .endMarker ∧ t.text = ""

/-- The end of the text comes last, and every token before it is one of weight. -/
structure Source.Whole (src : Source) : Prop where
  weight : ∀ {i t}, i + 1 < src.tokens.length → src.tokens[i]? = some t → Cursor.hasWeight t = .ok true
  last : src.Ended

/-- The tokens of a source are of use to builders, up to the end of the text, which comes last. -/
structure Source.Closed (lines : Array String) (src : Source) : Prop extends src.Whole where
  usable : ∀ {i t}, i + 1 < src.tokens.length → src.tokens[i]? = some t → t.Usable lines

theorem Source.whole_of_scan {text : String} (h : src.tokens = (Scan.ofNormalized text).significant ++
    [Scan.endToken (Text.splitLines text)]) : src.Whole := by
  have hlength := congrArg length h
  rw [length_append, length_singleton] at hlength
  refine ⟨fun {i t} hi ht => ?_, fun i t hi ht => ?_⟩
  · rw [h, getElem?_append_left (by omega)] at ht
    have hmem := mem_of_getElem? ht
    obtain ⟨step, hstep, rfl⟩ := mem_map.1 (mem_of_mem_filter hmem)
    have hkind := (Scan.scanFrom_ordinary _ _ _ _ _ step hstep).resolve_right (by simpa using of_mem_filter hmem)
    exact Cursor.hasWeight_of_ne hkind.1 hkind.2
  · rw [h, getElem?_append_right (by omega), show i - (Scan.ofNormalized text).significant.length = 0 by omega] at ht
    cases ht
    exact ⟨rfl, rfl⟩

section Inside

variable {src : Source} {lines : Array String} {made : Makings} {complaining : Bool}
variable {i j : Nat} {steps : List Step} {x : Parsed} {r : Rule}
variable {c : Call} {k : Nat}

/-- A token that is taken is not the last one. -/
theorem Source.Ended.inside (hsrc : src.Ended) (hrule : c.isRule = false) (hc : c.sparesEnd = true) {t : Token}
    (ht : src.tokens[i]? = some t) (ha : c.accepts t = true) : i + 1 < src.tokens.length := by
  have hlt := (List.getElem?_eq_some_iff.1 ht).1
  by_contra hend
  obtain ⟨hkind, htext⟩ := hsrc (by omega) ht
  have hspares : c.accepts endToken = false := by
    cases c with
    | rule => cases hrule
    | token | keyword | expect => simpa [Call.sparesEnd] using hc
  rw [Call.accepts_congr (u := endToken) hkind htext, hspares] at ha
  cases ha

variable {again : Outcomes}
  (ha : ∀ ⦃c k x j⦄, again c k x j → c.sparesEnd = true → k < src.tokens.length → j < src.tokens.length)

include ha

theorem StepTo.inside {s : Step} (h : StepTo again s i j) (hs : s.sparesEnd = true)
    (hi : i < src.tokens.length) : j < src.tokens.length := by
  cases h with
  | cut => exact hi
  | on hcall hc =>
    rw [Step.sparesEnd, hcall] at hs
    exact s.stop_cases (P := (· < src.tokens.length)) hi (ha hc hs hi)

theorem StepsTo.inside {kept kept' : List Parsed} {settled settled' : Bool}
    (h : StepsTo again kept settled i steps (some (kept', j)) settled') (hs : steps.all Step.sparesEnd = true)
    (hi : i < src.tokens.length) : j < src.tokens.length := by
  generalize hout : some (kept', j) = out at h
  induction h with
  | done =>
    cases hout
    exact hi
  | cut _ ih => exact ih (Bool.and_eq_true _ _ ▸ hs : _ ∧ _).2 hi hout
  | on hcall hc hx _ ih =>
    obtain ⟨hstep, hrest⟩ : Step.sparesEnd _ = true ∧ _ := Bool.and_eq_true _ _ ▸ hs
    exact ih hrest ((StepTo.on hcall hc hx).inside ha hstep hi) hout
  | fails => cases hout

theorem ChoiceTo.inside {alternatives : List Alternative}
    (h : ChoiceTo made complaining again i alternatives x j)
    (hb : ∀ a ∈ alternatives, a.steps.all Step.sparesEnd = true) (hi : i < src.tokens.length) :
    j < src.tokens.length := by
  induction h with
  | none | settled => exact hi
  | skip _ _ _ ih | next _ _ _ ih => exact ih (forall_mem_cons.1 hb).2
  | done _ hs | blamed _ _ hs => exact hs.inside ha (forall_mem_cons.1 hb).1 hi

theorem RoundsTo.inside {done : List Parsed}
    (h : RoundsTo again steps done i x j) (hb : steps.all Step.sparesEnd = true) (hi : i < src.tokens.length) :
    j < src.tokens.length := by
  induction h with
  | stop => exact hi
  | more hs _ ih => exact ih (hs.inside ha hb hi)

theorem BodyTo.inside (hr : r ≠ .start)
    (h : BodyTo made complaining again i r.body x j) (hi : i < src.tokens.length) : j < src.tokens.length := by
  have hb := r.sparesEnd_body
  cases hbody : r.body with
  | choice alternatives =>
    rw [hbody] at h hb
    simp only [Rule.sparesEnd, if_neg hr] at hb
    exact ChoiceTo.inside ha h (all_eq_true.1 hb) hi
  | rounds steps =>
    rw [hbody] at h hb
    exact RoundsTo.inside ha h hb hi
  | gather first others =>
    rw [hbody] at h hb
    obtain ⟨hfirst, hothers⟩ : (first != .start) = true ∧ (others != .start) = true := Bool.and_eq_true _ _ ▸ hb
    cases h with
    | missing | alone => exact hi
    | both hf _ ho _ => exact ha ho hothers (ha hf hfirst hi)

theorem Reached.inside (hi : i < src.tokens.length) (h : Reached complaining again r i steps k) :
    steps.dropLast.all Step.sparesEnd = true ∧ (steps ≠ [] → k < src.tokens.length) := by
  have hb := r.sparesEnd_body
  have hdrop : ∀ {steps : List Step}, steps.all Step.sparesEnd = true → steps.dropLast.all Step.sparesEnd = true :=
    fun h => all_eq_true.2 fun s hs => all_eq_true.1 h s (dropLast_subset _ hs)
  induction h with
  | alternative hleft =>
    obtain ⟨all, he, hmem⟩ := hleft.mem
    rw [he] at hb
    have hsteps := all_eq_true.1 hb _ (hmem _ mem_cons_self)
    refine ⟨?_, fun _ => hi⟩
    split at hsteps
    · exact hsteps
    · exact hdrop hsteps
  | round he =>
    rw [he] at hb
    exact ⟨hdrop hb, fun _ => hi⟩
  | again he _ hs ih =>
    rw [he] at hb
    refine ⟨hdrop hb, fun hne => ?_⟩
    exact hs.inside ha hb (ih.2 hne)
  | @on s rest _ _ _ hs ih =>
    obtain ⟨hdropped, hk⟩ := ih
    cases rest with
    | nil => exact ⟨rfl, fun hne => absurd rfl hne⟩
    | cons s' rest =>
      rw [dropLast_cons_cons, all_cons, Bool.and_eq_true] at hdropped
      exact ⟨hdropped.2, fun _ => hs.inside ha hdropped.1 (hk (cons_ne_nil _ _))⟩

/-- A rule makes no call past the last token. -/
theorem Made.inside (hi : i < src.tokens.length) (h : Made complaining again r i c k) : k < src.tokens.length := by
  have hb := r.sparesEnd_body
  cases h with
  | step h _ => exact (h.inside ha hi).2 (cons_ne_nil _ _)
  | first => exact hi
  | others he hf _ =>
    rw [he] at hb
    exact ha hf (Bool.and_eq_true _ _ ▸ hb : _ ∧ _).1 hi

end Inside

section Reading

variable {src : Source} {lines : Array String} {made : Makings} {complaining : Bool}

/-- The result of a seed ends before the last token. -/
def Seed.Inside (src : Source) (seed : Seed) : Prop :=
  seed.rule ≠ .start → seed.place < src.tokens.length → seed.result.2 < src.tokens.length

/-- Outcomes stay before the end, if the seed does. -/
theorem Reads.inside (hsrc : src.Ended) {own : Option Seed} {c : Call} {i : Nat} {x : Parsed}
    (h : Reads src made complaining own c i x j) (hown : ∀ seed ∈ own, seed.Inside src) (hc : c.sparesEnd = true)
    (hi : i < src.tokens.length) : j < src.tokens.length := by
  refine h (fun own c i x j => (∀ seed ∈ own, seed.Inside src) → c.sparesEnd = true →
    i < src.tokens.length → j < src.tokens.length) (fun own c i x j h hown hc hi => ?_) hown hc hi
  have hrule : ∀ {r : Rule}, (Call.rule r).sparesEnd = true → r ≠ .start := fun h => by
    simpa [Call.sparesEnd] using h
  cases h with
  | take hr ht ha => exact hsrc.inside hr hc ht ha
  | refuse => exact hi
  | anew _ hb => exact hb.inside (fun c k x j h => h nofun) (hrule hc) hi
  | handed _ hb => exact hb.inside (fun c k x j h => h hown) (hrule hc) hi
  | seed hs => exact hown _ hs (hrule hc) hi
  | grown _ _ hg =>
    refine hg.keeps (P := fun _ stop => stop < src.tokens.length) (fun last stop x j hl hb => ?_) hi
    refine hb.inside (fun c k x j h => h ?_) (hrule hc) hi
    rintro _ ⟨rfl⟩ _ _
    exact hl

theorem Seed.Sprouted.inside (hsrc : src.Ended) {seed : Seed} (h : seed.Sprouted src made complaining) :
    seed.Inside src := by
  obtain ⟨r, i, last, stop⟩ := seed
  intro hstart hi
  unfold Seed.Sprouted at h
  dsimp only at h hstart hi ⊢
  induction h with
  | seed => exact hi
  | more _ hround _ _ ih =>
    refine hround.inside (fun c k x j h => h.inside hsrc ?_) hstart hi
    rintro _ ⟨rfl⟩ _ _
    exact ih

/-- Whether the result of a step, if it is kept, is not the end of the text. -/
def Step.keepsNoEnd : Step → Bool
  | .keep c | .keepOpt c => !c.accepts endToken
  | _ => true

def Body.keepsNoEnd : Body → Bool
  | .choice alternatives => alternatives.all fun a => a.steps.all Step.keepsNoEnd
  | .rounds steps => steps.all Step.keepsNoEnd
  | .gather _ _ => true

theorem Step.keepsNoEnd_of_sparesEnd {s : Step} (h : s.sparesEnd = true) : s.keepsNoEnd = true := by
  cases s with
  | keep c | keepOpt c =>
    cases c with
    | rule => rfl
    | _ => exact h
  | _ => rfl

theorem Rule.keepsNoEnd_body (r : Rule) : r.body.keepsNoEnd = true := by
  by_cases hr : r = .start
  · subst hr
    rfl
  have hall : ∀ {steps : List Step}, steps.all Step.sparesEnd = true → steps.all Step.keepsNoEnd = true :=
    fun h => all_eq_true.2 fun s hs => Step.keepsNoEnd_of_sparesEnd (all_eq_true.1 h s hs)
  have h := r.sparesEnd_body
  cases hb : r.body with
  | choice alternatives =>
    rw [hb] at h
    simp only [Rule.sparesEnd, if_neg hr] at h
    exact all_eq_true.2 fun a ha => hall (all_eq_true.1 h a ha)
  | rounds steps =>
    rw [hb] at h
    exact hall h
  | gather first others => rfl

end Reading

/-! ### What alternatives hand to their actions -/

/-- What holds of every alternative of a rule. -/
structure Alternative.Regular (r : Rule) (a : Alternative) : Prop where
  advances : a.steps.any Step.advances = true
  keepsNoEnd : a.steps.all Step.keepsNoEnd = true
  sparesEnd : a.action ≠ .program → a.steps.all Step.sparesEnd = true
  makes : a.makes r.category = true

theorem Rule.regular_alternatives {r : Rule} {alternatives : List Alternative} (hb : r.body = .choice alternatives) :
    ∀ a ∈ alternatives, a.Regular r := by
  intro a ha
  have hordered := r.orderedBody_body
  have hkeeps := r.keepsNoEnd_body
  have hspares := r.sparesEnd_body
  have hmakes := r.makes_body
  rw [hb] at hordered hkeeps hspares hmakes
  refine ⟨Source.Rule.ordered_advances (all_eq_true.1 hordered a ha), all_eq_true.1 hkeeps a ha,
    fun hprogram => ?_, all_eq_true.1 hmakes a ha⟩
  have hstart : r ≠ .start := by
    rintro rfl
    cases hb
    cases mem_singleton.1 ha
    exact hprogram rfl
  simp only [Rule.sparesEnd, if_neg hstart] at hspares
  exact all_eq_true.1 hspares a ha

/-- The tokens between two places, without the end of the text. -/
def Source.ground (src : Source) (lines : Array String) (i j : Nat) : Stretch :=
  ⟨src.tokens, lines, i, min j (src.tokens.length - 1)⟩

theorem Source.ground_into {i' j' : Nat} (hi : i' ≤ i) (hj : j ≤ j') :
    (src.ground lines i j).Into (src.ground lines i' j') :=
  ⟨rfl, hi, by simp only [ground]; omega⟩

theorem Source.Closed.fair (h : src.Closed lines) (i j : Nat) : (src.ground lines i j).Fair := by
  rintro t ⟨k, -, hk, ht⟩
  simp only [ground] at hk
  exact h.usable (by omega) ht

/-- What is kept for an action on a stretch of tokens is of categories that it makes one of. -/
structure Ready (src : Source) (lines : Array String) (c : Prop) (a : Action) (i j : Nat) (kept : List Parsed)
    (k : Category) : Prop where
  lt : i < j
  inside : a ≠ .program → i < src.tokens.length → j < src.tokens.length
  shows : ∃ slots, a.category? slots = some k ∧ Forall₂ (Slot.Shows (src.ground lines i j) c) slots kept

theorem Source.Whole.lastOfWeight (hsrc : src.Whole) {m : Nat} (hm : m + 1 < src.tokens.length)
    (ht : src.tokens[m]? = some t) (found : Option Token) :
    Cursor.lastOfWeight src.tokens.toArray found (m + 1) = .ok (some t) := by
  have hget : src.tokens.toArray.getD m default = t := by simp [Array.getD_eq_getD_getElem?, ht]
  simp only [Cursor.lastOfWeight, hget, hsrc.weight hm ht]
  rfl

/-- The span of a located action is the span of its tokens, as its last token is one of weight. -/
theorem Spans.site (hspan : Spans src a i j span) (hsrc : src.Whole) (hlt : i < j)
    (hinside : i < src.tokens.length → j < src.tokens.length) (hl : a.located = true) :
    (src.ground lines i j).Site span := by
  rw [Spans, if_pos hl] at hspan
  obtain ⟨t, u, ht, hu, rfl⟩ := hspan
  have hj := hinside (List.getElem?_eq_some_iff.1 ht).1
  obtain ⟨m, rfl⟩ := Nat.exists_eq_add_one_of_ne_zero (Nat.ne_zero_of_lt hlt)
  have hm : src.tokens[m]? = some src.tokens[m] := getElem?_eq_getElem (by omega)
  have hstop : (src.ground lines i (m + 1)).stop = m + 1 := by
    simp only [Source.ground]
    omega
  refine ⟨by rwa [hstop], t, u, ht, ?_, rfl, rfl⟩
  rw [hstop, Nat.add_sub_cancel]
  cases (hsrc.lastOfWeight hj hm none).symm.trans hu
  exact hm

/-- What an action makes of what is kept for it lies where it was read. -/
theorem Ready.works {kept : List Parsed} {k : Category} (h : Ready src lines c a i j kept k) (hsrc : src.Whole)
    (hspan : Spans src a i j span) : Parser.Works (src.ground lines i j) c (Parser.perform a span kept) fun d x =>
      k.Shows (src.ground lines i j) d x ∧ x.succeeds = true := by
  obtain ⟨slots, hc, hk⟩ := h.shows
  have hread : span.recovered = false := by
    unfold Spans at hspan
    split at hspan
    · obtain ⟨_, _, _, _, rfl⟩ := hspan
      rfl
    · subst hspan
      rfl
  exact Parser.perform_works hc hk hread fun hl hprogram => hspan.site hsrc h.lt (h.inside hprogram) hl

/-! ### Categories of outcomes -/

/-- Actions make something of their categories, if what is kept for them is of the categories that they are made for. -/
def Suits (src : Source) (lines : Array String) (c : Prop) (made made' : Makings) : Prop :=
  ∀ ⦃a i j kept x k⦄, made a i j kept x → Ready src lines c a i j kept k →
    k.Shows (src.ground lines i j) c x ∧ made' a i j kept x

/-- An outcome goes forward, does not reach past the last token unless it has to, and yields something of its category
that lies where it was read. -/
structure Lies (src : Source) (lines : Array String) (c : Prop) (call : Call) (i : Nat) (x : Parsed) (j : Nat) :
    Prop where
  onward : Onward call i x j
  inside : call.sparesEnd = true → i < src.tokens.length → j < src.tokens.length
  shows : call.accepts endToken = false → x = .nothing ∨ call.category.Shows (src.ground lines i j) c x

theorem lies_nothing (src : Source) (lines : Array String) (c : Prop) (call : Call) (i : Nat) :
    Lies src lines c call i .nothing i :=
  ⟨onward_nothing call i, fun _ hi => hi, fun _ => .inl rfl⟩

/-- A token that is taken is of its category, unless it is the end of the text. -/
theorem lies_token (hsrc : src.Ended) (hwell : c → ∀ t ∈ src.tokens, t.WellFormed) (hcall : call.isRule = false)
    (ht : src.tokens[i]? = some t) (ha : call.accepts t = true) : Lies src lines c call i (.token t) (i + 1) := by
  refine ⟨⟨Nat.le_succ _, fun _ => Nat.lt_succ_self _, fun r hr => by subst hr; cases hcall⟩,
    fun hspares _ => hsrc.inside hcall hspares ht ha, fun hend => .inr ?_⟩
  have hspares : call.sparesEnd = true := by
    cases call with
    | rule => cases hcall
    | token | keyword | expect => simpa [Call.sparesEnd] using hend
  have hinside := hsrc.inside hcall hspares ht ha
  have htoken : (src.ground lines i (i + 1)).HasToken c t :=
    ⟨⟨i, Nat.le_refl i, by simp only [Source.ground]; omega, ht⟩, fun hc => hwell hc t (mem_of_getElem? ht)⟩
  cases call with
  | rule => cases hcall
  | token r =>
    cases r with
    | number => exact ⟨t, rfl, htoken, by simpa [Call.accepts, Source.passes] using ha⟩
    | _ => exact ⟨t, rfl, htoken⟩
  | keyword | expect => exact ⟨t, rfl, htoken⟩

section Lies

variable {c : Prop} {made made' : Makings} {complaining : Bool} {again again' : Outcomes} {i : Nat} {x : Parsed}
  {j : Nat} (ha : ∀ ⦃call k x j⦄, again call k x j → Lies src lines c call k x j ∧ again' call k x j)

include ha

variable {kept : List Parsed} {settled : Bool} {steps : List Step} {first : Nat} {r : Rule}

/-- What steps keep is of the categories of what they call. -/
theorem StepsTo.shows {kept' : List Parsed} {settled' : Bool}
    (h : StepsTo again kept settled i steps (some (kept', j)) settled') (hs : steps.all Step.keepsNoEnd = true)
    (hfirst : first ≤ i) : ∃ tail, kept' = kept.reverse ++ tail ∧
      Forall₂ (Slot.Shows (src.ground lines first j) c) (steps.filterMap Step.slot?) tail := by
  have honward : ∀ call k x j, again call k x j → Onward call k x j := fun _ _ _ _ h => (ha h).1.onward
  generalize hout : some (kept', j) = out at h
  induction h with
  | done =>
    cases hout
    exact ⟨[], (append_nil _).symm, .nil⟩
  | cut _ ih => exact ih (Bool.and_eq_true _ _ ▸ hs : _ ∧ _).2 hfirst hout
  | @on _ _ _ call x _ _ _ _ s hcall hc hx hrest ih =>
    obtain ⟨hstep, hsteps⟩ : Step.keepsNoEnd _ = true ∧ _ := Bool.and_eq_true _ _ ▸ hs
    obtain ⟨tail, rfl, htail⟩ := ih hsteps (Nat.le_trans hfirst (Step.forward hcall (honward _ _ _ _ hc) hx).1) hout
    subst hout
    -- What is kept was made of tokens on the way, and so it lies in the whole stretch.
    have hkept (hkeeps : s = .keep call ∨ s = .keepOpt call) :
        x = .nothing ∨ call.category.Shows (src.ground lines first j) c x := by
      have hle := (hrest.forward honward).1
      rcases hkeeps with rfl | rfl <;>
        exact ((ha hc).1.shows (by simpa [Step.keepsNoEnd] using hstep)).imp_right fun h =>
          h.mono (Source.ground_into hfirst hle) id
    cases s with
    | cut => cases hcall
    | need | opt | ahead => exact ⟨tail, rfl, htail⟩
    | keep =>
      cases hcall
      refine ⟨x :: tail, by simp, .cons ⟨hx, (hkept (.inl rfl)).resolve_left ?_⟩ htail⟩
      rintro rfl
      cases hx
    | keepOpt =>
      cases hcall
      exact ⟨x :: tail, by simp, .cons (hkept (.inr rfl)) htail⟩
  | fails => cases hout

/-- An alternative that was followed to its end leaves its action something to work with. -/
theorem StepsTo.ready {a : Alternative} (hr : a.Regular r) (hv : a.invalid = false)
    (h : StepsTo again [] false i a.steps (some (kept, j)) settled) :
    ∃ k, Ready src lines c a.action i j kept k ∧ k.fits r.category = true := by
  have hmakes := hr.makes
  rw [Alternative.makes, hv, Bool.false_or] at hmakes
  obtain ⟨k, hk, hfit⟩ := (Option.any_eq_true _ _).1 hmakes
  obtain ⟨_, rfl, hshows⟩ := h.shows ha hr.keepsNoEnd (Nat.le_refl i)
  refine ⟨k, ⟨?_, fun hprogram hi => ?_, _, hk, hshows⟩, hfit⟩
  · exact (h.forward fun _ _ _ _ h => (ha h).1.onward).2 hr.advances
  · exact h.inside (fun _ _ _ _ h => (ha h).1.inside) (hr.sparesEnd hprogram) hi

theorem ChoiceTo.shows (hmade : Suits src lines c made made') {alternatives : List Alternative}
    (h : ChoiceTo made complaining again i alternatives x j) (hall : ∀ a ∈ alternatives, a.Regular r) :
    (x = .nothing ∨ r.category.Shows (src.ground lines i j) c x) ∧
      ChoiceTo made' complaining again' i alternatives x j := by
  have hmono : ∀ call k x j, again call k x j → again' call k x j := fun _ _ _ _ h => (ha h).2
  induction h with
  | none => exact ⟨.inl rfl, .none⟩
  | skip hv hc _ ih =>
    obtain ⟨hx, hchoice⟩ := ih (forall_mem_cons.1 hall).2
    exact ⟨hx, .skip hv hc hchoice⟩
  | done hv hs hx =>
    obtain ⟨k, hready, hfit⟩ := hs.ready ha (forall_mem_cons.1 hall).1 hv
    obtain ⟨hshows, hmade'⟩ := hmade hx hready
    exact ⟨.inr (hshows.fit hfit), .done hv (hs.mono hmono) hmade'⟩
  | blamed hv hc hs => exact ⟨.inl rfl, .blamed hv hc (hs.mono hmono)⟩
  | settled hv hs => exact ⟨.inl rfl, .settled hv (hs.mono hmono)⟩
  | next hv hs _ ih =>
    obtain ⟨hx, hchoice⟩ := ih (forall_mem_cons.1 hall).2
    exact ⟨hx, .next hv (hs.mono hmono) hchoice⟩

theorem RoundsTo.shows {k : Category} (hslots : steps.filterMap Step.slot? = [.must k])
    (hends : steps.all Step.keepsNoEnd = true) {done : List Parsed} (h : RoundsTo again steps done i x j)
    (hfirst : first ≤ i) (hdone : ∀ item ∈ done, k.Shows (src.ground lines first i) c item) :
    (Category.many k).Shows (src.ground lines first j) c x := by
  induction h with
  | stop => exact ⟨_, rfl, fun item hitem => hdone item (mem_reverse.1 hitem)⟩
  | more hs _ ih =>
    have hle := (hs.forward fun _ _ _ _ h => (ha h).1.onward).1
    obtain ⟨tail, htail, hkept⟩ := hs.shows ha hends hfirst
    rw [hslots] at hkept
    obtain ⟨item, rfl, hitem⟩ := Slot.one hkept
    cases htail
    refine ih (Nat.le_trans hfirst hle) (forall_mem_cons.2 ⟨hitem.part, fun item hmem => ?_⟩)
    exact (hdone item hmem).mono (Source.ground_into (Nat.le_refl _) hle) id

/-- The body of a rule comes to results of the category of the rule. -/
theorem BodyTo.lies (hmade : Suits src lines c made made') (h : BodyTo made complaining again i r.body x j) :
    Lies src lines c (.rule r) i x j ∧ BodyTo made' complaining again' i r.body x j := by
  have hmono : ∀ call k x j, again call k x j → again' call k x j := fun _ _ _ _ h => (ha h).2
  suffices hshows : (x = .nothing ∨ r.category.Shows (src.ground lines i j) c x) ∧
      BodyTo made' complaining again' i r.body x j by
    refine ⟨⟨h.onward fun _ _ _ _ h => (ha h).1.onward, fun hspares hi => ?_, fun _ => hshows.1⟩, hshows.2⟩
    exact h.inside (fun _ _ _ _ h => (ha h).1.inside) (by simpa [Call.sparesEnd] using hspares) hi
  have hmakes := r.makes_body
  have hends := r.keepsNoEnd_body
  cases hb : r.body with
  | choice alternatives =>
    rw [hb] at h
    exact ChoiceTo.shows ha hmade h (Rule.regular_alternatives hb)
  | rounds steps =>
    rw [hb] at h hmakes hends
    obtain ⟨k, hk, hslots⟩ : ∃ k, r.category = .many k ∧ steps.filterMap Step.slot? = [.must k] := by
      cases hc : r.category with
      | many k =>
        rw [hc] at hmakes
        exact ⟨k, rfl, by simpa [Body.makes] using hmakes⟩
      | _ =>
        rw [hc] at hmakes
        cases hmakes
    rw [hk]
    exact ⟨.inr (RoundsTo.shows ha hslots hends h (Nat.le_refl i) nofun), RoundsTo.mono h hmono⟩
  | gather first others =>
    rw [hb] at h hmakes
    obtain ⟨k, hk, hfirst, hothers⟩ : ∃ k, r.category = .many k ∧ first.category.fits k = true ∧
        others.category.fits (.many k) = true := by
      cases hc : r.category with
      | many k =>
        rw [hc] at hmakes
        exact ⟨k, rfl, (Bool.and_eq_true _ _ ▸ hmakes : _ ∧ _)⟩
      | _ =>
        rw [hc] at hmakes
        cases hmakes
    refine ⟨?_, GatherTo.mono h hmono⟩
    cases h with
    | missing | alone => exact .inl rfl
    | both hf hx ho hy =>
      have hx' := ((ha hf).1.shows rfl).resolve_left (by rintro rfl; cases hx)
      have hy' := ((ha ho).1.shows rfl).resolve_left (by rintro rfl; cases hy)
      obtain ⟨items, rfl, hall⟩ := Category.Shows.fit hy' hothers
      rw [hk]
      refine .inr ⟨_, rfl, forall_mem_cons.2 ⟨?_, fun item hitem => ?_⟩⟩
      · exact (Category.Shows.fit hx' hfirst).mono (Source.ground_into (Nat.le_refl i) (ha ho).1.onward.le) id
      · exact (hall item hitem).mono (Source.ground_into (ha hf).1.onward.le (Nat.le_refl _)) id

end Lies

/-- Growing keeps what every round keeps, also for outcomes that are known to be such. -/
theorem GrowsTo.keeps_mono {round round' : Parsed → Nat → Parsed → Nat → Prop} {P : Parsed → Nat → Prop}
    (hr : ∀ last stop x j, P last stop → round last stop x j → P x j ∧ round' last stop x j) {last : Parsed}
    {stop : Nat} (h : GrowsTo round last stop x j) (hl : P last stop) : P x j ∧ GrowsTo round' last stop x j := by
  induction h with
  | stop h hx => exact ⟨hl, .stop (hr _ _ _ _ hl h).2 hx⟩
  | more h hx hj _ ih =>
    obtain ⟨hx', hround⟩ := hr _ _ _ _ hl h
    exact ⟨(ih hx').1, .more hround hx hj (ih hx').2⟩

/-- Every outcome lies where it was read, if the seed does. -/
theorem Reads.lies {own : Option Seed} (hsrc : src.Ended) (hwell : c → ∀ t ∈ src.tokens, t.WellFormed)
    (hmade : Suits src lines c made made') (h : Reads src made complaining own call i x j)
    (hown : ∀ seed ∈ own, Lies src lines c (.rule seed.rule) seed.place seed.result.1 seed.result.2) :
    Lies src lines c call i x j ∧ Reads src made' complaining own call i x j := by
  refine h (fun own call i x j =>
    (∀ seed ∈ own, Lies src lines c (.rule seed.rule) seed.place seed.result.1 seed.result.2) →
      Lies src lines c call i x j ∧ Reads src made' complaining own call i x j)
    (fun own call i x j h hown => ?_) hown
  cases h with
  | take hc ht ha => exact ⟨lies_token hsrc hwell hc ht ha, .of_leads (.take hc ht ha)⟩
  | refuse hc ht ha => exact ⟨lies_nothing .., .of_leads (.refuse hc ht ha)⟩
  | anew hm hb =>
    obtain ⟨hx, hbody⟩ := BodyTo.lies (fun _ _ _ _ h => h nofun) hmade hb
    exact ⟨hx, .of_leads (.anew hm hbody)⟩
  | handed hm hb =>
    obtain ⟨hx, hbody⟩ := BodyTo.lies (fun _ _ _ _ h => h hown) hmade hb
    exact ⟨hx, .of_leads (.handed hm hbody)⟩
  | seed hs hm => exact ⟨hown _ hs, .of_leads (.seed hs hm)⟩
  | grown hm ho hg =>
    obtain ⟨hx, hgrows⟩ := hg.keeps_mono (P := Lies src lines c (.rule _) i)
      (fun last stop x j hl hb => BodyTo.lies (fun _ _ _ _ h => h (by rintro _ ⟨rfl⟩; exact hl)) hmade hb)
      (lies_nothing ..)
    exact ⟨hx, .of_leads (.grown hm ho hgrows)⟩

theorem Seed.Sprouted.lies (hsrc : src.Ended) (hwell : c → ∀ t ∈ src.tokens, t.WellFormed)
    (hmade : Suits src lines c made made') {seed : Seed} (h : seed.Sprouted src made complaining) :
    Lies src lines c (.rule seed.rule) seed.place seed.result.1 seed.result.2 := by
  obtain ⟨r, i, last, stop⟩ := seed
  unfold Seed.Sprouted at h
  dsimp only at h ⊢
  induction h with
  | seed => exact lies_nothing ..
  | more _ hround _ _ ih =>
    exact (BodyTo.lies (fun _ _ _ _ h => h.lies hsrc hwell hmade (by rintro _ ⟨rfl⟩; exact ih)) hmade hround).1

/-! ### What actions find a way on with -/

/-- What an action makes of results of the categories it is made for is of its category, and counts as a success. -/
def showing (src : Source) (lines : Array String) : Makings := fun a i j kept x =>
  ∀ k, Ready src lines False a i j kept k → k.Shows (src.ground lines i j) False x ∧ x.succeeds = true

/-- What an action made counts as a success, so that it found a way on. -/
def fruitful : Makings := fun a _ _ _ x =>
  a.blames = false ∧ x.succeeds = true

theorem Action.category?_of_blames (h : a.blames = true) {slots : List Slot} {d : Category}
    (hc : a.category? slots = some d) : d = .never := by
  obtain ⟨c, hsignature⟩ := Action.exists_signature hc
  cases a with
  | unclosedBegin | emptyReturn | openUntil | openCheck | unclosedBracket | unclosedParen => cases hsignature; rfl
  | _ => cases h

theorem suits_showing (src : Source) (lines : Array String) : Suits src lines False (showing src lines) fruitful := by
  intro a i j kept x k h hready
  obtain ⟨hshows, hsucceeds⟩ := h k hready
  refine ⟨hshows, ?_, hsucceeds⟩
  by_contra hblames
  obtain ⟨slots, hc, -⟩ := hready.shows
  obtain rfl := Action.category?_of_blames (by simpa using hblames) hc
  exact hshows

end Labyrinth.Grammar
