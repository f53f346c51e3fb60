import Labyrinth.Proofs.Grammar.Outcomes
import Labyrinth.Proofs.Grammar.Touching

/-!
# Spelling

Tokens spell a result of a call if the grammar takes them one after another and makes the result of them without
a report. Whatever an outcome without reports comes to is spelled by the tokens between its two places.
-/

namespace Labyrinth.Grammar

open List Labyrinth.Task

/-! ### Spelling -/

/-- What an action makes of results without a report. -/
def Action.Makes (a : Action) (kept : List Parsed) (x : Parsed) : Prop :=
  ∃ span p p', Yields (Parser.perform a span kept) p x p' ∧ Unreported p'

/-- The makings of actions without a report. -/
def silent : Makings := fun a _ _ kept x => a.Makes kept x

mutual

/-- A call spells a result with tokens: each of them is taken by one call for a single token, in their order, and
the results on the way are made without a report. -/
inductive Spells : Call → Parsed → List Token → Prop where
  | token {c t} (hc : c.isRule = false) (ha : c.accepts t = true) : Spells c (.token t) [t]
  | choice {r alternatives a kept tokens x} (hb : r.body = .choice alternatives) (ha : a ∈ alternatives)
      (hv : a.invalid = false) (hs : StepsSpell a.steps kept tokens) (hx : a.action.Makes kept x) :
      Spells (.rule r) x tokens
  | rounds {r steps items tokens} (hb : r.body = .rounds steps) (hs : RoundsSpell steps items tokens) :
      Spells (.rule r) (.list items) tokens
  | gather {r first others x y tokens tokens'} (hb : r.body = .gather first others)
      (hf : Spells (.rule first) x tokens) (ho : Spells (.rule others) y tokens') :
      Spells (.rule r) (.list (x :: y.items)) (tokens ++ tokens')

/-- Steps spell the results that they keep. A step that may fail and does so takes no token, and neither does one
that only looks ahead. -/
inductive StepsSpell : List Step → List Parsed → List Token → Prop where
  | nil : StepsSpell [] [] []
  | cut {rest kept tokens} (h : StepsSpell rest kept tokens) : StepsSpell (.cut :: rest) kept tokens
  | need {c x tokens rest kept tokens'} (hc : Spells c x tokens) (h : StepsSpell rest kept tokens') :
      StepsSpell (.need c :: rest) kept (tokens ++ tokens')
  | keep {c x tokens rest kept tokens'} (hc : Spells c x tokens) (h : StepsSpell rest kept tokens') :
      StepsSpell (.keep c :: rest) (x :: kept) (tokens ++ tokens')
  | opt {c x tokens rest kept tokens'} (hc : Spells c x tokens) (h : StepsSpell rest kept tokens') :
      StepsSpell (.opt c :: rest) kept (tokens ++ tokens')
  | optFails {c rest kept tokens} (h : StepsSpell rest kept tokens) : StepsSpell (.opt c :: rest) kept tokens
  | keepOpt {c x tokens rest kept tokens'} (hc : Spells c x tokens) (h : StepsSpell rest kept tokens') :
      StepsSpell (.keepOpt c :: rest) (x :: kept) (tokens ++ tokens')
  | keepOptFails {c rest kept tokens} (h : StepsSpell rest kept tokens) :
      StepsSpell (.keepOpt c :: rest) (.nothing :: kept) tokens
  | ahead {c rest kept tokens} (h : StepsSpell rest kept tokens) : StepsSpell (.ahead c :: rest) kept tokens

/-- Rounds of steps spell one result each. -/
inductive RoundsSpell : List Step → List Parsed → List Token → Prop where
  | nil {steps} : RoundsSpell steps [] []
  | more {steps x items tokens tokens'} (hs : StepsSpell steps [x] tokens) (h : RoundsSpell steps items tokens') :
      RoundsSpell steps (x :: items) (tokens ++ tokens')

end

def Source.stretch (src : Source) (i j : Nat) : List Token :=
  (src.tokens.drop i).take (j - i)

namespace Source

variable (src : Source)

theorem stretch_self (i : Nat) : src.stretch i i = [] := by
  simp [stretch]

variable {i : Nat}

theorem stretch_append {j k : Nat} (hij : i ≤ j) (hjk : j ≤ k) :
    src.stretch i j ++ src.stretch j k = src.stretch i k := by
  have hsum : k - i = (j - i) + (k - j) := by omega
  rw [stretch, stretch, stretch, hsum, take_add, drop_drop, Nat.add_sub_cancel' hij]

theorem stretch_succ {t : Token} (h : src.tokens[i]? = some t) : src.stretch i (i + 1) = [t] := by
  obtain ⟨hlt, rfl⟩ := List.getElem?_eq_some_iff.1 h
  rw [stretch, Nat.add_sub_cancel_left, drop_eq_getElem_cons hlt, take_succ_cons, take_zero]

end Source

/-- A call came to nothing, or spelled its result with the tokens up to where it ended. -/
structure Spelt (src : Source) (c : Call) (i : Nat) (x : Parsed) (j : Nat) : Prop where
  le : i ≤ j
  spells : x = .nothing ∧ j = i ∨ Spells c x (src.stretch i j)

variable {src : Source} {c : Call} {i j : Nat} {x : Parsed} {r : Rule}

theorem Spelt.of_succeeds (h : Spelt src c i x j) (hx : x.succeeds = true) : Spells c x (src.stretch i j) := by
  refine h.spells.resolve_left ?_
  rintro ⟨rfl, -⟩
  cases hx

theorem Spelt.of_isNothing (h : Spelt src c i x j) (hx : x.isNothing = false) : Spells c x (src.stretch i j) := by
  refine h.spells.resolve_left ?_
  rintro ⟨rfl, -⟩
  cases hx

def Rule.blames : Rule → Bool
  | invalidFunctionDefinition | invalidReturnStmt | invalidUntilStmt | invalidCheckStmt | invalidSubscript
  | invalidCall | invalidGroup => true
  | _ => false

def Action.blames : Action → Bool
  | .unclosedBegin | .emptyReturn | .openUntil | .openCheck | .unclosedBracket | .unclosedParen => true
  | _ => false

theorem Rule.memory_of_blames (h : r.blames = true) : r.memory = .remembered := by
  cases r <;> first | rfl | cases h

theorem Rule.actions_of_blames (h : r.blames = true) :
    ∃ alternatives, r.body = .choice alternatives ∧ ∀ a ∈ alternatives, a.action.blames = true := by
  cases r <;> first | exact ⟨_, rfl, by decide⟩ | cases h

/-- Whether all that an alternative does is to call a rule that finds no way on. -/
def Alternative.blames (a : Alternative) : Bool :=
  match a.steps with
  | [.need (.rule s)] => s.blames
  | _ => false

/-- Alternatives that only complain call a rule that finds no way on. -/
theorem Rule.blames_of_invalid {alternatives : List Alternative} (h : r.body = .choice alternatives) :
    ∀ a ∈ alternatives, a.invalid = true → ∃ s : Rule, s.blames = true ∧ a.steps = [.need (.rule s)] := by
  have hall : alternatives.all (fun a => !a.invalid || a.blames) = true := by
    cases r <;> first | (cases h; rfl) | cases h
  intro a ha hv
  have hsteps := all_eq_true.1 hall a ha
  rw [hv, Bool.not_true, Bool.false_or, Alternative.blames] at hsteps
  split at hsteps
  · next s heq => exact ⟨s, hsteps, heq⟩
  · cases hsteps

/-- An action of a rule that finds no way on makes nothing. -/
theorem Action.eq_nothing_of_blames {a : Action} (h : a.blames = true) {kept : List Parsed} (hx : a.Makes kept x) :
    x = .nothing := by
  obtain ⟨span, p, p', hy, -⟩ := hx
  cases a
  case unclosedBegin | emptyReturn | openUntil | openCheck | unclosedBracket | unclosedParen =>
    rcases kept with _ | ⟨k, _ | _⟩
    · exact (yields_pure.1 hy).1.symm
    · cases k with
      | token t =>
        obtain ⟨_, _, hreport, -⟩ := yields_bind.1 hy
        cases (Parser.reported_of_reportSpan hreport).1
      | _ => exact (yields_pure.1 hy).1.symm
    · cases k <;> exact (yields_pure.1 hy).1.symm
  all_goals cases h

section Spelling

variable {src : Source} {again : Outcomes} (ha : ∀ c k x j, again c k x j → Spelt src c k x j)

include ha

variable {i j : Nat} {steps : List Step} {x : Parsed} {complaining : Bool} {r : Rule}

theorem StepsTo.spells {kept kept' : List Parsed} {settled settled' : Bool}
    (h : StepsTo again kept settled i steps (some (kept', j)) settled') :
    i ≤ j ∧ ∃ new, kept' = kept.reverse ++ new ∧ StepsSpell steps new (src.stretch i j) := by
  generalize hout : some (kept', j) = out at h
  induction h with
  | done =>
    cases hout
    exact ⟨Nat.le_refl _, [], by simp, by rw [src.stretch_self]; exact .nil⟩
  | cut _ ih =>
    obtain ⟨hle, new, hnew, hspell⟩ := ih hout
    exact ⟨hle, new, hnew, .cut hspell⟩
  | @on _ _ _ _ x _ _ _ _ s hs hc hx _ ih =>
    obtain ⟨hle, new, hnew, hspell⟩ := ih hout
    have hc := ha _ _ _ _ hc
    refine ⟨Nat.le_trans (s.stop_cases (Nat.le_refl _) hc.le) hle, ?_⟩
    cases s with
    | cut => cases hs
    | need | keep =>
      cases hs
      rw [← src.stretch_append hc.le hle]
      first
        | exact ⟨new, hnew, .need (hc.of_succeeds hx) hspell⟩
        | exact ⟨x :: new, by simpa using hnew, .keep (hc.of_succeeds hx) hspell⟩
    | opt =>
      cases hs
      rcases hc.spells with ⟨-, rfl⟩ | hspells
      · exact ⟨new, hnew, .optFails hspell⟩
      · exact ⟨new, hnew, src.stretch_append hc.le hle ▸ .opt hspells hspell⟩
    | keepOpt =>
      cases hs
      refine ⟨x :: new, by simpa using hnew, ?_⟩
      rcases hc.spells with ⟨rfl, rfl⟩ | hspells
      · exact .keepOptFails hspell
      · exact src.stretch_append hc.le hle ▸ .keepOpt hspells hspell
    | ahead => exact ⟨new, hnew, .ahead hspell⟩
  | fails => cases hout

theorem RoundsTo.spells {done : List Parsed} (h : RoundsTo again steps done i x j) :
    i ≤ j ∧ ∃ items, x = .list (done.reverse ++ items) ∧ RoundsSpell steps items (src.stretch i j) := by
  induction h with
  | stop => exact ⟨Nat.le_refl _, [], by simp, by rw [src.stretch_self]; exact .nil⟩
  | @more _ _ item _ _ _ _ hs _ ih =>
    obtain ⟨hle, new, hnew, hspell⟩ := StepsTo.spells ha hs
    obtain ⟨hle', items, rfl, hrounds⟩ := ih
    rw [reverse_nil, nil_append] at hnew
    subst hnew
    refine ⟨Nat.le_trans hle hle', item :: items, by simp, ?_⟩
    rw [← src.stretch_append hle hle']
    exact .more hspell hrounds

theorem BodyTo.spelt (hblame : ∀ s k x j, again (.rule s) k x j → s.blames = true → x = .nothing)
    (h : BodyTo silent complaining again i r.body x j) : Spelt src (.rule r) i x j := by
  cases hb : r.body with
  | choice alternatives =>
    rw [hb] at h
    have hall : ∀ a ∈ alternatives, ∃ all, r.body = .choice all ∧ a ∈ all := fun a hmem => ⟨_, hb, hmem⟩
    clear hb
    induction h with
    | none => exact ⟨Nat.le_refl i, .inl ⟨rfl, rfl⟩⟩
    | skip _ _ _ ih => exact ih fun a hmem => hall a (mem_cons_of_mem _ hmem)
    | @done a rest x j kept settled hv hs hx =>
      obtain ⟨all, hb, hmem⟩ := hall a mem_cons_self
      obtain ⟨hle, new, rfl, hspell⟩ := StepsTo.spells ha hs
      exact ⟨hle, .inr (.choice hb hmem hv hspell hx)⟩
    | @blamed a rest j kept settled hv _ hs =>
      -- The rule that is called yields nothing, so the alternative does not succeed.
      obtain ⟨all, hb, hmem⟩ := hall a mem_cons_self
      obtain ⟨s, hblames, hsteps⟩ := Rule.blames_of_invalid hb a hmem hv
      rw [hsteps] at hs
      cases hs with
      | on hs hc hx =>
        cases hs
        rw [hblame s _ _ _ hc hblames] at hx
        cases hx
    | settled => exact ⟨Nat.le_refl i, .inl ⟨rfl, rfl⟩⟩
    | next _ _ _ ih => exact ih fun a hmem => hall a (mem_cons_of_mem _ hmem)
  | rounds steps =>
    rw [hb] at h
    obtain ⟨hle, items, rfl, hrounds⟩ := RoundsTo.spells ha h
    exact ⟨hle, .inr (.rounds hb hrounds)⟩
  | gather first others =>
    rw [hb] at h
    cases h with
    | missing => exact ⟨Nat.le_refl i, .inl ⟨rfl, rfl⟩⟩
    | alone => exact ⟨Nat.le_refl i, .inl ⟨rfl, rfl⟩⟩
    | both hf hx ho hy =>
      have hs := ha _ _ _ _ hf
      have hs' := ha _ _ _ _ ho
      refine ⟨Nat.le_trans hs.le hs'.le, .inr ?_⟩
      rw [← src.stretch_append hs.le hs'.le]
      exact .gather hb (hs.of_isNothing hx) (hs'.of_isNothing hy)

omit ha in
/-- A rule that finds no way on yields nothing. -/
theorem BodyTo.eq_nothing (h : BodyTo silent complaining again i r.body x j) (hr : r.blames = true) :
    x = .nothing := by
  obtain ⟨alternatives, hb, hactions⟩ := Rule.actions_of_blames hr
  rw [hb] at h
  clear hb
  induction h with
  | none => rfl
  | skip _ _ _ ih => exact ih fun a hmem => hactions a (mem_cons_of_mem _ hmem)
  | done _ _ hx => exact Action.eq_nothing_of_blames (hactions _ mem_cons_self) hx
  | blamed => rfl
  | settled => rfl
  | next _ _ _ ih => exact ih fun a hmem => hactions a (mem_cons_of_mem _ hmem)

end Spelling

/-- An outcome without reports comes to nothing or is spelled by the tokens it took, if the seed is. -/
theorem Reads.spelt {complaining : Bool} {own : Option Seed} (h : Reads src silent complaining own c i x j)
    (hown : ∀ seed ∈ own, seed.rule.memory = .grown ∧
      Spelt src (.rule seed.rule) seed.place seed.result.1 seed.result.2) : Spelt src c i x j := by
  refine (h (fun own c i x j => (∀ seed ∈ own, seed.rule.memory = .grown ∧
      Spelt src (.rule seed.rule) seed.place seed.result.1 seed.result.2) →
    Spelt src c i x j ∧ ∀ s, c = .rule s → s.blames = true → x = .nothing) (fun own c i x j h hown => ?_) hown).1
  cases h with
  | take hc ht hacc =>
    refine ⟨⟨Nat.le_succ _, .inr ?_⟩, fun s hs => by subst hs; cases hc⟩
    rw [src.stretch_succ ht]
    exact .token hc hacc
  | refuse => exact ⟨⟨Nat.le_refl _, .inl ⟨rfl, rfl⟩⟩, fun _ _ _ => rfl⟩
  | anew _ hb =>
    refine ⟨BodyTo.spelt (fun _ _ _ _ h => (h nofun).1) (fun s _ _ _ h => (h nofun).2 s rfl) hb, ?_⟩
    rintro s ⟨rfl⟩
    exact hb.eq_nothing
  | handed _ hb =>
    refine ⟨BodyTo.spelt (fun _ _ _ _ h => (h hown).1) (fun s _ _ _ h => (h hown).2 s rfl) hb, ?_⟩
    rintro s ⟨rfl⟩
    exact hb.eq_nothing
  | seed hs =>
    obtain ⟨hgrown, hspelt⟩ := hown _ hs
    refine ⟨hspelt, ?_⟩
    rintro s ⟨rfl⟩ hblames
    rw [Rule.memory_of_blames hblames] at hgrown
    cases hgrown
  | grown hm hno hg =>
    rename_i r
    have hstart : Spelt src (.rule r) i .nothing i := ⟨Nat.le_refl i, .inl ⟨rfl, rfl⟩⟩
    refine ⟨?_, ?_⟩
    · refine hg.keeps (fun last stop x j hl hb => ?_) hstart
      have hseed : ∀ seed ∈ some (Seed.mk r i (last, stop)), seed.rule.memory = .grown ∧
          Spelt src (.rule seed.rule) seed.place seed.result.1 seed.result.2 := by
        rintro _ ⟨rfl⟩
        exact ⟨hm, hl⟩
      exact BodyTo.spelt (fun _ _ _ _ h => (h hseed).1) (fun s _ _ _ h => (h hseed).2 s rfl) hb
    · rintro s ⟨rfl⟩ hblames
      rw [Rule.memory_of_blames hblames] at hm
      cases hm

end Labyrinth.Grammar
