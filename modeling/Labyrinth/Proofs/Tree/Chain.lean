import Mathlib.Data.List.Forall2
import Labyrinth.Proofs.Tree.Likeness

/-!
# Chains with operands that are alike

How a chain of assignments falls into parts depends on its arrows and on which operands can take a value, not
on anything else about the operands.
-/

namespace Labyrinth.Chain

open List

variable {α β : Type} {rel : α → β → Prop}

/-- Runs with arrows that point the same way and with operands in a relation, at least one in each. -/
def RunsAlike (rel : α → β → Prop) (r : FlowRun α) (s : FlowRun β) : Prop :=
  r.flow = s.flow ∧ Forall₂ rel r.operands s.operands ∧ r.operands ≠ []

/-- Parts with targets and values in a relation. -/
def PartsAlike (rel : α → β → Prop) (p : ChainPart α) (q : ChainPart β) : Prop :=
  p.span.recovered = q.span.recovered ∧ Forall₂ rel p.targets q.targets ∧ rel p.value q.value

/-- Arrows that point the same way, with operands in a relation. -/
def TailsAlike (rel : α → β → Prop) (a : Flow × α) (b : Flow × β) : Prop :=
  a.1 = b.1 ∧ rel a.2 b.2

variable {tails : List (Flow × α)} {tails' : List (Flow × β)} {r : FlowRun α} {s : FlowRun β}

theorem runsFrom_alike (ht : Forall₂ (TailsAlike rel) tails tails') :
    ∀ (flow : Flow) {done : List α} {done' : List β} {current : α} {current' : β}, Forall₂ rel done done' →
      rel current current' →
      Forall₂ (RunsAlike rel) (runsFrom flow done current tails) (runsFrom flow done' current' tails') := by
  induction ht with
  | nil =>
    intro flow done done' current current' hd hc
    exact .cons ⟨rfl, rel_reverse (.cons hc hd), by simp⟩ .nil
  | @cons a b tails tails' hab _ ih =>
    intro flow done done' current current' hd hc
    obtain ⟨next, operand⟩ := a
    obtain ⟨next', operand'⟩ := b
    obtain ⟨hflow, hop⟩ := hab
    simp only at hflow hop
    subst hflow
    simp only [runsFrom]
    by_cases hn : next = flow
    · rw [if_pos hn, if_pos hn]
      exact ih flow (.cons hc hd) hop
    · rw [if_neg hn, if_neg hn]
      refine .cons ⟨rfl, rel_reverse (.cons hc hd), by simp⟩ (ih next ?_ hop)
      split
      · exact .cons hc .nil
      · exact .nil

theorem runs_alike {first : α} {first' : β} (hf : rel first first') (ht : Forall₂ (TailsAlike rel) tails tails') :
    Forall₂ (RunsAlike rel) (runs first tails) (runs first' tails') := by
  cases ht with
  | nil => exact .nil
  | @cons a b tails tails' hab hrest =>
    have hflow : a.1 = b.1 := hab.1
    simp only [runs, hflow]
    have hall := runsFrom_alike (.cons hab hrest) b.1 .nil hf
    generalize runsFrom b.1 [] first (a :: tails) = rs at hall
    generalize runsFrom b.1 [] first' (b :: tails') = ss at hall
    induction hall with
    | nil => exact .nil
    | @cons r s rs ss hrs _ ih =>
      have hlen : r.operands.length = s.operands.length := hrs.2.1.length_eq
      simp only [filter_cons, hlen]
      split
      · exact .cons hrs ih
      · exact ih

theorem targets_alike (h : RunsAlike rel r s) : Forall₂ rel r.targets s.targets := by
  obtain ⟨flow, operands⟩ := r
  obtain ⟨flow', operands'⟩ := s
  obtain ⟨hf, ho, -⟩ := h
  simp only at hf ho
  subst hf
  cases flow with
  | left =>
    simp only [FlowRun.targets, dropLast_eq_take, ho.length_eq]
    exact rel_reverse (forall₂_take _ ho)
  | right =>
    cases ho with
    | nil => exact .nil
    | cons _ hrest => exact hrest

theorem value?_alike [Inhabited α] [Inhabited β] (h : RunsAlike rel r s) :
    rel (r.value?.getD default) (s.value?.getD default) := by
  obtain ⟨flow, operands⟩ := r
  obtain ⟨flow', operands'⟩ := s
  obtain ⟨hf, ho, hne⟩ := h
  simp only at hf ho hne
  subst hf
  cases flow with
  | left =>
    have hback := rel_reverse ho
    rw [← reverse_ne_nil_iff] at hne
    simp only [FlowRun.value?, getLast?_eq_head?_reverse]
    generalize operands.reverse = back, operands'.reverse = back' at hback hne
    cases hback with
    | nil => exact absurd rfl hne
    | cons hab _ => exact hab
  | right =>
    cases ho with
    | nil => exact absurd rfl hne
    | cons hab _ => exact hab

section Assemble

variable [Inhabited α] [Inhabited β] [ChainOperand α] [ChainOperand β]

/-- Runs that are alike become parts that are alike, or operands that are alike stand in the way. -/
theorem partOf_alike (ht : ∀ a b, rel a b → ChainOperand.isTarget a = ChainOperand.isTarget b)
    {r : FlowRun α} {s : FlowRun β} (h : RunsAlike rel r s) :
    (∃ a b, partOf r = .error a ∧ partOf s = .error b ∧ rel a b) ∨
      ∃ p q, partOf r = .ok p ∧ partOf s = .ok q ∧ PartsAlike rel p q := by
  have htargets := targets_alike h
  have hvalue := value?_alike h
  have hfind : ∀ {as : List α} {bs : List β}, Forall₂ rel as bs →
      (∃ a b, as.find? (fun e => !ChainOperand.isTarget e) = some a ∧
        bs.find? (fun e => !ChainOperand.isTarget e) = some b ∧ rel a b) ∨
      (as.find? (fun e => !ChainOperand.isTarget e) = none ∧
        bs.find? (fun e => !ChainOperand.isTarget e) = none) := by
    intro as bs hab
    induction hab with
    | nil => exact .inr ⟨rfl, rfl⟩
    | @cons a b as bs hr _ ih =>
      simp only [find?_cons, ht a b hr]
      cases ChainOperand.isTarget b with
      | false => exact .inl ⟨a, b, rfl, rfl, hr⟩
      | true => exact ih
  unfold partOf
  rcases hfind htargets with ⟨a, b, ha, hb, hab⟩ | ⟨ha, hb⟩
  · rw [ha, hb]
    exact .inl ⟨a, b, rfl, rfl, hab⟩
  · rw [ha, hb]
    exact .inr ⟨_, _, rfl, rfl, rfl, htargets, hvalue⟩

theorem assembleFrom_alike (ht : ∀ a b, rel a b → ChainOperand.isTarget a = ChainOperand.isTarget b)
    {rs : List (FlowRun α)} {ss : List (FlowRun β)}
    (h : Forall₂ (RunsAlike rel) rs ss) :
    ∀ (held : Option (ChainPart α)) (held' : Option (ChainPart β)),
      Forall₂ (PartsAlike rel) held.toList held'.toList →
      Forall₂ (PartsAlike rel) (assembleFrom held rs).1 (assembleFrom held' ss).1 ∧
        Forall₂ rel (assembleFrom held rs).2 (assembleFrom held' ss).2 := by
  induction h with
  | nil =>
    intro held held' hh
    exact ⟨hh, .nil⟩
  | @cons r s rs ss hrs _ ih =>
    intro held held' hh
    have hflow : r.flow = s.flow := hrs.1
    rcases partOf_alike ht hrs with ⟨a, b, ha, hb, hab⟩ | ⟨p, q, hp, hq, hpq⟩
    · obtain ⟨hparts, hbads⟩ := ih none none .nil
      simp only [assembleFrom, ha, hb]
      exact ⟨rel_append hh hparts, .cons hab hbads⟩
    · cases hf : s.flow with
      | left =>
        obtain ⟨hparts, hbads⟩ := ih (some p) (some q) (.cons hpq .nil)
        simp only [assembleFrom, hp, hq, hflow, hf]
        exact ⟨rel_append hh hparts, hbads⟩
      | right =>
        obtain ⟨hparts, hbads⟩ := ih none none .nil
        cases held with
        | none =>
          cases held' with
          | none =>
            simp only [assembleFrom, hp, hq, hflow, hf]
            exact ⟨.cons hpq hparts, hbads⟩
          | some _ => cases hh
        | some left =>
          cases held' with
          | none => cases hh
          | some left' =>
            have hleft : PartsAlike rel left left' := by
              cases hh with
              | cons hl _ => exact hl
            simp only [assembleFrom, hp, hq, hflow, hf]
            exact ⟨.cons ⟨hleft.1, rel_append hleft.2.1 hpq.2.1, hleft.2.2⟩ hparts, hbads⟩

/-- Chains with operands that are alike fall into parts that are alike. -/
theorem assemble_alike (ht : ∀ a b, rel a b → ChainOperand.isTarget a = ChainOperand.isTarget b)
    {first : α} {first' : β} {tails : List (Flow × α)} {tails' : List (Flow × β)}
    (hf : rel first first') (hr : Forall₂ (TailsAlike rel) tails tails') :
    Forall₂ (PartsAlike rel) (assemble first tails).1 (assemble first' tails').1 ∧
      Forall₂ rel (assemble first tails).2 (assemble first' tails').2 :=
  assembleFrom_alike ht (runs_alike hf hr) none none .nil

end Assemble

end Labyrinth.Chain
