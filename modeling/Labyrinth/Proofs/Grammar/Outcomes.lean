import Mathlib.Data.List.Forall2
import Mathlib.Order.Basic
import Labyrinth.Proofs.Grammar.Order

/-!
# Outcomes of calls

What a call comes to when nothing is remembered, as a relation: a call at a place has an outcome, a result and
the place where it ends, if the bodies of the rules have outcomes that lead to it. What an action makes of the
results it is given is left open, so that the same relation serves whatever one wants to know about actions.

A rule that begins with itself is grown from a seed, as in plain reading, and only such a rule hands a seed down
to what it calls.
-/

namespace Labyrinth.Grammar

open List

/-- Whether a token passes a call that takes a single token. -/
def Call.accepts : Call → Token → Bool
  | .rule _, _ => false
  | .token r, t => Source.passes r t
  | .keyword k, t => t.kind == .keyword k
  | .expect text, t => Parser.matchesText text t

def Call.isRule : Call → Bool
  | .rule _ => true
  | _ => false

/-- Outcomes of calls: the call, its place, its result and the place where it ends. -/
abbrev Outcomes := Call → Nat → Parsed → Nat → Prop

/-- What actions make of a stretch of tokens and of the results that were kept. -/
abbrev Makings := Action → Nat → Nat → List Parsed → Parsed → Prop

/-- A way to compare results that tells at least whether they count as a success. -/
structure Likeness (like : Parsed → Parsed → Prop) : Prop where
  token : ∀ t, like (.token t) (.token t)
  nothing : like .nothing .nothing
  list : ∀ {xs ys}, Forall₂ like xs ys → like (.list xs) (.list ys)
  gather : ∀ {x x' y y'}, like x x' → like y y' → like (.list (x :: y.items)) (.list (x' :: y'.items))
  succeeds : ∀ {x y}, like x y → x.succeeds = y.succeeds
  isNothing : ∀ {x y}, like x y → x.isNothing = y.isNothing

theorem likeness_eq : Likeness (· = ·) where
  token _ := rfl
  nothing := rfl
  list h := by
    rw [forall₂_eq_eq_eq] at h
    rw [h]
  gather hx hy := by rw [hx, hy]
  succeeds h := by rw [h]
  isNothing h := by rw [h]

/-- What plain reading builds. -/
def Source.built (src : Source) : Makings :=
  fun a i _ kept x => src.build i a kept = some x

/-! ### Bodies of rules -/

section

variable {like : Parsed → Parsed → Prop} {x y : Parsed}

theorem Likeness.passes (h : Likeness like) (s : Step) (hxy : like x y) : s.passes x = s.passes y := by
  cases s with
  | opt | keepOpt => rfl
  | _ => exact h.succeeds hxy

theorem Step.kept_like (s : Step) {kept kept' : List Parsed} (hxy : like x y) (hk : Forall₂ like kept kept') :
    Forall₂ like (s.kept x kept) (s.kept y kept') := by
  cases s with
  | keep | keepOpt => exact .cons hxy hk
  | _ => exact hk

theorem Step.stop_cases {P : Nat → Prop} (s : Step) {i j : Nat} (hi : P i) (hj : P j) : P (s.stop i j) := by
  cases s with
  | ahead => exact hi
  | _ => exact hj

end

section Relations

variable (made : Makings) (complaining : Bool) (again : Outcomes) (steps : List Step) (first others : Rule) (i : Nat)

/-- What carrying steps out comes to: the results they kept and where they end, unless one failed, and whether
the alternative was settled on. -/
inductive StepsTo :
    List Parsed → Bool → Nat → List Step → Option (List Parsed × Nat) → Bool → Prop where
  | done {kept settled i} : StepsTo kept settled i [] (some (kept.reverse, i)) settled
  | cut {kept settled i rest out settled'} (h : StepsTo kept true i rest out settled') :
      StepsTo kept settled i (.cut :: rest) out settled'
  | on {kept settled i c x j rest out settled'} {s : Step} (hs : s.call? = some c) (hc : again c i x j)
      (hx : s.passes x = true) (h : StepsTo (s.kept x kept) settled (s.stop i j) rest out settled') :
      StepsTo kept settled i (s :: rest) out settled'
  | fails {kept settled i c x j rest} {s : Step} (hs : s.call? = some c) (hc : again c i x j)
      (hx : s.passes x = false) : StepsTo kept settled i (s :: rest) none settled

/-- What a choice comes to at a place. Alternatives that only complain are tried if `complaining` says so; one
that succeeds ends the choice without a result, and without going back. -/
inductive ChoiceTo : List Alternative → Parsed → Nat → Prop where
  | none : ChoiceTo [] .nothing i
  | skip {a rest x j} (ha : a.invalid = true) (hc : complaining = false)
      (h : ChoiceTo rest x j) : ChoiceTo (a :: rest) x j
  | done {a rest x j kept settled} (ha : a.invalid = false)
      (hs : StepsTo again [] false i a.steps (some (kept, j)) settled) (hx : made a.action i j kept x) :
      ChoiceTo (a :: rest) x j
  | blamed {a rest j kept settled} (ha : a.invalid = true) (hc : complaining = true)
      (hs : StepsTo again [] false i a.steps (some (kept, j)) settled) :
      ChoiceTo (a :: rest) .nothing j
  | settled {a rest} (ha : a.invalid = true → complaining = true)
      (hs : StepsTo again [] false i a.steps Option.none true) :
      ChoiceTo (a :: rest) .nothing i
  | next {a rest x j} (ha : a.invalid = true → complaining = true)
      (hs : StepsTo again [] false i a.steps Option.none false) (h : ChoiceTo rest x j) :
      ChoiceTo (a :: rest) x j

/-- What repeated steps come to. -/
inductive RoundsTo : List Parsed → Nat → Parsed → Nat → Prop where
  | stop {done i out settled} (hs : StepsTo again [] false i steps out settled)
      (hx : ∀ x j, out ≠ some ([x], j)) : RoundsTo done i (.list done.reverse) i
  | more {done i x j settled y k} (hs : StepsTo again [] false i steps (some ([x], j)) settled)
      (h : RoundsTo (x :: done) j y k) : RoundsTo done i y k

/-- What a first item and the list of the others come to. -/
inductive GatherTo : Parsed → Nat → Prop where
  | missing {x j} (hf : again (.rule first) i x j) (hx : x.isNothing = true) :
      GatherTo .nothing i
  | alone {x j y k} (hf : again (.rule first) i x j) (hx : x.isNothing = false)
      (ho : again (.rule others) j y k) (hy : y.isNothing = true) : GatherTo .nothing i
  | both {x j y k} (hf : again (.rule first) i x j) (hx : x.isNothing = false)
      (ho : again (.rule others) j y k) (hy : y.isNothing = false) :
      GatherTo (.list (x :: y.items)) k

/-- What the body of a rule comes to. -/
def BodyTo : Body → Parsed → Nat → Prop
  | .choice alternatives => ChoiceTo made complaining again i alternatives
  | .rounds steps => RoundsTo again steps [] i
  | .gather first others => GatherTo again first others i

end Relations

/-- What a seed grows to, if `round` says what the body comes to with a result and its end as the seed. -/
inductive GrowsTo (round : Parsed → Nat → Parsed → Nat → Prop) : Parsed → Nat → Parsed → Nat → Prop where
  | stop {last stop x j} (hr : round last stop x j) (hx : x.succeeds = true → j ≤ stop) :
      GrowsTo round last stop last stop
  | more {last stop x j y k} (hr : round last stop x j) (hx : x.succeeds = true) (hj : stop < j)
      (h : GrowsTo round x j y k) : GrowsTo round last stop y k

section Monotone

variable {again again' : Outcomes} {made made' : Makings} {complaining : Bool}
variable {i j : Nat} {steps : List Step} {x : Parsed}

theorem StepsTo.mono {kept : List Parsed} {settled settled' : Bool} {out : Option (List Parsed × Nat)}
    (h : StepsTo again kept settled i steps out settled') (ha : again ≤ again') :
    StepsTo again' kept settled i steps out settled' := by
  induction h with
  | done => exact .done
  | cut _ ih => exact .cut ih
  | on hs hc hx _ ih => exact .on hs (ha _ _ _ _ hc) hx ih
  | fails hs hc hx => exact .fails hs (ha _ _ _ _ hc) hx

theorem ChoiceTo.mono {alternatives : List Alternative} (h : ChoiceTo made complaining again i alternatives x j)
    (hm : made ≤ made') (ha : again ≤ again') :
    ChoiceTo made' complaining again' i alternatives x j := by
  induction h with
  | none => exact .none
  | skip hv hc _ ih => exact .skip hv hc ih
  | done hv hs hx => exact .done hv (hs.mono ha) (hm _ _ _ _ _ hx)
  | blamed hv hc hs => exact .blamed hv hc (hs.mono ha)
  | settled hv hs => exact .settled hv (hs.mono ha)
  | next hv hs _ ih => exact .next hv (hs.mono ha) ih

theorem RoundsTo.mono {done : List Parsed} (h : RoundsTo again steps done i x j)
    (ha : again ≤ again') : RoundsTo again' steps done i x j := by
  induction h with
  | stop hs hx => exact .stop (hs.mono ha) hx
  | more hs _ ih => exact .more (hs.mono ha) ih

theorem GatherTo.mono {first others : Rule} (h : GatherTo again first others i x j)
    (ha : again ≤ again') : GatherTo again' first others i x j := by
  cases h with
  | missing hf hx => exact .missing (ha _ _ _ _ hf) hx
  | alone hf hx ho hy => exact .alone (ha _ _ _ _ hf) hx (ha _ _ _ _ ho) hy
  | both hf hx ho hy => exact .both (ha _ _ _ _ hf) hx (ha _ _ _ _ ho) hy

theorem BodyTo.mono {body : Body} (h : BodyTo made complaining again i body x j)
    (hm : made ≤ made') (ha : again ≤ again') :
    BodyTo made' complaining again' i body x j := by
  cases body with
  | choice _ => exact ChoiceTo.mono h hm ha
  | rounds _ => exact RoundsTo.mono h ha
  | gather _ _ => exact GatherTo.mono h ha

theorem GrowsTo.mono {round round' : Parsed → Nat → Parsed → Nat → Prop} {last : Parsed} {stop : Nat}
    (h : GrowsTo round last stop x j) (hr : ∀ last stop x j, round last stop x j → round' last stop x j) :
    GrowsTo round' last stop x j := by
  induction h with
  | stop h hx => exact .stop (hr _ _ _ _ h) hx
  | more h hx hj _ ih => exact .more (hr _ _ _ _ h) hx hj ih

end Monotone

/-! ### Calls -/

variable (src : Source) (made : Makings) (complaining : Bool) (R : Option Seed → Outcomes) in
/-- What outcomes of calls, for every seed at hand, lead to: the outcomes of the calls that make them. A rule asks
for the seed at hand if it is its own at its place, and is grown anew otherwise. -/
inductive Leads : Option Seed → Outcomes where
  | take {own c i t} (hc : c.isRule = false) (ht : src.tokens[i]? = some t) (ha : c.accepts t = true) :
      Leads own c i (.token t) (i + 1)
  | refuse {own c i t} (hc : c.isRule = false) (ht : src.tokens[i]? = some t) (ha : c.accepts t = false) :
      Leads own c i .nothing i
  | anew {own r i x j} (hm : r.memory = .remembered) (hb : BodyTo made complaining (R none) i r.body x j) :
      Leads own (.rule r) i x j
  | handed {own r i x j} (hm : r.memory = .forgotten) (hb : BodyTo made complaining (R own) i r.body x j) :
      Leads own (.rule r) i x j
  | seed {own seed} (hs : seed ∈ own) (hm : seed.rule.memory = .grown) :
      Leads own (.rule seed.rule) seed.place seed.result.1 seed.result.2
  | grown {own r i x j} (hm : r.memory = .grown) (ho : ∀ seed ∈ own, seed.rule = r → seed.place ≠ i)
      (hg : GrowsTo (fun last stop => BodyTo made complaining (R (some ⟨r, i, last, stop⟩)) i r.body) .nothing i x j) :
      Leads own (.rule r) i x j

section

variable {like : Parsed → Parsed → Prop} {x y : Parsed} {kept : List Parsed} {i j : Nat} {src : Source}
  {made made' : Makings} {complaining : Bool} {own : Option Seed} {c : Call} {r : Rule} {s : Step} {seed : Seed}
  {again again' : Outcomes} {alternatives : List Alternative}

theorem Leads.mono {R R' : Option Seed → Outcomes} (h : Leads src made complaining R own c i x j)
    (hm : made ≤ made') (hr : ∀ own c i x j, R own c i x j → R' own c i x j) :
    Leads src made' complaining R' own c i x j := by
  cases h with
  | take hc ht ha => exact .take hc ht ha
  | refuse hc ht ha => exact .refuse hc ht ha
  | anew hr' hb => exact .anew hr' (hb.mono hm (hr _))
  | handed hr' hb => exact .handed hr' (hb.mono hm (hr _))
  | seed hs hm => exact .seed hs hm
  | grown hr' ho hg => exact .grown hr' ho (hg.mono fun _ _ _ _ hb => hb.mono hm (hr _))

/-- The outcomes of calls with a seed at hand: those that every family of outcomes has that has all it leads to. -/
def Reads (src : Source) (made : Makings) (complaining : Bool) (own : Option Seed) : Outcomes :=
  fun c i x j => ∀ R : Option Seed → Outcomes,
    (∀ own c i x j, Leads src made complaining R own c i x j → R own c i x j) → R own c i x j

namespace Reads

variable {src : Source} {made made' : Makings} {complaining : Bool} {own : Option Seed} {c : Call} {i : Nat}
  {x : Parsed} {j : Nat}

theorem of_leads (h : Leads src made complaining (Reads src made complaining) own c i x j) :
    Reads src made complaining own c i x j :=
  fun R hR => hR _ _ _ _ _ (h.mono (fun _ _ _ _ _ h => h) fun _ _ _ _ _ h => h R hR)

theorem leads (h : Reads src made complaining own c i x j) :
    Leads src made complaining (Reads src made complaining) own c i x j :=
  h _ fun _ _ _ _ _ h => h.mono (fun _ _ _ _ _ h => h) fun _ _ _ _ _ h => of_leads h

theorem mono (h : Reads src made complaining own c i x j)
    (hm : made ≤ made') : Reads src made' complaining own c i x j :=
  fun R hR => h R fun _ _ _ _ _ h => hR _ _ _ _ _ (h.mono hm fun _ _ _ _ _ h => h)

variable {r : Rule}

/-- How a rule comes to an outcome: by its body, as its own seed, or grown from nothing. -/
theorem rule_cases (h : Reads src made complaining own (.rule r) i x j) :
    r.memory = .remembered ∧ BodyTo made complaining (Reads src made complaining none) i r.body x j ∨
    r.memory = .forgotten ∧ BodyTo made complaining (Reads src made complaining own) i r.body x j ∨
    r.memory = .grown ∧ ((∃ seed ∈ own, seed.rule = r ∧ seed.place = i) ∨
      GrowsTo (fun last stop => BodyTo made complaining (Reads src made complaining (some ⟨r, i, last, stop⟩)) i r.body)
        .nothing i x j) := by
  generalize hc : Call.rule r = c at h
  cases h.leads with
  | take hr | refuse hr =>
    subst hc
    cases hr
  | anew hm hb =>
    cases hc
    exact .inl ⟨hm, hb⟩
  | handed hm hb =>
    cases hc
    exact .inr (.inl ⟨hm, hb⟩)
  | seed hs hm =>
    cases hc
    exact .inr (.inr ⟨hm, .inl ⟨_, hs, rfl, rfl⟩⟩)
  | grown hm _ hg =>
    cases hc
    exact .inr (.inr ⟨hm, .inr hg⟩)

/-- A rule that is remembered comes to what its body comes to. -/
theorem body (hm : r.memory = .remembered) (h : Reads src made complaining own (.rule r) i x j) :
    BodyTo made complaining (Reads src made complaining none) i r.body x j := by
  rcases h.rule_cases with ⟨-, hb⟩ | ⟨hm', -⟩ | ⟨hm', -⟩
  · exact hb
  · cases hm.symm.trans hm'
  · cases hm.symm.trans hm'

/-- A seed changes nothing for a call that neither asks for it nor hands it down. -/
theorem with_seed (h : Reads src made complaining none c i x j)
    (hc : ∀ r, c = .rule r → r.memory ≠ .forgotten ∧ ∀ seed ∈ own, seed.rule = r → seed.place ≠ i) :
    Reads src made complaining own c i x j := by
  cases h.leads with
  | take hc ht ha => exact of_leads (.take hc ht ha)
  | refuse hc ht ha => exact of_leads (.refuse hc ht ha)
  | anew hm hb => exact of_leads (.anew hm hb)
  | handed hm _ => exact absurd hm (hc _ rfl).1
  | seed hs => cases hs
  | grown hm _ hg => exact of_leads (.grown hm (hc _ rfl).2 hg)

end Reads

/-! ### Going forward -/

/-- An outcome is no step back. Something that counts as a success is a step forward, and so is every result of a
rule but a list that is repeated. -/
structure Onward (c : Call) (i : Nat) (x : Parsed) (j : Nat) : Prop where
  le : i ≤ j
  lt : x.succeeds = true → i < j
  lt_of_choice : ∀ r, c = .rule r → (∀ steps, r.body ≠ .rounds steps) → x.isNothing = false → i < j

/-- The first item of a gathered list is not a repeated list itself. -/
theorem Rule.first_of_gather {first others : Rule} (h : r.body = .gather first others) (steps : List Step) :
    first.body ≠ .rounds steps := by
  cases r <;> cases h <;> nofun

theorem onward_nothing (c : Call) (i : Nat) : Onward c i .nothing i :=
  ⟨Nat.le_refl i, nofun, fun _ _ _ => nofun⟩

theorem Step.forward (hs : s.call? = some c) (h : Onward c i x j) (hx : s.passes x = true) :
    i ≤ s.stop i j ∧ (s.advances = true → i < s.stop i j) := by
  cases s with
  | need | keep => exact ⟨h.le, fun _ => h.lt hx⟩
  | opt | keepOpt => exact ⟨h.le, nofun⟩
  | ahead => exact ⟨Nat.le_refl i, nofun⟩
  | cut => cases hs

section Onward

variable {again : Outcomes} (ha : again ≤ Onward)

include ha

variable {i j : Nat} {steps : List Step} {made : Makings} {complaining : Bool} {r : Rule} {x : Parsed}

/-- Steps that succeed go forward, and read a token if one of them has to. -/
theorem StepsTo.forward {kept kept' : List Parsed} {settled settled' : Bool}
    (h : StepsTo again kept settled i steps (some (kept', j)) settled') :
    i ≤ j ∧ (steps.any Step.advances = true → i < j) := by
  generalize hout : some (kept', j) = out at h
  induction h with
  | done =>
    cases hout
    exact ⟨Nat.le_refl _, nofun⟩
  | cut _ ih => exact ih hout
  | on hs hc hx _ ih =>
    obtain ⟨hle, hlt⟩ := Step.forward hs (ha _ _ _ _ hc) hx
    obtain ⟨hle', hlt'⟩ := ih hout
    rw [any_cons, Bool.or_eq_true]
    exact ⟨Nat.le_trans hle hle', fun h => h.elim (fun h => Nat.lt_of_lt_of_le (hlt h) hle')
      fun h => Nat.lt_of_le_of_lt hle (hlt' h)⟩
  | fails => cases hout

theorem ChoiceTo.onward {alternatives : List Alternative} (ho : ∀ a ∈ alternatives, a.steps.any Step.advances = true)
    (h : ChoiceTo made complaining again i alternatives x j) : Onward (.rule r) i x j := by
  induction h with
  | none => exact onward_nothing _ i
  | skip _ _ _ ih => exact ih fun a ha => ho a (mem_cons_of_mem _ ha)
  | done _ hs _ =>
    have hlt := (hs.forward ha).2 (ho _ mem_cons_self)
    exact ⟨Nat.le_of_lt hlt, fun _ => hlt, fun _ _ _ _ => hlt⟩
  | blamed _ _ hs =>
    have hlt := (hs.forward ha).2 (ho _ mem_cons_self)
    exact ⟨Nat.le_of_lt hlt, nofun, fun _ _ _ => nofun⟩
  | settled => exact onward_nothing _ i
  | next _ _ _ ih => exact ih fun a ha => ho a (mem_cons_of_mem _ ha)

/-- Rounds that read nothing add nothing to the list. -/
theorem RoundsTo.forward (ho : steps.any Step.advances = true) {done : List Parsed}
    (h : RoundsTo again steps done i x j) : i ≤ j ∧ (i < j ∨ x = .list done.reverse) := by
  induction h with
  | stop => exact ⟨Nat.le_refl _, .inr rfl⟩
  | more hs _ ih =>
    have hlt := (hs.forward ha).2 ho
    exact ⟨by omega, .inl (by omega)⟩

theorem BodyTo.onward (h : BodyTo made complaining again i r.body x j) : Onward (.rule r) i x j := by
  have ho := r.orderedBody_body
  cases hb : r.body with
  | choice alternatives =>
    rw [hb] at h ho
    exact ChoiceTo.onward ha (fun a hmem => Source.Rule.ordered_advances (all_eq_true.1 ho a hmem)) h
  | rounds steps =>
    rw [hb] at h ho
    obtain ⟨hle, hlt⟩ := RoundsTo.forward ha (Source.Rule.ordered_advances ho) h
    refine ⟨hle, fun hs => hlt.resolve_right ?_, ?_⟩
    · rintro rfl
      cases hs
    · rintro _ ⟨rfl⟩ hno
      exact absurd hb (hno steps)
  | gather first others =>
    rw [hb] at h ho
    cases h with
    | missing => exact onward_nothing _ i
    | alone => exact onward_nothing _ i
    | both hf hx hothers _ =>
      have hlt := (ha _ _ _ _ hf).lt_of_choice first rfl (Rule.first_of_gather hb) hx
      have hle := (ha _ _ _ _ hothers).le
      exact ⟨by omega, fun _ => by omega, fun _ _ _ _ => by omega⟩

end Onward

/-- Growing keeps what every round keeps. -/
theorem GrowsTo.keeps {round : Parsed → Nat → Parsed → Nat → Prop} {P : Parsed → Nat → Prop}
    (hr : ∀ last stop x j, P last stop → round last stop x j → P x j) {last : Parsed} {stop : Nat}
    (h : GrowsTo round last stop x j) (hl : P last stop) : P x j := by
  induction h with
  | stop => exact hl
  | more h _ _ _ ih => exact ih (hr _ _ _ _ hl h)

/-- Every outcome goes forward, if the seed does. -/
theorem Reads.onward (h : Reads src made complaining own c i x j)
    (hown : ∀ seed ∈ own, Onward (.rule seed.rule) seed.place seed.result.1 seed.result.2) : Onward c i x j := by
  refine h (fun own c i x j => (∀ seed ∈ own, Onward (.rule seed.rule) seed.place seed.result.1 seed.result.2) →
    Onward c i x j) (fun own c i x j h hown => ?_) hown
  cases h with
  | take hc => exact ⟨Nat.le_succ _, fun _ => Nat.lt_succ_self _, fun r hr => by subst hr; cases hc⟩
  | refuse => exact onward_nothing _ _
  | anew _ hb => exact hb.onward fun _ _ _ _ h => h nofun
  | handed _ hb => exact hb.onward fun _ _ _ _ h => h hown
  | seed hs => exact hown _ hs
  | grown _ _ hg =>
    refine hg.keeps (fun last stop x j hl hb => hb.onward fun _ _ _ _ h => h ?_) (onward_nothing _ _)
    rintro _ ⟨rfl⟩
    exact hl

/-! ### Seeds under way -/

/-- The results that a rule has on the way while it is grown: none at first, and then whatever gets further. -/
inductive Sprouts (round : Parsed → Nat → Parsed → Nat → Prop) (i : Nat) : Parsed → Nat → Prop where
  | seed : Sprouts round i .nothing i
  | more {last stop x j} (h : Sprouts round i last stop) (hr : round last stop x j) (hx : x.succeeds = true)
      (hj : stop < j) : Sprouts round i x j

/-- A seed is a result that its rule has on the way at its place. -/
def Seed.Sprouted (src : Source) (made : Makings) (complaining : Bool) (seed : Seed) : Prop :=
  Sprouts (fun last stop => BodyTo made complaining
    (Reads src made complaining (some ⟨seed.rule, seed.place, last, stop⟩)) seed.place seed.rule.body)
    seed.place seed.result.1 seed.result.2

theorem Seed.Sprouted.mono (h : seed.Sprouted src made complaining)
    (hm : made ≤ made') : seed.Sprouted src made' complaining := by
  obtain ⟨r, i, last, stop⟩ := seed
  unfold Sprouted at h ⊢
  dsimp only at h ⊢
  induction h with
  | seed => exact .seed
  | more _ hr hx hj ih => exact .more ih (hr.mono hm fun _ _ _ _ h => h.mono hm) hx hj

theorem Seed.Sprouted.onward (h : seed.Sprouted src made complaining) :
    Onward (.rule seed.rule) seed.place seed.result.1 seed.result.2 := by
  obtain ⟨r, i, last, stop⟩ := seed
  unfold Sprouted at h
  dsimp only at h ⊢
  induction h with
  | seed => exact onward_nothing _ i
  | more _ hr _ _ ih =>
    refine hr.onward fun _ _ _ _ h => h.onward ?_
    rintro _ ⟨rfl⟩
    exact ih

end

/-! ### The calls of a rule -/

/-- A step that lets its alternative go on. -/
inductive StepTo (again : Outcomes) : Step → Nat → Nat → Prop where
  | cut {i} : StepTo again .cut i i
  | on {c i x j} {s : Step} (hs : s.call? = some c) (hc : again c i x j) (hx : s.passes x = true) :
      StepTo again s i (s.stop i j)

section Made

variable (complaining : Bool) (again : Outcomes) (r : Rule) (i : Nat)

/-- The alternatives of a rule that are left at a place: those before them are passed over, or they fail. -/
inductive Left : List Alternative → Prop where
  | all {alternatives} (hb : r.body = .choice alternatives) : Left alternatives
  | skip {a rest} (h : Left (a :: rest)) (ha : a.invalid = true) : Left rest
  | next {a rest} (h : Left (a :: rest)) (hs : StepsTo again [] false i a.steps none false) :
      Left rest

/-- The steps that are still to be carried out for a rule, and where. -/
inductive Reached : List Step → Nat → Prop where
  | alternative {a rest} (h : Left again r i (a :: rest)) (ha : a.invalid = true → complaining = true) :
      Reached a.steps i
  | round {steps} (hb : r.body = .rounds steps) : Reached steps i
  | again {steps k x j settled} (hb : r.body = .rounds steps) (h : Reached steps k)
      (hs : StepsTo again [] false k steps (some ([x], j)) settled) : Reached steps j
  | on {s rest k j} (h : Reached (s :: rest) k) (hs : StepTo again s k j) :
      Reached rest j

/-- The calls that a rule makes, and where it makes them. -/
inductive Made : Call → Nat → Prop where
  | step {s rest k c} (h : Reached complaining again r i (s :: rest) k) (hc : s.call? = some c) :
      Made c k
  | first {first others} (hb : r.body = .gather first others) : Made (.rule first) i
  | others {first others x j} (hb : r.body = .gather first others) (hf : again (.rule first) i x j)
      (hx : x.isNothing = false) : Made (.rule others) j

end Made

variable {complaining : Bool} {again again' : Outcomes} {r : Rule} {s : Step} {i j k : Nat} {kept : List Parsed}
  {steps : List Step} {alternatives : List Alternative}

theorem StepTo.mono (h : StepTo again s i j) (ha : again ≤ again') :
    StepTo again' s i j := by
  cases h with
  | cut => exact .cut
  | on hs hc hx => exact .on hs (ha _ _ _ _ hc) hx

theorem Left.mono (h : Left again r i alternatives) (ha : again ≤ again') :
    Left again' r i alternatives := by
  induction h with
  | all hb => exact .all hb
  | skip _ hv ih => exact .skip ih hv
  | next _ hs ih => exact .next ih (hs.mono ha)

/-- Alternatives that are left are alternatives of the rule. -/
theorem Left.mem (h : Left again r i alternatives) : ∃ all, r.body = .choice all ∧ ∀ a ∈ alternatives, a ∈ all := by
  induction h with
  | all hb => exact ⟨_, hb, fun _ => id⟩
  | skip _ _ ih | next _ _ ih =>
    obtain ⟨all, hb, hmem⟩ := ih
    exact ⟨all, hb, fun a ha => hmem a (mem_cons_of_mem _ ha)⟩

/-- An alternative that succeeds reads a token. -/
theorem StepsTo.advances (ha : again ≤ Onward) {a : Alternative} {rest : List Alternative}
    {settled : Bool} (h : StepsTo again [] false i a.steps (some (kept, j)) settled)
    (hleft : Left again r i (a :: rest)) : i < j := by
  obtain ⟨all, hb, hmem⟩ := hleft.mem
  have ho := r.orderedBody_body
  rw [hb] at ho
  exact (h.forward ha).2 (Source.Rule.ordered_advances (all_eq_true.1 ho a (hmem a mem_cons_self)))

theorem Reached.mono (h : Reached complaining again r i steps k)
    (ha : again ≤ again') : Reached complaining again' r i steps k := by
  induction h with
  | alternative hl hv => exact .alternative (hl.mono ha) hv
  | round hb => exact .round hb
  | again hb _ hs ih => exact .again hb ih (hs.mono ha)
  | on _ hs ih => exact .on ih (hs.mono ha)

/-- Whether the steps of a rule call rules that are not remembered only at once, and only where their seed is
grown; `fresh` tells whether no step was carried out before. -/
def Rule.handsFrom (r : Rule) (fresh : Bool) : List Step → Bool
  | [] => true
  | step :: rest =>
    (match step.call? with
      | some (.rule s) => s.memory != .forgotten || (fresh && r == .primary)
      | _ => true) && r.handsFrom false rest

/-- Whether all steps in a body call rules that are not remembered only where their seed is grown. -/
def Rule.handsBody (r : Rule) : Body → Bool
  | .choice alternatives => alternatives.all fun a => r.handsFrom true a.steps
  | .rounds steps => r.handsFrom false steps
  | .gather first others => first.memory != .forgotten && others.memory != .forgotten

theorem Rule.handsBody_body (r : Rule) : r.handsBody r.body = true := by
  cases r <;> decide

section Calls

variable {src : Source}

/-- Steps are carried out in order, and never before the place where the rule began. -/
theorem Reached.ordered (ha : again ≤ Onward) (h : Reached complaining again r i steps k) :
    i ≤ k ∧ ∃ moved, r.orderedFrom moved steps = true ∧ (moved = true → i < k) := by
  have ho := r.orderedBody_body
  induction h with
  | alternative hleft =>
    obtain ⟨all, hb, hmem⟩ := hleft.mem
    rw [hb] at ho
    have hsteps := all_eq_true.1 ho _ (hmem _ mem_cons_self)
    rw [Rule.ordered, Bool.and_eq_true] at hsteps
    exact ⟨Nat.le_refl i, false, hsteps.1, by simp⟩
  | round hb =>
    rw [hb, Rule.orderedBody, Rule.ordered, Bool.and_eq_true] at ho
    exact ⟨Nat.le_refl i, false, ho.1, by simp⟩
  | again hb _ hs ih =>
    rw [hb, Rule.orderedBody, Rule.ordered, Bool.and_eq_true] at ho
    exact ⟨Nat.le_trans ih.1 (hs.forward ha).1, false, ho.1, by simp⟩
  | on _ hs ih =>
    obtain ⟨hle, moved, hmoved, hlt⟩ := ih
    rw [Rule.orderedFrom, Bool.and_eq_true] at hmoved
    cases hs with
    | cut => exact ⟨hle, moved, by simpa [Step.advances] using hmoved.2, hlt⟩
    | on hs hc hx =>
      obtain ⟨hle', hlt'⟩ := Step.forward hs (ha _ _ _ _ hc) hx
      refine ⟨Nat.le_trans hle hle', _, hmoved.2, fun h => ?_⟩
      rw [Bool.or_eq_true] at h
      rcases h with h | h
      · exact Nat.lt_of_lt_of_le (hlt h) hle'
      · exact Nat.lt_of_le_of_lt hle (hlt' h)

/-- A call that a rule makes nests less deep than the rule, unless it asks for the seed of the rule. -/
theorem Made.allowed (ha : again ≤ Onward) {c : Call} (h : Made complaining again r i c k)
    (hk : k ≤ src.tokens.length) : src.Allowed r i c k := by
  have ho := r.orderedBody_body
  cases h with
  | @step s rest _ _ h hc =>
    obtain ⟨hle, moved, hmoved, hlt⟩ := h.ordered ha
    rw [Rule.orderedFrom, hc, Bool.and_eq_true] at hmoved
    exact Source.allowed_of_ordered moved hmoved.1 hle hk hlt
  | first hb =>
    rw [hb] at ho
    exact Source.allowed_of_ordered false ho (Nat.le_refl i) hk nofun
  | others hb hf hx =>
    have hlt := (ha _ _ _ _ hf).lt_of_choice _ rfl (Rule.first_of_gather hb) hx
    exact Source.allowed_of_ordered true rfl (Nat.le_of_lt hlt) hk fun _ => hlt

theorem Reached.hands (h : Reached complaining again r i steps k) :
    ∃ fresh, r.handsFrom fresh steps = true ∧ (fresh = true → k = i) := by
  have hb := r.handsBody_body
  induction h with
  | alternative hleft =>
    obtain ⟨all, he, hmem⟩ := hleft.mem
    rw [he] at hb
    exact ⟨true, all_eq_true.1 hb _ (hmem _ mem_cons_self), fun _ => rfl⟩
  | round he | again he =>
    rw [he] at hb
    exact ⟨false, hb, nofun⟩
  | on _ _ ih =>
    obtain ⟨_, hhands, _⟩ := ih
    rw [Rule.handsFrom, Bool.and_eq_true] at hhands
    exact ⟨false, hhands.2, nofun⟩

/-- Rules that are not remembered are called only where their seed is grown. -/
theorem Made.handed {s : Rule} (h : Made complaining again r i (.rule s) k) (hs : s.memory = .forgotten) :
    r = .primary ∧ k = i := by
  have hb := r.handsBody_body
  cases h with
  | step h hc =>
    obtain ⟨fresh, hhands, hk⟩ := h.hands
    rw [Rule.handsFrom, Bool.and_eq_true, hc] at hhands
    have hcall := hhands.1
    simp only [hs, bne_self_eq_false, Bool.false_or, Bool.and_eq_true, beq_iff_eq] at hcall
    exact ⟨hcall.2, hk hcall.1⟩
  | first he => simp [he, Rule.handsBody, hs] at hb
  | others he => simp [he, Rule.handsBody, hs] at hb

end Calls

end Labyrinth.Grammar
