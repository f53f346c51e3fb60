import Mathlib.Data.List.Forall2
import Labyrinth.Proofs.Grammar.Spelling

/-!
# Outcomes that agree

A call has at most one outcome, up to whatever actions leave open. This holds even if alternatives that only complain
are tried in one reading and not in the other, as long as none of them comes to anything.
-/

namespace Labyrinth.Grammar

open List

/-- Two ways of making calls come to results that are alike, and end at the same places. -/
def Agree (like : Parsed → Parsed → Prop) (again again' : Outcomes) : Prop :=
  ∀ ⦃c i x j y k⦄, again c i x j → again' c i y k → like x y ∧ j = k

/-- What steps kept is alike, and they end at the same place. -/
def KeptLike (like : Parsed → Parsed → Prop) : Option (List Parsed × Nat) → Option (List Parsed × Nat) → Prop :=
  Option.Rel fun kept kept' => Forall₂ like kept.1 kept'.1 ∧ kept.2 = kept'.2

/-- An alternative fails, without being settled on. -/
def Fruitless (again : Outcomes) (i : Nat) (a : Alternative) : Prop :=
  ∀ ⦃out settled⦄, StepsTo again [] false i a.steps out settled → out = none ∧ settled = false

section Bodies

variable {like : Parsed → Parsed → Prop} {again again' : Outcomes} {made made' : Makings} {i : Nat}
  (hlike : Likeness like) (ha : Agree like again again')
  (hmade : ∀ ⦃a i j kept kept' x y⦄, Forall₂ like kept kept' → made a i j kept x → made' a i j kept' y → like x y)

include hlike ha

variable {steps : List Step} {x y : Parsed} {j k : Nat} {b b' : Bool}

theorem StepsTo.agree {kept kept' : List Parsed} {settled s s' : Bool} {out out' : Option (List Parsed × Nat)}
    (h : StepsTo again kept settled i steps out s) (h' : StepsTo again' kept' settled i steps out' s')
    (hk : Forall₂ like kept kept') : KeptLike like out out' ∧ s = s' := by
  induction h generalizing kept' with
  | done =>
    cases h' with
    | done => exact ⟨.some ⟨rel_reverse hk, rfl⟩, rfl⟩
  | cut _ ih =>
    cases h' with
    | cut h' => exact ih h' hk
    | on hs | fails hs => cases hs
  | @on _ _ _ _ _ _ _ _ _ step hs hc hx _ ih =>
    cases h' with
    | cut => cases hs
    | on hs' hc' _ h' =>
      cases hs.symm.trans hs'
      obtain ⟨hxy, rfl⟩ := ha hc hc'
      exact ih h' (step.kept_like hxy hk)
    | fails hs' hc' hx' =>
      cases hs.symm.trans hs'
      cases hx.symm.trans ((hlike.passes step (ha hc hc').1).trans hx')
  | @fails _ _ _ _ _ _ _ step hs hc hx =>
    cases h' with
    | cut => cases hs
    | on hs' hc' hx' =>
      cases hs.symm.trans hs'
      cases hx.symm.trans ((hlike.passes step (ha hc hc').1).trans hx')
    | fails => exact ⟨.none, rfl⟩

omit hlike ha in
/-- An alternative that only complains changes nothing if it is fruitless. -/
theorem ChoiceTo.of_fruitless {complaining : Bool} {a : Alternative} {rest : List Alternative}
    (h : ChoiceTo made complaining again i (a :: rest) x j) (hv : a.invalid = true)
    (hf : complaining = true → Fruitless again i a) : ChoiceTo made complaining again i rest x j := by
  cases h with
  | skip _ _ h => exact h
  | done hv' => cases hv.symm.trans hv'
  | blamed _ hc hs => cases (hf hc hs).1
  | settled hc hs => cases (hf (hc hv) hs).2
  | next _ _ h => exact h

include hmade

theorem ChoiceTo.agree {alternatives : List Alternative} (hf : ∀ a ∈ alternatives, a.invalid = true →
      (b = true → Fruitless again i a) ∧ (b' = true → Fruitless again' i a))
    (h : ChoiceTo made b again i alternatives x j) (h' : ChoiceTo made' b' again' i alternatives y k) :
    like x y ∧ j = k := by
  induction alternatives with
  | nil =>
    cases h
    cases h'
    exact ⟨hlike.nothing, rfl⟩
  | cons a rest ih =>
    obtain ⟨hfirst, hrest⟩ := forall_mem_cons.1 hf
    by_cases hv : a.invalid = true
    · exact ih hrest (h.of_fruitless hv (hfirst hv).1) (h'.of_fruitless hv (hfirst hv).2)
    · cases h with
      | skip hv' | blamed hv' => exact absurd hv' hv
      | done _ hs hx =>
        cases h' with
        | skip hv' | blamed hv' => exact absurd hv' hv
        | done _ hs' hx' =>
          obtain ⟨⟨hkept, hj⟩, -⟩ := hs.agree hlike ha hs' .nil
          cases hj
          exact ⟨hmade hkept hx hx', rfl⟩
        | settled _ hs' | next _ hs' => cases (hs.agree hlike ha hs' .nil).1
      | settled _ hs =>
        cases h' with
        | skip hv' | blamed hv' => exact absurd hv' hv
        | done _ hs' => cases (hs.agree hlike ha hs' .nil).1
        | settled => exact ⟨hlike.nothing, rfl⟩
        | next _ hs' => cases (hs.agree hlike ha hs' .nil).2
      | next _ hs h =>
        cases h' with
        | skip hv' | blamed hv' => exact absurd hv' hv
        | done _ hs' => cases (hs.agree hlike ha hs' .nil).1
        | settled _ hs' => cases (hs.agree hlike ha hs' .nil).2
        | next _ _ h' => exact ih hrest h h'

omit hmade

theorem RoundsTo.agree {done done' : List Parsed} (h : RoundsTo again steps done i x j)
    (h' : RoundsTo again' steps done' i y k) (hd : Forall₂ like done done') : like x y ∧ j = k := by
  induction h generalizing done' with
  | stop hs hx =>
    cases h' with
    | stop => exact ⟨hlike.list (rel_reverse hd), rfl⟩
    | more hs' _ =>
      rcases (hs.agree hlike ha hs' .nil).1 with @⟨⟨kept, _⟩, _, hkept, -⟩
      obtain ⟨_, _, -, hnil, rfl⟩ := forall₂_cons_right_iff.1 hkept
      cases forall₂_nil_right_iff.1 hnil
      exact absurd rfl (hx _ _)
  | more hs _ ih =>
    cases h' with
    | stop hs' hx' =>
      rcases (hs.agree hlike ha hs' .nil).1 with @⟨_, ⟨kept, _⟩, hkept, -⟩
      obtain ⟨_, _, -, hnil, rfl⟩ := forall₂_cons_left_iff.1 hkept
      cases forall₂_nil_left_iff.1 hnil
      exact absurd rfl (hx' _ _)
    | more hs' h' =>
      obtain ⟨⟨hkept, hj⟩, -⟩ := hs.agree hlike ha hs' .nil
      cases hj
      exact ih h' (.cons (forall₂_cons.1 hkept).1 hd)

theorem GatherTo.agree {first others : Rule} (h : GatherTo again first others i x j)
    (h' : GatherTo again' first others i y k) : like x y ∧ j = k := by
  have absurdity : ∀ {x y : Parsed}, like x y → x.isNothing = true → y.isNothing = false → False := by
    intro x y hxy hx hy
    rw [hlike.isNothing hxy, hy] at hx
    cases hx
  cases h with
  | missing hf hx =>
    cases h' with
    | missing => exact ⟨hlike.nothing, rfl⟩
    | alone hf' hx' | both hf' hx' => exact (absurdity (ha hf hf').1 hx hx').elim
  | alone hf hx ho hy =>
    cases h' with
    | missing => exact ⟨hlike.nothing, rfl⟩
    | alone => exact ⟨hlike.nothing, rfl⟩
    | both hf' hx' ho' hy' =>
      obtain ⟨-, rfl⟩ := ha hf hf'
      exact (absurdity (ha ho ho').1 hy hy').elim
  | both hf hx ho hy =>
    cases h' with
    | missing hf' hx' =>
      rw [hlike.isNothing (ha hf hf').1, hx'] at hx
      cases hx
    | alone hf' hx' ho' hy' =>
      obtain ⟨-, rfl⟩ := ha hf hf'
      rw [hlike.isNothing (ha ho ho').1, hy'] at hy
      cases hy
    | both hf' hx' ho' hy' =>
      obtain ⟨hfirst, rfl⟩ := ha hf hf'
      obtain ⟨hothers, rfl⟩ := ha ho ho'
      exact ⟨hlike.gather hfirst hothers, rfl⟩

include hmade

theorem BodyTo.agree {body : Body}
    (hf : ∀ alternatives, body = .choice alternatives → ∀ a ∈ alternatives, a.invalid = true →
      (b = true → Fruitless again i a) ∧ (b' = true → Fruitless again' i a)) (h : BodyTo made b again i body x j)
    (h' : BodyTo made' b' again' i body y k) : like x y ∧ j = k := by
  cases body with
  | choice alternatives => exact ChoiceTo.agree hlike ha hmade (hf _ rfl) h h'
  | rounds steps => exact RoundsTo.agree hlike ha h h' .nil
  | gather first others => exact GatherTo.agree hlike ha h h'

end Bodies

variable {round : Parsed → Nat → Parsed → Nat → Prop} {last x y : Parsed} {stop j k i : Nat} {src : Source}

/-- Results that are alike grow to results that are alike. -/
theorem GrowsTo.agree {like : Parsed → Parsed → Prop} (hlike : Likeness like)
    {round' : Parsed → Nat → Parsed → Nat → Prop} {last' : Parsed}
    (hr : ∀ {last last' stop x y j k}, like last last' → round last stop x j → round' last' stop y k →
      like x y ∧ j = k) (h : GrowsTo round last stop x j) (h' : GrowsTo round' last' stop y k) (hl : like last last')
    :
    like x y ∧ j = k := by
  induction h generalizing last' with
  | stop hround hx =>
    cases h' with
    | stop => exact ⟨hl, rfl⟩
    | more hround' hx' hj' =>
      obtain ⟨hxy, rfl⟩ := hr hl hround hround'
      have := hx (by rw [hlike.succeeds hxy, hx'])
      omega
  | more hround hx hj _ ih =>
    cases h' with
    | stop hround' hx' =>
      obtain ⟨hxy, rfl⟩ := hr hl hround hround'
      have := hx' (by rw [← hlike.succeeds hxy, hx])
      omega
    | more hround' _ _ h' =>
      obtain ⟨hxy, rfl⟩ := hr hl hround hround'
      exact ih h' hxy

/-- Two seeds of the same rule at the same place that are alike. -/
structure Seed.Like (like : Parsed → Parsed → Prop) (seed seed' : Seed) : Prop where
  rule : seed'.rule = seed.rule
  place : seed'.place = seed.place
  result : like seed.result.1 seed'.result.1
  stop : seed.result.2 = seed'.result.2

/-- Plain reading builds one result at most. -/
theorem built_unique ⦃a : Action⦄ ⦃i j : Nat⦄ ⦃kept kept' : List Parsed⦄ ⦃x y : Parsed⦄
    (hkept : Forall₂ (· = ·) kept kept') (hx : src.built a i j kept x) (hy : src.built a i j kept' y) : x = y := by
  rw [forall₂_eq_eq_eq] at hkept
  subst hkept
  exact Option.some.inj (hx.symm.trans hy)

namespace Reads

variable {src : Source} {made made' : Makings} {b b' : Bool} {own own' : Option Seed} {i : Nat} {x y : Parsed} {j k : Nat}

/-- A rule that only complains comes to nothing, if that is what its action comes to. -/
theorem fails_of_blames (hmade : ∀ ⦃a i j kept x⦄, a.blames = true → made a i j kept x → x.succeeds = false)
    {s : Rule} (hs : s.blames = true)
    (h : Reads src made b own (.rule s) i x j) : x.succeeds = false := by
  have hm := Rule.memory_of_blames hs
  obtain ⟨alternatives, hbody, hactions⟩ := Rule.actions_of_blames hs
  generalize hc : Call.rule s = c at h
  cases h.leads with
  | take hr | refuse hr =>
    subst hc
    cases hr
  | anew _ hb =>
    cases hc
    rw [hbody] at hb
    clear hbody h
    induction hb with
    | none | blamed | settled => rfl
    | skip _ _ _ ih | next _ _ _ ih => exact ih fun a ha => hactions a (mem_cons_of_mem _ ha)
    | done _ _ hx => exact hmade (hactions _ mem_cons_self) hx
  | handed hm' | grown hm' =>
    cases hc
    cases hm.symm.trans hm'
  | seed _ hm' =>
    cases hc
    cases hm.symm.trans hm'

/-- Alternatives that only complain are fruitless. -/
theorem fruitless (hmade : ∀ ⦃a i j kept x⦄, a.blames = true → made a i j kept x → x.succeeds = false)
    {r : Rule} {alternatives : List Alternative}
    (hb : r.body = .choice alternatives) {a : Alternative} (ha : a ∈ alternatives) (hv : a.invalid = true) :
    Fruitless (Reads src made b own) i a := by
  intro out settled hs
  obtain ⟨s, hblames, hsteps⟩ := Rule.blames_of_invalid hb a ha hv
  rw [hsteps] at hs
  cases hs with
  | on hs hc hx =>
    cases hs
    cases hx.symm.trans (fails_of_blames hmade hblames hc)
  | fails => exact ⟨rfl, rfl⟩

variable {c : Call}

/-- Whether alternatives that only complain are tried makes no difference to the outcome of a call. -/
theorem agree {like : Parsed → Parsed → Prop} (hlike : Likeness like)
    (hmade : ∀ ⦃a i j kept kept' x y⦄, Forall₂ like kept kept' → made a i j kept x → made' a i j kept' y → like x y)
    (hblames : ∀ ⦃a i j kept x⦄, a.blames = true → made' a i j kept x → x.succeeds = false)
    (h : Reads src made false own c i x j) (h' : Reads src made' b own' c i y k)
    (hown : Option.Rel (Seed.Like like) own own') : like x y ∧ j = k := by
  refine h (fun own c i x j => ∀ own' y k, Option.Rel (Seed.Like like) own own' → Reads src made' b own' c i y k →
    like x y ∧ j = k) (fun own c i x j h own' y k hown h' => ?_) own' y k hown h'
  have hbody : ∀ {r i x y j k} {own own' : Option Seed}, Option.Rel (Seed.Like like) own own' →
      BodyTo made false (fun c i x j => ∀ own' y k, Option.Rel (Seed.Like like) own own' →
        Reads src made' b own' c i y k → like x y ∧ j = k) i (Rule.body r) x j →
      BodyTo made' b (Reads src made' b own') i (Rule.body r) y k → like x y ∧ j = k := by
    intro r i x y j k own own' hown h h'
    refine BodyTo.agree hlike (fun c i x j y k hr hr' => hr own' y k hown hr') hmade (fun alternatives hb a ha hv => ?_) h h'
    exact ⟨nofun, fun _ => fruitless hblames hb ha hv⟩
  cases h with
  | take hc ht hacc =>
    cases h'.leads with
    | take _ ht' =>
      cases ht.symm.trans ht'
      exact ⟨hlike.token _, rfl⟩
    | refuse _ ht' hacc' =>
      cases ht.symm.trans ht'
      cases hacc.symm.trans hacc'
    | anew | handed | seed | grown => cases hc
  | refuse hc ht hacc =>
    cases h'.leads with
    | take _ ht' hacc' =>
      cases ht.symm.trans ht'
      cases hacc.symm.trans hacc'
    | refuse => exact ⟨hlike.nothing, rfl⟩
    | anew | handed | seed | grown => cases hc
  | anew hm hb =>
    cases h'.leads with
    | take hr | refuse hr => cases hr
    | anew _ hb' => exact hbody .none hb hb'
    | handed hm' | grown hm' | seed _ hm' => cases hm.symm.trans hm'
  | handed hm hb =>
    cases h'.leads with
    | take hr | refuse hr => cases hr
    | handed _ hb' => exact hbody hown hb hb'
    | anew hm' | grown hm' | seed _ hm' => cases hm.symm.trans hm'
  | @seed seed hs hm =>
    cases hs
    cases hown with
    | @some _ seed' hl =>
      generalize hc : Call.rule seed.rule = c at h'
      generalize hi : seed.place = i at h'
      cases h'.leads with
      | take hr | refuse hr =>
        subst hc
        cases hr
      | anew hm' | handed hm' =>
        cases hc
        cases hm.symm.trans hm'
      | seed hs' =>
        cases hs'
        exact ⟨hl.result, hl.stop⟩
      | grown _ ho =>
        cases hc
        exact absurd (hl.place.trans hi) (ho seed' rfl hl.rule)
  | grown hm ho hg =>
    cases h'.leads with
    | take hr | refuse hr => cases hr
    | anew hm' | handed hm' => cases hm.symm.trans hm'
    | @seed seed' hs' =>
      cases hs'
      cases hown with
      | @some seed _ hl => exact absurd hl.place.symm (ho seed rfl hl.rule.symm)
    | grown _ _ hg' =>
      refine GrowsTo.agree hlike (fun hl hround hround' => hbody (.some ?_) hround hround') hg hg' hlike.nothing
      exact ⟨rfl, rfl, hl, rfl⟩

/-- Plain reading comes to one outcome at most. -/
theorem unique (h : Reads src src.built false own c i x j) (h' : Reads src src.built false own c i y k) :
    x = y ∧ j = k := by
  refine h.agree likeness_eq built_unique (fun a i j kept x hblames hx => ?_) h' ?_
  · cases a <;> cases hblames <;> cases hx
  · cases own with
    | none => exact .none
    | some seed => exact .some ⟨rfl, rfl, rfl, rfl⟩

theorem agree_self (own : Option Seed) :
    Agree (· = ·) (Reads src src.built false own) (Reads src src.built false own) :=
  fun _ _ _ _ _ _ h h' => h.unique h'

end Reads

/-- Plain reading comes to one outcome of a body at most. -/
theorem BodyTo.unique {own : Option Seed} {body : Body}
    (h : BodyTo src.built false (Reads src src.built false own) i body x j)
    (h' : BodyTo src.built false (Reads src src.built false own) i body y k) : x = y ∧ j = k := by
  refine BodyTo.agree likeness_eq (Reads.agree_self own) built_unique (fun _ _ _ _ _ => ?_) h h'
  exact ⟨nofun, nofun⟩

/-! ### Calls on the way to an outcome -/

section Way

variable {made : Makings} {again : Outcomes} {r : Rule} {i j k : Nat} {x : Parsed} {steps : List Step}
  (hdet : Agree (· = ·) again again) (hbody : BodyTo made false again i r.body x j)

include hdet

theorem StepsTo.unique {kept : List Parsed} {settled s s' : Bool} {out out' : Option (List Parsed × Nat)}
    (h : StepsTo again kept settled i steps out s) (h' : StepsTo again kept settled i steps out' s') :
    out = out' ∧ s = s' := by
  obtain ⟨hout, hs⟩ := h.agree likeness_eq hdet h' (forall₂_eq_eq_eq ▸ rfl)
  refine ⟨?_, hs⟩
  cases hout with
  | none => rfl
  | some hkept =>
    rw [forall₂_eq_eq_eq] at hkept
    exact congrArg some (Prod.ext hkept.1 hkept.2)

include hbody

/-- Where the body of a rule comes to an outcome, so do the alternatives that are left. -/
theorem Left.choiceTo {alternatives : List Alternative} (h : Left again r i alternatives) :
    ∃ y l, ChoiceTo made false again i alternatives y l := by
  induction h with
  | all hb =>
    rw [hb] at hbody
    exact ⟨x, j, hbody⟩
  | skip _ ha ih =>
    obtain ⟨y, l, hc⟩ := ih
    exact ⟨y, l, hc.of_fruitless ha nofun⟩
  | next _ hs ih =>
    obtain ⟨y, l, hc⟩ := ih
    cases hc with
    | skip _ _ h | next _ _ h => exact ⟨_, _, h⟩
    | done _ hs' | blamed _ _ hs' => cases (hs.unique hdet hs').1
    | settled _ hs' => cases (hs.unique hdet hs').2

/-- Where the body of a rule comes to an outcome, so do the steps and the rounds that it reaches. -/
theorem Reached.stepsTo (h : Reached false again r i steps k) :
    (∃ kept settled out settled', StepsTo again kept settled k steps out settled') ∧
      ∀ list, r.body = .rounds list → steps <:+ list ∧ (steps = list → ∃ done y l, RoundsTo again list done k y l) := by
  have hrounds : ∀ {list done k y l}, r.body = .rounds list → RoundsTo again list done k y l →
      (∃ kept settled out settled', StepsTo again kept settled k list out settled') ∧ ∀ list', r.body = .rounds list' →
        list <:+ list' ∧ (list = list' → ∃ done y l, RoundsTo again list' done k y l) := by
    intro list done k y l hb h
    refine ⟨?_, fun list' hb' => ?_⟩
    · cases h with
      | stop hs | more hs => exact ⟨_, _, _, _, hs⟩
    · cases hb.symm.trans hb'
      exact ⟨suffix_refl _, fun _ => ⟨_, _, _, h⟩⟩
  induction h with
  | alternative hl ha =>
    refine ⟨?_, fun list hb => ?_⟩
    · obtain ⟨y, l, hc⟩ := hl.choiceTo hdet hbody
      cases hc with
      | skip hv => cases ha hv
      | done _ hs | settled _ hs | next _ hs | blamed _ _ hs => exact ⟨_, _, _, _, hs⟩
    · obtain ⟨all, hb', -⟩ := hl.mem
      cases hb.symm.trans hb'
  | round hb =>
    rw [hb] at hbody
    have hstart : RoundsTo again _ [] _ x j := hbody
    exact hrounds hb hstart
  | again hb _ hs ih =>
    obtain ⟨_, _, _, h⟩ := (ih.2 _ hb).2 rfl
    cases h with
    | stop hs' hx => exact absurd (hs'.unique hdet hs).1 (hx _ _)
    | more hs' h =>
      cases (hs.unique hdet hs').1
      exact hrounds hb h
  | on _ hs ih =>
    obtain ⟨⟨_, _, _, _, hsteps⟩, hlist⟩ := ih
    refine ⟨?_, fun list hb => ?_⟩
    · cases hs with
      | cut =>
        cases hsteps with
        | cut h => exact ⟨_, _, _, _, h⟩
        | on hs | fails hs => cases hs
      | on hs hc hx =>
        cases hsteps with
        | cut => cases hs
        | on hs' hc' _ h =>
          cases hs.symm.trans hs'
          obtain ⟨-, rfl⟩ := hdet hc hc'
          exact ⟨_, _, _, _, h⟩
        | fails hs' hc' hx' =>
          cases hs.symm.trans hs'
          cases hx.symm.trans ((congrArg _ (hdet hc hc').1).trans hx')
    · have hsuffix := (hlist list hb).1
      refine ⟨(suffix_cons _ _).trans hsuffix, fun heq => ?_⟩
      have hle := hsuffix.length_le
      rw [heq, length_cons] at hle
      omega

/-- Where the body of a rule comes to an outcome, so does every call that it makes. -/
theorem Made.comes {c : Call} (h : Made false again r i c k) : ∃ y l, again c k y l := by
  cases h with
  | step h hc =>
    obtain ⟨⟨_, _, _, _, hs⟩, -⟩ := h.stepsTo hdet hbody
    cases hs with
    | cut => cases hc
    | on hs hc' | fails hs hc' =>
      cases hc.symm.trans hs
      exact ⟨_, _, hc'⟩
  | first hb =>
    rw [hb] at hbody
    cases hbody with
    | missing hf | alone hf | both hf => exact ⟨_, _, hf⟩
  | others hb hf hx =>
    rw [hb] at hbody
    cases hbody with
    | missing hf' hx' => cases hx.symm.trans ((congrArg _ (hdet hf hf').1).trans hx')
    | alone hf' _ ho | both hf' _ ho =>
      obtain ⟨-, rfl⟩ := hdet hf hf'
      exact ⟨_, _, ho⟩

end Way

/-- A result on the way is followed by another round, if growing comes to an end. -/
theorem GrowsTo.exists_round (h : GrowsTo round .nothing i x j) (hs : Sprouts round i last stop)
    (hdet : ∀ {last stop x j y k}, round last stop x j → round last stop y k → x = y ∧ j = k) :
    ∃ y k, round last stop y k := by
  have hrest : GrowsTo round last stop x j := by
    induction hs with
    | seed => exact h
    | more _ hr hx hj ih =>
      cases ih with
      | stop hr' hx' =>
        obtain ⟨rfl, rfl⟩ := hdet hr hr'
        exact absurd (hx' hx) (Nat.not_le_of_lt hj)
      | more hr' _ _ h =>
        obtain ⟨rfl, rfl⟩ := hdet hr hr'
        exact h
  cases hrest with
  | stop hr | more hr => exact ⟨_, _, hr⟩

end Labyrinth.Grammar
