import Labyrinth.Session

/-!
# Computations that come to a result

What a computation has to do in order to yield a result, step by step: a sequence yields a result exactly if
its first part yields something from which the second part yields it.
-/

namespace Labyrinth.Task

variable {σ α β : Type}

/-- The computation yields a result from a state and leaves another state behind. -/
def Yields (act : Task σ α) (s : σ) (a : α) (s' : σ) : Prop :=
  act.run s = (.ok a, s')

variable {act x : Task σ α} {s s' s'' : σ} {a : α} {f : α → Task σ β} {b : β} {u : PUnit}

/-- A computation yields at most one result. -/
theorem Yields.unique {b : α} (h : Yields act s a s') (h' : Yields act s b s'') : a = b ∧ s' = s'' := by
  have he : (Except.ok a, s') = (Except.ok b, s'') := h.symm.trans h'
  simpa using he

/-- Whether the computation yields a result of a kind. -/
def gives (act : Task σ α) (s : σ) (kind : α → σ → Bool) : Bool :=
  match act.run s with
  | (.ok a, s') => kind a s'
  | (.error _, _) => false

theorem yields_of_gives {kind : α → σ → Bool} (h : gives act s kind = true) :
    ∃ a s', Yields act s a s' ∧ kind a s' = true := by
  unfold gives at h
  split at h
  · next a s' hrun => exact ⟨a, s', hrun, h⟩
  · cases h

@[simp] theorem yields_pure {b : α} : Yields (pure a : Task σ α) s b s' ↔ a = b ∧ s = s' := by
  change (Except.ok a, s) = (Except.ok b, s') ↔ _
  simp

theorem run_bind (x : Task σ α) (f : α → Task σ β) (s : σ) :
    (x >>= f).run s = match x.run s with
      | (.ok a, s') => (f a).run s'
      | (.error stop, s') => (.error stop, s') := by
  change (match x.run s with | (r, s') => (ExceptT.bindCont f r : StateM σ _) s') = _
  rcases x.run s with ⟨_ | _, s'⟩ <;> rfl

@[simp] theorem yields_bind : Yields (x >>= f) s b s'' ↔ ∃ a s', Yields x s a s' ∧ Yields (f a) s' b s'' := by
  unfold Yields
  rw [run_bind]
  constructor
  · intro h
    rcases hx : x.run s with ⟨_ | a, s'⟩
    · rw [hx] at h
      cases h
    · rw [hx] at h
      exact ⟨a, s', rfl, h⟩
  · rintro ⟨a, s', hx, hf⟩
    rw [hx]
    exact hf

/-- A sequence yields what its second part yields from the result of the first. -/
theorem Yields.bind (hx : Yields x s a s') (hf : Yields (f a) s' b s'') : Yields (x >>= f) s b s'' :=
  yields_bind.2 ⟨a, s', hx, hf⟩

@[simp] theorem yields_get {a : σ} : Yields (get : Task σ σ) s a s' ↔ s = a ∧ s = s' := by
  change (Except.ok s, s) = (Except.ok a, s') ↔ _
  simp

@[simp] theorem yields_set {t : σ} : Yields (set t : Task σ PUnit) s u s' ↔ t = s' := by
  change (Except.ok PUnit.unit, t) = (Except.ok u, s') ↔ _
  simp

@[simp] theorem yields_modify {f : σ → σ} : Yields (modify f : Task σ PUnit) s u s' ↔ f s = s' := by
  change (Except.ok PUnit.unit, f s) = (Except.ok u, s') ↔ _
  simp

@[simp high] theorem yields_get_bind {f : σ → Task σ β} : Yields (get >>= f) s b s' ↔ Yields (f s) s b s' :=
  Iff.rfl

@[simp high] theorem yields_modify_bind {g : σ → σ} {f : PUnit → Task σ β} :
    Yields (modify g >>= f) s b s' ↔ Yields (f ⟨⟩) (g s) b s' :=
  Iff.rfl

@[simp] theorem yields_map {f : α → β} : Yields (f <$> x) s b s' ↔ ∃ a, Yields x s a s' ∧ f a = b := by
  rw [← bind_pure_comp, yields_bind]
  constructor
  · rintro ⟨a, t, hx, hp⟩
    obtain ⟨hb, ht⟩ := yields_pure.1 hp
    exact ⟨a, ht ▸ hx, hb⟩
  · rintro ⟨a, hx, hb⟩
    exact ⟨a, s', hx, yields_pure.2 ⟨hb, rfl⟩⟩

@[simp] theorem not_yields_throw {stop : Stop} : ¬Yields (throw stop : Task σ α) s a s' := by
  change ¬(Except.error stop, s) = (Except.ok a, s')
  simp

@[simp] theorem not_yields_fail {cause : Fault} : ¬Yields (fail cause : Task σ α) s a s' :=
  not_yields_throw

@[simp] theorem yields_ofExcept {e : Except Fault α} :
    Yields (ofExcept e : Task σ α) s a s' ↔ e = .ok a ∧ s = s' := by
  cases e with
  | error cause => simp [ofExcept]
  | ok b => simp [ofExcept]

/-- A computation on the session yields what it yields there, and changes nothing else. -/
@[simp] theorem yields_inSession [HasSession σ] {act : Run α} : Yields (inSession act : Task σ α) s a s' ↔
      ∃ session, Yields act (HasSession.session s) a session ∧ HasSession.withSession s session = s' := by
  change ((act.run (HasSession.session s)).1, HasSession.withSession s (act.run (HasSession.session s)).2) =
    (Except.ok a, s') ↔ _
  constructor
  · intro h
    obtain ⟨hr, hs⟩ := Prod.mk.inj h
    exact ⟨_, Prod.ext hr rfl, hs⟩
  · rintro ⟨session, h, hs⟩
    unfold Yields at h
    rw [h, hs]

end Labyrinth.Task
