import Labyrinth.Proofs.Task

/-!
# How computations end

A computation comes to a result or stops early, and its state is there to be looked at either way. `Task.Ends` says
what holds in both cases. A `Conduct` says what a stage of a run may do to the session it started from: which
diagnostics it may collect, whether it may end the run with a report, and how it may break off.
-/

namespace Labyrinth

namespace Task

variable {σ α β : Type}

/-- Whatever comes of a computation: of a result and its state `Q` holds, of an early end and its state `E`. -/
structure Ends (act : Task σ α) (s : σ) (Q : α → σ → Prop) (E : Stop → σ → Prop) : Prop where
  of_yields : ∀ {a s'}, Yields act s a s' → Q a s'
  of_stops : ∀ {stop s'}, act.run s = (.error stop, s') → E stop s'

variable {s : σ} {Q : α → σ → Prop} {E : Stop → σ → Prop}
variable {act x : Task σ α} {a : α} {s' : σ} {stop : Stop} {f : α → Task σ β}

theorem ends_iff : Ends act s Q E ↔ match act.run s with
    | (.ok a, s') => Q a s'
    | (.error stop, s') => E stop s' := by
  constructor
  · intro h
    rcases hrun : act.run s with ⟨stop | a, s'⟩
    · exact h.of_stops hrun
    · exact h.of_yields hrun
  · intro h
    refine ⟨fun {a s'} ha => ?_, fun {stop s'} hstop => ?_⟩
    · rwa [show act.run s = (.ok a, s') from ha] at h
    · rwa [hstop] at h

theorem ends_iff_of_yields (h : Yields act s a s') : Ends act s Q E ↔ Q a s' := by
  rw [ends_iff, show act.run s = (.ok a, s') from h]

theorem ends_iff_of_stops (h : act.run s = (.error stop, s')) : Ends act s Q E ↔ E stop s' := by
  rw [ends_iff, h]

/-- How a computation stops can be told by how it ends. -/
theorem run_eq_error_iff :
    act.run s = (.error stop, s') ↔ Ends act s (fun _ _ => False) fun stop' s'' => stop' = stop ∧ s'' = s' := by
  rw [ends_iff]
  rcases act.run s with ⟨stop' | a, s''⟩
  · refine ⟨fun h => ?_, ?_⟩
    · cases h
      exact ⟨rfl, rfl⟩
    · rintro ⟨rfl, rfl⟩
      rfl
  · exact ⟨nofun, False.elim⟩

@[simp] theorem ends_pure : Ends (pure a) s Q E ↔ Q a s := ends_iff

@[simp] theorem ends_throw : Ends (throw stop) s Q E ↔ E stop s := ends_iff

@[simp] theorem ends_fail {cause : Fault} : Ends (fail cause) s Q E ↔ E (.fault cause) s := ends_iff

@[simp] theorem ends_get {Q : σ → σ → Prop} : Ends get s Q E ↔ Q s s := ends_iff

@[simp] theorem ends_set {t : σ} {Q : PUnit → σ → Prop} : Ends (set t) s Q E ↔ Q ⟨⟩ t := ends_iff

@[simp] theorem ends_modify {f : σ → σ} {Q : PUnit → σ → Prop} : Ends (modify f) s Q E ↔ Q ⟨⟩ (f s) := ends_iff

@[simp] theorem ends_bind {Q : β → σ → Prop} : Ends (x >>= f) s Q E ↔ Ends x s (fun a s' => Ends (f a) s' Q E) E := by
  rw [ends_iff, ends_iff, run_bind]
  rcases x.run s with ⟨_ | a, s'⟩
  · rfl
  · exact ends_iff.symm

@[simp] theorem ends_map {f : α → β} {Q : β → σ → Prop} :
    Ends (f <$> x) s Q E ↔ Ends x s (fun a s' => Q (f a) s') E := by
  simp only [← bind_pure_comp, ends_bind, ends_pure]

@[simp] theorem ends_ofExcept {e : Except Fault α} :
    Ends (ofExcept e) s Q E ↔ (∀ a, e = .ok a → Q a s) ∧ ∀ cause, e = .error cause → E (.fault cause) s := by
  cases e with
  | error cause => simp [ofExcept]
  | ok a => simp [ofExcept]

/-- A computation that is carried out on another state ends as it ends there. -/
theorem ends_of_run {τ : Type} {outer : Task σ α} {act : Task τ α} {t : τ} {f : τ → σ}
    (h : outer.run s = ((act.run t).1, f (act.run t).2)) :
    Ends outer s Q E ↔ Ends act t (fun a t' => Q a (f t')) (fun stop t' => E stop (f t')) := by
  rw [ends_iff, ends_iff, h]
  rcases act.run t with ⟨_ | a, t'⟩ <;> rfl

/-- A computation on the session ends as it ends there. -/
@[simp] theorem ends_inSession [HasSession σ] {act : Run α} : Ends (inSession act) s Q E ↔
    Ends act (HasSession.session s) (fun a session => Q a (HasSession.withSession s session))
      (fun stop session => E stop (HasSession.withSession s session)) :=
  ends_of_run rfl

theorem Ends.mono {Q' : α → σ → Prop} {E' : Stop → σ → Prop} (h : Ends act s Q E)
    (hQ : ∀ a s', Yields act s a s' → Q a s' → Q' a s') (hE : ∀ stop s', E stop s' → E' stop s') : Ends act s Q' E' :=
  ⟨fun ha => hQ _ _ ha (h.of_yields ha), fun hstop => hE _ _ (h.of_stops hstop)⟩

/-- A sequence ends as its second part does from whatever the first part yields. -/
theorem Ends.bind {R : β → σ → Prop} (hx : Ends x s Q E) (hf : ∀ a s', Yields x s a s' → Q a s' → Ends (f a) s' R E) :
    Ends (x >>= f) s R E :=
  ends_bind.2 (hx.mono hf fun _ _ h => h)

/-- A computation comes to a result from every state, and leaves the state as it is. -/
def Settles (act : Task σ α) : Prop :=
  ∀ s, ∃ a, Yields act s a s

theorem settles_pure (a : α) : Settles (pure a : Task σ α) :=
  fun _ => ⟨a, yields_pure.2 ⟨rfl, rfl⟩⟩

theorem Settles.bind (hx : Settles x) (hf : ∀ a, Settles (f a)) : Settles (x >>= f) := by
  intro s
  obtain ⟨a, ha⟩ := hx s
  obtain ⟨b, hb⟩ := hf a s
  exact ⟨b, ha.bind hb⟩

/-- If it is known what the first part of a sequence yields, only this matters for the second part. -/
theorem Settles.of_yields (hx : ∀ s, Yields x s a s) (hf : Settles (f a)) : Settles (x >>= f) := by
  intro s
  obtain ⟨b, hb⟩ := hf s
  exact ⟨b, (hx s).bind hb⟩

theorem Settles.ends (h : Settles act) (hQ : ∀ a, Yields act s a s → Q a s) : Ends act s Q E := by
  obtain ⟨a, ha⟩ := h s
  rw [ends_iff, show act.run s = (.ok a, s) from ha]
  exact hQ a ha

end Task

/-- A line has a text if its number is among the numbers of lines, which count from one. -/
theorem Text.exists_item? {lines : Array String} {line : Int} (hfirst : 1 ≤ line) (hlast : line ≤ lines.size) :
    ∃ text, item? lines (line - 1) = some text := by
  obtain ⟨index, hindex⟩ := Int.eq_ofNat_of_zero_le (show 0 ≤ line - 1 by omega)
  have hlt : index < lines.size := by omega
  refine ⟨lines[index], ?_⟩
  rw [item?, hindex, place?_natCast hlt, Option.bind_some, Array.getElem?_eq_getElem hlt]

/-- A diagnostic says what it was made to say. -/
theorem Diagnostic.make_eq {folder : Folder} {loc : Location} {kind message : String} {source : SourceLine}
    {d : Diagnostic} (h : make folder loc kind message source = .ok d) :
    d.loc = loc ∧ d.kind = kind ∧ d.message = message := by
  have hmade : ∀ e : Except Fault (Option String), (do return (⟨loc, kind, message, ← e⟩ : Diagnostic)) = .ok d →
      d.loc = loc ∧ d.kind = kind ∧ d.message = message := by
    intro e he
    cases e with
    | error cause => cases he
    | ok line =>
      cases he
      exact ⟨rfl, rfl, rfl⟩
  unfold make at h
  dsimp only at h
  split at h
  · exact hmade _ h
  · exact hmade _ h
  · split at h
    all_goals exact hmade _ h

/-- Nothing has changed but the diagnostics that were collected and the lines of the text opened last. -/
def Session.Same (s s' : Session) : Prop :=
  s' = { s with pending := s'.pending, lines := s'.lines }

theorem Session.Same.refl (s : Session) : s.Same s := rfl

variable {s s' s'' : Session} {stop : Stop}

theorem Session.Same.trans (h : s.Same s') (h' : s'.Same s'') : s.Same s'' := by
  rw [Same, h', h]

theorem Session.Same.folder (h : s.Same s') : s'.folder = s.folder := by
  rw [h]

theorem Session.Same.out (h : s.Same s') : s'.out = s.out := by
  rw [h]

/-- A run that ended early left the files alone. If it was ended with a status, the status is one, and the last thing
printed was a report. -/
def Session.Leaves (s : Session) (stop : Stop) (s' : Session) : Prop :=
  s'.folder = s.folder ∧ ∀ status, stop = .exit status →
    status = 1 ∧ ∃ (before : String) (d : Diagnostic), s'.out = s.out ++ before ++ (d.text ++ "\n")

theorem Session.Same.leaves (h : s.Same s') (h' : s'.Leaves stop s'') : s.Leaves stop s'' := by
  obtain ⟨hfolder, hstatus⟩ := h'
  rw [h.folder] at hfolder
  rw [h.out] at hstatus
  exact ⟨hfolder, hstatus⟩

/-- What is printed before a report makes no difference. -/
theorem Session.Leaves.of_written {text : String} (h : ({ s with out := s.out ++ text } : Session).Leaves stop s') :
    s.Leaves stop s' := by
  refine ⟨h.1, fun status hstatus => ?_⟩
  obtain ⟨hone, before, d, hout⟩ := h.2 status hstatus
  exact ⟨hone, text ++ before, d, by simp only [hout, String.append_assoc]⟩

/-- What a stage of a run may do. -/
structure Conduct where
  /-- The session that the stage started from. -/
  start : Session
  /-- The diagnostics that may be collected. -/
  collects : Diagnostic → Prop
  /-- Whether the run may end with a report. -/
  exits : Prop
  /-- The faults that may break it off. -/
  breaks : Fault → Prop

namespace Conduct

open Labyrinth.Task

variable {α : Type} {c : Conduct} {s : Session}

/-- The stage is under way: nothing has changed in the session but diagnostics that it collected. -/
def Keeps (c : Conduct) (s : Session) : Prop :=
  ∃ ds : Array Diagnostic, (∀ d ∈ ds, c.collects d) ∧ s = { c.start with pending := c.start.pending ++ ds }

/-- The stage has ended early. If it ended with a report, the report was printed and the status is one. -/
def Stops (c : Conduct) : Stop → Session → Prop
  | .exit status, s => status = 1 ∧ c.exits ∧ ∃ (s₀ : Session) (d : Diagnostic), c.Keeps s₀ ∧
      s = { s₀ with out := s₀.out ++ (d.text ++ "\n") }
  | .fault cause, s => c.breaks cause ∧ c.Keeps s

/-- If the source line of a report at a location cannot be had, the stage may break off. -/
def Reads (c : Conduct) (loc : Location) (source : SourceLine) : Prop :=
  ∀ kind message cause, Diagnostic.make c.start.folder loc kind message source = .error cause → c.breaks cause

theorem keeps_start (c : Conduct) : c.Keeps c.start :=
  ⟨#[], by simp, by simp⟩

theorem Keeps.folder (h : c.Keeps s) : s.folder = c.start.folder := by
  obtain ⟨_, _, rfl⟩ := h
  rfl

theorem Keeps.out (h : c.Keeps s) : s.out = c.start.out := by
  obtain ⟨_, _, rfl⟩ := h
  rfl

/-- A stage that collects nothing leaves the session as it is. -/
theorem Keeps.eq_start (h : c.Keeps s) (hnone : ∀ d, ¬c.collects d) : s = c.start := by
  obtain ⟨ds, hds, rfl⟩ := h
  have hempty : ds = #[] := Array.eq_empty_iff_forall_not_mem.2 fun d hd => hnone d (hds d hd)
  rw [hempty, Array.append_empty]

theorem Keeps.push (h : c.Keeps s) {d : Diagnostic} (hd : c.collects d) :
    c.Keeps { s with pending := s.pending.push d } := by
  obtain ⟨ds, hds, rfl⟩ := h
  refine ⟨ds.push d, fun e he => ?_, by simp⟩
  rcases Array.mem_push.1 he with he | rfl
  · exact hds e he
  · exact hd

variable {stop : Stop} {loc : Location} {kind message : String} {source : SourceLine}

theorem Stops.folder (h : c.Stops stop s) : s.folder = c.start.folder := by
  cases stop with
  | exit status =>
    obtain ⟨_, _, s₀, report, hs, rfl⟩ := h
    exact hs.folder
  | fault cause => exact h.2.folder

theorem Keeps.same (h : c.Keeps s) : c.start.Same s := by
  obtain ⟨_, _, rfl⟩ := h
  rfl

/-- What is pending was there before or is of a kind that may be collected. -/
theorem Keeps.pending (h : c.Keeps s) {P : Diagnostic → Prop} (hstart : ∀ d ∈ c.start.pending, P d)
    (hcollects : ∀ d, c.collects d → P d) : ∀ d ∈ s.pending, P d := by
  obtain ⟨ds, hds, rfl⟩ := h
  intro d hd
  rcases Array.mem_append.1 hd with hd | hd
  · exact hstart d hd
  · exact hcollects d (hds d hd)

theorem Stops.leaves (h : c.Stops stop s) : c.start.Leaves stop s := by
  refine ⟨h.folder, ?_⟩
  rintro status rfl
  obtain ⟨rfl, _, s₀, d, hs₀, rfl⟩ := h
  exact ⟨rfl, "", d, by rw [hs₀.out, String.append_empty]⟩

/-- A report that ends the run. -/
theorem ends_reportFatal {Q : α → Session → Prop} (hs : c.Keeps s) (hexits : c.exits) (hloc : c.Reads loc source) :
    Ends (Session.reportFatal loc kind message source) s Q c.Stops := by
  simp only [Session.reportFatal, ends_bind, ends_get, ends_ofExcept, Session.writeLine, Session.write, ends_modify,
    ends_throw]
  refine ⟨fun d _ => ⟨rfl, hexits, s, _, hs, rfl⟩, fun cause hcause => ⟨hloc kind message cause ?_, hs⟩⟩
  rwa [← hs.folder]

/-- A report that is collected. -/
theorem ends_report (hs : c.Keeps s) (hloc : c.Reads loc source)
    (hcollects : ∀ d : Diagnostic, d.kind = kind → d.message = message → c.collects d) :
    Ends (Session.report loc kind message source) s (fun _ => c.Keeps) c.Stops := by
  simp only [Session.report, ends_bind, ends_get, ends_ofExcept, ends_modify]
  refine ⟨fun d hd => hs.push ?_, fun cause hcause => ⟨hloc kind message cause ?_, hs⟩⟩
  · obtain ⟨_, rfl, rfl⟩ := Diagnostic.make_eq hd
    exact hcollects d rfl rfl
  · rwa [← hs.folder]

end Conduct

end Labyrinth
