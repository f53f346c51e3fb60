import Labyrinth.Proofs.Code.Endings

/-!
# How the stages after parsing end

A tree that the parser hands on is lowered, evaluated and emitted. Each of these stages comes to its result, ends the
run with a report, or breaks off; `Program.stages_end` says when.
-/

namespace Labyrinth

open Labyrinth.Task

/-- A report that looks up its line in a file finds every line of a text there: if a file has the name, it has no fewer
lines than the text. -/
@[irreducible] def Folder.Covers (folder : Folder) (file text : String) : Prop :=
  match folder.entry (Path.ofText file).text with
  | .file other => (Text.splitLines text).size ≤ (Text.splitLines other).size
  | .tooLong => False
  | _ => True

/-- The ways in which a line cannot be looked up in a file. -/
inductive Fault.OfLookup : Fault → Prop where
  | indexOutOfRange : Fault.OfLookup .indexOutOfRange
  | nameTooLong (path : String) : Fault.OfLookup (.nameTooLong path)

namespace Diagnostic

variable {loc : Location} {kind message : String} {text : String} {cause : Fault}
variable {lines : Array String} {folder : Folder}

theorem lineAmong_ne_error (h : Text.HasLine text loc.line) (hlines : (Text.splitLines text).size ≤ lines.size) :
    lineAmong loc lines ≠ .error cause := by
  obtain ⟨hfirst, hlast⟩ := h
  obtain ⟨line, hline⟩ := Text.exists_item? hfirst (show loc.line ≤ lines.size by omega)
  unfold lineAmong
  rw [hline]
  exact nofun

theorem lineAmong_eq_error (h : lineAmong loc lines = .error cause) : cause = .indexOutOfRange := by
  unfold lineAmong at h
  split at h
  · cases h
  · cases h
    rfl

/-- A report among given lines fails only if its line is not among them. -/
theorem lineAmong_of_make (h : make folder loc kind message (.all lines) = .error cause) :
    lineAmong loc lines = .error cause := by
  change (lineAmong loc lines >>= fun line => .ok (⟨loc, kind, message, line⟩ : Diagnostic)) = .error cause at h
  cases hline : lineAmong loc lines with
  | error cause' =>
    rw [hline] at h
    cases h
    rfl
  | ok line =>
    rw [hline] at h
    cases h

/-- A report among the lines of the text finds its line. -/
theorem make_ne_error_of_hasLine (h : Text.HasLine text loc.line) :
    make folder loc kind message (.all (Text.splitLines text)) ≠ .error cause :=
  fun hmake => lineAmong_ne_error h (Nat.le_refl _) (lineAmong_of_make hmake)

/-- A report that has to look its line up finds it, if the file covers the text. -/
theorem not_covers_of_make (h : Text.HasLine text loc.line)
    (hmake : make folder loc kind message .unknown = .error cause) :
    cause.OfLookup ∧ ¬folder.Covers loc.file text := by
  delta Folder.Covers
  cases hentry : folder.entry (Path.ofText loc.file).text with
  | file other =>
    -- The report is made as if the lines of the file had been given.
    have hfile : make folder loc kind message .unknown =
        make folder loc kind message (.all (Text.splitLines (Text.normalizeBreaks other))) := by
      delta make
      dsimp only
      rw [hentry]
    rw [hfile, Text.splitLines_normalizeBreaks] at hmake
    have hline := lineAmong_of_make hmake
    refine ⟨lineAmong_eq_error hline ▸ .indexOutOfRange, fun hcovers => lineAmong_ne_error h hcovers hline⟩
  | tooLong =>
    delta make at hmake
    dsimp only at hmake
    rw [hentry] at hmake
    cases hmake
    exact ⟨.nameTooLong _, id⟩
  | directory | missing | belowFile =>
    delta make at hmake
    dsimp only at hmake
    rw [hentry] at hmake
    cases hmake

end Diagnostic

/-- The run ended with a report: the status is one, the report was printed, and apart from that there are only more
diagnostics than before. -/
def Reported (s : Session) (stop : Stop) (s' : Session) : Prop :=
  stop = .exit 1 ∧ ∃ (ds : Array Diagnostic) (d : Diagnostic),
    s' = { s with pending := s.pending ++ ds, out := s.out ++ (d.text ++ "\n") }

variable {s : Session}

theorem Reported.leaves {s' : Session} {stop : Stop} (h : Reported s stop s') : s.Leaves stop s' := by
  obtain ⟨rfl, _, d, rfl⟩ := h
  refine ⟨rfl, ?_⟩
  rintro _ ⟨rfl⟩
  exact ⟨rfl, "", d, by rw [String.append_empty]⟩

theorem Conduct.Stops.reported {c : Conduct} {status : Int} (h : c.Stops (.exit status) s) :
    Reported c.start (.exit status) s := by
  obtain ⟨rfl, _, s₀, d, ⟨ds, _, rfl⟩, rfl⟩ := h
  exact ⟨rfl, ds, d, rfl⟩

namespace Module

/-- The ways in which evaluation may break off: an expression is missing, or a line cannot be looked up. -/
def Breaks (m : Module) (text file : String) (s : Session) (cause : Fault) : Prop :=
  cause = .absent "evaluate" ∧ Node.areWhole m.body = false ∨ cause.OfLookup ∧ ¬s.folder.Covers file text

/-- What evaluation of a program goes by. -/
def evaluationGround (m : Module) (text file : String) (s : Session) : Analysis.Ground where
  conduct := ⟨s, Diagnostic.IsMismatch, True, m.Breaks text file s⟩
  lies loc := Text.HasLine text loc.line ∧ loc.file = file
  exits := trivial
  collects _ h := h
  reads _ hloc _ _ _ hmake := by
    obtain ⟨hline, rfl⟩ := hloc
    exact .inr (Diagnostic.not_covers_of_make hline hmake)

/-- An expression is missing only in a program that is not whole. -/
theorem throughout_breaks {m : Module} {text file : String} {s : Session} : ∀ n ∈ m.body,
    Node.Throughout (fun n => n = .missing → m.Breaks text file s (.absent "evaluate")) n := by
  intro n hn root hwithin hmissing
  cases hwhole : Node.areWhole m.body with
  | false => exact .inl ⟨rfl, hwhole⟩
  | true => exact absurd hmissing (Node.throughout_of_isWhole (Node.isWhole_of_areWhole hwhole n hn) root hwithin)

variable {text file : String} {s₀ s s' s₁ : Session} {tree : Program Sign} {m : Module}

/-- Evaluation of a program that was lowered ends in order. -/
theorem ends_evaluate_of_lower (htree : Yields (Program.ofText text file) s₀ tree s)
    (hlower : Yields (tree.lower text file) s m s')
    (hlies : ∀ n ∈ m.body, Node.Throughout (Node.Located (m.evaluationGround text file s₁).lies) n) :
    Ends m.evaluate { session := s₁ }
      (fun m' a => (m.evaluationGround text file s₁).conduct.Keeps a.session ∧ Node.areWhole m.body = true ∧
        ∀ n ∈ m'.body, Node.Throughout (Node.Located (m.evaluationGround text file s₁).lies) n)
      fun stop a => (m.evaluationGround text file s₁).conduct.Stops stop a.session := by
  have horderly : ∀ n ∈ m.body, Node.Throughout (Node.Orderly (m.evaluationGround text file s₁)) n := fun n hn =>
    Node.orderly_of_comparing ((Program.lower_isStmt_of_text htree hlower).1 n hn).comparing (hlies n hn)
      (throughout_breaks n hn)
  exact Module.ends_evaluate horderly (Conduct.keeps_start _)

/-- Emission of a program that was evaluated ends in order. -/
theorem ends_emit_of_evaluate {m' : Module} {a : Analysis} (htree : Yields (Program.ofText text file) s₀ tree s)
    (hlower : Yields (tree.lower text file) s m s') (heval : Yields m.evaluate { session := s₁ } m' a)
    (hlies : ∀ n ∈ m'.body, Node.Throughout (Node.Located (m.evaluationGround text file s₁).lies) n) :
    Ends (Code.emit text m') a.session
      (fun _ s₂ => s₂ = a.session ∧ Node.areEmittable m'.scope m'.body = true)
      (fun stop s₂ => s₂ = a.session ∧ Node.areEmittable m'.scope m'.body = false ∧
        ∃ cause, stop = .fault cause ∧ Code.Emission.Breaks cause) := by
  obtain ⟨hbody, hvalues, hparams⟩ := Program.lower_isStmt_of_text htree hlower
  have hchecked := Module.evaluate_checked hbody hvalues hparams heval (Scope.sound_builtins _)
  have hruled := Module.evaluate_ruled (Program.lower_formed htree hlower) (Analysis.regular_builtins s₁) heval
  refine Code.ends_emit hchecked (fun n hn root hwithin => ?_) fun n hn => (hruled n hn).noted
  exact (hlies n hn root hwithin).mono fun loc hloc => hloc.1.1

end Module

namespace Program

/-- What lowering of a tree goes by: it may only end with a report, and only if the tree is not analysable. -/
def loweringGround (tree : Program Sign) (text file : String) (s : Session) : Lowering.Ground where
  conduct := ⟨s, fun _ => False, stmtsAnalysable tree.body = false, fun _ => False⟩
  file
  lines := Text.splitLines text
  placed span := Text.HasLine text span.start.1
  placed_of_start span span' hstart hspan := by rwa [hstart]
  reads span hspan _ _ _ hmake :=
    Diagnostic.make_ne_error_of_hasLine (show Text.HasLine text (span.loc file).line from hspan) hmake

/-- Lowering of a tree that was handed on ends in order. -/
theorem ends_lower_of_text {text file : String} {s s' : Session} {tree : Program Sign}
    (htree : Yields (ofText text file) s tree s') :
    Ends (tree.lower text file) s'
      (fun m s₁ => s₁ = s' ∧ stmtsAnalysable tree.body = true ∧
        ∀ n ∈ m.body, Node.Throughout (Node.Located (m.evaluationGround text file s').lies) n)
      (fun stop s₁ => stmtsAnalysable tree.body = false ∧ Reported s' stop s₁) := by
  have hends := ends_lower (g := tree.loweringGround text file s') (wellFormed_of_text htree) (ofText_placed htree) rfl
    (Conduct.keeps_start _) id
  refine hends.mono (fun m s₁ _ ⟨hkeeps, hall, hbody, _⟩ => ⟨hkeeps.eq_start fun _ => id, hall, ?_⟩)
    fun stop s₁ hstops => ?_
  · refine fun n hn root hwithin => ((hbody n hn).2 root hwithin).mono ?_
    rintro _ ⟨span, hspan, rfl⟩
    exact ⟨hspan, rfl⟩
  · cases stop with
    | exit status => exact ⟨hstops.2.1, hstops.reported⟩
    | fault cause => exact hstops.1.elim

end Program

/-- How the stages after parsing end, for every text that has a tree. -/
theorem Program.stages_end {text file : String} {s s' : Session} {tree : Program Sign}
    (htree : Yields (Program.ofText text file) s tree s') :
    Ends (tree.lower text file) s'
      (fun m s₁ => s₁ = s' ∧ stmtsAnalysable tree.body = true ∧
        Ends m.evaluate { session := s' }
          (fun m' a => Node.areWhole m.body = true ∧
            Ends (Code.emit text m') a.session
              (fun _ s₂ => s₂ = a.session ∧ Node.areEmittable m'.scope m'.body = true)
              (fun stop s₂ => s₂ = a.session ∧ Node.areEmittable m'.scope m'.body = false ∧
                ∃ cause, stop = .fault cause ∧ Code.Emission.Breaks cause))
          (fun stop a => Reported s' stop a.session ∨ ∃ cause, stop = .fault cause ∧ m.Breaks text file s' cause))
      (fun stop s₁ => stmtsAnalysable tree.body = false ∧ Reported s' stop s₁) := by
  refine (ends_lower_of_text htree).mono (fun m s₁ hlower ⟨hsession, hall, hlies⟩ => ⟨hsession, hall, ?_⟩) fun _ _ h => h
  refine (Module.ends_evaluate_of_lower htree hlower hlies).mono (fun m' a heval ⟨_, hwhole, hlies'⟩ => ?_)
    fun stop a hstops => ?_
  · exact ⟨hwhole, Module.ends_emit_of_evaluate htree hlower heval hlies'⟩
  · cases stop with
    | exit status => exact .inl hstops.reported
    | fault cause => exact .inr ⟨cause, rfl, hstops.1⟩

/-- Whether a computation breaks off with a fault. -/
def Task.breaksOff {σ α : Type} (act : Task σ α) (s : σ) (fault : Fault) : Bool :=
  match act.run s with
  | (.error (.fault cause), _) => cause == fault
  | _ => false

set_option maxRecDepth 10000 in
/-- An assignment inside of an expression passes the parser and the lowering, and breaks off the evaluation. -/
theorem Program.stages_end_nested : ∃ (tree : Program Sign) (s' : Session) (m : Module) (a : Analysis),
    Yields (Program.ofText "print(h<<1).") {} tree s' ∧ Yields (tree.lower "print(h<<1)." "<unknown>") s' m s' ∧
      stmtsAnalysable tree.body = true ∧ m.evaluate.run { session := s' } = (.error (.fault (.absent "evaluate")), a) ∧
      Node.areWhole m.body = false := by
  have hgives : gives (Program.ofText "print(h<<1).") {} (fun tree s' =>
      gives (tree.lower "print(h<<1)." "<unknown>") s' fun m _ =>
        m.evaluate.breaksOff { session := s' } (.absent "evaluate")) = true := by decide +kernel
  obtain ⟨tree, s', htree, hgives'⟩ := yields_of_gives hgives
  obtain ⟨m, s₁, hlower, hbreaks⟩ := yields_of_gives hgives'
  unfold Task.breaksOff at hbreaks
  split at hbreaks
  rotate_left
  · cases hbreaks
  next cause a heval =>
  cases beq_iff_eq.1 hbreaks
  obtain ⟨rfl, hanalysable, hends⟩ := (Program.stages_end htree).of_yields hlower
  refine ⟨tree, s₁, m, a, htree, hlower, hanalysable, heval, ?_⟩
  rcases hends.of_stops heval with hreported | ⟨_, hcause, ⟨_, hwhole⟩ | ⟨hlookup, _⟩⟩
  · exact absurd hreported.1 (by simp)
  · exact hwhole
  · cases hcause
    cases hlookup

end Labyrinth
