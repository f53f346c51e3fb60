import Labyrinth.Command.Build
import Labyrinth.Proofs.Code.Stages

/-!
# What a build reports

A build writes its file and calls the C compiler only if compilation came to a result. Compilation comes to one only if
nothing was reported while the program was parsed; the reports that are collected later, while it is evaluated, do not
keep it from being built.
-/

namespace Labyrinth

open Labyrinth.Task

namespace Task

variable {α β : Type}

/-- A computation leaves the files alone, however it ends. -/
def Spares (act : Run α) : Prop :=
  ∀ s, Ends act s (fun _ s' => s'.folder = s.folder) fun _ s' => s'.folder = s.folder

theorem spares_pure (a : α) : Spares (pure a) :=
  fun _ => ends_pure.2 rfl

theorem spares_throw (stop : Stop) : Spares (throw stop : Run α) :=
  fun _ => ends_throw.2 rfl

theorem spares_ofExcept (e : Except Fault α) : Spares (ofExcept e) :=
  fun _ => ends_ofExcept.2 ⟨fun _ _ => rfl, fun _ _ => rfl⟩

theorem spares_get : Spares (get : Run Session) :=
  fun _ => ends_get.2 rfl

theorem Spares.bind {x : Run α} {f : α → Run β} (hx : Spares x) (hf : ∀ a, Spares (f a)) : Spares (x >>= f) :=
  fun s => (hx s).bind fun a s' _ hs => (hf a s').mono (fun _ _ _ h => h.trans hs) fun _ _ h => h.trans hs

end Task

namespace Command

variable (c : Command)

theorem spares_refuse {α : Type} (message : String) : Spares (c.refuse message : Run α) :=
  Spares.bind (fun _ => ends_modify.2 rfl) fun _ => spares_throw _

theorem spares_reading (text : String) : Spares (c.reading text) := by
  unfold reading
  dsimp only
  repeat' split
  all_goals first
    | exact spares_pure _
    | exact c.spares_refuse _

theorem spares_words (args : List String) : Spares (c.words args) := by
  fun_induction words c args with
  | case1 => exact spares_pure _
  | case2 rest => exact spares_pure _
  | case3 text rest _ ih =>
    refine (c.spares_reading text).bind fun r => ?_
    split
    all_goals exact (spares_pure _).bind fun _ => ih.bind fun _ => spares_pure _

theorem spares_cluster (s : Switch) (name : String) (joined : List Char) : Spares (c.cluster s name joined) := by
  induction joined generalizing s name with
  | nil =>
    unfold cluster
    split
    · exact spares_pure _
    · exact c.spares_refuse _
  | cons first rest ih =>
    unfold cluster
    dsimp only
    repeat' split
    all_goals first
      | exact spares_pure _
      | exact c.spares_refuse _
      | exact (ih _ _).bind fun _ => spares_pure _

theorem spares_useAll (g : Given) (uses : List (Switch × Option String)) : Spares (c.useAll g uses) := by
  have huse : ∀ g s value, Spares (c.use g s value) := by
    intro g s value
    unfold use
    split
    · exact Spares.bind (fun _ => ends_modify.2 rfl) fun _ => spares_throw _
    · exact spares_pure _
  induction uses generalizing g with
  | nil => exact spares_pure _
  | cons use rest ih => exact (huse _ _ _).bind fun g => ih g

theorem spares_switchesOf (r : Reading) (s : Switch) : Spares (c.switchesOf r s) := by
  unfold switchesOf
  split
  · exact spares_pure _
  · exact c.spares_cluster _ _ _

theorem spares_sort (g : Given) (words : List Word) : Spares (c.sort g words) := by
  fun_induction sort c g words with
  | case1 => exact spares_pure _
  | case10 g _ s name joined value rest ihrest ih =>
    refine (c.spares_switchesOf _ s).bind fun (uses, takesMore) => ?_
    dsimp only
    split
    · exact (c.spares_useAll g _).bind ihrest
    · exact (c.spares_useAll g _).bind ih
  | case11 g _ s name joined rest _ ih =>
    exact (c.spares_switchesOf _ s).bind fun (uses, _) => (c.spares_useAll g uses).bind ih
  | _ => assumption

theorem spares_read (args : List String) : Spares (c.read args) := by
  have hunless : ∀ (p : Prop) [Decidable p] (message : String) (act : Unit → Run Given), (∀ u, Spares (act u)) →
      Spares (if p then act () else c.refuse message >>= act) := by
    intro p _ message act hact
    split
    · exact hact ()
    · exact (c.spares_refuse message).bind hact
  exact (c.spares_words args).bind fun words => (c.spares_sort _ words).bind fun g =>
    hunless _ _ _ fun _ => hunless _ _ _ fun _ => spares_pure g

end Command

/-- Reading the arguments of a build leaves the files alone. -/
theorem BuildPlan.spares_ofArguments (args : List String) : Spares (ofArguments args) := by
  have hplan : ∀ (given : Given) source text, Spares (do
      let code ← ofExcept (output (given.value? "-c") source ".c")
      let binary ← ofExcept (output (given.value? "-o") source ".out")
      return (⟨source, text, code, binary⟩ : BuildPlan)) := fun _ _ _ =>
    (spares_ofExcept _).bind fun _ => (spares_ofExcept _).bind fun _ => spares_pure _
  have htake : Spares takeInput := fun _ => by simp [takeInput]
  refine (command.spares_read args).bind fun given => ?_
  dsimp only
  split
  · exact htake.bind fun _ => hplan given _ _
  · exact spares_get.bind fun _ => (spares_ofExcept _).bind fun _ => hplan given _ _

/-- A joined text ends with one of its parts. -/
theorem Text.exists_joined_eq_append (separator : String) {t : List String} (h : t ≠ []) :
    ∃ before, ∃ last ∈ t, joined separator t = before ++ last := by
  induction t with
  | nil => exact absurd rfl h
  | cons first rest ih =>
    cases rest with
    | nil => exact ⟨"", first, by simp, by simp [joined]⟩
    | cons second rest =>
      obtain ⟨before, last, hlast, heq⟩ := ih (List.cons_ne_nil _ _)
      refine ⟨first ++ separator ++ before, last, List.mem_cons_of_mem _ hlast, ?_⟩
      rw [joined, String.intercalate_cons_cons, ← joined, heq]
      simp only [String.append_assoc]

namespace Session

/-- A session after the collected diagnostics have been printed. -/
def printed (s : Session) (separator : String := separator) : Session :=
  { s with pending := #[], out := s.out ++ reportText separator s.pending.toList }

/-- What is collected is printed and ends the run; if nothing is, the run goes on. -/
theorem ends_reportCollected {separator : String} {s : Session} {Q : Unit → Session → Prop}
    {E : Stop → Session → Prop} : Ends (reportCollected separator) s Q E ↔
      (s.pending = #[] → Q () s) ∧ (s.pending ≠ #[] → E (.exit 1) (s.printed separator)) := by
  simp only [reportCollected, ends_bind, ends_get]
  by_cases hempty : s.pending = #[]
  · simp [hempty]
  · simp [hempty, write, printed]

/-- A run that ends with the reports it collected leaves the files alone. -/
theorem leaves_printed {s : Session} (h : s.pending ≠ #[]) : s.Leaves (.exit 1) s.printed := by
  refine ⟨rfl, fun status hstatus => ?_⟩
  cases hstatus
  obtain ⟨before, last, hlast, heq⟩ := Text.exists_joined_eq_append (separator ++ "\n")
    (t := s.pending.toList.map fun d => d.text ++ "\n") (by simpa using h)
  obtain ⟨d, -, rfl⟩ := List.mem_map.1 hlast
  exact ⟨rfl, before, d, by rw [printed, reportText, heq, String.append_assoc]⟩

end Session

namespace Program

variable {text file : String} {s : Session}

/-- The parser reads a text to its end and leaves a session behind. -/
def ParsesTo (text file : String) (s s' : Session) : Prop :=
  ∃ result parser, Yields (Parser.parse (.rule .start)) (Parser.ofText s text file) result parser ∧
    parser.cursor.session = s'

/-- A text has a tree only if it was parsed without a report. If something was reported, the reports end the run. -/
theorem ends_ofText {Q : Program Sign → Session → Prop} {E : Stop → Session → Prop} :
    Ends (ofText text file) s Q E ↔ Ends (Parser.parse (.rule .start)) (Parser.ofText s text file)
      (fun result parser => Ends (do
        Session.reportCollected
        match result with
        | .program p => return p.mapSign parser.signOf
        | _ => fail (.assertion "unreachable")) parser.cursor.session Q E)
      (fun stop parser => E stop parser.cursor.session) := by
  rw [ends_iff, ends_iff, ofText, ExceptT.run_mk]
  rcases (Parser.parse (.rule .start)).run (Parser.ofText s text file) with ⟨_ | result, parser⟩
  · rfl
  · exact ends_iff.symm

/-- A tree leaves nothing printed and nothing collected behind; a text without a tree leaves the files alone. -/
theorem ends_ofText_modest : Ends (ofText text file) s
    (fun _ s' => s.Same s' ∧ s'.pending = #[] ∧ ParsesTo text file s s') fun stop s' => s.Leaves stop s' := by
  have hmute : (Parser.ofText s text file).Mute := ⟨rfl, rfl⟩
  refine ends_ofText.2 ((Parser.modest_parse _ _ hmute).mono (fun result parser hparse ⟨_, hsame⟩ => ?_) fun _ _ h => h)
  refine ends_bind.2 (Session.ends_reportCollected.2 ⟨fun hempty => ?_, fun hpending => ?_⟩)
  · split
    · exact ends_pure.2 ⟨hsame, hempty, _, parser, hparse, rfl⟩
    · exact ends_fail.2 ⟨hsame.folder, nofun⟩
  · exact hsame.leaves (Session.leaves_printed hpending)

end Program

/-- Compilation comes to a result without printing anything. By then only mismatches of types have been collected. -/
theorem Code.ends_compile (text file : String) (s : Session) : Ends (compile text file) ({ session := s } : Analysis)
    (fun _ a => s.Same a.session ∧ (∀ d ∈ a.session.pending, d.IsMismatch) ∧
      ∃ s₁, Program.ParsesTo text file s s₁ ∧ s₁.pending = #[])
    fun stop a => s.Leaves stop a.session := by
  simp only [compile, Analysis.ofText, ends_bind, ends_inSession, if_true]
  refine Program.ends_ofText_modest.mono (fun tree s₁ htree ⟨hsame, hempty, hparses⟩ => ?_)
    fun _ _ h => h
  refine (Program.ends_lower_of_text htree).mono (fun m s₂ hlower ⟨hsession', _, hlies⟩ => ?_) ?_
  · subst hsession'
    refine Session.ends_reportCollected.2 ⟨fun _ => ?_, absurd hempty⟩
    refine (Module.ends_evaluate_of_lower htree hlower hlies).mono (fun m' a heval ⟨hkeeps, _, hlies'⟩ => ?_)
      fun _ _ hstops => hsame.leaves hstops.leaves
    have hpending : ∀ d ∈ a.session.pending, d.IsMismatch :=
      hkeeps.pending (fun d hd => absurd (hempty ▸ hd) (Array.not_mem_empty d)) fun _ h => h
    refine (Module.ends_emit_of_evaluate htree hlower heval hlies').mono ?_ ?_
    · rintro _ _ _ ⟨rfl, _⟩
      exact ⟨hsame.trans hkeeps.same, hpending, s₂, hparses, hempty⟩
    · rintro _ _ ⟨rfl, _, cause, rfl, _⟩
      exact ⟨(hsame.trans hkeeps.same).folder, nofun⟩
  · exact fun _ _ ⟨_, hreported⟩ => hsame.leaves hreported.leaves

namespace BuildPlan

variable {plan : BuildPlan} {s s' : Session} {stop : Stop}

theorem ends_compiled {Q : String → Session → Prop} {E : Stop → Session → Prop} :
    Ends plan.compiled s Q E ↔ Ends (Code.compile plan.text plan.source) ({ session := s } : Analysis)
      (fun program a => Q (program.text plan.source) a.session) fun stop a => E stop a.session := by
  rw [ends_iff, ends_iff, compiled, ExceptT.run_mk]
  rcases (Code.compile plan.text plan.source).run ({ session := s } : Analysis) with ⟨_ | program, a⟩ <;> rfl

/-- Compilation comes to C code without printing anything. By then only mismatches of types have been collected. -/
theorem ends_compiled_modest (plan : BuildPlan) (s : Session) : Ends plan.compiled s
    (fun _ s' => s.Same s' ∧ (∀ d ∈ s'.pending, d.IsMismatch) ∧
      ∃ s₁, Program.ParsesTo plan.text plan.source s s₁ ∧ s₁.pending = #[])
    fun stop s' => s.Leaves stop s' :=
  ends_compiled.2 (Code.ends_compile plan.text plan.source s)

/-- What was reported while a program was parsed is printed and ends the run. -/
theorem compiled_run_of_pending {s₁ : Session} (hparses : Program.ParsesTo plan.text plan.source s s₁)
    (hpending : s₁.pending ≠ #[]) : plan.compiled.run s = (.error (.exit 1), s₁.printed) := by
  obtain ⟨result, parser, hparse, rfl⟩ := hparses
  rw [run_eq_error_iff, ends_compiled]
  simp only [Code.compile, Analysis.ofText, ends_bind, ends_inSession]
  refine Program.ends_ofText.2 ((ends_iff_of_yields hparse).2 (ends_bind.2 ?_))
  exact Session.ends_reportCollected.2 ⟨fun hempty => absurd hempty hpending, fun _ => ⟨rfl, rfl⟩⟩

def call (plan : BuildPlan) (p : Platform) (code : String) : CompilerCall :=
  ⟨({} : CompilerSettings).commandLine p plan.binary, code⟩

variable {cc : CompilerCall → CompilerReply} {p : Platform} {args : List String} {w : Workbench}

theorem run_of_arguments (hstop : (ofArguments args).run w.session = (.error stop, s)) :
    (run cc p args).run w = (.error stop, { w with session := s }) := by
  rw [run_eq_error_iff]
  simp only [run, ends_bind, ends_inSession]
  exact (ends_iff_of_stops hstop).2 ⟨rfl, rfl⟩

theorem run_of_stops (hplan : Yields (ofArguments args) w.session plan s)
    (hstop : plan.compiled.run s = (.error stop, s')) :
    (run cc p args).run w = (.error stop, { w with session := s' }) := by
  rw [run_eq_error_iff]
  simp only [run, ends_bind, ends_inSession]
  exact (ends_iff_of_yields hplan).2 ((ends_iff_of_stops hstop).2 ⟨rfl, rfl⟩)

theorem callCompiler_yields (cc : CompilerCall → CompilerReply) (settings : CompilerSettings) (p : Platform)
    (code : String) (binary : Path) (w : Workbench) :
    ∃ out, Yields (Workbench.callCompiler cc settings p code binary) w (cc ⟨settings.commandLine p binary, code⟩).status
      ⟨{ w.session with out }, w.calls ++ [⟨settings.commandLine p binary, code⟩]⟩ := by
  by_cases hstatus : (cc ⟨settings.commandLine p binary, code⟩).status = 0
  · refine ⟨w.session.out ++ (Text.joined " " (settings.commandLine p binary) ++ "\n"), ?_⟩
    unfold Workbench.callCompiler
    simp only [hstatus, if_true]
    rfl
  · refine ⟨w.session.out ++ (Text.joined " " (settings.commandLine p binary) ++ "\n") ++
      ((cc ⟨settings.commandLine p binary, code⟩).errors ++ "\n"), ?_⟩
    unfold Workbench.callCompiler
    simp only [hstatus, if_false]
    rfl

/-- A program that was compiled is written to its file and handed to the C compiler, whose status ends the run. -/
theorem run_of_compiled {code : String} (hplan : Yields (ofArguments args) w.session plan s)
    (hcode : Yields plan.compiled s code s') :
    match s'.folder.write plan.code.text code with
    | .error cause => (run cc p args).run w = (.error (.fault cause), { w with session := s' })
    | .ok folder => ∃ out, (run cc p args).run w = (.error (.exit (cc (plan.call p code)).status),
        ⟨{ s' with folder, out }, w.calls ++ [plan.call p code]⟩) := by
  split
  · next cause hwrite =>
    have hstop : (writeFile plan.code code).run s' = (.error (.fault cause), s') := by
      rw [run_eq_error_iff]
      simp [writeFile, hwrite]
    rw [run_eq_error_iff]
    simp only [run, ends_bind, ends_inSession]
    refine (ends_iff_of_yields hplan).2 ((ends_iff_of_yields hcode).2 ?_)
    exact (ends_iff_of_stops hstop).2 ⟨rfl, rfl⟩
  · next folder hwrite =>
    have hfile : Yields (writeFile plan.code code) s' () { s' with folder } := by
      simp [writeFile, hwrite]
    obtain ⟨out, hcall⟩ := callCompiler_yields cc {} p code plan.binary { w with session := { s' with folder } }
    refine ⟨out, ?_⟩
    rw [run_eq_error_iff]
    simp only [run, ends_bind, ends_inSession]
    refine (ends_iff_of_yields hplan).2 ((ends_iff_of_yields hcode).2 ((ends_iff_of_yields hfile).2 ?_))
    exact (ends_iff_of_yields hcall).2 (ends_throw.2 ⟨rfl, rfl⟩)

/-- What becomes of every build. If its arguments cannot be understood or the program is not compiled, the files are as
before, and a status that ends the run is one and comes after a report. What was collected while the program was parsed
is printed. A program that is compiled is written to its file and handed to the C compiler: nothing was reported while it
was parsed, and what was collected while it was evaluated are mismatches of types, which are not printed. -/
theorem run_reports (cc : CompilerCall → CompilerReply) (p : Platform) (args : List String) (w : Workbench) :
    Ends (ofArguments args) w.session
      (fun plan s =>
        Ends plan.compiled s
          (fun code s' => (s.Same s' ∧ (∀ d ∈ s'.pending, d.IsMismatch) ∧
              ∃ s₁, Program.ParsesTo plan.text plan.source s s₁ ∧ s₁.pending = #[]) ∧
            match s'.folder.write plan.code.text code with
            | .error cause => (run cc p args).run w = (.error (.fault cause), { w with session := s' })
            | .ok folder => ∃ out, (run cc p args).run w = (.error (.exit (cc (plan.call p code)).status),
                ⟨{ s' with folder, out }, w.calls ++ [plan.call p code]⟩))
          (fun stop s' => s'.folder = w.session.folder ∧ s.Leaves stop s' ∧
            (run cc p args).run w = (.error stop, { w with session := s' })) ∧
        ∀ s₁, Program.ParsesTo plan.text plan.source s s₁ → s₁.pending ≠ #[] →
          (run cc p args).run w = (.error (.exit 1), { w with session := s₁.printed }))
      (fun stop s => s.folder = w.session.folder ∧
        (run cc p args).run w = (.error stop, { w with session := s })) := by
  refine ⟨fun {plan s} hplan => ⟨⟨fun {code s'} hcode => ?_, fun {stop s'} hstop => ?_⟩, ?_⟩, fun {stop s} hstop => ?_⟩
  · exact ⟨(ends_compiled_modest plan s).of_yields hcode, run_of_compiled hplan hcode⟩
  · have hleaves := (ends_compiled_modest plan s).of_stops hstop
    have hfolder := (spares_ofArguments args w.session).of_yields hplan
    exact ⟨hleaves.1.trans hfolder, hleaves, run_of_stops hplan hstop⟩
  · exact fun s₁ hparses hpending => run_of_stops hplan (compiled_run_of_pending hparses hpending)
  · exact ⟨(spares_ofArguments args w.session).of_stops hstop, run_of_arguments hstop⟩

end BuildPlan

end Labyrinth
