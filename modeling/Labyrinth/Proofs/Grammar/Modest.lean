import Labyrinth.Grammar.Reading
import Labyrinth.Proofs.Endings

/-!
# What parsing leaves alone

A parser that is not asked to show its rules prints nothing while it reads: it collects diagnostics, and it ends a run
only with a report and with status one. It never touches a file.
-/

namespace Labyrinth

namespace Task

variable {σ α β : Type} [HasSession σ] {I : σ → Prop}

/-- A computation prints nothing before it ends the run, and never touches a file. The invariant is what has to hold of
the state for that. -/
def Modest (I : σ → Prop) (act : Task σ α) : Prop :=
  ∀ s, I s → Ends act s (fun _ s' => I s' ∧ (HasSession.session s).Same (HasSession.session s'))
    fun stop s' => (HasSession.session s).Leaves stop (HasSession.session s')

theorem modest_pure (a : α) : Modest I (pure a) :=
  fun _ hs => ends_pure.2 ⟨hs, .refl _⟩

theorem modest_fail (cause : Fault) : Modest I (fail cause : Task σ α) :=
  fun _ _ => ends_fail.2 ⟨rfl, nofun⟩

theorem modest_ofExcept (e : Except Fault α) : Modest I (ofExcept e : Task σ α) := by
  cases e with
  | error cause => exact modest_fail cause
  | ok a => exact modest_pure a

theorem Modest.bind {x : Task σ α} {f : α → Task σ β} (hx : Modest I x) (hf : ∀ a, Modest I (f a)) :
    Modest I (x >>= f) := by
  refine fun s hs => (hx s hs).bind fun a s' _ ⟨hs', hsame⟩ => (hf a s' hs').mono ?_ ?_
  · exact fun _ _ _ ⟨hs'', hsame'⟩ => ⟨hs'', hsame.trans hsame'⟩
  · exact fun _ _ hleaves => hsame.leaves hleaves

/-- What is done with the state may depend on the invariant. -/
theorem modest_get_bind {f : σ → Task σ β} (hf : ∀ s, I s → Modest I (f s)) : Modest I (get >>= f) :=
  fun s hs => ends_bind.2 (ends_get.2 (hf s hs s hs))

theorem modest_modify {f : σ → σ} (hf : ∀ s, I s → I (f s) ∧
    (HasSession.session s).Same (HasSession.session (f s))) : Modest I (modify f : Task σ PUnit) :=
  fun s hs => ends_modify.2 (hf s hs)

theorem modest_modify_bind {f : σ → σ} {g : PUnit → Task σ β} (hf : ∀ s, I s → I (f s) ∧
    (HasSession.session s).Same (HasSession.session (f s))) (hg : ∀ u, Modest I (g u)) : Modest I (modify f >>= g) :=
  (modest_modify hf).bind hg

/-- A modest computation on the session. -/
theorem modest_inSession {act : Run α} (h : Modest (fun _ => True) act) (hI : ∀ s t, I s → I (HasSession.withSession s t))
    (hsession : ∀ (s : σ) t, HasSession.session (HasSession.withSession s t) = t) : Modest I (inSession act) := by
  intro s hs
  rw [ends_inSession]
  refine (h _ trivial).mono (fun a t _ ⟨_, hsame⟩ => ⟨hI s t hs, ?_⟩) fun stop t hleaves => ?_
  · rw [hsession]
    exact hsame
  · rw [hsession]
    exact hleaves

end Task

open Labyrinth.Task

namespace Session

theorem modest_report (loc : Location) (kind message : String) (source : SourceLine) :
    Modest (fun _ => True) (report loc kind message source) :=
  modest_get_bind fun _ _ => (modest_ofExcept _).bind fun _ => modest_modify fun _ _ => ⟨trivial, rfl⟩

theorem modest_reportFatal {α : Type} (loc : Location) (kind message : String) (source : SourceLine) :
    Modest (fun _ => True) (reportFatal loc kind message source : Run α) := by
  intro s _
  simp only [reportFatal, writeLine, write, ends_bind, ends_get, ends_ofExcept, ends_modify, ends_throw]
  refine ⟨fun d _ => ⟨rfl, ?_⟩, fun cause _ => ⟨rfl, by simp⟩⟩
  rintro status ⟨rfl⟩
  exact ⟨rfl, "", d, by rw [String.append_empty]; rfl⟩

end Session

namespace Cursor

def Mute (c : Cursor) : Prop := c.verbose = false

theorem modest_run {α : Type} {act : Run α} (h : Modest (fun _ => True) act) :
    Modest Mute (inSession act : Task Cursor α) :=
  modest_inSession h (fun _ _ hc => hc) fun _ _ => rfl

theorem modest_openFeed : Modest Mute openFeed := by
  refine modest_get_bind fun c _ => ?_
  split
  · exact modest_pure _
  · exact modest_modify fun c (hc : c.verbose = false) => ⟨hc, rfl⟩

theorem modest_takeFrom (items : List FeedItem) : Modest Mute (takeFrom items) := by
  induction items with
  | nil => exact modest_modify_bind (fun _ hc => ⟨hc, .refl _⟩) fun _ => modest_fail _
  | cons item rest ih =>
    cases item with
    | illegal loc line =>
      exact modest_modify_bind (fun _ hc => ⟨hc, .refl _⟩) fun _ => modest_run (Session.modest_reportFatal _ _ _ _)
    | token t complaint =>
      rw [takeFrom]
      refine modest_modify_bind (fun _ hc => ⟨hc, .refl _⟩) fun _ => Modest.bind ?_ fun _ => modest_get_bind fun c _ => ?_
      · cases complaint with
        | none => exact modest_run (modest_pure _)
        | some complaint => exact modest_run (Session.modest_report _ _ _ _)
      · split
        · exact ih
        · exact modest_modify_bind (fun _ hc => ⟨hc, .refl _⟩) fun _ => modest_pure _

theorem modest_peek : Modest Mute peek := by
  refine modest_get_bind fun c _ => ?_
  split
  · exact modest_pure _
  · refine modest_openFeed.bind fun _ => modest_get_bind fun c _ => ?_
    split
    · exact modest_takeFrom _
    · exact modest_fail _

theorem modest_next : Modest Mute next := by
  refine modest_get_bind fun _ _ => modest_get_bind fun _ _ => modest_peek.bind fun t => ?_
  refine modest_modify_bind (fun _ hc => ⟨hc, .refl _⟩) fun _ => modest_get_bind fun c hc => ?_
  rw [if_neg (by simp [show c.verbose = false from hc])]
  exact modest_pure _

theorem modest_lastTaken : Modest Mute lastTaken := by
  refine modest_get_bind fun c _ => ?_
  have hback : Modest Mute (do return (← get).tokens.back?.getD default : Task Cursor Token) :=
    modest_get_bind fun _ _ => modest_pure _
  split
  · exact modest_next.bind fun _ => hback
  · exact hback

theorem modest_lastPassed : Modest Mute lastPassed := by
  refine modest_get_bind fun c _ => (modest_ofExcept _).bind fun found => ?_
  split
  · exact modest_pure _
  · exact modest_fail _

theorem modest_reset (i : Int) : Modest Mute (reset i) := by
  intro c hc
  simp only [reset, ends_bind, ends_get]
  split
  · exact modest_pure _ c hc
  · split
    · simp only [ends_bind, ends_set]
      rw [if_neg (by simp [show c.verbose = false from hc])]
      exact ends_pure.2 ⟨hc, .refl _⟩
    · exact ends_bind.2 (ends_fail.2 ⟨rfl, by simp⟩)

end Cursor

namespace Parser

open Grammar

def Mute (p : Parser) : Prop := p.verbose = false ∧ p.cursor.Mute

theorem modest_run {α : Type} {act : Run α} (h : Modest (fun _ => True) act) :
    Modest Mute (inSession act : Task Parser α) :=
  modest_inSession h (fun _ _ hp => hp) fun _ _ => rfl

theorem ends_inCursor {α : Type} {act : Task Cursor α} {p : Parser} {Q : α → Parser → Prop}
    {E : Stop → Parser → Prop} : Ends (inCursor act) p Q E ↔
      Ends act p.cursor (fun a cursor => Q a { p with cursor }) fun stop cursor => E stop { p with cursor } :=
  ends_of_run rfl

theorem modest_inCursor {α : Type} {act : Task Cursor α} (h : Modest Cursor.Mute act) : Modest Mute (inCursor act) := by
  intro p hp
  rw [ends_inCursor]
  exact (h p.cursor hp.2).mono (fun _ _ _ ⟨hc, hsame⟩ => ⟨⟨hp.1, hc⟩, hsame⟩) fun _ _ hleaves => hleaves

theorem modest_peek : Modest Mute peek := modest_inCursor Cursor.modest_peek

theorem modest_next : Modest Mute next := modest_inCursor Cursor.modest_next

theorem modest_mark : Modest Mute mark := modest_get_bind fun _ _ => modest_pure _

theorem modest_reset (i : Int) : Modest Mute (reset i) := modest_inCursor (Cursor.modest_reset i)

/-! ### Builders -/

/-- What builders are put together from has a property, and so has whatever is put together from parts that have
it. -/
structure Composed (K : (α : Type) → Task Parser α → Prop) : Prop where
  pure : ∀ {α : Type} (a : α), K α (pure a)
  bind : ∀ {α β : Type} {x : Task Parser α} {f : α → Task Parser β}, K α x → (∀ a, K β (f a)) → K β (x >>= f)
  look : ∀ {α : Type} {f : Parser → Task Parser α}, (∀ p, K α (f p)) → K α (get >>= f)
  fail : ∀ {α : Type} (cause : Fault), K α (fail cause)
  reportSpan : ∀ message span fatal, K Unit (reportSpan message span fatal)
  newSign : ∀ sign, K SignRef (newSign sign)
  setSign : ∀ ref sign, K Unit (setSign ref sign)

namespace Composed

variable {K : (α : Type) → Task Parser α → Prop} (hK : Composed K)

include hK

theorem map {α β : Type} {x : Task Parser α} (f : α → β) (hx : K α x) : K β (f <$> x) := by
  rw [← bind_pure_comp]
  exact hK.bind hx fun _ => hK.pure _

theorem ofExcept {α : Type} (e : Except Fault α) : K α (ofExcept e) := by
  cases e with
  | error cause => exact hK.fail cause
  | ok a => exact hK.pure a

theorem named {α : Type} (kind : Except Fault String) (message : String → String) (span : Span) (fatal : Bool)
    {rest : Task Parser α} (hrest : K α rest) : K α (do
      let name ← Labyrinth.ofExcept kind
      Parser.reportSpan (message name) span fatal
      rest) :=
  hK.bind (hK.ofExcept _) fun _ => hK.bind (hK.reportSpan _ _ _) fun _ => hrest

theorem makeName (part : Parsed) (span : Span) : K NameNode (makeName part span) := by
  unfold Parser.makeName
  split
  · split
    · exact hK.named _ _ _ _ (hK.pure _)
    · exact hK.pure _
  · exact hK.pure _

theorem typeOfKind (kind : TokenKind) (place span : Span) : K TypeNode (typeOfKind kind place span) := by
  unfold Parser.typeOfKind
  split
  · exact hK.pure _
  · exact hK.named _ _ _ _ (hK.pure _)

theorem literalOf (t : Token) (tooLarge : Bool) (span : Span) :
    K (NumberNode SignRef) (literalOf t tooLarge none span) := by
  unfold Parser.literalOf
  split
  · exact hK.bind (hK.newSign _) fun _ => hK.pure _
  · exact hK.fail _

theorem makeNumber (t : Token) (span : Span) : K (NumberNode SignRef) (makeNumber t span) := by
  refine hK.bind ?_ fun tooLarge => hK.literalOf t tooLarge span
  unfold reportLength
  dsimp only
  split
  · exact hK.bind (hK.reportSpan _ _ _) fun _ => hK.pure _
  · exact hK.pure _

theorem makeInitial (what : String) (e : Expr SignRef) : K (NumberNode SignRef) (makeInitial what e) := by
  unfold Parser.makeInitial
  split
  · exact hK.pure _
  · exact hK.bind (hK.reportSpan _ _ _) fun _ => hK.bind (hK.newSign _) fun _ => hK.pure _

theorem makeTokenNames (items : List Parsed) : K (List NameNode) (makeTokenNames items) := by
  induction items with
  | nil => exact hK.pure _
  | cons item rest ih =>
    cases item with
    | token t => exact hK.bind (hK.makeName _ _) fun _ => hK.bind ih fun _ => hK.pure _
    | _ => exact ih

theorem makeSubscript (name : Parsed) (indices : List (Expr SignRef)) (span : Span) :
    K (Expr SignRef) (makeSubscript name indices span) := by
  unfold Parser.makeSubscript
  split
  · exact hK.pure _
  · exact hK.bind (hK.reportSpan _ _ _) fun _ => hK.pure _
  · exact hK.bind (hK.ofExcept _) fun _ => hK.bind (hK.reportSpan _ _ _) fun _ => hK.pure _

theorem makeCall (name : Parsed) (args : List (Expr SignRef)) (span : Span) :
    K (Expr SignRef) (makeCall name args span) := by
  unfold Parser.makeCall
  split
  · exact hK.pure _
  · exact hK.bind (hK.ofExcept _) fun _ => hK.bind (hK.reportSpan _ _ _) fun _ => hK.pure _

theorem makeAssignment (first : Expr SignRef) (rest : List (Flow × Expr SignRef)) (span : Span) :
    K (Expr SignRef) (makeAssignment first rest span) := by
  refine hK.bind ?_ fun _ => hK.pure _
  generalize List.map _ _ = bads
  induction bads with
  | nil => exact hK.pure _
  | cons bad rest ih => exact hK.bind (hK.ofExcept _) fun _ => hK.bind (hK.reportSpan _ _ _) fun _ => ih

theorem makeRobotOp (t : Token) (span : Span) : K (Expr SignRef) (makeRobotOp t span) := by
  unfold Parser.makeRobotOp robotOpOfKind
  split
  · exact hK.pure _
  · exact hK.named _ _ _ _ (hK.fail _)

theorem makeUnary (op : UnaryOp) (e : Expr SignRef) (span : Span) : K (Expr SignRef) (makeUnary op e span) := by
  unfold Parser.makeUnary
  split
  · refine hK.look fun p => ?_
    split
    · exact hK.bind (hK.setSign _ _) fun _ => hK.pure _
    · exact hK.pure _
  · exact hK.pure _

/-- Actions are put together from builders. -/
theorem perform (action : Action) (span : Span) (kept : List Parsed) : K Parsed (perform action span kept) := by
  unfold Parser.perform
  split
  case h_20 =>
    exact hK.bind (hK.typeOfKind _ _ _) fun _ => hK.bind (hK.typeOfKind _ _ _) fun _ =>
      hK.bind (hK.makeTokenNames _) fun _ => hK.map _ (hK.map _ (hK.makeInitial _ _))
  case h_22 =>
    exact hK.bind (hK.typeOfKind _ _ _) fun _ => hK.bind (hK.makeTokenNames _) fun _ =>
      hK.map _ (hK.map _ (hK.makeInitial _ _))
  all_goals
    simp [makeFieldDeclaration, makeNumberDeclaration, nameResult, makeTokenType, makeTokenName, makeNumberType, hK.pure,
      hK.bind, hK.map, hK.reportSpan, hK.makeName, hK.typeOfKind, hK.makeNumber, hK.makeInitial,
      hK.makeSubscript, hK.makeCall, hK.makeAssignment, hK.makeRobotOp, hK.makeUnary]

end Composed

theorem modest_reportSpan (message : String) (span : Span) (fatal : Bool) :
    Modest Mute (reportSpan message span fatal) := by
  refine modest_get_bind fun p _ => ?_
  have hreport : ∀ line, Modest Mute (if fatal = true then
      inSession (Session.reportFatal (Span.loc p.file ⟨span.start, span.stop, false⟩) Diagnostic.syntaxKind message line)
      else inSession (Session.report (Span.loc p.file ⟨span.start, span.stop, false⟩) Diagnostic.syntaxKind message line)) := by
    intro line
    split
    · exact modest_run (Session.modest_reportFatal _ _ _ _)
    · exact modest_run (Session.modest_report _ _ _ _)
  dsimp only
  split
  · exact (modest_pure _).bind fun _ => hreport _
  · exact (modest_fail _).bind fun _ => hreport _

theorem composed_modest : Composed fun _ => Modest Mute where
  pure := modest_pure
  bind := .bind
  look hf := modest_get_bind fun p _ => hf p
  fail := modest_fail
  reportSpan := modest_reportSpan
  newSign _ := modest_get_bind fun _ _ => modest_modify_bind (fun _ hp => ⟨hp, .refl _⟩) fun _ => modest_pure _
  setSign _ _ := modest_modify fun _ hp => ⟨hp, .refl _⟩

/-! ### Reading -/

section Reading

variable {again : Call → Task Parser Parsed} (hagain : ∀ c, Modest Mute (again c))

include hagain

theorem modest_runSteps (steps : List Step) (kept : List Parsed) (settled : Bool) :
    Modest Mute (runSteps again kept settled steps) := by
  induction steps generalizing kept settled with
  | nil => exact modest_pure _
  | cons step rest ih =>
    cases step with
    | cut => exact ih kept true
    | need c | keep c =>
      refine (hagain c).bind fun result => ?_
      split
      · exact ih _ _
      · exact modest_pure _
    | opt c | keepOpt c => exact (hagain c).bind fun _ => ih _ _
    | ahead c =>
      refine modest_mark.bind fun place => (hagain c).bind fun result => (modest_reset _).bind fun _ => ?_
      split
      · exact ih _ _
      · exact modest_pure _

theorem modest_runChoice (place : Nat) (start : Int × Int) (alternatives : List Alternative) :
    Modest Mute (runChoice again place start alternatives) := by
  induction alternatives with
  | nil => exact modest_pure _
  | cons a rest ih =>
    refine modest_get_bind fun p _ => ?_
    split
    · exact ih
    · refine (modest_runSteps hagain a.steps [] false).bind fun out => ?_
      split
      · split
        · exact modest_pure _
        · split
          · refine Modest.bind ?_ fun span => composed_modest.perform _ _ _
            exact (modest_inCursor Cursor.modest_lastPassed).bind fun _ => modest_pure _
          · exact composed_modest.perform _ _ _
      · refine (modest_reset _).bind fun _ => ?_
        split
        · exact modest_pure _
        · exact ih

theorem modest_runRounds (steps : List Step) (fuel : Nat) (done : List Parsed) :
    Modest Mute (runRounds again steps fuel done) := by
  induction fuel generalizing done with
  | zero => exact modest_fail _
  | succ fuel ih =>
    refine modest_mark.bind fun place => (modest_runSteps hagain steps [] false).bind fun out => ?_
    split
    · exact ih _
    · exact (modest_reset _).bind fun _ => modest_pure _

theorem modest_runBody (fuel : Nat) (body : Body) : Modest Mute (runBody again fuel body) := by
  refine modest_mark.bind fun place => ?_
  cases body with
  | choice alternatives =>
    have hchoice : ∀ start, Modest Mute (runChoice again place start alternatives) :=
      fun start => modest_runChoice hagain _ _ _
    dsimp only
    split
    · exact (modest_peek.bind fun _ => modest_pure _).bind hchoice
    · exact (modest_pure _).bind hchoice
  | rounds steps => exact modest_runRounds hagain _ _ _
  | gather first others =>
    refine (hagain _).bind fun item => ?_
    split
    · exact (modest_reset _).bind fun _ => modest_pure _
    · refine (hagain _).bind fun rest => ?_
      split
      · exact (modest_reset _).bind fun _ => modest_pure _
      · exact modest_pure _

theorem modest_runCall (fuel : Nat) (c : Call) : Modest Mute (runCall again fuel c) := by
  have htake : ∀ test : Token → Bool, Modest Mute (takeIf test) := by
    refine fun test => modest_peek.bind fun t => ?_
    split
    · exact modest_next.bind fun _ => modest_pure _
    · exact modest_pure _
  cases c with
  | rule r => exact modest_runBody hagain _ _
  | token r => exact modest_get_bind fun p _ => htake _
  | keyword k => exact htake _
  | expect text => exact htake _

end Reading

theorem modest_remember (place : Nat) (c : Call) (result : Parsed) (stop : Nat) :
    Modest Mute (remember place c result stop) :=
  modest_modify fun _ hp => ⟨hp, .refl _⟩

theorem modest_deepen (change : Nat → Nat) : Modest Mute (deepen change) :=
  modest_modify fun _ hp => ⟨hp, .refl _⟩

section Calls

variable {body : Task Parser Parsed} (hbody : Modest Mute body) (c : Call)

include hbody

theorem modest_remembered : Modest Mute (remembered c body) := by
  refine modest_get_bind fun p hp => modest_get_bind fun _ _ => modest_mark.bind fun place => modest_get_bind fun q _ => ?_
  simp only [hp.1, Bool.false_eq_true, if_false]
  split
  · exact (modest_reset _).bind fun _ => modest_pure _
  · refine (modest_deepen _).bind fun _ => hbody.bind fun _ => (modest_deepen _).bind fun _ => modest_mark.bind fun _ => ?_
    exact (modest_remember _ _ _ _).bind fun _ => modest_pure _

theorem modest_forgotten : Modest Mute (forgotten c body) := by
  refine modest_get_bind fun p hp => ?_
  simp only [hp.1, Bool.not_false, if_true]
  exact hbody

theorem modest_grow (level place fuel depth : Nat) (last : Parsed × Nat) :
    Modest Mute (grow c body false level place fuel depth last) := by
  induction fuel generalizing depth last with
  | zero => exact modest_fail _
  | succ fuel ih =>
    obtain ⟨last, lastStop⟩ := last
    simp only [grow, Bool.false_eq_true, if_false]
    refine (modest_reset _).bind fun _ => hbody.bind fun result => modest_mark.bind fun stop => ?_
    split
    · exact modest_pure _
    · split
      · exact modest_pure _
      · exact (modest_remember _ _ _ _).bind fun _ => ih _ _

theorem modest_grown (fuel : Nat) : Modest Mute (grown fuel c body) := by
  refine modest_get_bind fun p hp => modest_get_bind fun _ _ => modest_mark.bind fun place => modest_get_bind fun q _ => ?_
  simp only [hp.1, Bool.false_eq_true, if_false]
  split
  · exact (modest_reset _).bind fun _ => modest_pure _
  · refine (modest_deepen _).bind fun _ => (modest_remember _ _ _ _).bind fun _ => (modest_grow hbody c _ _ _ _ _).bind fun out => ?_
    refine (modest_reset _).bind fun _ => (modest_deepen _).bind fun _ => (modest_reset _).bind fun _ => ?_
    exact (modest_remember _ _ _ _).bind fun _ => modest_pure _

end Calls

theorem modest_call (fuel : Nat) (c : Call) : Modest Mute (call fuel c) := by
  induction fuel generalizing c with
  | zero => exact modest_fail _
  | succ fuel ih =>
    have hbody := modest_runCall ih fuel c
    cases c with
    | rule r =>
      simp only [call]
      cases r.memory with
      | remembered => exact modest_remembered hbody _
      | grown => exact modest_grown hbody _ fuel
      | forgotten => exact modest_forgotten hbody _
    | token r | keyword k | expect text => exact modest_remembered hbody _

/-- Parsing is modest. -/
theorem modest_parse (c : Call) : Modest Mute (parse c) := by
  have hread : Modest Mute (read c) := modest_get_bind fun p _ => modest_call _ c
  refine modest_modify_bind (fun _ hp => ⟨hp, .refl _⟩) fun _ => hread.bind fun result => ?_
  split
  · exact modest_pure _
  · refine modest_modify_bind (fun _ hp => ⟨hp, .refl _⟩) fun _ => (modest_reset _).bind fun _ =>
      modest_modify_bind (fun _ hp => ⟨hp, .refl _⟩) fun _ => hread.bind fun result => ?_
    split
    · exact modest_pure _
    · refine (modest_inCursor Cursor.modest_lastTaken).bind fun last => (modest_ofExcept _).bind fun record => ?_
      -- What is printed here comes before a report that ends the run.
      intro p hp
      simp only [ends_bind, ends_inSession, Session.writeLine, Session.write, ends_modify, ends_get]
      refine (Session.modest_reportFatal _ _ _ _ _ trivial).mono (fun a s h _ => ?_)
        fun stop s hleaves => Session.Leaves.of_written (s := p.cursor.session) hleaves
      simp [Session.reportFatal] at h

end Parser

end Labyrinth
