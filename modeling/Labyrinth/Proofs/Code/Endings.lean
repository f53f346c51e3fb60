import Labyrinth.Proofs.Analysis.Endings
import Labyrinth.Proofs.Analysis.Rules
import Labyrinth.Proofs.Code.Flows

/-!
# How emission ends

The emission of a program that was evaluated reports nothing. It comes to code if every name that is assigned to has a
value in the scope of the function that the assignment stands in, and a literal goes to a name of its own sort.
Otherwise it breaks off.
-/

namespace Labyrinth

open List Labyrinth.Task

namespace Node

def isLiteral : Node → Bool
  | .int _ _ _ => true
  | .matrix _ _ _ _ => true
  | _ => false

/-- Whether a value can be stored in a variable of a type: a literal only in one of its own sort. -/
def isStorable (value : Node) (type : ValueType) : Bool :=
  match value, type with
  | .matrix _ _ _ _, .matrix _ _ => true
  | .matrix _ _ _ _, _ => false
  | .int _ _ _, .int _ => true
  | .int _ _ _, _ => false
  | _, _ => true

/-- Whether a value can be assigned to a target in a scope: a name has to have a value there. -/
def isAssignable (scope : Scope) (value target : Node) : Bool :=
  match target with
  | .name _ x => (scope.value? x).any fun v => value.isStorable v.type
  | _ => true

mutual

/-- Whether a node can be emitted in a scope. -/
def isEmittable (scope : Scope) : Node → Bool
  | .assign _ targets value => targets.all (isAssignable scope value) && value.isEmittable scope
  | .condition _ _ body => areEmittable scope body
  | .loop _ _ body => areEmittable scope body
  | .function _ _ inner body => areEmittable inner body
  | _ => true

def areEmittable (scope : Scope) : List Node → Bool
  | [] => true
  | n :: ns => n.isEmittable scope && areEmittable scope ns

end

/-- What emission looks up at a node itself: the number that is given back, and that a function has a value. -/
def Noted : Node → Prop
  | .giveBack info _ => ∃ loc type value, info.value = some (.int loc type value)
  | .function info _ _ _ => ∃ v, info.value = some v
  | _ => True

/-- Nodes that obey the rules have what emission looks up. -/
theorem Ruled.noted {inFunction : Bool} {n : Node} (h : n.Ruled inFunction) : Throughout Noted n := by
  induction n using inductionOn generalizing inFunction with | h n ih =>
  obtain ⟨⟨⟨v, hv⟩, hobeys⟩, hchildren⟩ := ruled_iff.1 h
  refine throughout_iff.2 ⟨?_, fun child hchild => ?_⟩
  · cases n with
    | giveBack info value =>
      obtain ⟨-, -, w, hw, type, htype⟩ := hobeys
      cases w with
      | int loc type n => exact ⟨loc, type, n, hw⟩
      | matrix | function | module => cases htype
    | function info head scope body => exact ⟨v, hv⟩
    | assign | call | binary | compare | subscript | name | condition | loop | int | matrix | builtin | missing =>
      trivial
  · by_cases hvalued : child ∈ n.valued
    · exact ih child hchild (hchildren child hvalued)
    · -- Only a name that is assigned to is not in value position.
      cases n with
      | assign info targets value =>
        have hname : child.isName = true := by
          by_contra hname
          rcases mem_cons.1 hchild with rfl | htarget
          · exact hvalued mem_cons_self
          · exact hvalued (mem_cons_of_mem _ (mem_filter.2 ⟨htarget, by simpa using hname⟩))
        cases child with
        | name info x => exact throughout_iff.2 ⟨trivial, forall_mem_nil _⟩
        | _ => cases hname
      | _ => exact absurd hchild hvalued

end Node

namespace Code.Emission

open Node

variable {fns : List Value} {S : List Scope} {n : Node} {v : Value} {t : Emission}

/-- The source text of a location can be looked for if its line has a number from one on. -/
def Findable (loc : Location) : Prop := 1 ≤ loc.line

theorem yields_valueOf (h : n.info.value = some v) (t : Emission) : Yields (valueOf n) t v t := by
  unfold valueOf
  split
  · cases h
  · rw [h]
    exact yields_pure.2 ⟨rfl, rfl⟩

theorem yields_typeOf (h : n.info.value = some v) (t : Emission) : Yields (typeOf n) t v.type t :=
  (yields_valueOf h t).bind (yields_pure.2 ⟨rfl, rfl⟩)

theorem settles_typeOf (h : n.info.value = some v) : Settles (typeOf n) :=
  fun t => ⟨v.type, yields_typeOf h t⟩

variable {ns : List Node} {loc : Location} {value : Node} {written : Task Emission CExpr} {x : String}
  {type : ValueType}

theorem settles_typesOf (h : ∀ n ∈ ns, ∃ v, n.info.value = some v) : Settles (typesOf ns) := by
  induction ns with
  | nil => exact settles_pure _
  | cons n ns ih =>
    obtain ⟨⟨v, hv⟩, hns⟩ := forall_mem_cons.1 h
    exact (settles_typeOf hv).bind fun _ => (ih hns).bind fun _ => settles_pure _

theorem settles_assertMessage (h : Findable loc) : Settles (assertMessage loc) := by
  intro t
  obtain ⟨text, htext⟩ : ∃ text, loc.sourceText t.lines = .ok text := by
    unfold Location.sourceText
    split
    · exact ⟨none, rfl⟩
    · next hline =>
      obtain ⟨line, hitem⟩ := Text.exists_item? h (Int.not_lt.1 hline)
      rw [hitem]
      exact ⟨_, rfl⟩
  refine ⟨_, (yields_get.2 ⟨rfl, rfl⟩).bind ((yields_ofExcept.2 ⟨htext, rfl⟩).bind (yields_pure.2 ⟨rfl, rfl⟩))⟩

theorem settles_emitExprs (h : ∀ n ∈ ns, Settles (emitExpr n)) : Settles (emitExprs ns) := by
  induction ns with
  | nil =>
    rw [emitExprs]
    exact settles_pure _
  | cons n ns ih =>
    obtain ⟨hn, hns⟩ := forall_mem_cons.1 h
    rw [emitExprs]
    exact hn.bind fun _ => (ih hns).bind fun _ => settles_pure _

theorem settles_emitAsserts {types : List ValueType} {exprs : List CExpr} {messages : List String}
    (h : ∀ n ∈ ns, Settles (emitExpr n)) (hv : ∀ n ∈ ns, ∃ v, n.info.value = some v)
    (hloc : ∀ n ∈ ns, Findable n.info.loc) : Settles (emitAsserts types exprs messages ns) := by
  induction ns generalizing types exprs messages with
  | nil =>
    rw [emitAsserts]
    exact settles_pure _
  | cons n ns ih =>
    obtain ⟨hn, hns⟩ := forall_mem_cons.1 h
    obtain ⟨⟨v, hv⟩, hvs⟩ := forall_mem_cons.1 hv
    obtain ⟨hloc, hlocs⟩ := forall_mem_cons.1 hloc
    rw [emitAsserts]
    exact (settles_typeOf hv).bind fun _ => (settles_assertMessage hloc).bind fun _ => hn.bind fun _ => ih hns hvs hlocs

/-- A call of a function is emitted if its arguments are. -/
theorem settles_call {info : NodeInfo} {operand : Node} {args : List Node} {kind : FunctionKind} {name : String}
    {params : Option (List (String × Value))} {returns : Value}
    (hoperand : operand.info.value = some (.function loc kind name params returns))
    (h : ∀ n ∈ args, Settles (emitExpr n)) (hv : ∀ n ∈ args, ∃ v, n.info.value = some v)
    (hloc : ∀ n ∈ args, Findable n.info.loc) : Settles (emitExpr (.call info operand args)) := by
  rw [emitExpr]
  refine .of_yields (yields_valueOf hoperand) ?_
  split
  · exact (settles_typesOf hv).bind fun _ => (settles_emitExprs h).bind fun _ => settles_pure _
  · exact settles_emitAsserts h hv hloc
  · exact (settles_emitExprs h).bind fun _ => settles_pure _
  · next hno => exact absurd rfl (hno _ _ _ _ _)

theorem lies_of_typed (h : Typed fns S n v) (hn : Throughout (Located Findable) n) : Findable n.info.loc := by
  have hroot := (throughout_iff.1 hn).1
  cases h <;> exact hroot

/-- Expressions that were evaluated are emitted. -/
theorem settles_emitExpr (h : Typed fns S n v) (hn : Throughout (Located Findable) n) : Settles (emitExpr n) := by
  induction h with
  | name | int =>
    rw [emitExpr]
    exact settles_pure _
  | robot hop => exact settles_call (congrArg some hop) (forall_mem_nil _) (forall_mem_nil _) (forall_mem_nil _)
  | call _ _ hargs ih =>
    have hchildren := (forall_mem_cons.1 (throughout_iff.1 hn).2).2
    refine settles_call rfl (forall_mem_map.2 fun r hr => ih r hr ?_) (forall_mem_map.2 fun r hr => ?_)
      (forall_mem_map.2 fun r hr => ?_)
    · exact hchildren r.1 (mem_map_of_mem hr)
    · exact ⟨r.2, (hargs r hr).value⟩
    · exact lies_of_typed (hargs r hr) (hchildren r.1 (mem_map_of_mem hr))
  | subscript _ _ _ ihi ihj =>
    have hchildren := (throughout_iff.1 hn).2
    rw [emitExpr, emitExpr]
    refine .of_yields (yields_typeOf rfl) ((settles_pure _).bind fun _ => (settles_pure _).bind fun _ => ?_)
    refine (ihi (hchildren _ (by simp [children]))).bind fun _ => (ihj (hchildren _ (by simp [children]))).bind fun _ => ?_
    exact settles_pure _
  | binary hl hr _ ihl ihr =>
    have hchildren := (throughout_iff.1 hn).2
    rw [emitExpr]
    refine (settles_typeOf hl.value).bind fun _ => (settles_typeOf hr.value).bind fun _ => ?_
    refine (ihl (hchildren _ (by simp [children]))).bind fun _ => (ihr (hchildren _ (by simp [children]))).bind fun _ => ?_
    exact settles_pure _
  | compare _ _ ho hs _ iho ihs =>
    obtain ⟨hfirst, hrest⟩ := forall_mem_cons.1 (throughout_iff.1 hn).2
    rw [emitExpr]
    refine (settles_typeOf ho.value).bind fun _ => (settles_typesOf ?_).bind fun _ => (iho hfirst).bind fun _ => ?_
    · exact forall_mem_map.2 fun r hr => ⟨r.2, (hs r hr).value⟩
    · refine (settles_emitExprs (forall_mem_map.2 fun r hr => ihs r hr ?_)).bind fun _ => settles_pure _
      exact hrest r.1 (mem_map_of_mem hr)

/-- The emission is still in the same scope, and the session has not changed. -/
structure Kept (t t' : Emission) : Prop where
  session : t'.session = t.session
  scope : t'.scope = t.scope

/-- The ways in which emission may break off: a name has no value, or a value of another sort. -/
inductive Breaks : Fault → Prop where
  | missingKey (x : String) : Breaks (.missingKey x)
  | assertion (message : String) : Breaks (.assertion message)

def Broke (t : Emission) (stop : Stop) (t' : Emission) : Prop :=
  t'.session = t.session ∧ ∃ cause, stop = .fault cause ∧ Breaks cause

theorem ends_storeLiteral (hvalue : value.isLiteral = true) :
    Ends (storeNamed value written x type) t (fun _ t' => t' = t ∧ value.isStorable type = true)
      (fun stop t' => Broke t stop t' ∧ value.isStorable type = false) := by
  cases value with
  | int info literal n =>
    cases type with
    | int type => exact ends_pure.2 ⟨rfl, rfl⟩
    | matrix | module | function => exact ends_fail.2 ⟨⟨rfl, _, rfl, .assertion _⟩, rfl⟩
  | matrix info item index n =>
    cases type with
    | matrix item index => exact ends_pure.2 ⟨rfl, rfl⟩
    | int | module | function => exact ends_fail.2 ⟨⟨rfl, _, rfl, .assertion _⟩, rfl⟩
  | assign | call | giveBack | binary | compare | subscript | name | condition | loop | function | builtin | missing =>
    cases hvalue

/-- What is no literal is written out to be stored. -/
theorem ends_storeWritten {value : Node} {written : Task Emission CExpr} {x : String} {type : ValueType}
    {Q : Emission → Prop} {E : Stop → Emission → Prop} (hvalue : value.isLiteral = false)
    (htype : Settles (typeOf value)) (hwritten : Ends written t (fun _ => Q) E) :
    Ends (storeNamed value written x type) t (fun _ => Q) E ∧ value.isStorable type = true := by
  have hstore : ∀ f : CExpr → CStore, Ends (do return f (← written)) t (fun _ => Q) E :=
    fun f => hwritten.bind fun _ _ _ h => ends_pure.2 h
  constructor
  · unfold storeNamed
    split
    · cases hvalue
    · cases hvalue
    · cases hvalue
    · cases hvalue
    · refine ends_bind.2 (htype.ends fun type _ => ?_)
      split
      · exact hstore _
      · exact hstore _
    · exact hstore _
  · unfold isStorable
    split
    · rfl
    · cases hvalue
    · rfl
    · cases hvalue
    · rfl

/-- A value that can be written out is stored if it can be stored at all. -/
theorem ends_storeNamed (hvalue : value.isLiteral = true ∨ Settles (typeOf value)) (hwritten : Settles written) :
    Ends (storeNamed value written x type) t (fun _ t' => t' = t ∧ value.isStorable type = true)
      (fun stop t' => Broke t stop t' ∧ value.isStorable type = false) := by
  by_cases hliteral : value.isLiteral = true
  · exact ends_storeLiteral hliteral
  · have htype := hvalue.resolve_left hliteral
    rw [Bool.not_eq_true] at hliteral
    obtain ⟨hends, hstorable⟩ : Ends (storeNamed value written x type) t (fun _ t' => t' = t) (fun _ _ => False) ∧
        value.isStorable type = true := ends_storeWritten hliteral htype (hwritten.ends fun _ _ => rfl)
    exact hends.mono (fun _ _ _ h => ⟨h, hstorable⟩) fun _ _ h => h.elim

/-- Assignments of a value that can be written out. -/
theorem ends_emitStores {value : Node} {written : Task Emission CExpr} {targets : List Node}
    (hvalue : value.isLiteral = true ∨ Settles (typeOf value)) (hwritten : Settles written)
    (htargets : ∀ target ∈ targets, (∃ info x, target = .name info x) ∨ Settles (emitExpr target)) :
    Ends (emitStores value written targets) t (fun _ t' => t' = t ∧ targets.all (isAssignable t.scope value) = true)
      (fun stop t' => Broke t stop t' ∧ targets.all (isAssignable t.scope value) = false) := by
  induction targets with
  | nil =>
    rw [emitStores]
    exact ends_pure.2 ⟨rfl, rfl⟩
  | cons target targets ih =>
    obtain ⟨htarget, hrests⟩ := forall_mem_cons.1 htargets
    -- What holds of the first target and of the others holds of all of them.
    have hrest : ∀ store : CStore, isAssignable t.scope value target = true →
        Ends (do return store :: (← emitStores value written targets)) t
          (fun _ t' => t' = t ∧ (target :: targets).all (isAssignable t.scope value) = true)
          (fun stop t' => Broke t stop t' ∧ (target :: targets).all (isAssignable t.scope value) = false) := by
      intro store hfirst
      rw [all_cons, hfirst, Bool.true_and]
      exact (ih hrests).bind fun _ _ _ h => ends_pure.2 h
    unfold emitStores
    split
    · next heq => cases heq
    · next info x rest heq =>
      cases heq
      simp only [scopeType, ends_bind, ends_get]
      cases hx : t.scope.value? x with
      | none =>
        refine ends_fail.2 ⟨⟨rfl, _, rfl, .missingKey _⟩, ?_⟩
        simp [isAssignable, hx]
      | some v =>
        have hassignable : isAssignable t.scope value (.name info x) = value.isStorable v.type := by
          rw [isAssignable, hx]
          rfl
        refine ends_pure.2 ((ends_storeNamed hvalue hwritten).mono (fun store t' _ h => ?_) ?_)
        · obtain ⟨rfl, hstorable⟩ := h
          exact ends_bind.1 (hrest store (hassignable.trans hstorable))
        · exact fun _ _ h => ⟨h.1, by rw [all_cons, hassignable, h.2]; rfl⟩
    · next target' rest hname heq =>
      cases heq
      have hsettles := htarget.resolve_left (by rintro ⟨info, x, h⟩; exact hname info x h)
      refine ends_bind.2 (hsettles.ends fun e _ => ends_bind.2 (hwritten.ends fun w _ => hrest _ ?_))
      unfold isAssignable
      split
      · exact absurd rfl (hname _ _)
      · rfl

/-- The emission of a statement ends: it comes to code exactly if the statement can be emitted in the scope. -/
def EmitsStmt (n : Node) : Prop :=
  ∀ t : Emission, Ends (emitStmtOr (emitExpr n) n) t (fun _ t' => Kept t t' ∧ n.isEmittable t.scope = true)
    (fun stop t' => Broke t stop t' ∧ n.isEmittable t.scope = false)

theorem ends_emitStmts (hns : ∀ n ∈ ns, EmitsStmt n) (t : Emission) :
    Ends (emitStmts ns) t (fun _ t' => Kept t t' ∧ areEmittable t.scope ns = true)
      (fun stop t' => Broke t stop t' ∧ areEmittable t.scope ns = false) := by
  induction ns generalizing t with
  | nil =>
    rw [emitStmts]
    exact ends_pure.2 ⟨⟨rfl, rfl⟩, rfl⟩
  | cons n ns ih =>
    obtain ⟨hn, hns⟩ := forall_mem_cons.1 hns
    rw [emitStmts, ends_bind]
    refine (hn t).mono (fun _ t' _ h => ?_) fun _ _ h => ⟨h.1, ?_⟩
    · obtain ⟨hkept, hfirst⟩ := h
      rw [ends_bind]
      have hall : areEmittable t.scope (n :: ns) = areEmittable t'.scope ns := by
        rw [areEmittable, hfirst, hkept.scope]
        rfl
      rw [hall]
      refine (ih hns t').mono (fun _ _ _ h => ends_pure.2 ⟨⟨?_, ?_⟩, h.2⟩)
        fun _ _ h => ⟨⟨h.1.1.trans hkept.session, h.1.2⟩, h.2⟩
      · exact h.1.session.trans hkept.session
      · exact h.1.scope.trans hkept.scope
    · rw [areEmittable, h.2]
      rfl

/-- A function is emitted in its own scope. -/
theorem ends_emitFunction {info : NodeInfo} {head : FunctionHead} {scope : Scope} {body : List Node}
    (hbody : ∀ n ∈ body, EmitsStmt n) (t : Emission) :
    Ends (emitExpr (.function info head scope body)) t (fun _ t' => Kept t t' ∧ areEmittable scope body = true)
      (fun stop t' => Broke t stop t' ∧ areEmittable scope body = false) := by
  simp only [emitExpr, ends_bind, ends_get, ends_modify, ends_pure]
  exact (ends_emitStmts hbody { t with scope }).mono (fun _ _ _ h => ⟨⟨h.1.session, rfl⟩, h.2⟩)
    fun _ _ h => h

theorem emitStmtOr_typed (h : Typed fns S n v) : emitStmtOr (emitExpr n) n = do return .expr (← emitExpr n) := by
  cases h <;> rfl

theorem isEmittable_typed (h : Typed fns S n v) (scope : Scope) : n.isEmittable scope = true := by
  cases h <;> simp [isEmittable]

/-- Statements that were evaluated are emitted as far as they can be. -/
theorem emitsStmt (h : Checked fns S n) (hloc : Throughout (Located Findable) n) (hnoted : Throughout Noted n) :
    EmitsStmt n := by
  induction h with
  | expr hn =>
    intro t
    rw [emitStmtOr_typed hn]
    refine ends_bind.2 ((settles_emitExpr hn hloc).ends fun _ _ => ends_pure.2 ⟨⟨rfl, rfl⟩, ?_⟩)
    exact isEmittable_typed hn _
  | @assign S loc targets value v hne _ htargets hv =>
    intro t
    obtain ⟨hvalue, hts⟩ := forall_mem_cons.1 (throughout_iff.1 hloc).2
    have hends := @ends_emitStores t _ _ _ (.inr (settles_typeOf hv.value)) (settles_emitExpr hv hvalue) fun target htarget =>
      (htargets target htarget).imp_right fun hw => settles_emitExpr hw.choose_spec (hts target htarget)
    rw [emitStmtOr, isEmittable, isEmittable_typed hv, Bool.and_true, ends_bind]
    exact hends.mono (fun _ _ _ h => ends_pure.2 ⟨h.1 ▸ ⟨rfl, rfl⟩, h.2⟩) fun _ _ h => h
  | @field S info targets fieldInfo item index value hts =>
    intro t
    have hwritten : Settles (emitExpr (.matrix fieldInfo item index value)) := by
      rw [emitExpr]
      exact settles_pure _
    have hends := @ends_emitStores t (.matrix fieldInfo item index value) _ targets (.inl rfl) hwritten
      fun target htarget => .inl (hts target htarget)
    rw [emitStmtOr, isEmittable, isEmittable, Bool.and_true, ends_bind]
    · exact hends.mono (fun _ _ _ h => ends_pure.2 ⟨h.1 ▸ ⟨rfl, rfl⟩, h.2⟩) fun _ _ h => h
    all_goals simp
  | @function S info nameInfo functionInfo head scope body _ _ _ _ _ _ ih =>
    intro t
    obtain ⟨hfunction, -⟩ := forall_mem_cons.1 (throughout_iff.1 hloc).2
    obtain ⟨hnoted, -⟩ := forall_mem_cons.1 (throughout_iff.1 hnoted).2
    obtain ⟨⟨v, hv⟩, hnotes⟩ := throughout_iff.1 hnoted
    have hwritten := @ends_emitFunction functionInfo head scope body
      (fun n hn => ih n hn ((throughout_iff.1 hfunction).2 n hn) (hnotes n hn)) t
    simp only [emitStmtOr, emitStores, scopeType, ends_bind, ends_get, ends_pure]
    cases hx : t.scope.value? head.name with
    | none =>
      refine ends_fail.2 ⟨⟨rfl, _, rfl, .missingKey _⟩, ?_⟩
      simp [isEmittable, isAssignable, hx]
    | some w =>
      obtain ⟨hends, hstorable⟩ := @ends_storeWritten t (.function functionInfo head scope body) _ head.name w.type _ _
        rfl (settles_typeOf hv) hwritten
      have hemittable : isEmittable t.scope (.assign info [.name nameInfo head.name]
          (.function functionInfo head scope body)) = areEmittable scope body := by
        simp [isEmittable, isAssignable, hx, hstorable]
      rw [hemittable]
      exact ends_pure.2 hends
  | giveBack hv =>
    intro t
    obtain ⟨⟨origin, type, value, hinfo⟩, _⟩ := throughout_iff.1 hnoted
    have hvalue := (throughout_iff.1 hloc).2 _ mem_cons_self
    simp only [emitStmtOr, hinfo, ends_bind, ends_get]
    refine (settles_emitExpr hv hvalue).ends fun _ _ => ends_pure.2 ⟨⟨rfl, rfl⟩, ?_⟩
    simp [isEmittable]
  | condition ht _ ih | loop ht _ ih =>
    intro t
    obtain ⟨htest, hbody⟩ := forall_mem_cons.1 (throughout_iff.1 hloc).2
    have hnotes := (forall_mem_cons.1 (throughout_iff.1 hnoted).2).2
    rw [emitStmtOr, isEmittable, ends_bind]
    refine (settles_emitExpr ht htest).ends fun _ _ => ?_
    exact (ends_emitStmts (fun n hn => ih n hn (hbody n hn) (hnotes n hn)) t).bind fun _ _ _ h => ends_pure.2 h

end Code.Emission

namespace Code

variable {text : String} {m : Module} {s : Session}

theorem ends_emit_iff {Q : CProgram → Session → Prop} {E : Stop → Session → Prop} :
    Ends (emit text m) s Q E ↔ Ends (do
      let body ← Emission.emitStmts m.body
      return ⟨(← get).functions.toList, ⟨Emission.variablesOf m.scope, body, Emission.freesOf m.scope⟩⟩)
      { session := s, lines := Text.splitLines text, scope := m.scope : Emission }
      (fun p t => Q p t.session) (fun stop t => E stop t.session) :=
  ends_of_run rfl

/-- The emission of a program that was evaluated comes to code exactly if the program can be emitted. It reports
nothing. -/
theorem ends_emit {S : List Scope} (hm : m.Checked S)
    (hloc : ∀ n ∈ m.body, Node.Throughout (Node.Located Emission.Findable) n)
    (hnoted : ∀ n ∈ m.body, Node.Throughout Node.Noted n) :
    Ends (emit text m) s (fun _ s' => s' = s ∧ Node.areEmittable m.scope m.body = true)
      (fun stop s' => s' = s ∧ Node.areEmittable m.scope m.body = false ∧
        ∃ cause, stop = .fault cause ∧ Emission.Breaks cause) := by
  have hstmts : ∀ n ∈ m.body, Emission.EmitsStmt n :=
    fun n hn => Emission.emitsStmt (hm.body n hn) (hloc n hn) (hnoted n hn)
  simp only [ends_emit_iff, ends_bind, ends_get, ends_pure]
  exact (Emission.ends_emitStmts hstmts _).mono (fun _ _ _ h => ⟨h.1.session, h.2⟩)
    fun _ _ h => ⟨h.1.1, h.2, h.1.2⟩

end Code

end Labyrinth
