import Labyrinth.Proofs.Analysis.Checked
import Labyrinth.Proofs.Code.Forms
import Labyrinth.Proofs.Code.Rounding

/-!
# Where values go

A value goes into a variable, into an element of a field, into a parameter, or back to the caller. These flows of an
analysed program and of the C program that it is emitted to match one by one. Only on the way into a variable is a value
converted. The conversion rounds it, unless it is out of the range that the conversion is made for; on the other ways it
is stored as it is.
-/

namespace Labyrinth.Code

open List Labyrinth.Task

/-! ### What a place receives -/

/-- What a place of a type holds after it was given an expression, if the expression has a value, before it is
converted in case it is. A conversion takes its argument in the C type of its source. -/
def CExpr.received (t : IntType) : CExpr → Int → Int
  | .convert source target _, v => t.store (source.convert target (source.store v))
  | _, v => t.store v

variable {t : IntType} {e : CExpr}

/-- A conversion rounds what is in the range that it is made for. -/
theorem CExpr.received_convert {s : IntType} {v : Int} (e : CExpr) (h : s.Holds v) :
    (CExpr.convert s t e).received t v = t.clamp v := by
  rw [received, IntType.store_of_holds h, IntType.convert_eq_clamp h, IntType.store_clamp]

/-- A place of a type keeps every value that fits into its C type as it is, so that it is rounded only if it is in the
range of the type already. -/
def CExpr.KeptIn (t : IntType) (e : CExpr) : Prop :=
  ∀ v, t.Fits v → e.received t v = v ∧ (e.received t v = t.clamp v ↔ t.Holds v)

theorem CExpr.keptIn_of_received (h : ∀ v, t.Fits v → e.received t v = v) : e.KeptIn t := by
  intro v hv
  rw [h v hv]
  exact ⟨rfl, eq_comm.trans IntType.clamp_eq_self_iff⟩

/-- The conversion of a type to itself rounds nothing. -/
theorem CExpr.keptIn_convert (t : IntType) (e : CExpr) : (CExpr.convert t t e).KeptIn t :=
  keptIn_of_received fun v hv => by
    rw [received, IntType.store_of_fits hv, IntType.convert, if_pos rfl, IntType.store_of_fits hv]

/-- Without a conversion nothing is rounded. -/
theorem Emission.Forms.keptIn {n : Node} (h : Emission.Forms n e) (t : IntType) : e.KeptIn t :=
  CExpr.keptIn_of_received fun v hv => by cases h <;> exact IntType.store_of_fits hv

/-! ### Flows -/

/-- A value on its way: to what a target in a scope stands for, to a parameter of a function, or to the caller. -/
inductive Flow where
  | store (scope : Scope) (target value : Node)
  | parameter (value : Node)
  | result (value : Node)

/-- An expression of the emitted code that is stored, passed to a function, or given back. -/
inductive CFlow where
  | store (store : CStore)
  | parameter (value : CExpr)
  | result (value : CExpr)

/-- Whether what is called takes arguments of its own, as all functions but those that print or assert do. -/
def takesArguments (callee : Node) : Bool :=
  match callee.info.value with
  | some (.function _ .print _ _ _) | some (.function _ .assert _ _ _) => false
  | _ => true

mutual

/-- The arguments that are passed to functions in an expression, innermost first. -/
def passed : Node → List Node
  | .call _ callee args => passedIn args ++ if takesArguments callee then args else []
  | .binary _ lhs _ rhs => passed lhs ++ passed rhs
  | .compare _ operand _ operands => passed operand ++ passedIn operands
  | .subscript _ _ i j => passed i ++ passed j
  | _ => []

def passedIn : List Node → List Node
  | [] => []
  | n :: ns => passed n ++ passedIn ns

end

mutual

/-- The arguments that are passed to functions in an emitted expression, innermost first. -/
def CExpr.passed : CExpr → List CExpr
  | .apply _ args => CExpr.passedIn args ++ args
  | .print _ args | .asserts _ args _ => CExpr.passedIn args
  | .binary _ _ _ lhs rhs => lhs.passed ++ rhs.passed
  | .compare first _ _ _ operands => first.passed ++ CExpr.passedIn operands
  | .element _ _ i j => i.passed ++ j.passed
  | .convert _ _ e => e.passed
  | _ => []

def CExpr.passedIn : List CExpr → List CExpr
  | [] => []
  | e :: es => e.passed ++ CExpr.passedIn es

end

mutual

/-- The flows of a statement in a scope, in the order of the emitted code: a value is written anew for each of its
targets. What a field is filled with is no flow. -/
def flows (s : Scope) : Node → List Flow
  | .assign _ _ (.matrix _ _ _ _) => []
  | .assign _ targets value => targets.flatMap fun t =>
    (passed t ++ passed value).map .parameter ++ [.store s t value]
  | .giveBack _ value => (passed value).map .parameter ++ [.result value]
  | .condition _ test body | .loop _ test body => (passed test).map .parameter ++ flowsIn s body
  | n => (passed n).map .parameter

def flowsIn (s : Scope) : List Node → List Flow
  | [] => []
  | n :: ns => flows s n ++ flowsIn s ns

end

mutual

/-- The flows of the functions that are defined in a statement, innermost first. -/
def innerFlows : Node → List Flow
  | .assign _ _ (.function _ _ scope body) => innerFlowsIn body ++ flowsIn scope body
  | .condition _ _ body | .loop _ _ body => innerFlowsIn body
  | _ => []

def innerFlowsIn : List Node → List Flow
  | [] => []
  | n :: ns => innerFlows n ++ innerFlowsIn ns

end

def CStore.flows : CStore → List CFlow
  | .setUp _ _ _ _ => []
  | .element target value => (target.passed ++ value.passed).map .parameter ++ [.store (.element target value)]
  | .variable type x value => value.passed.map .parameter ++ [.store (.variable type x value)]
  | .bare value => value.passed.map .parameter ++ [.store (.bare value)]

mutual

def CStmt.flows : CStmt → List CFlow
  | .expr e => e.passed.map .parameter
  | .assign stores => stores.flatMap CStore.flows
  | .giveBack _ e => e.passed.map .parameter ++ [.result e]
  | .condition test body | .loop test body => test.passed.map .parameter ++ CStmt.flowsIn body

def CStmt.flowsIn : List CStmt → List CFlow
  | [] => []
  | s :: ss => s.flows ++ CStmt.flowsIn ss

end

/-- The flows of an analysed program, those of its functions first. -/
def flowsOf (m : Module) : List Flow :=
  innerFlowsIn m.body ++ flowsIn m.scope m.body

/-- The flows of an emitted program, those of its functions first. -/
def CProgram.flows (p : CProgram) : List CFlow :=
  (p.functions.flatMap fun f => CStmt.flowsIn f.block.body) ++ CStmt.flowsIn p.block.body

/-! ### How values are carried -/

/-- What a value is written as: nothing if it is a function, and otherwise what it is emitted as. -/
def Writes (lines : Array String) (value : Node) (e : CExpr) : Prop :=
  Emission.Emits lines value e ∨ e = .nothing ∧ ∃ info head scope body, value = .function info head scope body

/-- What is known of what a stored value becomes. A variable that is given a conversion holds the rounded value of what
is in the range that the conversion is made for, but one of that very type keeps every value; so does an element. -/
def CStore.Delivers : CStore → Prop
  | .variable (.int t) _ (.convert source target e) => target = t ∧
    (∀ v, source.Holds v → (CExpr.convert source t e).received t v = t.clamp v) ∧
    (source = t → (CExpr.convert source t e).KeptIn t)
  | .element _ e => ∀ t, e.KeptIn t
  | _ => True

/-- How an emitted flow carries the value of a flow. A number goes into a variable through a conversion that is made for
the type recorded for it, or for big numbers if it is a literal. Elements, parameters and results get no conversion. -/
def Carries (lines : Array String) : Flow → CFlow → Prop
  | .store s target value, .store store =>
    Emission.FormsStore lines s value (Writes lines value) target store ∧ store.Delivers
  | .parameter value, .parameter e | .result value, .result e => Emission.Forms value e ∧ ∀ t, e.KeptIn t
  | _, _ => False

namespace Emission

variable {lines : Array String} {s : Scope} {n value target : Node} {e : CExpr}

theorem passedIn_eq (ns : List Node) : passedIn ns = ns.flatMap passed := by
  induction ns with
  | nil => rfl
  | cons n ns ih => rw [passedIn, ih, flatMap_cons]

theorem cPassedIn_eq (es : List CExpr) : CExpr.passedIn es = es.flatMap CExpr.passed := by
  induction es with
  | nil => rfl
  | cons e es ih => rw [CExpr.passedIn, ih, flatMap_cons]

theorem flowsIn_eq (s : Scope) (ns : List Node) : flowsIn s ns = ns.flatMap (flows s) := by
  induction ns with
  | nil => rfl
  | cons n ns ih => rw [flowsIn, ih, flatMap_cons]

theorem innerFlowsIn_eq (ns : List Node) : innerFlowsIn ns = ns.flatMap innerFlows := by
  induction ns with
  | nil => rfl
  | cons n ns ih => rw [innerFlowsIn, ih, flatMap_cons]

theorem cFlowsIn_eq (ss : List CStmt) : CStmt.flowsIn ss = ss.flatMap CStmt.flows := by
  induction ss with
  | nil => rfl
  | cons s ss ih => rw [CStmt.flowsIn, ih, flatMap_cons]

variable {ρ α β : Type} {store : CStore} {f : ρ → α} {g : ρ → β} {rs : List ρ}

/-- Lists made of parts that match one by one match. -/
theorem forall₂_flatMap_map {γ δ : Type} {R : γ → δ → Prop} {F : α → List γ} {G : β → List δ}
    (h : ∀ r ∈ rs, Forall₂ R (F (f r)) (G (g r))) : Forall₂ R ((rs.map f).flatMap F) ((rs.map g).flatMap G) := by
  induction rs with
  | nil => exact .nil
  | cons r rs ih =>
    obtain ⟨hr, hrs⟩ := forall_mem_cons.1 h
    exact rel_append hr (ih hrs)

/-- The arguments in an expression are what the arguments in its code are emitted from. -/
theorem Forms.passed (h : Forms n e) : Forall₂ Forms (Code.passed n) e.passed := by
  induction h with
  | name | int => exact .nil
  | print _ hv _ _ ih =>
    simp only [Code.passed, CExpr.passed, passedIn_eq, cPassedIn_eq, takesArguments, hv]
    simpa using forall₂_flatMap_map ih
  | asserts _ hv _ _ _ ih =>
    simp only [Code.passed, CExpr.passed, passedIn_eq, cPassedIn_eq, takesArguments, hv]
    simpa using forall₂_flatMap_map ih
  | @apply _ callee _ kind _ _ _ _ _ hv hprint hassert hrs ih =>
    have htakes : takesArguments callee = true := by
      rw [takesArguments, hv]
      cases kind <;> first | rfl | exact absurd rfl hprint | exact absurd rfl hassert
    rw [Code.passed, CExpr.passed, passedIn_eq, cPassedIn_eq, if_pos htakes]
    exact rel_append (forall₂_flatMap_map ih) (forall₂_map_map hrs)
  | subscript _ _ _ hi hj => exact rel_append hi hj
  | binary _ _ _ _ hl hr => exact rel_append hl hr
  | compare _ _ _ _ _ _ ho ih =>
    rw [Code.passed, CExpr.passed, passedIn_eq, cPassedIn_eq]
    exact rel_append ho (forall₂_flatMap_map ih)

/-- The arguments in an expression are passed on without a conversion. -/
theorem Forms.parameters (h : Forms n e) :
    Forall₂ (Carries lines) ((Code.passed n).map .parameter) (e.passed.map .parameter) :=
  forall₂_map_left_iff.2 (forall₂_map_right_iff.2 (h.passed.imp fun _ _ he => ⟨he, he.keptIn⟩))

/-- What a store holds is converted on the way into a variable only, and there for the type of its value. -/
theorem FormsStore.delivers (h : FormsStore lines s value (Writes lines value) target store) : store.Delivers := by
  cases h with
  | @number _ _ _ source t e =>
    exact ⟨rfl, fun v hv => CExpr.received_convert e hv, fun heq => heq ▸ CExpr.keptIn_convert source e⟩
  | @other _ _ v e _ _ he =>
    unfold storeIn
    split
    · cases v.type with
      | int t =>
        rcases he with he | ⟨rfl, -⟩
        · cases he.forms <;> trivial
        · trivial
      | _ => trivial
    · trivial
  | element _ _ he =>
    rcases he with he | ⟨rfl, -⟩
    · exact he.forms.keptIn
    · exact fun t => CExpr.keptIn_of_received fun v hv => IntType.store_of_fits hv

/-- What is written for a value passes the arguments of the value on. -/
theorem Writes.parameters (h : Writes lines value e) :
    Forall₂ (Carries lines) ((Code.passed value).map .parameter) (e.passed.map .parameter) := by
  rcases h with he | ⟨rfl, _, _, _, _, rfl⟩
  · exact he.forms.parameters
  · exact .nil

/-- A store carries the value to its own target. -/
theorem FormsStore.flows (h : FormsStore lines s value (Writes lines value) target store) :
    Forall₂ (Carries lines) ((Code.passed target ++ Code.passed value).map .parameter ++ [.store s target value])
      store.flows := by
  have hstore : ∀ {ps : List Flow} {qs : List CFlow}, Forall₂ (Carries lines) ps qs →
      Forall₂ (Carries lines) (ps ++ [.store s target value]) (qs ++ [.store store]) :=
    fun hps => rel_append hps (.cons ⟨h, h.delivers⟩ .nil)
  cases h with
  | @number _ _ _ _ _ e _ _ _ he => exact hstore (Writes.parameters (e := e) he)
  | @other _ x v e _ _ he =>
    have hflows : (storeIn v.type x e).flows = e.passed.map .parameter ++ [.store (storeIn v.type x e)] := by
      unfold storeIn
      split <;> rfl
    rw [hflows]
    exact hstore (Writes.parameters he)
  | element _ htarget he =>
    rw [map_append, CStore.flows, map_append]
    exact hstore (rel_append htarget.forms.parameters (Writes.parameters he))

/-- An expression by itself passes its arguments on, and defines no functions. -/
theorem flows_of_isExpr (hn : n.IsExpr) (s : Scope) :
    Code.flows s n = (Code.passed n).map .parameter ∧ innerFlows n = [] := by
  cases hn <;> exact ⟨rfl, rfl⟩

/-- The flows of some statements are those of their code if those of each statement are. -/
theorem flows_body {rs : List (Node × CStmt × List CFunction)}
    (hrs : ∀ r ∈ rs, Forall₂ (Carries lines) (Code.flows s r.1) r.2.1.flows ∧
      Forall₂ (Carries lines) (innerFlows r.1) (r.2.2.flatMap fun f => CStmt.flowsIn f.block.body)) :
    Forall₂ (Carries lines) (flowsIn s (rs.map Prod.fst)) (CStmt.flowsIn (rs.map (·.2.1))) ∧
      Forall₂ (Carries lines) (innerFlowsIn (rs.map Prod.fst))
        ((rs.flatMap (·.2.2)).flatMap fun f => CStmt.flowsIn f.block.body) := by
  rw [flowsIn_eq, cFlowsIn_eq, innerFlowsIn_eq, flatMap_assoc]
  refine ⟨forall₂_flatMap_map fun r hr => (hrs r hr).1, ?_⟩
  have hinner := forall₂_flatMap_map (g := id) (G := fun r : Node × CStmt × List CFunction =>
    r.2.2.flatMap fun f => CStmt.flowsIn f.block.body) fun r hr => (hrs r hr).2
  rwa [map_id] at hinner

/-- The flows of a statement and of the functions in it are those of its code, one by one. -/
theorem FormsStmt.flows {stmt : CStmt} {fs : List CFunction} (h : FormsStmt lines s n stmt fs) :
    Forall₂ (Carries lines) (Code.flows s n) stmt.flows ∧
      Forall₂ (Carries lines) (innerFlows n) (fs.flatMap fun f => CStmt.flowsIn f.block.body) := by
  induction h with
  | expr he =>
    obtain ⟨hflows, hinner⟩ := flows_of_isExpr he.isExpr _
    rw [hflows, hinner]
    exact ⟨he.forms.parameters, .nil⟩
  | @assign s _ value rs hne _ hrs =>
    obtain ⟨r, hr⟩ := exists_mem_of_ne_nil rs hne
    obtain ⟨_, hwritten⟩ := (hrs r hr).exists_written
    have hstores : Forall₂ (Carries lines) ((rs.map Prod.fst).flatMap fun t =>
        (Code.passed t ++ Code.passed value).map .parameter ++ [.store s t value])
        ((rs.map Prod.snd).flatMap CStore.flows) :=
      forall₂_flatMap_map fun r hr => ((hrs r hr).imp fun e he => .inl he).flows
    cases hwritten.isExpr <;> exact ⟨hstores, .nil⟩
  | @field _ _ _ _ _ _ rs hrs =>
    have hnone : (rs.map Prod.snd).flatMap CStore.flows = [] := by
      refine flatMap_eq_nil_iff.2 (forall_mem_map.2 fun r hr => ?_)
      obtain ⟨_, _, _, _, _, _, _, _, hr⟩ := hrs r hr
      rw [hr, CStore.flows]
    rw [CStmt.flows, hnone]
    exact ⟨.nil, .nil⟩
  | function hstore _ ih =>
    obtain ⟨hbody, hinner⟩ := flows_body ih
    constructor
    · exact rel_append (hstore.imp fun e he => Or.inr ⟨he, _, _, _, _, rfl⟩).flows .nil
    · rw [innerFlows, flatMap_append, flatMap_singleton]
      exact rel_append hinner hbody
  | giveBack he => exact ⟨rel_append he.forms.parameters (.cons ⟨he.forms, he.forms.keptIn⟩ .nil), .nil⟩
  | condition he _ ih | loop he _ ih =>
    obtain ⟨hbody, hinner⟩ := flows_body ih
    exact ⟨rel_append he.forms.parameters hbody, hinner⟩

end Emission

/-- The flows of a compiled program are those of its analysed module, one by one, and each carries the value of its own
flow. Only on the way into a variable is a conversion made, for the type that analysis recorded for the value or, for a
literal, for big numbers with the sign of the variable. A variable then holds the rounded value of what is in the range
of that type. Elements, parameters and results hold any value that fits into the C type as it is, and so does a variable
of the very type that the conversion is made for: such a value is rounded only if it is in the range already. -/
theorem compile_flows {text file : String} {a a' : Analysis} {p : CProgram} (h : Yields (compile text file) a p a') :
    ∃ m a'', Yields (Analysis.ofText text file) a m a'' ∧
      Forall₂ (Carries (Text.splitLines text)) (flowsOf m) p.flows := by
  simp only [compile, yields_bind, yields_inSession] at h
  obtain ⟨m, a'', hanalysis, _, hemit, _⟩ := h
  have hstmts := fun n hn => (Analysis.ofText_settled hanalysis n hn).1
  obtain ⟨rs, hbody, hrs, rfl⟩ := emit_forms hstmts hemit
  obtain ⟨hown, hinner⟩ := Emission.flows_body fun r hr => (hrs r hr).flows
  refine ⟨m, a'', hanalysis, ?_⟩
  rw [flowsOf, hbody]
  exact rel_append hinner hown

/-- A quotient that goes into a variable of its own type. -/
def quotientText : String := "1/-1>>a."

/-- The target and the types of a program that is one assignment of a converted operation on literals. -/
def CProgram.conversion? (p : CProgram) : Option (IntType × String × IntType × IntType) :=
  match p.functions, p.block.body with
  | [], [.assign [.variable (.int t) x (.convert source target (.binary _ _ _ (.literal _ _) (.literal _ _)))]] =>
    some (t, x, source, target)
  | _, _ => none

set_option maxRecDepth 10000 in
theorem compile_flows_quotient : ∃ p a' e, Yields (compile quotientText "") {} p a' ∧
    p.flows = [.store (.variable (.int ⟨.big, .signed⟩) "a" (.convert ⟨.big, .signed⟩ ⟨.big, .signed⟩ e))] ∧
    (CExpr.convert ⟨.big, .signed⟩ ⟨.big, .signed⟩ e).received ⟨.big, .signed⟩ 16384 ≠
      IntType.clamp ⟨.big, .signed⟩ 16384 := by
  have hgives : gives (compile quotientText "") {} (fun p _ => p.conversion? ==
      some (⟨.big, .signed⟩, "a", ⟨.big, .signed⟩, ⟨.big, .signed⟩)) = true := by decide +kernel
  obtain ⟨p, a', hrun, hshape⟩ := yields_of_gives hgives
  rw [beq_iff_eq, CProgram.conversion?] at hshape
  split at hshape
  · next hfunctions hstmts =>
    simp only [Option.some.injEq, Prod.mk.injEq] at hshape
    obtain ⟨rfl, rfl, rfl, rfl⟩ := hshape
    obtain ⟨_, _, _, hflows⟩ := compile_flows hrun
    have hown : p.flows = CStmt.flowsIn p.block.body := by rw [CProgram.flows, hfunctions]; rfl
    rw [hstmts] at hown
    rw [hown] at hflows
    obtain ⟨flow, _, hcarries, _, _⟩ := forall₂_cons_right_iff.1 hflows
    cases flow with
    | store s target value =>
      obtain ⟨_, _, _, hkept⟩ := hcarries
      refine ⟨p, a', _, hrun, hown, fun hround => ?_⟩
      have hfits : IntType.Fits ⟨.big, .signed⟩ 16384 := by decide
      exact absurd ((hkept rfl 16384 hfits).2.1 hround) (by decide)
    | parameter | result => exact hcarries.elim
  · cases hshape

end Labyrinth.Code
