import Labyrinth.Code.Emission
import Labyrinth.Proofs.Analysis.Recorded
import Mathlib.Data.List.Forall2

/-!
# What nodes are emitted as

Emission turned around: what was emitted for a node tells what the nodes inside it were emitted as. An expression
leaves everything else as it is. A statement adds C functions, one for each function that is defined inside it.
-/

namespace Labyrinth.Code

open List Labyrinth.Task

namespace Emission

theorem forall₂_map_map {α β γ : Type} {f : γ → α} {g : γ → β} {rs : List γ} {R : α → β → Prop}
    (h : ∀ r ∈ rs, R (f r) (g r)) : Forall₂ R (rs.map f) (rs.map g) :=
  forall₂_map_left_iff.2 (forall₂_map_right_iff.2 (forall₂_same.2 h))

variable {t t' : Emission} {n : Node} {e : CExpr}
variable {v : Value} {type : ValueType} {loc : Location} {index : IntType} {types : List ValueType} {info : NodeInfo}
  {target : Node} {store : CStore} {targets : List Node} {stores : List CStore}

theorem valueOf_eq (h : Yields (valueOf n) t v t') : n.info.value = some v ∧ t = t' := by
  unfold valueOf at h
  split at h
  · exact absurd h not_yields_fail
  · split at h
    · next hv =>
      obtain ⟨rfl, rfl⟩ := yields_pure.1 h
      exact ⟨hv, rfl⟩
    · exact absurd h not_yields_fail

theorem typeOf_eq (h : Yields (typeOf n) t type t') : n.type? = some type ∧ t = t' := by
  simp only [typeOf, yields_bind, yields_pure] at h
  obtain ⟨v, _, hvalue, rfl, rfl⟩ := h
  obtain ⟨hv, rfl⟩ := valueOf_eq hvalue
  exact ⟨by rw [Node.type?, hv]; rfl, rfl⟩

theorem assertMessage_eq {text : String} (h : Yields (assertMessage loc) t text t') : t = t' := by
  simp only [assertMessage, yields_bind, yields_get, yields_ofExcept, yields_pure] at h
  obtain ⟨_, _, ⟨rfl, rfl⟩, _, _, ⟨_, rfl⟩, _, rfl⟩ := h
  rfl

theorem scopeType_eq {x : String} (h : Yields (scopeType x) t type t') :
    (∃ v, t.scope.value? x = some v ∧ v.type = type) ∧ t = t' := by
  simp only [scopeType, yields_get_bind] at h
  split at h
  · next v hv =>
    obtain ⟨rfl, rfl⟩ := yields_pure.1 h
    exact ⟨⟨v, hv, rfl⟩, rfl⟩
  · exact absurd h not_yields_fail

theorem indexType_eq (h : Yields (indexType type) t index t') : (∃ item, type = .matrix item index) ∧ t = t' := by
  unfold indexType at h
  split at h
  · obtain ⟨rfl, rfl⟩ := yields_pure.1 h
    exact ⟨⟨_, rfl⟩, rfl⟩
  · exact absurd h not_yields_fail

theorem not_yields_reportFatal {α : Type} {kind message : String} {source : SourceLine} {a : α} :
    ¬Yields (inSession (Session.reportFatal loc kind message source) : Task Emission α) t a t' := by
  simp [Session.reportFatal]

/-! ### Expressions -/

variable {es : List CExpr} {ns : List Node}

abbrev HaveTypes (ns : List Node) (types : List ValueType) : Prop :=
  Forall₂ (fun n type => n.type? = some type) ns types

theorem typesOf_eq (h : Yields (typesOf ns) t types t') : HaveTypes ns types ∧ t = t' := by
  induction ns generalizing t types with
  | nil =>
    obtain ⟨rfl, rfl⟩ := yields_pure.1 h
    exact ⟨.nil, rfl⟩
  | cons n ns ih =>
    simp only [typesOf, yields_bind, yields_pure] at h
    obtain ⟨_, _, hfirst, _, _, hrest, rfl, rfl⟩ := h
    obtain ⟨hn, rfl⟩ := typeOf_eq hfirst
    exact (ih hrest).imp_left (.cons hn)

/-- What an expression is emitted as. -/
inductive Forms : Node → CExpr → Prop where
  | name {info x} : Forms (.name info x) (.variable x)
  | int {info type value} : Forms (.int info type value) (.literal type value)
  | print {info operand loc x params returns types} {rs : List (Node × CExpr)}
      (ho : operand.children = []) (hv : operand.info.value = some (.function loc .print x params returns))
      (ht : HaveTypes (rs.map Prod.fst) types) (hrs : ∀ r ∈ rs, Forms r.1 r.2) :
      Forms (.call info operand (rs.map Prod.fst)) (.print types (rs.map Prod.snd))
  | asserts {info operand loc x params returns types messages} {rs : List (Node × CExpr)}
      (ho : operand.children = []) (hv : operand.info.value = some (.function loc .assert x params returns))
      (ht : HaveTypes (rs.map Prod.fst) types) (hm : messages.length = rs.length)
      (hrs : ∀ r ∈ rs, Forms r.1 r.2) :
      Forms (.call info operand (rs.map Prod.fst)) (.asserts types (rs.map Prod.snd) messages)
  | apply {info operand loc kind x params returns} {rs : List (Node × CExpr)}
      (ho : operand.children = []) (hv : operand.info.value = some (.function loc kind x params returns))
      (hprint : kind ≠ .print) (hassert : kind ≠ .assert) (hrs : ∀ r ∈ rs, Forms r.1 r.2) :
      Forms (.call info operand (rs.map Prod.fst)) (.apply x (rs.map Prod.snd))
  | subscript {info fieldInfo x item index i j ci cj} (ht : (Node.name fieldInfo x).type? = some (.matrix item index))
      (hi : Forms i ci) (hj : Forms j cj) :
      Forms (.subscript info (.name fieldInfo x) i j) (.element (.variable x) index ci cj)
  | binary {info lhs op rhs left right cl cr} (hleft : lhs.type? = some left) (hright : rhs.type? = some right)
      (hl : Forms lhs cl) (hr : Forms rhs cr) : Forms (.binary info lhs op rhs) (.binary op left right cl cr)
  | compare {info operand ops left first types} {rs : List (Node × CExpr)} (hlength : ops.length = rs.length)
      (hne : rs ≠ []) (hleft : operand.type? = some left) (ht : HaveTypes (rs.map Prod.fst) types)
      (ho : Forms operand first) (hrs : ∀ r ∈ rs, Forms r.1 r.2) :
      Forms (.compare info operand ops (rs.map Prod.fst)) (.compare first left ops types (rs.map Prod.snd))

/-- A node is emitted as an expression, and everything else is left as it is. -/
def FormsExpr (n : Node) : Prop :=
  ∀ ⦃t e t'⦄, Yields (emitExpr n) t e t' → Forms n e ∧ t = t'

theorem emitExprs_forms (hns : ∀ n ∈ ns, FormsExpr n) (h : Yields (emitExprs ns) t es t') :
    ∃ rs : List (Node × CExpr), ns = rs.map Prod.fst ∧ es = rs.map Prod.snd ∧ (∀ r ∈ rs, Forms r.1 r.2) ∧ t = t' := by
  induction ns generalizing t es with
  | nil =>
    simp only [emitExprs, yields_pure] at h
    obtain ⟨rfl, rfl⟩ := h
    exact ⟨[], rfl, rfl, forall_mem_nil _, rfl⟩
  | cons n ns ih =>
    obtain ⟨hn, hns⟩ := forall_mem_cons.1 hns
    simp only [emitExprs, yields_bind, yields_pure] at h
    obtain ⟨e, _, hfirst, _, _, hrest, rfl, rfl⟩ := h
    obtain ⟨hforms, rfl⟩ := hn hfirst
    obtain ⟨rs, rfl, rfl, hall, rfl⟩ := ih hns hrest
    exact ⟨(n, e) :: rs, rfl, rfl, forall_mem_cons.2 ⟨hforms, hall⟩, rfl⟩

theorem emitAsserts_forms {exprs : List CExpr} {messages : List String} (hns : ∀ n ∈ ns, FormsExpr n)
    (h : Yields (emitAsserts types exprs messages ns) t e t') :
    ∃ types' messages', ∃ rs : List (Node × CExpr), ns = rs.map Prod.fst ∧
      e = .asserts (types.reverse ++ types') (exprs.reverse ++ rs.map Prod.snd) (messages.reverse ++ messages') ∧
      HaveTypes ns types' ∧ messages'.length = rs.length ∧
      (∀ r ∈ rs, Forms r.1 r.2) ∧ t = t' := by
  induction ns generalizing t types exprs messages with
  | nil =>
    simp only [emitAsserts, yields_pure] at h
    obtain ⟨rfl, rfl⟩ := h
    exact ⟨[], [], [], rfl, by simp, .nil, rfl, forall_mem_nil _, rfl⟩
  | cons n ns ih =>
    obtain ⟨hn, hns⟩ := forall_mem_cons.1 hns
    simp only [emitAsserts, yields_bind] at h
    obtain ⟨type, _, htype, message, _, hmessage, e, _, hfirst, hrest⟩ := h
    obtain ⟨hfound, rfl⟩ := typeOf_eq htype
    cases assertMessage_eq hmessage
    obtain ⟨hforms, rfl⟩ := hn hfirst
    obtain ⟨types', messages', rs, rfl, rfl, htypes, hmessages, hall, rfl⟩ := ih hns hrest
    exact ⟨type :: types', message :: messages', (n, e) :: rs, rfl, by simp, .cons hfound htypes,
      congrArg (· + 1) hmessages, forall_mem_cons.2 ⟨hforms, hall⟩, rfl⟩

theorem call_forms {operand : Node} (ho : operand.children = []) (hargs : ∀ n ∈ ns, FormsExpr n) :
    FormsExpr (.call info operand ns) := by
  intro t e t' h
  simp only [emitExpr, yields_bind] at h
  obtain ⟨v, _, hvalue, h⟩ := h
  obtain ⟨hv, rfl⟩ := valueOf_eq hvalue
  split at h
  · simp only [yields_bind, yields_pure] at h
    obtain ⟨_, _, htypes, es, _, hes, rfl, rfl⟩ := h
    obtain ⟨htyped, rfl⟩ := typesOf_eq htypes
    obtain ⟨rs, rfl, rfl, hall, rfl⟩ := emitExprs_forms hargs hes
    exact ⟨.print ho hv htyped hall, rfl⟩
  · obtain ⟨types, messages, rs, rfl, rfl, htypes, hmessages, hall, rfl⟩ := emitAsserts_forms hargs h
    exact ⟨.asserts ho hv htypes hmessages hall, rfl⟩
  · next hprint hassert =>
    simp only [yields_bind, yields_pure] at h
    obtain ⟨es, _, hes, rfl, rfl⟩ := h
    obtain ⟨rs, rfl, rfl, hall, rfl⟩ := emitExprs_forms hargs hes
    exact ⟨.apply ho hv hprint hassert hall, rfl⟩
  · exact absurd h not_yields_reportFatal

theorem formsExpr_of_isExpr (hn : n.IsExpr) : FormsExpr n := by
  induction hn with
  | name =>
    intro t e t' h
    simp only [emitExpr, yields_pure] at h
    obtain ⟨rfl, rfl⟩ := h
    exact ⟨.name, rfl⟩
  | int =>
    intro t e t' h
    simp only [emitExpr, yields_pure] at h
    obtain ⟨rfl, rfl⟩ := h
    exact ⟨.int, rfl⟩
  | robot => exact call_forms rfl (forall_mem_nil _)
  | call _ ih => exact call_forms rfl ih
  | subscript _ _ ihi ihj =>
    intro t e t' h
    simp only [emitExpr, yields_bind, yields_pure] at h
    obtain ⟨_, _, htype, _, _, hindex, _, _, ⟨rfl, rfl⟩, _, _, hi, _, _, hj, rfl, rfl⟩ := h
    obtain ⟨hmatrix, rfl⟩ := typeOf_eq htype
    obtain ⟨⟨item, rfl⟩, rfl⟩ := indexType_eq hindex
    obtain ⟨hfi, rfl⟩ := ihi hi
    obtain ⟨hfj, rfl⟩ := ihj hj
    exact ⟨.subscript hmatrix hfi hfj, rfl⟩
  | binary _ _ ihl ihr =>
    intro t e t' h
    simp only [emitExpr, yields_bind, yields_pure] at h
    obtain ⟨_, _, hlhs, _, _, hrhs, _, _, hl, _, _, hr, rfl, rfl⟩ := h
    obtain ⟨hleft, rfl⟩ := typeOf_eq hlhs
    obtain ⟨hright, rfl⟩ := typeOf_eq hrhs
    obtain ⟨hfl, rfl⟩ := ihl hl
    obtain ⟨hfr, rfl⟩ := ihr hr
    exact ⟨.binary hleft hright hfl hfr, rfl⟩
  | compare hlength hne _ _ iho ih =>
    intro t e t' h
    simp only [emitExpr, yields_bind, yields_pure] at h
    obtain ⟨left, _, hfirst, types, _, htypes, first, _, he, es, _, hes, rfl, rfl⟩ := h
    obtain ⟨hleft, rfl⟩ := typeOf_eq hfirst
    obtain ⟨htyped, rfl⟩ := typesOf_eq htypes
    obtain ⟨ho, rfl⟩ := iho he
    obtain ⟨rs, rfl, rfl, hall, rfl⟩ := emitExprs_forms ih hes
    exact ⟨.compare (hlength.trans (length_map _)) (fun h => hne (by rw [h]; rfl)) hleft htyped ho hall, rfl⟩
  | missing =>
    intro t e t' h
    simp [emitExpr] at h

structure Emits (lines : Array String) (n : Node) (e : CExpr) : Prop where
  isExpr : n.IsExpr
  yields : ∃ t : Emission, t.lines = lines ∧ Yields (emitExpr n) t e t

variable {lines : Array String}

theorem Emits.forms (h : Emits lines n e) : Forms n e := by
  obtain ⟨hn, _, _, he⟩ := h
  exact (formsExpr_of_isExpr hn he).1

theorem emits_of_isExpr (hn : n.IsExpr) (h : Yields (emitExpr n) t e t') : Emits t.lines n e ∧ t = t' := by
  obtain ⟨-, rfl⟩ := formsExpr_of_isExpr hn h
  exact ⟨⟨hn, t, rfl, h⟩, rfl⟩

/-! ### Statements -/

/-- What the assignment of a value to one of its targets is emitted as, given what the value is written as. A literal
counts as big when it is assigned to a number. -/
inductive FormsStore (lines : Array String) (s : Scope) (value : Node) (Written : CExpr → Prop) : Node → CStore → Prop
  where
  | number {info x v source t e} (hx : s.value? x = some v) (hv : v.type = .int t)
      (hsource : (∃ info type k, value = .int info type k) ∧ source = ⟨.big, t.sign⟩ ∨
        (∀ info type k, value ≠ .int info type k) ∧ value.type? = some (.int source)) (he : Written e) :
      FormsStore lines s value Written (.name info x) (.variable (.int t) x (.convert source t e))
  | other {info x v e} (hx : s.value? x = some v)
      (hv : ∀ source t, v.type = .int t → value.type? ≠ some (.int source)) (he : Written e) :
      FormsStore lines s value Written (.name info x) (storeIn v.type x e)
  | element {target c e} (hname : ∀ info x, target ≠ .name info x) (htarget : Emits lines target c) (he : Written e) :
      FormsStore lines s value Written target (.element c e)

def prototypeOf (head : FunctionHead) : CPrototype :=
  ⟨head.returns.type, head.name, head.params.map fun (name, value) => (value.type, name)⟩

/-- What a statement is emitted as, in a scope and with the C functions that it adds. -/
inductive FormsStmt (lines : Array String) : Scope → Node → CStmt → List CFunction → Prop where
  | expr {s n e} (he : Emits lines n e) : FormsStmt lines s n (.expr e) []
  | assign {s info value} {rs : List (Node × CStore)} (hne : rs ≠ []) (htargets : ∀ r ∈ rs, r.1.IsTarget)
      (hrs : ∀ r ∈ rs, FormsStore lines s value (Emits lines value) r.1 r.2) :
      FormsStmt lines s (.assign info (rs.map Prod.fst) value) (.assign (rs.map Prod.snd)) []
  | field {s info fieldInfo item index k} {rs : List (Node × CStore)}
      (hrs : ∀ r ∈ rs, ∃ info x v item index', r.1 = .name info x ∧ s.value? x = some v ∧
        v.type = .matrix item index' ∧ r.2 = .setUp item x (.plain k) index) :
      FormsStmt lines s (.assign info (rs.map Prod.fst) (.matrix fieldInfo item index k)) (.assign (rs.map Prod.snd)) []
  | function {s info nameInfo functionInfo head scope store} {rs : List (Node × CStmt × List CFunction)}
      (hstore : FormsStore lines s (.function functionInfo head scope (rs.map Prod.fst)) (· = .nothing)
        (.name nameInfo head.name) store)
      (hrs : ∀ r ∈ rs, FormsStmt lines scope r.1 r.2.1 r.2.2) :
      FormsStmt lines s (.assign info [.name nameInfo head.name] (.function functionInfo head scope (rs.map Prod.fst)))
        (.assign [store]) (rs.flatMap (·.2.2) ++
          [⟨prototypeOf head, ⟨variablesOf scope, rs.map (·.2.1), freesOf scope⟩⟩])
  | giveBack {s info value e} (he : Emits lines value e) :
      FormsStmt lines s (.giveBack info value) (.giveBack (freesOf s) e) []
  | condition {s info test e} {rs : List (Node × CStmt × List CFunction)} (he : Emits lines test e)
      (hrs : ∀ r ∈ rs, FormsStmt lines s r.1 r.2.1 r.2.2) :
      FormsStmt lines s (.condition info test (rs.map Prod.fst)) (.condition e (rs.map (·.2.1))) (rs.flatMap (·.2.2))
  | loop {s info test e} {rs : List (Node × CStmt × List CFunction)} (he : Emits lines test e)
      (hrs : ∀ r ∈ rs, FormsStmt lines s r.1 r.2.1 r.2.2) :
      FormsStmt lines s (.loop info test (rs.map Prod.fst)) (.loop e (rs.map (·.2.1))) (rs.flatMap (·.2.2))

variable {value : Node} {act : Task Emission CExpr} {x : String} {s : Scope} {W W' : CExpr → Prop}

theorem FormsStore.imp (h : FormsStore lines s value W target store) (hW : ∀ e, W e → W' e) :
    FormsStore lines s value W' target store := by
  cases h with
  | number hx hv hsource he => exact .number hx hv hsource (hW _ he)
  | other hx hv he => exact .other hx hv (hW _ he)
  | element hname htarget he => exact .element hname htarget (hW _ he)

theorem FormsStore.exists_written (h : FormsStore lines s value W target store) : ∃ e, W e := by
  cases h with
  | number _ _ _ he | other _ _ he | element _ _ he => exact ⟨_, he⟩

/-- A literal is not written like other values, but it is written the same. -/
theorem storeNamed_forms (info : NodeInfo) (hx : t.scope.value? x = some v)
    (hvalue : ∀ info item index k, value ≠ .matrix info item index k)
    (h : Yields (storeNamed value act x v.type) t store t') :
    FormsStore t.lines t.scope value (fun e => Yields act t e t' ∨
      ∃ info type k, value = .int info type k ∧ e = .literal type k ∧ t = t') (.name info x) store := by
  unfold storeNamed at h
  split at h
  · exact absurd rfl (hvalue _ _ _ _)
  · exact absurd h not_yields_fail
  · next htype =>
    obtain ⟨rfl, rfl⟩ := yields_pure.1 h
    rw [htype]
    exact .number hx htype (.inl ⟨⟨_, _, _, rfl⟩, rfl⟩) (.inr ⟨_, _, _, rfl, rfl, rfl⟩)
  · exact absurd h not_yields_fail
  · next hliteral htype =>
    simp only [yields_bind] at h
    obtain ⟨_, _, hvalue, h⟩ := h
    obtain ⟨hrecorded, rfl⟩ := typeOf_eq hvalue
    split at h
    · simp only [yields_bind, yields_pure] at h
      obtain ⟨e, _, hwritten, rfl, rfl⟩ := h
      rw [htype]
      exact .number hx htype (.inr ⟨hliteral, hrecorded⟩) (.inl hwritten)
    · next hother =>
      simp only [yields_bind, yields_pure] at h
      obtain ⟨e, _, hwritten, rfl, rfl⟩ := h
      exact .other hx (fun source _ _ hs => hother source (Option.some.inj (hrecorded.symm.trans hs))) (.inl hwritten)
  · next hint _ _ =>
    simp only [yields_bind, yields_pure] at h
    obtain ⟨e, _, hwritten, rfl, rfl⟩ := h
    exact .other hx (fun _ t ht => absurd ht (hint t)) (.inl hwritten)

theorem emitStores_forms (hvalue : value.IsExpr) (hts : ∀ n ∈ targets, n.IsTarget)
    (h : Yields (emitStores value (emitExpr value) targets) t stores t') :
    ∃ rs : List (Node × CStore), targets = rs.map Prod.fst ∧ stores = rs.map Prod.snd ∧
      (∀ r ∈ rs, FormsStore t.lines t.scope value (Emits t.lines value) r.1 r.2) ∧ t = t' := by
  induction targets generalizing t stores with
  | nil =>
    simp only [emitStores, yields_pure] at h
    obtain ⟨rfl, rfl⟩ := h
    exact ⟨[], rfl, rfl, forall_mem_nil _, rfl⟩
  | cons target targets ih =>
    obtain ⟨htarget, hrests⟩ := forall_mem_cons.1 hts
    obtain ⟨store, stores', hstore, hrest, rfl⟩ : ∃ store stores',
        FormsStore t.lines t.scope value (Emits t.lines value) target store ∧
        Yields (emitStores value (emitExpr value) targets) t stores' t' ∧ stores = store :: stores' := by
      cases htarget with
      | @name info x =>
        simp only [emitStores, yields_bind, yields_pure] at h
        obtain ⟨_, _, htype, store, s, hstore, stores', _, hrest, rfl, rfl⟩ := h
        obtain ⟨⟨v, hx, rfl⟩, rfl⟩ := scopeType_eq htype
        have hforms := storeNamed_forms info hx
          (fun _ _ _ _ heq => by rw [heq] at hvalue; cases hvalue) hstore
        have hwritten : ∀ e, (Yields (emitExpr value) t e s ∨ ∃ info type k, value = .int info type k ∧
            e = .literal type k ∧ t = s) → Emits t.lines value e ∧ t = s := by
          rintro e (he | ⟨_, _, _, rfl, rfl, rfl⟩)
          · exact emits_of_isExpr hvalue he
          · exact ⟨⟨hvalue, t, rfl, by simp [emitExpr]⟩, rfl⟩
        obtain ⟨e, he⟩ := hforms.exists_written
        cases (hwritten e he).2
        exact ⟨store, stores', hforms.imp fun e he => (hwritten e he).1, hrest, rfl⟩
      | element hi hj =>
        simp only [emitStores, yields_bind, yields_pure] at h
        obtain ⟨c, _, hfirst, e, _, hwritten, stores', _, hrest, rfl, rfl⟩ := h
        obtain ⟨hc, rfl⟩ := emits_of_isExpr (.subscript hi hj) hfirst
        obtain ⟨he, rfl⟩ := emits_of_isExpr hvalue hwritten
        exact ⟨_, stores', .element (by simp) hc he, hrest, rfl⟩
    obtain ⟨rs, rfl, rfl, hall, rfl⟩ := ih hrests hrest
    exact ⟨(target, store) :: rs, rfl, rfl, forall_mem_cons.2 ⟨hstore, hall⟩, rfl⟩

theorem emitStores_field {item : IntType} {k : Int} (hts : ∀ n ∈ targets, ∃ info x, n = .name info x)
    (h : Yields (emitStores (.matrix info item index k) act targets) t stores t') :
    ∃ rs : List (Node × CStore), targets = rs.map Prod.fst ∧ stores = rs.map Prod.snd ∧
      (∀ r ∈ rs, ∃ info x v item index', r.1 = .name info x ∧ t.scope.value? x = some v ∧
        v.type = .matrix item index' ∧ r.2 = .setUp item x (.plain k) index) ∧ t = t' := by
  induction targets generalizing t stores with
  | nil =>
    simp only [emitStores, yields_pure] at h
    obtain ⟨rfl, rfl⟩ := h
    exact ⟨[], rfl, rfl, forall_mem_nil _, rfl⟩
  | cons target targets ih =>
    obtain ⟨⟨info, x, rfl⟩, hrests⟩ := forall_mem_cons.1 hts
    simp only [emitStores, yields_bind, yields_pure] at h
    obtain ⟨_, _, htype, store, _, hstore, stores', _, hrest, rfl, rfl⟩ := h
    obtain ⟨⟨v, hx, rfl⟩, rfl⟩ := scopeType_eq htype
    cases hv : v.type with
    | matrix item' index' =>
      rw [hv] at hstore
      obtain ⟨rfl, rfl⟩ := yields_pure.1 hstore
      obtain ⟨rs, rfl, rfl, hall, rfl⟩ := ih hrests hrest
      exact ⟨(.name info x, _) :: rs, rfl, rfl,
        forall_mem_cons.2 ⟨⟨info, x, v, item', index', rfl, hx, hv, rfl⟩, hall⟩, rfl⟩
    | int | function | module =>
      rw [hv] at hstore
      exact absurd hstore not_yields_fail

def adding (t : Emission) (fs : List CFunction) : Emission :=
  { t with functions := (t.functions.toList ++ fs).toArray }

/-- A node is emitted as a statement, and functions are added. -/
def FormsWhole (n : Node) : Prop :=
  ∀ ⦃t stmt t'⦄, Yields (emitStmt n) t stmt t' → ∃ fs, FormsStmt t.lines t.scope n stmt fs ∧ t' = t.adding fs

theorem emitStmts_forms {stmts : List CStmt} (hns : ∀ n ∈ ns, FormsWhole n) (h : Yields (emitStmts ns) t stmts t') :
    ∃ rs : List (Node × CStmt × List CFunction), ns = rs.map Prod.fst ∧ stmts = rs.map (·.2.1) ∧
      (∀ r ∈ rs, FormsStmt t.lines t.scope r.1 r.2.1 r.2.2) ∧ t' = t.adding (rs.flatMap (·.2.2)) := by
  induction ns generalizing t stmts with
  | nil =>
    simp only [emitStmts, yields_pure] at h
    obtain ⟨rfl, rfl⟩ := h
    exact ⟨[], rfl, rfl, forall_mem_nil _, by simp [adding]⟩
  | cons n ns ih =>
    obtain ⟨hn, hns⟩ := forall_mem_cons.1 hns
    simp only [emitStmts, yields_bind, yields_pure] at h
    obtain ⟨stmt, _, hfirst, _, _, hrest, rfl, rfl⟩ := h
    obtain ⟨fs, hstmt, rfl⟩ := hn hfirst
    obtain ⟨rs, rfl, rfl, hall, rfl⟩ := ih hns hrest
    exact ⟨(n, stmt, fs) :: rs, rfl, rfl, forall_mem_cons.2 ⟨hstmt, hall⟩, by simp [adding]⟩

theorem formsWhole_of_isStmt (hn : n.IsStmt) : FormsWhole n := by
  induction hn with
  | @expr n hn =>
    intro t stmt t' h
    obtain ⟨e, he, rfl⟩ : ∃ e, Yields (emitExpr n) t e t' ∧ stmt = .expr e := by
      cases hn <;> simp only [emitStmt, emitStmtOr, yields_bind, yields_pure] at h <;>
        obtain ⟨e, _, he, rfl, rfl⟩ := h <;> exact ⟨e, he, rfl⟩
    obtain ⟨hemits, rfl⟩ := emits_of_isExpr hn he
    exact ⟨[], .expr hemits, by simp [adding]⟩
  | assign hne hts hvalue =>
    intro t stmt t' h
    simp only [emitStmt, emitStmtOr, yields_bind, yields_pure] at h
    obtain ⟨stores, _, hstores, rfl, rfl⟩ := h
    obtain ⟨rs, rfl, rfl, hall, rfl⟩ := emitStores_forms hvalue hts hstores
    exact ⟨[], .assign (fun h => hne (by rw [h]; rfl)) (forall_mem_map.1 hts) hall, by simp [adding]⟩
  | field hts =>
    intro t stmt t' h
    simp only [emitStmt, emitStmtOr, yields_bind, yields_pure] at h
    obtain ⟨stores, _, hstores, rfl, rfl⟩ := h
    obtain ⟨rs, rfl, rfl, hall, rfl⟩ := emitStores_field hts hstores
    exact ⟨[], .field hall, by simp [adding]⟩
  | @function info nameInfo _ _ _ _ _ _ ih =>
    intro t stmt t' h
    simp only [emitStmt, emitStmtOr, emitStores, yields_bind, yields_pure] at h
    obtain ⟨_, _, ⟨_, _, htype, store, _, hstore, _, _, ⟨rfl, rfl⟩, rfl, rfl⟩, rfl, rfl⟩ := h
    obtain ⟨⟨v, hx, rfl⟩, rfl⟩ := scopeType_eq htype
    have hforms := storeNamed_forms nameInfo hx (by simp) hstore
    obtain ⟨e, he | ⟨_, _, _, hliteral, _⟩⟩ := hforms.exists_written
    · simp only [emitExpr, yields_bind, yields_get, yields_modify, yields_pure] at he
      obtain ⟨_, _, ⟨rfl, rfl⟩, _, _, rfl, stmts, b, hbody, _, _, rfl, rfl, rfl⟩ := he
      obtain ⟨rs, rfl, rfl, hall, rfl⟩ := emitStmts_forms ih hbody
      refine ⟨_, .function (hforms.imp ?_) hall, by simp [adding, prototypeOf]⟩
      rintro e (he | ⟨_, _, _, hliteral, _⟩)
      · simp only [emitExpr, yields_bind, yields_pure] at he
        obtain ⟨_, _, _, _, _, _, _, _, _, _, _, _, rfl, _⟩ := he
        rfl
      · cases hliteral
    · cases hliteral
  | giveBack hvalue =>
    intro t stmt t' h
    simp only [emitStmt, emitStmtOr] at h
    split at h
    · simp only [yields_bind, yields_get, yields_pure] at h
      obtain ⟨_, _, ⟨rfl, rfl⟩, e, _, he, rfl, rfl⟩ := h
      obtain ⟨hemits, rfl⟩ := emits_of_isExpr hvalue he
      exact ⟨[], .giveBack hemits, by simp [adding]⟩
    · exact absurd h not_yields_reportFatal
    · exact absurd h not_yields_fail
  | condition htest _ ih =>
    intro t stmt t' h
    simp only [emitStmt, emitStmtOr, yields_bind, yields_pure] at h
    obtain ⟨e, _, he, stmts, _, hbody, rfl, rfl⟩ := h
    obtain ⟨hemits, rfl⟩ := emits_of_isExpr htest he
    obtain ⟨rs, rfl, rfl, hall, rfl⟩ := emitStmts_forms ih hbody
    exact ⟨_, .condition hemits hall, rfl⟩
  | loop htest _ ih =>
    intro t stmt t' h
    simp only [emitStmt, emitStmtOr, yields_bind, yields_pure] at h
    obtain ⟨e, _, he, stmts, _, hbody, rfl, rfl⟩ := h
    obtain ⟨hemits, rfl⟩ := emits_of_isExpr htest he
    obtain ⟨rs, rfl, rfl, hall, rfl⟩ := emitStmts_forms ih hbody
    exact ⟨_, .loop hemits hall, rfl⟩

end Emission

/-- A program is emitted statement by statement. -/
theorem emit_forms {text : String} {m : Module} {p : CProgram} {s s' : Session} (hm : ∀ n ∈ m.body, n.IsStmt)
    (h : Yields (emit text m) s p s') : ∃ rs : List (Node × CStmt × List CFunction), m.body = rs.map Prod.fst ∧
      (∀ r ∈ rs, Emission.FormsStmt (Text.splitLines text) m.scope r.1 r.2.1 r.2.2) ∧ p = ⟨rs.flatMap (·.2.2),
        ⟨Emission.variablesOf m.scope, rs.map (·.2.1), Emission.freesOf m.scope⟩⟩ := by
  have hrun : ∃ t, Yields (do
      let body ← Emission.emitStmts m.body
      return ⟨(← get).functions.toList, ⟨Emission.variablesOf m.scope, body, Emission.freesOf m.scope⟩⟩ :
        Task Emission CProgram) { session := s, lines := Text.splitLines text, scope := m.scope } p t := by
    obtain ⟨hresult, -⟩ := Prod.mk.inj h
    exact ⟨_, Prod.ext hresult rfl⟩
  simp only [yields_bind, yields_get, yields_pure] at hrun
  obtain ⟨_, body, t, hbody, _, _, ⟨rfl, rfl⟩, rfl, _⟩ := hrun
  obtain ⟨rs, hrs, rfl, hall, rfl⟩ :=
    Emission.emitStmts_forms (fun n hn => Emission.formsWhole_of_isStmt (hm n hn)) hbody
  exact ⟨rs, hrs, hall, by simp [Emission.adding]⟩

end Labyrinth.Code
