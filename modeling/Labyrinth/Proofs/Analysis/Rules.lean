import Labyrinth.Proofs.Analysis.Checked

/-!
# The typing rules

Evaluation records a value for every node except the names that are assigned to, and ends the run where values do
not fit together. So whatever it leaves behind obeys the rules: numbers are reckoned with, numbers are compared with
numbers and fields with fields, fields are indexed by numbers, functions are called with the arguments they take, and
only functions give back anything.
-/

namespace Labyrinth

open List Labyrinth.Task

/-! ### Values -/

namespace Value

variable {v : Value}

def IsInt (v : Value) : Prop := ∃ t, v.type = .int t

def IsMatrix (v : Value) : Prop := ∃ item index, v.type = .matrix item index

/-- If the value is a function, it takes numbers and gives back a number. -/
def Regular : Value → Prop
  | .function _ _ _ params returns => (∀ ps, params = some ps → ∀ p ∈ ps, p.2.IsInt) ∧ returns.IsInt
  | _ => True

theorem IsInt.regular (h : v.IsInt) : v.Regular := by
  obtain ⟨t, ht⟩ := h
  cases v with
  | int | matrix | module => trivial
  | function => cases ht

/-- Only a number can be converted to a number. -/
theorem IsInt.of_convertTo {value other : Value} (h : (value.convertTo other).isSome) (ho : other.IsInt) :
    value.IsInt := by
  obtain ⟨t, ht⟩ := ho
  unfold convertTo at h
  rw [ht] at h
  cases value with
  | int loc type n => exact ⟨type, rfl⟩
  | matrix | function | module => cases h

theorem Regular.convertTo {value other converted : Value} (h : value.Regular)
    (hconverted : value.convertTo other = some converted) : converted.Regular := by
  unfold Value.convertTo at hconverted
  split at hconverted
  · cases hconverted
    trivial
  · split at hconverted
    · cases hconverted
      trivial
    · cases hconverted
  · cases hconverted
    exact h
  · cases hconverted
    trivial
  · cases hconverted

theorem binary?_isInt {lhs rhs : Value} (h : lhs.binary? rhs = some v) : lhs.IsInt ∧ rhs.IsInt ∧ v.IsInt := by
  obtain ⟨left, right, hl, hr, hv⟩ := binary?_type h
  exact ⟨⟨left, hl⟩, ⟨right, hr⟩, ⟨_, hv⟩⟩

theorem compare?_fit {lhs rhs : Value} (h : lhs.compare? rhs = some v) :
    (lhs.IsInt ∧ rhs.IsInt) ∨ (lhs.IsMatrix ∧ rhs.IsMatrix) := by
  unfold compare? at h
  split at h
  · exact .inl ⟨⟨_, rfl⟩, ⟨_, rfl⟩⟩
  · exact .inr ⟨⟨_, _, rfl⟩, ⟨_, _, rfl⟩⟩
  · cases h

theorem regular_of_mem_builtins : ∀ entry ∈ builtins, entry.2.Regular := by
  have hregular : ∀ kind name anyArgs width, (builtin kind name anyArgs width).Regular := by
    intro kind name anyArgs width
    refine ⟨fun ps hps => ?_, _, rfl⟩
    cases anyArgs with
    | true => cases hps
    | false =>
      cases hps
      exact nofun
  simp only [builtins, forall_mem_cons, hregular, not_mem_nil, false_implies, implies_true, and_true]

/-- Arguments that pass the check of parameters that are numbers are numbers. -/
theorem checkEach_isInt {function : String} {loc : Location} {params : List (String × Value)} {args : List Value}
    {s s' : Session} {u : Unit} (h : Yields (checkEach function loc params args) s u s')
    (hlength : args.length = params.length) (hparams : ∀ p ∈ params, p.2.IsInt) : ∀ v ∈ args, v.IsInt := by
  induction params generalizing args s with
  | nil =>
    rw [length_eq_zero_iff.1 hlength]
    exact nofun
  | cons p params ih =>
    cases args with
    | nil => cases hlength
    | cons arg args =>
      obtain ⟨hp, hparams⟩ := forall_mem_cons.1 hparams
      rw [checkEach] at h
      split at h
      · simp [Session.reportFatal] at h
      · next hsome =>
        refine forall_mem_cons.2 ⟨.of_convertTo ?_ hp, ih h (Nat.succ.inj hlength) hparams⟩
        rwa [Option.isNone_iff_eq_none, ← ne_eq, Option.ne_none_iff_isSome] at hsome

end Value

/-! ### Rules -/

namespace Node

/-- The value recorded for a node has a property. -/
def Records (P : Value → Prop) (n : Node) : Prop :=
  ∃ v, n.info.value = some v ∧ P v

/-- The operands of a comparison are two numbers or two fields. -/
def Comparable (lhs rhs : Node) : Prop :=
  (lhs.Records Value.IsInt ∧ rhs.Records Value.IsInt) ∨ (lhs.Records Value.IsMatrix ∧ rhs.Records Value.IsMatrix)

/-- The value is a function that can be called with some arguments: if it says what it takes, as many numbers. -/
def Takes (args : List Node) : Value → Prop
  | .function _ _ _ params _ =>
    ∀ ps, params = some ps → args.length = ps.length ∧ ∀ arg ∈ args, arg.Records Value.IsInt
  | _ => False

/-- The rule for a node. The flag tells whether the innermost scope around it is that of a function. -/
def Obeys (inFunction : Bool) : Node → Prop
  | binary _ lhs _ rhs => lhs.Records Value.IsInt ∧ rhs.Records Value.IsInt
  | compare _ operand _ operands => (operand :: operands).IsChain Comparable
  | subscript _ value i j => value.Records Value.IsMatrix ∧ i.Records Value.IsInt ∧ j.Records Value.IsInt
  | call _ operand args => operand.Records (Takes args)
  | n@(giveBack _ value) => inFunction = true ∧ value.Records Value.IsInt ∧ n.Records Value.IsInt
  | _ => True

def isName : Node → Bool
  | name _ _ => true
  | _ => false

def isFunction : Node → Bool
  | function _ _ _ _ => true
  | _ => false

/-- The nodes directly inside a node whose values are needed: all but the names that are assigned to. -/
def valued : Node → List Node
  | assign _ targets value => value :: targets.filter fun t => !t.isName
  | n => n.children

/-- A node stands in value position somewhere inside another one. The flags tell whether the innermost scope is that
of a function, around the node and around the other one. -/
inductive Valued : Bool → Node → Bool → Node → Prop where
  | here {inFunction n} : Valued inFunction n inFunction n
  | inside {inFunction outer n child root} : child ∈ root.valued →
      Valued inFunction n (outer || root.isFunction) child → Valued inFunction n outer root

/-- All nodes in value position inside a node have a value and obey the rules. -/
def Ruled (inFunction : Bool) (root : Node) : Prop :=
  ∀ inner n, Valued inner n inFunction root → (∃ v, n.info.value = some v) ∧ n.Obeys inner

theorem ruled_iff {inFunction : Bool} {root : Node} :
    Ruled inFunction root ↔ ((∃ v, root.info.value = some v) ∧ root.Obeys inFunction) ∧
      ∀ child ∈ root.valued, Ruled (inFunction || root.isFunction) child := by
  constructor
  · exact fun h => ⟨h inFunction root .here, fun child hchild inner n hn => h inner n (.inside hchild hn)⟩
  · rintro ⟨hroot, hchildren⟩ inner n hn
    cases hn with
    | here => exact hroot
    | inside hchild hn => exact hchildren _ hchild inner n hn

/-- What evaluation relies on: a comparison has an operator for every operand but the first, and functions take
numbers and give back numbers. -/
def Formed : Node → Prop
  | compare _ _ ops operands => operands.length ≤ ops.length
  | function _ head _ _ => (∀ p ∈ head.params, p.2.IsInt) ∧ head.returns.IsInt
  | builtin f => f.Regular
  | _ => True

/-- What a literal or a function is before anything is evaluated is regular. -/
theorem literal?_regular {n : Node} {v : Value} (hn : n.Formed) (h : n.literal? = some v) : v.Regular := by
  cases n with
  | int | matrix =>
    cases h
    trivial
  | function info head scope body =>
    cases h
    exact ⟨fun ps hps => Option.some.inj hps ▸ hn.1, hn.2⟩
  | builtin f =>
    cases h
    exact hn
  | assign | call | giveBack | binary | compare | subscript | name | condition | loop | missing => cases h

end Node

/-! ### Surroundings -/

namespace Analysis

variable {a a' : Analysis}
variable {x : String} {loc : Location} {v : Value} {u : Unit}

/-- Everything that is bound in the surroundings is regular. -/
def Regular (a : Analysis) : Prop :=
  ∀ frame ∈ a.frames, ∀ entry ∈ frame.scope.values, entry.2.Regular

/-- The roles of the scopes around the current place, innermost first. -/
def roles (a : Analysis) : List ScopeRole :=
  a.frames.map Frame.role

/-- A function around gives back a number, and the flag tells about it. -/
def Around (inFunction : Bool) (a : Analysis) : Prop :=
  ∀ returns, a.roles.head? = some (.function returns) → inFunction = true ∧ returns.IsInt

theorem Around.congr {inFunction : Bool} (h : a.Around inFunction) (hroles : a'.roles = a.roles) :
    a'.Around inFunction := by
  intro returns hreturns
  exact h returns (hroles ▸ hreturns)

theorem Regular.push (ha : a.Regular) {scope : Scope} {role : ScopeRole}
    (h : ∀ entry ∈ scope.values, entry.2.Regular) : Regular { a with frames := ⟨scope, role⟩ :: a.frames } :=
  forall_mem_cons.2 ⟨h, ha⟩

theorem around_function (a : Analysis) (scope : Scope) {returns : Value} (h : returns.IsInt) :
    Around true { a with frames := ⟨scope, .function returns⟩ :: a.frames } := by
  intro other hother
  cases hother
  exact ⟨rfl, h⟩

theorem around_module (a : Analysis) (scope : Scope) :
    Around false { a with frames := ⟨scope, .module⟩ :: a.frames } :=
  nofun

theorem lookup_regular (h : Yields (lookup x loc) a v a')
    (ha : a.Regular) : v.Regular ∧ a' = a := by
  obtain ⟨place, s, -, hs, hv, rfl⟩ := lookup_eq h
  obtain ⟨frame, hframe, rfl⟩ := mem_map.1 (mem_of_getElem? hs)
  obtain ⟨before, after, hvalues, _⟩ := lookup_eq_some_iff.1 hv
  exact ⟨ha frame hframe _ (hvalues ▸ mem_append_cons_self), rfl⟩

/-- An assignment changes one scope, where the value fits, or none. -/
theorem assign_frames (h : Yields (assign x v loc) a u a') :
    a'.frames = a.frames ∨ ∃ frame scope, a.frames[(origin? a.frames x).getD 0]? = some frame ∧
      frame.scope.bind x v = .ok scope ∧
      a'.frames = a.frames.set ((origin? a.frames x).getD 0) { frame with scope } := by
  simp only [assign, bindAt, yields_get_bind] at h
  generalize (origin? a.frames x).getD 0 = place at h ⊢
  rw [getD_eq_getElem?_getD] at h
  split at h
  · next scope hbind =>
    simp only [yields_modify] at h
    subst h
    cases hframe : a.frames[place]? with
    | none => exact .inl (set_eq_of_length_le (List.getElem?_eq_none_iff.1 hframe))
    | some frame =>
      rw [hframe] at hbind
      exact .inr ⟨frame, scope, rfl, hbind, rfl⟩
  · simp only [yields_inSession] at h
    obtain ⟨_, _, rfl⟩ := h
    exact .inl rfl

theorem assign_regular (h : Yields (assign x v loc) a u a')
    (hv : v.Regular) (ha : a.Regular) : a'.Regular ∧ a'.roles = a.roles := by
  rcases assign_frames h with hframes | ⟨frame, scope, hframe, hbind, hframes⟩
  · rw [Regular, roles, hframes]
    exact ⟨ha, rfl⟩
  · rw [Regular, roles, hframes]
    obtain ⟨w, rfl, hw⟩ := Scope.bind_eq_ok hbind
    have hregular : w.Regular := by
      rcases hw with ⟨-, rfl⟩ | ⟨old, -, hconverted⟩
      · exact hv
      · exact hv.convertTo hconverted
    refine ⟨fun f hf entry hentry => ?_, ?_⟩
    · rcases mem_or_eq_of_mem_set hf with hf | rfl
      · exact ha f hf entry hentry
      · rcases Scope.mem_putValue hentry with rfl | hentry
        · exact hregular
        · exact ha frame (mem_of_getElem? hframe) entry hentry
    · obtain ⟨hlt, hget⟩ := List.getElem?_eq_some_iff.1 hframe
      rw [map_set, ← hget, ← getElem_map Frame.role (h := by simpa using hlt), set_getElem_self]
      rfl

theorem pop_regular {frame f : Frame} {outer : Analysis} (h : Yields pop a f a') (ha : a.Regular)
    (hroles : a.roles = frame.role :: outer.roles) : a'.Regular ∧ a'.roles = outer.roles := by
  simp only [pop, yields_get_bind] at h
  split at h
  · next hframes =>
    rw [roles, hframes] at hroles
    cases hroles
  · next first rest hframes =>
    simp only [yields_modify_bind, yields_pure] at h
    obtain ⟨rfl, rfl⟩ := h
    rw [Regular, hframes] at ha
    rw [roles, hframes] at hroles
    exact ⟨(forall_mem_cons.1 ha).2, (List.cons.inj hroles).2⟩

theorem returnType_role (h : Yields (returnType loc) a v a') : a.roles.head? = some (.function v) ∧ a' = a := by
  refine (returnType_eq h).imp_left fun hrole => ?_
  rw [roles]
  cases hframes : a.frames with
  | nil =>
    rw [hframes] at hrole
    cases hrole
  | cons frame outer =>
    rw [hframes] at hrole
    exact congrArg some hrole

end Analysis

/-! ### Evaluation -/

namespace Node

open Analysis

variable {inFunction : Bool} {v : Value} {a a' : Analysis} {loc : Location}

/-- What the evaluation of a node comes to, with the value that it yields: the value is recorded, all rules are obeyed,
and the surroundings stay regular. -/
structure Evaluated (inFunction : Bool) (a : Analysis) (n : Node) (v : Value) (a' : Analysis) : Prop where
  recorded : n.info.value = some v
  regular : v.Regular
  ruled : n.Ruled inFunction
  surroundings : a'.Regular
  roles : a'.roles = a.roles

theorem Evaluated.records {n : Node} {P : Value → Prop}
    (h : Evaluated inFunction a n v a') (hv : P v) : n.Records P :=
  ⟨v, h.recorded, hv⟩

/-- A node that is no function obeys the rules if it has a value, obeys its own rule, and the nodes inside it obey
theirs. -/
theorem Ruled.mk {root : Node} (hfunction : root.isFunction = false)
    (hv : root.info.value = some v) (hobeys : root.Obeys inFunction)
    (h : ∀ child ∈ root.valued, Ruled inFunction child) : Ruled inFunction root := by
  rw [ruled_iff, hfunction, Bool.or_false]
  exact ⟨⟨⟨v, hv⟩, hobeys⟩, h⟩

theorem ruled_assign {targets : List Node} {value : Node}
    (hvalue : value.Ruled inFunction) (htargets : ∀ t ∈ targets, t.isName = false → t.Ruled inFunction) :
    Ruled inFunction (.assign ⟨loc, some v⟩ targets value) := by
  refine .mk rfl rfl trivial (forall_mem_cons.2 ⟨hvalue, fun t ht => ?_⟩)
  rw [mem_filter, Bool.not_eq_true'] at ht
  exact htargets t ht.1 ht.2

/-- Evaluation of the node obeys the rules in regular surroundings. -/
def Evaluates (n : Node) : Prop :=
  ∀ ⦃n' v a a' inFunction⦄, Yields n.evaluate a (n', v) a' → a.Regular → a.Around inFunction →
    Evaluated inFunction a n' v a'

theorem evaluateAll_ruled {ns : List Node} {rs : List (Node × Value)}
    (hns : ∀ n ∈ ns, n.Evaluates) (h : Yields (evaluateAll ns) a rs a') (ha : a.Regular)
    (hr : a.Around inFunction) :
    (∀ r ∈ rs, r.1.Ruled inFunction ∧ r.1.info.value = some r.2) ∧ a'.Regular ∧ a'.roles = a.roles := by
  induction ns generalizing a rs with
  | nil =>
    simp only [evaluateAll, yields_pure] at h
    obtain ⟨rfl, rfl⟩ := h
    exact ⟨forall_mem_nil _, ha, rfl⟩
  | cons n ns ih =>
    obtain ⟨hn, hns⟩ := forall_mem_cons.1 hns
    simp only [evaluateAll, yields_bind, yields_pure] at h
    obtain ⟨⟨n', v⟩, _, hfirst, rest, _, hrest, rfl, rfl⟩ := h
    have he := hn hfirst ha hr
    obtain ⟨hrs, hb, hroles⟩ := ih hns hrest he.surroundings (hr.congr he.roles)
    exact ⟨forall_mem_cons.2 ⟨⟨he.ruled, he.recorded⟩, hrs⟩, hb, hroles.trans he.roles⟩

theorem evaluateChain_ruled {lhs : Value} {last : Option Value} {ops : List CmpOp}
    {operand : Node} {ns ns' : List Node}
    (hns : ∀ n ∈ ns, n.Evaluates) (hlength : ns.length ≤ ops.length)
    (h : Yields (evaluateChain loc lhs last ops ns) a (ns', v) a') (hlast : ∀ w, last = some w → w.Regular)
    (hlhs : operand.info.value = some lhs) (ha : a.Regular) (hr : a.Around inFunction) :
    (operand :: ns').IsChain Comparable ∧ (∀ n ∈ ns', n.Ruled inFunction) ∧ v.Regular ∧ a'.Regular ∧
      a'.roles = a.roles := by
  induction ns generalizing a loc lhs last ops operand ns' with
  | nil =>
    unfold evaluateChain at h
    split at h
    · simp only [yields_pure, Prod.mk.injEq] at h
      obtain ⟨⟨rfl, rfl⟩, rfl⟩ := h
      exact ⟨.singleton _, forall_mem_nil _, hlast _ rfl, ha, rfl⟩
    · exact absurd h not_yields_fail
  | cons n ns ih =>
    cases ops with
    | nil => cases hlength
    | cons op ops =>
      obtain ⟨hn, hns⟩ := forall_mem_cons.1 hns
      simp only [evaluateChain, yields_bind, yields_pure, Prod.mk.injEq] at h
      obtain ⟨⟨n', rhs⟩, _, hfirst, w, _, hvalue, ⟨ns'', v'⟩, _, hrest, ⟨rfl, rfl⟩, rfl⟩ := h
      have he := hn hfirst ha hr
      obtain ⟨hcompare, rfl⟩ := compareValue_eq hvalue
      have hfit := Value.compare?_fit hcompare
      have hw : w.IsInt := ⟨_, Value.compare?_type hcompare⟩
      obtain ⟨hchain, hruled, hv, hb, hroles⟩ := ih hns (Nat.le_of_succ_le_succ hlength) hrest
        (fun u hu => Option.some.inj hu ▸ hw.regular) he.recorded he.surroundings (hr.congr he.roles)
      have hcomparable : Comparable operand n' := hfit.imp
        (fun h => ⟨⟨lhs, hlhs, h.1⟩, he.records h.2⟩) (fun h => ⟨⟨lhs, hlhs, h.1⟩, he.records h.2⟩)
      exact ⟨.cons_cons hcomparable hchain, forall_mem_cons.2 ⟨he.ruled, hruled⟩, hv, hb, hroles.trans he.roles⟩

theorem bindTargets_ruled {ts ts' : List Node}
    (hts : ∀ t ∈ ts, t.Evaluates) (h : Yields (bindTargets loc v ts) a ts' a') (hv : v.Regular)
    (ha : a.Regular) (hr : a.Around inFunction) :
    (∀ t ∈ ts', t.isName = false → t.Ruled inFunction) ∧ a'.Regular ∧ a'.roles = a.roles := by
  induction ts generalizing a ts' with
  | nil =>
    simp only [bindTargets, yields_pure] at h
    obtain ⟨rfl, rfl⟩ := h
    exact ⟨forall_mem_nil _, ha, rfl⟩
  | cons t ts ih =>
    obtain ⟨ht, hrests⟩ := forall_mem_cons.1 hts
    unfold bindTargets at h
    split at h
    · next heq => cases heq
    · next info text rest heq =>
      cases heq
      simp only [yields_bind, yields_pure] at h
      obtain ⟨_, _, hassign, _, _, hrest, rfl, rfl⟩ := h
      obtain ⟨hb, hroles⟩ := assign_regular hassign hv ha
      obtain ⟨hruled, hb', hroles'⟩ := ih hrests hrest hb (hr.congr hroles)
      exact ⟨forall_mem_cons.2 ⟨Bool.noConfusion, hruled⟩, hb', hroles'.trans hroles⟩
    · next target rest _ heq =>
      cases heq
      simp only [yields_bind, yields_pure] at h
      obtain ⟨⟨target', w⟩, _, heval, _, _, hrest, rfl, rfl⟩ := h
      have he := ht heval ha hr
      obtain ⟨hruled, hb, hroles⟩ := ih hrests hrest he.surroundings (hr.congr he.roles)
      exact ⟨forall_mem_cons.2 ⟨fun _ => he.ruled, hruled⟩, hb, hroles.trans he.roles⟩

/-- Evaluation obeys the rules, node by node. -/
theorem evaluates_of_formed {n : Node} (hn : Throughout Formed n) : n.Evaluates := by
  induction n using inductionOn with | h n ih =>
  obtain ⟨hformed, hthroughout⟩ := throughout_iff.1 hn
  have hchildren : ∀ child ∈ n.children, child.Evaluates := fun child hc => ih child hc (hthroughout child hc)
  intro n' v a a' inFunction h ha hr
  cases n with
  | assign info targets value =>
    obtain ⟨hvalue, htargets⟩ := forall_mem_cons.1 hchildren
    rw [evaluate] at h
    split at h
    all_goals
      simp only [yields_bind, yields_pure, Prod.mk.injEq] at h
    · next result hliteral =>
      -- A literal is known before it is evaluated, and so is a function before its body is.
      obtain ⟨_, _, hbind, ⟨value', v'⟩, _, heval, ⟨rfl, rfl⟩, rfl⟩ := h
      have hregular := literal?_regular (throughout_iff.1 (hthroughout value mem_cons_self)).1 hliteral
      obtain ⟨hts, hb, hroles⟩ := bindTargets_ruled htargets hbind hregular ha hr
      have he := hvalue heval hb (hr.congr hroles)
      exact ⟨rfl, hregular, ruled_assign he.ruled hts, he.surroundings, he.roles.trans hroles⟩
    · obtain ⟨⟨value', v'⟩, _, heval, _, _, hbind, ⟨rfl, rfl⟩, rfl⟩ := h
      have he := hvalue heval ha hr
      obtain ⟨hts, hb, hroles⟩ :=
        bindTargets_ruled htargets hbind he.regular he.surroundings (hr.congr he.roles)
      exact ⟨rfl, he.regular, ruled_assign he.ruled hts, hb, hroles.trans he.roles⟩
  | call info operand args =>
    obtain ⟨hoperand, hargs⟩ := forall_mem_cons.1 hchildren
    simp only [evaluate, yields_bind, yields_pure, yields_inSession, Prod.mk.injEq] at h
    obtain ⟨⟨operand', callee⟩, _, hcallee, result, _, hresult, rs, _, hall, _, _, ⟨_, hcheck, rfl⟩, ⟨rfl, rfl⟩, rfl⟩ := h
    have he := hoperand hcallee ha hr
    obtain ⟨⟨origin, kind, name, params, rfl⟩, rfl⟩ := calleeResult_eq hresult
    obtain ⟨hrs, hb, hroles⟩ := evaluateAll_ruled hargs hall he.surroundings (hr.congr he.roles)
    have hruled : ∀ arg ∈ rs.map Prod.fst, arg.Ruled inFunction := forall_mem_map.2 fun r hr => (hrs r hr).1
    have htakes : Takes (rs.map Prod.fst) (.function origin kind name params result) := by
      rintro ps rfl
      rw [Value.checkArgs] at hcheck
      split at hcheck
      · simp [Session.reportFatal] at hcheck
      · next hlength =>
        rw [not_not, length_map] at hlength
        have hints := Value.checkEach_isInt hcheck (by simpa using hlength) (he.regular.1 ps rfl)
        refine ⟨by simpa using hlength, forall_mem_map.2 fun r hr => ?_⟩
        exact ⟨r.2, (hrs r hr).2, hints r.2 (mem_map_of_mem hr)⟩
    refine ⟨rfl, he.regular.2.regular, .mk rfl rfl (he.records htakes) ?_, hb, hroles.trans he.roles⟩
    exact forall_mem_cons.2 ⟨he.ruled, hruled⟩
  | giveBack info value =>
    simp only [evaluate, yields_bind, yields_pure, Prod.mk.injEq] at h
    obtain ⟨returns, _, hreturns, ⟨value', v'⟩, _, heval, given, _, hresult, ⟨rfl, rfl⟩, rfl⟩ := h
    obtain ⟨hrole, rfl⟩ := returnType_role hreturns
    obtain ⟨hfunction, hint⟩ := hr returns hrole
    have he := hchildren value mem_cons_self heval ha hr
    obtain ⟨hconverted, rfl⟩ := returnValue_eq hresult
    have hvalue : v'.IsInt := .of_convertTo (by rw [hconverted]; rfl) hint
    have hgiven : (Node.giveBack { info with value := some given } value').Records Value.IsInt :=
      ⟨given, rfl, hint.imp fun _ ht => (Value.convertTo_type hconverted).trans ht⟩
    refine ⟨rfl, he.regular.convertTo hconverted, .mk rfl rfl ⟨hfunction, he.records hvalue, hgiven⟩ ?_, he.surroundings,
      he.roles⟩
    exact forall_mem_singleton.2 he.ruled
  | binary info lhs op rhs =>
    simp only [evaluate, yields_bind, yields_pure, Prod.mk.injEq] at h
    obtain ⟨⟨lhs', left⟩, _, hlhs, ⟨rhs', right⟩, _, hrhs, _, _, hresult, ⟨rfl, rfl⟩, rfl⟩ := h
    have hl := hchildren lhs (by simp [children]) hlhs ha hr
    have hr' := hchildren rhs (by simp [children]) hrhs hl.surroundings (hr.congr hl.roles)
    obtain ⟨hv, rfl⟩ := binaryValue_eq hresult
    obtain ⟨hleft, hright, hint⟩ := Value.binary?_isInt hv
    refine ⟨rfl, hint.regular, .mk rfl rfl ⟨hl.records hleft, hr'.records hright⟩ ?_, hr'.surroundings,
      hr'.roles.trans hl.roles⟩
    simp [valued, children, hl.ruled, hr'.ruled]
  | compare info operand ops operands =>
    obtain ⟨hoperand, hoperands⟩ := forall_mem_cons.1 hchildren
    simp only [evaluate, yields_bind, yields_pure, Prod.mk.injEq] at h
    obtain ⟨⟨operand', first⟩, _, hfirst, ⟨operands', v'⟩, _, hchain, ⟨rfl, rfl⟩, rfl⟩ := h
    have he := hoperand hfirst ha hr
    obtain ⟨hchained, hruled, hv, hb, hroles⟩ := evaluateChain_ruled hoperands hformed hchain (by simp) he.recorded
      he.surroundings (hr.congr he.roles)
    refine ⟨rfl, hv, .mk rfl rfl hchained ?_, hb, hroles.trans he.roles⟩
    exact forall_mem_cons.2 ⟨he.ruled, hruled⟩
  | subscript info field i j =>
    simp only [evaluate, yields_bind, yields_pure, Prod.mk.injEq] at h
    obtain ⟨⟨field', fv⟩, _, hfield, ⟨index, v'⟩, _, helement, ⟨i', iv⟩, _, hi, ⟨j', jv⟩, _, hj, _, _, hcheck, _, _,
      hcheck', ⟨rfl, rfl⟩, rfl⟩ := h
    have hf := hchildren field (by simp [children]) hfield ha hr
    obtain ⟨⟨origin, item, value, rfl, rfl⟩, rfl⟩ := elementValue_eq helement
    have hi := hchildren i (by simp [children]) hi hf.surroundings (hr.congr hf.roles)
    have hroles := hi.roles.trans hf.roles
    have hj := hchildren j (by simp [children]) hj hi.surroundings (hr.congr hroles)
    obtain ⟨hiv, rfl⟩ := checkIndex_eq hcheck
    obtain ⟨hjv, rfl⟩ := checkIndex_eq hcheck'
    have hiv : iv.IsInt := .of_convertTo hiv ⟨index, rfl⟩
    have hjv : jv.IsInt := .of_convertTo hjv ⟨index, rfl⟩
    refine ⟨rfl, trivial, .mk rfl rfl ⟨hf.records ⟨item, index, rfl⟩, hi.records hiv, hj.records hjv⟩ ?_, hj.surroundings,
      hj.roles.trans hroles⟩
    simp [valued, children, hf.ruled, hi.ruled, hj.ruled]
  | name info text =>
    simp only [evaluate, yields_bind, yields_pure, Prod.mk.injEq] at h
    obtain ⟨_, _, hlookup, ⟨rfl, rfl⟩, rfl⟩ := h
    obtain ⟨hv, rfl⟩ := lookup_regular hlookup ha
    exact ⟨rfl, hv, .mk rfl rfl trivial (forall_mem_nil _), ha, rfl⟩
  | condition info test body | loop info test body =>
    obtain ⟨htest, hbody⟩ := forall_mem_cons.1 hchildren
    simp only [evaluate, yields_bind, yields_pure, Prod.mk.injEq] at h
    obtain ⟨⟨test', v'⟩, _, heval, rs, _, hall, ⟨rfl, rfl⟩, rfl⟩ := h
    have he := htest heval ha hr
    obtain ⟨hrs, hb, hroles⟩ := evaluateAll_ruled hbody hall he.surroundings (hr.congr he.roles)
    refine ⟨rfl, he.regular, .mk rfl rfl trivial ?_, hb, hroles.trans he.roles⟩
    exact forall_mem_cons.2 ⟨he.ruled, forall_mem_map.2 fun r hr => (hrs r hr).1⟩
  | int info type value | matrix info item index value =>
    simp only [evaluate, yields_pure, Prod.mk.injEq] at h
    obtain ⟨⟨rfl, rfl⟩, rfl⟩ := h
    exact ⟨rfl, trivial, .mk rfl rfl trivial (forall_mem_nil _), ha, rfl⟩
  | function info head scope body =>
    simp only [evaluate, push, yields_bind, yields_modify, yields_pure, Prod.mk.injEq] at h
    obtain ⟨_, _, rfl, rs, _, hall, frame, _, hpop, ⟨rfl, rfl⟩, rfl⟩ := h
    have hregular : Value.Regular (functionValue info.loc head) :=
      literal?_regular (n := .function info head scope body) hformed rfl
    have hparams : ∀ entry ∈ head.params, entry.2.Regular := fun entry hentry => (hformed.1 entry hentry).regular
    obtain ⟨hrs, hb, hroles⟩ := evaluateAll_ruled hchildren hall (ha.push hparams) (around_function a _ hformed.2)
    obtain ⟨hb', hroles'⟩ := pop_regular hpop hb hroles
    refine ⟨rfl, hregular, ruled_iff.2 ⟨⟨⟨_, rfl⟩, trivial⟩, ?_⟩, hb', hroles'⟩
    rw [isFunction, Bool.or_true]
    exact forall_mem_map.2 fun r hr => (hrs r hr).1
  | builtin f =>
    simp only [evaluate, yields_pure, Prod.mk.injEq] at h
    obtain ⟨⟨rfl, rfl⟩, rfl⟩ := h
    exact ⟨rfl, hformed, .mk rfl rfl trivial (forall_mem_nil _), ha, rfl⟩
  | missing => simp [evaluate] at h

end Node

/-! ### Programs -/

/-- What evaluation relies on in a whole program. -/
structure Module.Formed (m : Module) : Prop where
  body : ∀ n ∈ m.body, Node.Throughout Node.Formed n
  values : ∀ entry ∈ m.scope.values, entry.2.Regular

/-- A node stands in value position in a program. The flag tells whether it stands in a function. -/
def Module.Valued (inFunction : Bool) (n : Node) (m : Module) : Prop :=
  ∃ root ∈ m.body, Node.Valued inFunction n false root

namespace Node

theorem IsStmt.formed {n : Node} (hn : n.IsStmt) : Throughout Formed n := by
  refine hn.throughout (fun n hn => ?_) (fun op => ?_) (fun _ _ _ _ => trivial) fun _ _ _ _ hhead => ?_
  · cases hn with
    | expr hn =>
      cases hn with
      | compare hlength _ _ _ => exact Nat.le_of_eq hlength.symm
      | name | int | robot | call | subscript | binary | missing => trivial
    | assign | field | function | giveBack | condition | loop => trivial
  · obtain ⟨entry, hentry, hcommand⟩ := mem_map.1 (Value.robotCommand_mem_builtins op)
    exact hcommand ▸ Value.regular_of_mem_builtins entry hentry
  · exact ⟨hhead.int, hhead.returns⟩

end Node

/-- What a text is lowered to can be relied on. -/
theorem Program.lower_formed {text file : String} {p : Program Sign} {m : Module} {s₀ s s' : Session}
    (htree : Yields (ofText text file) s₀ p s) (h : Yields (p.lower text file) s m s') : m.Formed := by
  obtain ⟨hbody, hvalues, -⟩ := Program.lower_isStmt_of_text htree h
  refine ⟨fun n hn => (hbody n hn).formed, ?_⟩
  rw [hvalues]
  exact nofun

/-- What the language brings along is regular. -/
theorem Analysis.regular_builtins (s : Session) : Analysis.Regular { session := s } :=
  forall_mem_singleton.2 Value.regular_of_mem_builtins

theorem Module.evaluate_ruled {m m' : Module} {a a' : Analysis} (hm : m.Formed) (ha : a.Regular)
    (h : Yields m.evaluate a m' a') : ∀ n ∈ m'.body, n.Ruled false := by
  simp only [Module.evaluate, Analysis.push, yields_bind, yields_modify, yields_pure] at h
  obtain ⟨_, _, rfl, rs, _, hall, _, _, _, rfl, rfl⟩ := h
  have hrs := Node.evaluateAll_ruled (fun n hn => Node.evaluates_of_formed (hm.body n hn)) hall (ha.push hm.values) (Analysis.around_module a m.scope)
  exact forall_mem_map.2 fun r hr => (hrs.1 r hr).1

/-- Evaluation obeys the typing rules: whenever it comes to an end, every node in value position has a value, and the
recorded values fit together at every node, in functions, checks, loops and elements that are assigned to as anywhere
else. This holds of every program that has an operator for each comparison and whose functions take numbers and give
back numbers, as every program does that comes from a text. -/
theorem Module.evaluate_obeys_rules :
    (∀ {text file : String} {p : Program Sign} {m : Module} {s s' s'' : Session},
      Yields (Program.ofText text file) s p s' → Yields (p.lower text file) s' m s'' → m.Formed) ∧
    (∀ s, Analysis.Regular { session := s }) ∧
    ∀ {m m' : Module} {a a' : Analysis}, m.Formed → a.Regular → Yields m.evaluate a m' a' →
      ∀ inFunction n, m'.Valued inFunction n → (∃ v, n.info.value = some v) ∧ n.Obeys inFunction := by
  refine ⟨fun {text file p m s s' s''} htree hlower => ?_, Analysis.regular_builtins,
    fun {m m' a a'} hm ha h inFunction n hn => ?_⟩
  · exact Program.lower_formed htree hlower
  · obtain ⟨root, hroot, hn⟩ := hn
    exact Module.evaluate_ruled hm ha h root hroot inFunction n hn

/-- A function that calls itself. -/
def callingText : String := "small h small k begin return h(k). end."

def Module.onlyHandsBack (m : Module) : Bool :=
  match m.body with
  | [.assign _ _ (.function _ _ _ [.giveBack _ _])] => true
  | _ => false

/-- In such a function the call and what is given back obey the rules. -/
theorem Module.evaluate_obeys_rules_calling : ∃ (tree : Program Sign) (m m' : Module) (s s' s'' : Session)
    (a' : Analysis) (n : Node), Yields (Program.ofText callingText "") {} tree s ∧
    Yields (tree.lower callingText "") s m s' ∧ Yields m.evaluate { session := s'' } m' a' ∧ m'.Valued true n ∧
    (∃ info value, n = .giveBack info value) ∧ (∃ v, n.info.value = some v) ∧ n.Obeys true := by
  obtain ⟨hformed, hregular, hrules⟩ := Module.evaluate_obeys_rules
  have hgives : gives (Analysis.ofText callingText "") {} (fun m _ => m.onlyHandsBack) = true := by decide +kernel
  obtain ⟨m', a', hyields, hshape⟩ := yields_of_gives hgives
  rw [Module.onlyHandsBack] at hshape
  split at hshape
  · next info value hbody =>
    simp only [Analysis.ofText, yields_bind, yields_inSession, if_true] at hyields
    obtain ⟨tree, _, ⟨s, htree, rfl⟩, m, _, ⟨s', hlower, rfl⟩, _, _, ⟨s'', -, rfl⟩, heval⟩ := hyields
    have hn : m'.Valued true (.giveBack info value) := by
      refine ⟨_, by rw [hbody]; exact mem_cons_self, ?_⟩
      exact .inside mem_cons_self (.inside mem_cons_self .here)
    exact ⟨tree, m, m', s, s', s'', a', _, htree, hlower, heval, hn, ⟨info, value, rfl⟩,
      hrules (hformed htree hlower) (hregular s'') heval true _ hn⟩
  · cases hshape

end Labyrinth
