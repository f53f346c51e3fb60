import Labyrinth.Proofs.Code.Provision
import Labyrinth.Proofs.Code.Scoping

/-!
# Names that the frame lacks

An emitted program takes the names of types, operators, conversions and formats from the frame. It finds them there,
except at three kinds of places that analysis lets through: a function that is printed, something other than a number
that is asserted, and fields that are compared.
-/

namespace Labyrinth

open List Labyrinth.Task

theorem Value.Known.type_ne_module {fns : List Value} {v : Value} (h : v.Known fns) : v.type ≠ .module := by
  cases v with
  | int | matrix | function => exact nofun
  | module => exact h.elim

namespace Node

variable {x : String} {n : Node} {info : NodeInfo}

/-- The name that the frame lacks for a node itself. -/
inductive Misses : Node → String → Prop where
  | format {info : NodeInfo} {operand n : Node} {args : List Node} {loc name params returns} :
      operand.info.value = some (.function loc .print name params returns) → n ∈ args → n.type? = some .function →
      Misses (.call info operand args) (Code.formatName .function)
  | truth {info : NodeInfo} {operand n : Node} {args : List Node} {type : ValueType} {loc name params returns} :
      operand.info.value = some (.function loc .assert name params returns) → n ∈ args → n.type? = some type →
      (¬∃ t, type = .int t) → Misses (.call info operand args) (Code.convertName type.name "unsigned_tiny")
  | comparison {info : NodeInfo} {operand left right : Node} {ops : List CmpOp} {op : CmpOp} {operands : List Node}
      {k : Nat} {leftType rightType : ValueType} :
      (operand :: operands)[k]? = some left → ops[k]? = some op → operands[k]? = some right →
      left.type? = some leftType → right.type? = some rightType →
      (¬((∃ t, leftType = .int t) ∧ ∃ t, rightType = .int t)) →
      Misses (.compare info operand ops operands) (Code.operatorName op.word leftType.name rightType.name)

/-- The name that the frame lacks for something inside a node. -/
def Lacks (n : Node) (x : String) : Prop :=
  ∃ k, Within k n ∧ k.Misses x

theorem lacks_iff : n.Lacks x ↔ n.Misses x ∨ ∃ child ∈ n.children, child.Lacks x := by
  constructor
  · rintro ⟨k, hk, hmisses⟩
    cases hk with
    | here => exact .inl hmisses
    | inside hchild hk => exact .inr ⟨_, hchild, k, hk, hmisses⟩
  · rintro (hmisses | ⟨child, hchild, k, hk, hmisses⟩)
    · exact ⟨n, .here, hmisses⟩
    · exact ⟨k, .inside hchild hk, hmisses⟩

/-- Nothing is lacking for a node with nothing inside. -/
theorem not_lacks_of_leaf (h : n.children = []) : ¬n.Lacks x := by
  rw [lacks_iff, h]
  rintro (hmisses | ⟨_, hchild, -⟩)
  · cases hmisses <;> cases h
  · cases hchild

@[simp] theorem not_lacks_name {y : String} : ¬(Node.name info y).Lacks x :=
  not_lacks_of_leaf rfl

/-- Whether a node is a call or a comparison. -/
def isSite : Node → Bool
  | .call _ _ _ => true
  | .compare _ _ _ _ => true
  | _ => false

theorem not_misses (h : n.isSite = false) : ¬n.Misses x := by
  rintro (_ | _ | _) <;> cases h

theorem lacks_function {head : FunctionHead} {scope : Scope} {body : List Node} :
    (Node.function info head scope body).Lacks x ↔ ∃ n ∈ body, n.Lacks x :=
  lacks_iff.trans (or_iff_right (not_misses rfl))

section Call

variable {info : NodeInfo} {operand : Node} {args : List Node} {loc : Location} {kind : FunctionKind} {name x : String}
  {params : Option (List (String × Value))} {returns : Value}

theorem misses_print_iff (h : operand.info.value = some (.function loc .print name params returns)) :
    Misses (.call info operand args) x ↔ x = Code.formatName .function ∧ ∃ n ∈ args, n.type? = some .function := by
  constructor
  · rintro (⟨-, hn, htype⟩ | ⟨hv, -, -, -⟩)
    · exact ⟨rfl, _, hn, htype⟩
    · cases h.symm.trans hv
  · rintro ⟨rfl, n, hn, htype⟩
    exact .format h hn htype

theorem misses_assert_iff (h : operand.info.value = some (.function loc .assert name params returns)) :
    Misses (.call info operand args) x ↔ ∃ n ∈ args, ∃ type, n.type? = some type ∧ (¬∃ t, type = .int t) ∧
      x = Code.convertName type.name "unsigned_tiny" := by
  constructor
  · rintro (⟨hv, -, -⟩ | ⟨-, hn, htype, hint⟩)
    · cases h.symm.trans hv
    · exact ⟨_, hn, _, htype, hint, rfl⟩
  · rintro ⟨n, hn, type, htype, hint, rfl⟩
    exact .truth h hn htype hint

theorem not_misses_call (h : operand.info.value = some (.function loc kind name params returns))
    (hprint : kind ≠ .print) (hassert : kind ≠ .assert) : ¬Misses (.call info operand args) x := by
  rintro (⟨hv, -, -⟩ | ⟨hv, -, -, -⟩)
  · cases h.symm.trans hv
    exact hprint rfl
  · cases h.symm.trans hv
    exact hassert rfl

end Call

variable {left : Node} {ops : List CmpOp}

theorem misses_compare_cons {right : Node} {op : CmpOp} {ns : List Node} {leftType rightType : ValueType}
    (hleft : left.type? = some leftType) (hright : right.type? = some rightType) :
    Misses (.compare info left (op :: ops) (right :: ns)) x ↔
      x = Code.operatorName op.word leftType.name rightType.name ∧
        (¬((∃ t, leftType = .int t) ∧ ∃ t, rightType = .int t)) ∨ Misses (.compare info right ops ns) x := by
  constructor
  · rintro (_ | _ | ⟨hk, hop, hr, hkt, hrt, hint⟩)
    next k _ _ =>
    cases k with
    | zero =>
      cases hk
      cases hop
      cases hr
      cases hleft.symm.trans hkt
      cases hright.symm.trans hrt
      exact .inl ⟨rfl, hint⟩
    | succ k => exact .inr (.comparison hk hop hr hkt hrt hint)
  · rintro (⟨rfl, hint⟩ | (_ | _ | ⟨hk, hop, hr, hkt, hrt, hint⟩))
    · exact .comparison (k := 0) rfl rfl rfl hleft hright hint
    · exact .comparison (k := _ + 1) hk hop hr hkt hrt hint

theorem not_misses_compare_nil : ¬Misses (.compare info left ops []) x := by
  rintro (_ | _ | ⟨-, -, hr, -, -, -⟩)
  cases hr

end Node

namespace Code

open Fragment

variable {n : Node} {fs : List Fragment} {types : List ValueType}

def Lacking (fragments : List Fragment) (x : String) : Prop :=
  foreign x ∈ fragments ∧ ¬Provided x

/-- A function that is called is one of the frame, or one of some functions. -/
def Callable (fns : List Value) (x : String) : Prop :=
  frameDefines (functionName x) = true ∨ ∃ loc kind params returns, Value.function loc kind x params returns ∈ fns

def Calls (fns : List Value) (fragments : List Fragment) : Prop :=
  ∀ x, function x ∈ fragments → Callable fns x

variable {fns : List Value} {gs : List Fragment} {ns : List Node} {es : List CExpr} {x y : String} {P Q : String → Prop}

/-! ### Expressions -/

/-- The names that the frame lacks are known for some fragments, and they call functions that are there. -/
structure Accounts (fns : List Value) (fragments : List Fragment) (lacks : String → Prop) : Prop where
  lacking : ∀ x, Lacking fragments x ↔ lacks x
  calls : Calls fns fragments

namespace Accounts

theorem nil : Accounts fns [] fun _ => False := ⟨fun _ => ⟨nofun, False.elim⟩, nofun⟩

theorem append (h : Accounts fns fs P) (h' : Accounts fns gs Q) : Accounts fns (fs ++ gs) fun x => P x ∨ Q x :=
  ⟨fun x => by simp only [← h.lacking, ← h'.lacking, Lacking, mem_append, or_and_right],
    fun x hx => (mem_append.1 hx).elim (h.calls x) (h'.calls x)⟩

theorem foreign (h : Accounts fns fs P) (y : String) :
    Accounts fns (foreign y :: fs) fun x => (x = y ∧ ¬Provided y) ∨ P x := by
  refine ⟨fun x => ?_, fun x hx => h.calls x (by simpa using hx)⟩
  simp only [← h.lacking, Lacking, mem_cons, Fragment.foreign.injEq, or_and_right]
  exact or_congr_left (and_congr_right fun h => by rw [h])

theorem function (h : Accounts fns fs P) (hy : Callable fns y) : Accounts fns (function y :: fs) P :=
  ⟨fun x => by simp [← h.lacking, Lacking], fun x hx => by
    rcases mem_cons.1 hx with heq | hx
    · cases heq
      exact hy
    · exact h.calls x hx⟩

/-- Only names of the frame and functions that are called matter. -/
theorem needs (h : Accounts fns fs P)
    (hfs : ∀ x, (.foreign x ∈ gs ↔ .foreign x ∈ fs) ∧ (.function x ∈ gs ↔ .function x ∈ fs)) : Accounts fns gs P :=
  ⟨fun x => by rw [← h.lacking, Lacking, Lacking, (hfs x).1], fun x hx => h.calls x ((hfs x).2.1 hx)⟩

theorem congr (h : Accounts fns fs P) (hPQ : ∀ x, P x ↔ Q x) : Accounts fns fs Q :=
  ⟨fun x => (h.lacking x).trans (hPQ x), h.calls⟩

theorem provided (h : Accounts fns fs P) (hy : Provided y) : Accounts fns (.foreign y :: fs) P :=
  (h.foreign y).congr fun x => by simp [hy]

/-- What is emitted for a node that lacks nothing itself has the names that the frame lacks for what is inside it. -/
theorem inner (h : Accounts fns fs fun x => ∃ child ∈ n.children, child.Lacks x) (hsite : n.isSite = false) :
    Accounts fns fs n.Lacks :=
  h.congr fun x => by rw [Node.lacks_iff, or_iff_right (Node.not_misses hsite)]

end Accounts

/-- Expressions have the names that the frame lacks for the nodes they are emitted for. -/
abbrev AccountsFor (fns : List Value) (es : List CExpr) (ns : List Node) : Prop :=
  Forall₂ (fun e n => Accounts fns e.fragments n.Lacks) es ns

theorem accounts_listFragments (h : AccountsFor fns es ns) (first : Bool) :
    Accounts fns (listFragments first es) fun x => ∃ n ∈ ns, n.Lacks x := by
  induction h generalizing first with
  | nil => exact Accounts.nil.congr (by simp)
  | cons he _ ih => exact ((he.append (ih false)).needs (by cases first <;> simp [listFragments])).congr (by simp)

abbrev TypedAs (ns : List Node) (types : List ValueType) : Prop :=
  Forall₂ (fun n type => n.type? = some type ∧ type ≠ .module) ns types

theorem accounts_formats (h : TypedAs ns types) :
    Accounts fns (types.flatMap fun t => [foreign (formatName t), glue " ", quoted " ", glue " "])
      fun x => x = formatName .function ∧ ∃ n ∈ ns, n.type? = some .function := by
  induction h with
  | nil => exact Accounts.nil.congr (by simp)
  | @cons n type ns types hn _ ih =>
    refine ((ih.foreign (formatName type)).needs (by simp)).congr fun x => ?_
    rw [provided_formatName_iff hn.2]
    by_cases htype : type = .function
    · subst htype
      simpa [hn.1] using fun h _ _ _ => h
    · simp [hn.1, htype]

theorem accounts_assertFragments {messages : List String} (h : AccountsFor fns es ns)
    (htypes : TypedAs ns types) (hmessages : messages.length = es.length) :
    Accounts fns (assertFragments types messages es) fun x => (∃ n ∈ ns, ∃ type, n.type? = some type ∧
      (¬∃ t, type = .int t) ∧ x = convertName type.name "unsigned_tiny") ∨ ∃ n ∈ ns, n.Lacks x := by
  have hassert : Provided "slabes_assert" := provided_iff.2 (.inr rfl)
  induction h generalizing types messages with
  | nil => exact Accounts.nil.congr (by simp)
  | @cons e n es ns he _ ih =>
    match types, messages, htypes, hmessages with
    | type :: types, message :: messages, .cons htype htypes, hmessages =>
      have hrest := (he.append (ih htypes (Nat.succ.inj hmessages))).foreign (convertName type.name "unsigned_tiny")
      refine ((hrest.provided hassert).needs (by simp [assertFragments])).congr fun x => ?_
      simp only [provided_toTruth_iff htype.2, exists_mem_cons_iff, htype.1, Option.some.injEq, exists_eq_left']
      rw [and_comm]
      simp only [or_assoc, or_left_comm]

/-- In a chain of comparisons, the names that the frame lacks are those for two operands next to each other that are
not both numbers. -/
theorem accounts_compareFragments (info : NodeInfo) {lhs : List Fragment} {left : Node} {leftType : ValueType}
    {ops : List CmpOp} (h : AccountsFor fns es ns) (htypes : TypedAs ns types)
    (hops : ops.length = es.length) (hlhs : Accounts fns lhs left.Lacks)
    (hleft : left.type? = some leftType ∧ leftType ≠ .module) (first : Bool) :
    Accounts fns (compareFragments first lhs leftType ops types es) fun x =>
      Node.Misses (.compare info left ops ns) x ∨ (ns ≠ [] ∧ left.Lacks x) ∨ ∃ n ∈ ns, n.Lacks x := by
  induction h generalizing lhs left leftType ops types first with
  | nil => exact Accounts.nil.congr (by simp [Node.not_misses_compare_nil])
  | @cons e n es ns he _ ih =>
    match ops, types, hops, htypes with
    | op :: ops, type :: types, hops, .cons htype htypes =>
      have hrest := hlhs.append (he.append (ih htypes (Nat.succ.inj hops) he htype false))
      refine ((hrest.foreign (operatorName op.word leftType.name type.name)).needs
        (by cases first <;> simp [compareFragments])).congr fun x => ?_
      rw [provided_comparison_iff op hleft.2 htype.2, Node.misses_compare_cons hleft.1 htype.1, exists_mem_cons_iff]
      by_cases hn : n.Lacks x <;> simp [hn, or_assoc, or_left_comm]

namespace Emission

variable {t t' : Emission}
variable {types : List ValueType} {e : CExpr} {name : String} {S : List Scope} {info : NodeInfo} {v : Value}
    {n value : Node} {type : ValueType}

/-- A function that may come up and is neither printing nor an assertion can be called by its name. -/
theorem callable_of_known {loc : Location} {kind : FunctionKind}
    {params : Option (List (String × Value))} {returns : Value}
    (h : Value.Known fns (.function loc kind name params returns)) (hprint : kind ≠ .print) (hassert : kind ≠ .assert) :
    Callable fns name := by
  rcases h.2 with h | h
  · exact .inr ⟨loc, kind, params, returns, h⟩
  · have hhead : headOf (.function loc kind name params returns) = some (functionName name) := by
      cases kind <;> first | rfl | exact absurd rfl hprint | exact absurd rfl hassert
    refine .inl ((frameDefines_of_mem_builtins h hhead).resolve_left fun hmem => ?_)
    have hlist : (functionName name).toList ∈ ["printf(", "slabes_assert("].map String.toList :=
      mem_map_of_mem hmem
    simp [functionName] at hlist

/-- The types that were found out for typed nodes are those of values that may come up. -/
theorem typedAs_of_typed (hns : ∀ n ∈ ns, ∃ v, Node.Typed fns S n v)
    (h : HaveTypes ns types) : TypedAs ns types := by
  induction h with
  | nil => exact .nil
  | @cons n type ns types htype _ ih =>
    obtain ⟨⟨v, hv⟩, hns⟩ := forall_mem_cons.1 hns
    refine .cons ⟨htype, ?_⟩ (ih hns)
    rw [Node.type?, hv.value] at htype
    cases htype
    exact hv.known.type_ne_module

variable {operand target : Node} {rs : List (Node × CStmt × List CFunction)} {head : FunctionHead} {scope : Scope}

/-- A call that is in order calls a function that may come up, with arguments that are in order. -/
theorem of_typed_call (h : Node.Typed fns S (.call info operand ns) v) :
    (∀ w, operand.info.value = some w → w.Known fns) ∧ (∀ x, ¬operand.Lacks x) ∧
      ∀ n ∈ ns, ∃ v, Node.Typed fns S n v := by
  cases h with
  | @robot _ op => exact ⟨fun _ hw => Option.some.inj hw ▸ Value.known_robotCommand op,
      fun x => Node.not_lacks_of_leaf rfl, nofun⟩
  | call _ hv hrs => exact ⟨fun _ hw => Option.some.inj hw ▸ hv, fun x => Node.not_lacks_of_leaf rfl,
      forall_mem_map.2 fun r hr => ⟨r.2, hrs r hr⟩⟩

theorem of_typed_compare {ops : List CmpOp} (h : Node.Typed fns S (.compare info operand ops ns) v) :
    (∃ w, Node.Typed fns S operand w) ∧ ∀ n ∈ ns, ∃ v, Node.Typed fns S n v := by
  cases h with
  | compare _ _ ho hrs => exact ⟨⟨_, ho⟩, forall_mem_map.2 fun r hr => ⟨r.2, hrs r hr⟩⟩

theorem accountsFor_of_typed {rs : List (Node × CExpr)} (hrs : ∀ n ∈ rs.map Prod.fst, ∃ v, Node.Typed fns S n v)
    (h : ∀ r ∈ rs, ∀ {v}, Node.Typed fns S r.1 v → Accounts fns r.2.fragments r.1.Lacks) :
    AccountsFor fns (rs.map Prod.snd) (rs.map Prod.fst) := by
  refine forall₂_map_map fun r hr => ?_
  obtain ⟨v, hv⟩ := hrs r.1 (mem_map_of_mem hr)
  exact h r hr hv

/-- An expression accounts for the node that it is emitted for. -/
theorem Forms.accounts (h : Forms n e) (htyped : Node.Typed fns S n v) : Accounts fns e.fragments n.Lacks := by
  induction h generalizing v with
  | name => exact ((Accounts.nil.needs (by simp [CExpr.fragments])).congr (by simp [Node.children])).inner rfl
  | @int _ type =>
    refine .inner ?_ rfl
    exact (((Accounts.nil.provided (provided_maxName type)).provided (provided_minName type)).needs
      (by simp [CExpr.fragments, or_comm])).congr (by simp [Node.children])
  | print _ hv ht _ ih =>
    obtain ⟨-, hoperand, hargs⟩ := of_typed_call htyped
    have hlist := accounts_listFragments (accountsFor_of_typed hargs ih) false
    refine (((accounts_formats (typedAs_of_typed hargs ht)).append hlist).needs (by simp [CExpr.fragments])).congr
      fun x => ?_
    simp [Node.lacks_iff (n := .call ..), Node.misses_print_iff hv, Node.children, hoperand]
  | asserts _ hv ht hm _ ih =>
    obtain ⟨-, hoperand, hargs⟩ := of_typed_call htyped
    refine (accounts_assertFragments (accountsFor_of_typed hargs ih) (typedAs_of_typed hargs ht)
      (hm.trans (length_map _).symm)).congr fun x => ?_
    simp [Node.lacks_iff (n := .call ..), Node.misses_assert_iff hv, Node.children, hoperand]
  | apply _ hv hprint hassert _ ih =>
    obtain ⟨hknown, hoperand, hargs⟩ := of_typed_call htyped
    have hlist := accounts_listFragments (accountsFor_of_typed hargs ih) true
    refine ((hlist.function (callable_of_known (hknown _ hv) hprint hassert)).needs ?_).congr fun x => ?_
    · simp only [CExpr.fragments]
      split <;> simp
    · simp [Node.lacks_iff (n := .call ..), Node.not_misses_call hv hprint hassert, Node.children, hoperand]
  | @subscript _ _ _ _ index _ _ _ _ _ _ _ ihi ihj =>
    cases htyped with
    | subscript _ hi hj =>
      refine .inner ?_ rfl
      exact ((((ihi hi).append (ihj hj)).provided (provided_maxName index)).needs
        (by simp [CExpr.fragments, or_left_comm, or_comm])).congr (by simp [Node.children])
  | @binary _ _ op _ _ _ _ _ hleft hright _ _ ihl ihr =>
    cases htyped with
    | binary hl hr hv =>
      obtain ⟨a, b, rfl, rfl⟩ : ∃ a b, _ = ValueType.int a ∧ _ = ValueType.int b := by
        rw [Node.type?, hl.value] at hleft
        rw [Node.type?, hr.value] at hright
        unfold Value.binary? at hv
        split at hv
        · exact ⟨_, _, (Option.some.inj hleft).symm, (Option.some.inj hright).symm⟩
        · cases hv
      refine .inner ?_ rfl
      exact ((((ihl hl).append (ihr hr)).provided (provided_operatorName a b op)).needs
        (by simp [CExpr.fragments, ValueType.name])).congr (by simp [Node.children])
  | @compare info _ _ _ _ _ rs hlength hne hleft ht _ _ iho ih =>
    obtain ⟨⟨w, ho⟩, hargs⟩ := of_typed_compare htyped
    have hleft := typedAs_of_typed (forall_mem_singleton.2 ⟨_, ho⟩) (.cons hleft .nil)
    refine (accounts_compareFragments info (accountsFor_of_typed hargs ih) (typedAs_of_typed hargs ht)
      (hlength.trans (length_map _).symm) (iho ho) (forall₂_cons.1 hleft).1 true).congr fun x => ?_
    rw [Node.lacks_iff (n := .compare ..), Node.children, exists_mem_cons_iff]
    simp [hne]

/-! ### Statements -/

/-- What is bound in a scope may come up in a program with some functions. -/
def KnowsAll (fns : List Value) (s : Scope) : Prop :=
  ∀ x v, s.value? x = some v → v.Known fns

/-- Storing a value adds no name that the frame lacks. -/
theorem storeIn_accounts (htype : type ≠ .module) (h : Accounts fns e.fragments P) :
    Accounts fns (storeIn type name e).fragments P := by
  unfold storeIn
  split
  · next hvariable => exact (h.provided (provided_typeName hvariable htype).2).needs (by simp [CStore.fragments])
  · exact h

theorem convert_accounts {source target : IntType} (h : Accounts fns e.fragments P) :
    Accounts fns (CExpr.convert source target e).fragments P :=
  (h.provided (provided_convertName source target)).needs (by simp [CExpr.fragments])

variable {lines : Array String} {s : Scope}

/-- A store accounts for its target, and for what the value that is written does. -/
theorem FormsStore.accounts {store : CStore} {W : CExpr → Prop} (h : FormsStore lines s value W target store)
    (hW : ∀ e, W e → Accounts fns e.fragments P) (hs : KnowsAll fns s)
    (htyped : (∃ info x, target = .name info x) ∨ ∃ v, Node.Typed fns S target v) :
    Accounts fns store.fragments fun x => target.Lacks x ∨ P x := by
  cases h with
  | number _ _ _ he =>
    have hint {kind : IntType} : ValueType.int kind ≠ .module := nofun
    exact (storeIn_accounts hint (convert_accounts (hW _ he))).congr (by simp)
  | other hx _ he => exact (storeIn_accounts (hs _ _ hx).type_ne_module (hW _ he)).congr (by simp)
  | element hname htarget he =>
    obtain ⟨_, htyped⟩ := htyped.resolve_left fun ⟨_, _, h⟩ => hname _ _ h
    exact ((htarget.forms.accounts htyped).append (hW _ he)).needs (by simp [CStore.fragments])

/-- An assignment accounts for its targets and, if there are any, for its value. -/
theorem accounts_assign {rs : List (Node × CStore)} (hne : ∀ x, value.Lacks x → rs ≠ [])
    (hrs : ∀ r ∈ rs, Accounts fns r.2.fragments fun x => r.1.Lacks x ∨ value.Lacks x) :
    Accounts fns (CStmt.assign (rs.map Prod.snd)).fragments (Node.assign info (rs.map Prod.fst) value).Lacks := by
  have hstores : Accounts fns ((rs.map Prod.snd).flatMap CStore.fragments)
      fun x => ∃ r ∈ rs, r.1.Lacks x ∨ value.Lacks x := by
    clear hne
    induction rs with
    | nil => exact Accounts.nil.congr (by simp)
    | cons r rs ih =>
      exact ((hrs r mem_cons_self).append (ih fun r hr => hrs r (mem_cons_of_mem _ hr))).congr (by simp)
  refine .inner (hstores.congr fun x => ?_) rfl
  rw [Node.children, exists_mem_cons_iff]
  constructor
  · rintro ⟨r, hr, hlacks | hlacks⟩
    · exact .inr ⟨_, mem_map_of_mem hr, hlacks⟩
    · exact .inl hlacks
  · rintro (hlacks | ⟨n, hn, hlacks⟩)
    · obtain ⟨r, hr⟩ := exists_mem_of_ne_nil _ (hne x hlacks)
      exact ⟨r, hr, .inr hlacks⟩
    · obtain ⟨r, hr, rfl⟩ := mem_map.1 hn
      exact ⟨r, hr, .inl hlacks⟩

theorem accounts_body (hrs : ∀ r ∈ rs, Accounts fns (r.2.1.fragments ++ r.2.2.flatMap CFunction.fragments) r.1.Lacks)
    :
    Accounts fns (stmtFragments (rs.map (·.2.1)) ++ (rs.flatMap (·.2.2)).flatMap CFunction.fragments)
      fun x => ∃ n ∈ rs.map Prod.fst, n.Lacks x := by
  induction rs with
  | nil => exact Accounts.nil.congr (by simp)
  | cons r rs ih =>
    have hboth := (hrs r mem_cons_self).append (ih fun r hr => hrs r (mem_cons_of_mem _ hr))
    refine (hboth.needs fun x => ?_).congr (by simp)
    simp only [map_cons, stmtFragments, flatMap_cons, flatMap_append, mem_append, mem_cons,
      reduceCtorEq, false_or, or_assoc, or_left_comm, and_self]

theorem accounts_tested (he : Accounts fns e.fragments n.Lacks)
    (hrs : ∀ r ∈ rs, Accounts fns (r.2.1.fragments ++ r.2.2.flatMap CFunction.fragments) r.1.Lacks) :
    Accounts fns (e.fragments ++ (stmtFragments (rs.map (·.2.1)) ++ (rs.flatMap (·.2.2)).flatMap CFunction.fragments))
      fun x => ∃ child ∈ n :: rs.map Prod.fst, child.Lacks x :=
  (he.append (accounts_body hrs)).congr (by simp)

/-- Fragments with nothing but names that the frame provides. -/
theorem accounts_of_provided (h : ∀ x, (foreign x ∈ fs → Provided x) ∧ function x ∉ fs) :
    Accounts fns fs fun _ => False :=
  ⟨fun x => iff_false_intro fun hx => hx.2 ((h x).1 hx.1), fun x hx => absurd hx (h x).2⟩

theorem freeFragments_accounts (names : List String) : Accounts fns (freeFragments names) fun _ => False :=
  accounts_of_provided (by simp [freeFragments])

/-- There is a C type for each variable of a scope. -/
theorem locals_accounts (hs : KnowsAll fns s) (hnodup : (s.values.map Prod.fst).Nodup) :
    Accounts fns ((variablesOf s).flatMap fun (type, name) =>
      [foreign (typeName type), glue " ", mention name, glue "  = 0;; "]) fun _ => False := by
  refine accounts_of_provided fun x => ⟨fun hx => ?_, by simp⟩
  obtain ⟨entry, hentry, hx⟩ := mem_flatMap.1 hx
  obtain rfl : x = typeName entry.1 := by simpa using hx
  obtain ⟨⟨name, value⟩, hmem, hvalue⟩ := mem_filterMap.1 hentry
  dsimp only at hvalue
  split at hvalue
  · cases hvalue
  · next hnot =>
    cases hvalue
    obtain ⟨-, hvariable⟩ : s.names.isParam name = false ∧ value.type.isVariable = true := by simpa using hnot
    exact (provided_typeName hvariable (hs name value ((Scope.value?_eq_some_iff hnodup).2 hmem)).type_ne_module).1

/-- There are C types for what a function takes and gives back. -/
theorem prototype_accounts {names : NameTable} (h : head.Heads names) :
    Accounts fns (prototypeOf head).fragments fun _ => False := by
  have hint {v : Value} (hv : ∃ t, v.type = .int t) : Provided (typeName v.type) := by
    obtain ⟨t, ht⟩ := hv
    exact (provided_typeName (by rw [ht]; rfl) (by rw [ht]; nofun)).1
  have hparams : ∀ entry ∈ (prototypeOf head).params, Provided (typeName entry.1) :=
    forall_mem_map.2 fun entry hentry => hint (h.int entry hentry)
  have hlist : Accounts fns (paramFragments (prototypeOf head).params) fun _ => False := by
    generalize (prototypeOf head).params = params at hparams
    fun_induction paramFragments params with
    | case1 => exact accounts_of_provided (by simp)
    | case2 type name => exact accounts_of_provided (by simpa using hparams)
    | case3 type name params hne ih =>
      obtain ⟨hentry, hrest⟩ := forall_mem_cons.1 hparams
      exact ((ih hrest).provided hentry).needs (by simp)
  exact (hlist.provided (hint h.returns)).needs (by simp [CPrototype.fragments, prototypeOf])

/-- A function accounts for its body, together with the functions inside it. -/
theorem accounts_function (hhead : head.Heads scope.names) (hscope : KnowsAll fns scope)
    (hnodup : (scope.values.map Prod.fst).Nodup)
    (hrs : ∀ r ∈ rs, Accounts fns (r.2.1.fragments ++ r.2.2.flatMap CFunction.fragments) r.1.Lacks) :
    Accounts fns (flatMap CFunction.fragments (rs.flatMap (·.2.2) ++
      [⟨prototypeOf head, ⟨variablesOf scope, rs.map (·.2.1), freesOf scope⟩⟩]))
      fun x => ∃ n ∈ rs.map Prod.fst, n.Lacks x := by
  have hall := (prototype_accounts hhead).append ((locals_accounts hscope hnodup).append
    ((freeFragments_accounts (freesOf scope)).append (accounts_body hrs)))
  refine (hall.needs fun x => ?_).congr (by simp)
  simp only [CFunction.fragments, CBlock.fragments, flatMap_append, flatMap_singleton, mem_append,
    mem_cons, not_mem_nil, reduceCtorEq, false_or, or_false]
  constructor <;> tauto

theorem of_checked_assign {targets : List Node} (h : Node.Checked fns S (.assign info targets value))
    (hvalue : value.IsExpr) :
    (∀ n ∈ targets, (∃ info x, n = .name info x) ∨ ∃ v, Node.Typed fns S n v) ∧ ∃ v, Node.Typed fns S value v := by
  cases h with
  | expr h => cases h
  | assign _ _ htyped hvalue => exact ⟨htyped, _, hvalue⟩
  | field | function => cases hvalue

theorem of_checked_function {functionInfo : NodeInfo} {body : List Node}
    (h : Node.Checked fns S (.assign info [target] (.function functionInfo head scope body))) :
    head.Heads scope.names ∧ (scope.values.map Prod.fst).Nodup ∧ KnowsAll fns scope ∧
      ∀ n ∈ body, Node.Checked fns (scope :: S) n := by
  cases h with
  | expr h => cases h
  | assign _ _ _ hvalue => cases hvalue
  | function hhead _ hnodup _ hknown hbody => exact ⟨hhead, hnodup, hknown, hbody⟩

/-- A statement accounts for the node that it is emitted for, together with the functions that stand inside. -/
theorem FormsStmt.accounts {stmt : CStmt} {fs : List CFunction} (h : FormsStmt lines s n stmt fs)
    (hn : Node.Checked fns S n) (hs : KnowsAll fns s) :
    Accounts fns (stmt.fragments ++ fs.flatMap CFunction.fragments) n.Lacks := by
  induction h generalizing S with
  | expr he =>
    cases hn with
    | expr hn => simpa [CStmt.fragments] using he.forms.accounts hn
    | _ => cases he.isExpr
  | assign hne _ hrs =>
    rw [flatMap_nil, append_nil]
    refine accounts_assign (fun _ _ => hne) fun r hr => ?_
    obtain ⟨e, he⟩ := (hrs r hr).exists_written
    obtain ⟨htyped, _, hvalue⟩ := of_checked_assign hn he.isExpr
    exact (hrs r hr).accounts (fun e he => he.forms.accounts hvalue) hs (htyped _ (mem_map_of_mem hr))
  | field hrs =>
    have hvalue {x info item index value} : ¬(Node.matrix info item index value).Lacks x := Node.not_lacks_of_leaf rfl
    rw [flatMap_nil, append_nil]
    refine accounts_assign (fun x h => absurd h hvalue) fun r hr => ?_
    obtain ⟨_, x, _, item, index, hname, -, -, hstore⟩ := hrs r hr
    rw [hname, hstore]
    exact (accounts_of_provided (by simp [CStore.fragments, CExpr.fragments, provided_initName, provided_maxName])).congr
      (by simp [hvalue])
  | function hstore _ ih =>
    obtain ⟨hhead, hnodup, hknown, hbody⟩ := of_checked_function hn
    have haccounts := accounts_function hhead hknown hnodup
      fun r hr => ih r hr (hbody _ (mem_map_of_mem hr)) hknown
    have hstored := hstore.accounts (S := S) (fun e he => by rw [he]; exact Accounts.nil) hs (.inl ⟨_, _, rfl⟩)
    rw [CStmt.fragments, flatMap_singleton]
    exact .inner ((hstored.append haccounts).congr (by simp [Node.children, Node.lacks_function])) rfl
  | @giveBack s _ _ _ he =>
    cases hn with
    | expr hn => cases hn
    | giveBack hvalue =>
      refine .inner ?_ rfl
      exact (((freeFragments_accounts (freesOf s)).append (he.forms.accounts hvalue)).needs
        (by simp [CStmt.fragments])).congr (by simp [Node.children])
  | condition he _ ih =>
    cases hn with
    | expr hn => cases hn
    | condition htest hbody =>
      exact .inner ((accounts_tested (he.forms.accounts htest) fun r hr => ih r hr (hbody _ (mem_map_of_mem hr))
        hs).needs (by simp [CStmt.fragments])) rfl
  | loop he _ ih =>
    cases hn with
    | expr hn => cases hn
    | loop htest hbody =>
      exact .inner ((accounts_tested (he.forms.accounts htest) fun r hr => ih r hr (hbody _ (mem_map_of_mem hr))
        hs).needs (by simp [CStmt.fragments])) rfl

end Emission

/-! ### Programs -/

def CProgram.fragments (p : CProgram) : List Fragment :=
  p.prototypeFragments ++ p.definitionFragments

variable {p : CProgram}

/-- Nothing stands in the prototypes that does not stand in the definitions. -/
theorem CProgram.mem_fragments {f : Fragment} (hf : f ≠ glue ";\n ") :
    f ∈ p.fragments ↔ f ∈ p.definitionFragments := by
  refine mem_append.trans (or_iff_right_of_imp fun h => mem_append_left _ ?_)
  obtain ⟨g, hg, h⟩ := mem_flatMap.1 h
  have hhead : f ∈ g.head.fragments := by simpa [hf] using h
  exact mem_flatMap.2 ⟨g, hg, mem_append_left _ (mem_append_left _ hhead)⟩

/-- The definitions of a program account for what was analysed. -/
theorem emit_accounts {text : String} {m : Module} {S : List Scope} {s s' : Session} (hm : m.Checked S)
    (h : Yields (emit text m) s p s') :
    Accounts (Node.functionsIn m.body) p.definitionFragments fun x => ∃ n ∈ m.body, n.Lacks x := by
  obtain ⟨rs, hbody, hrs, rfl⟩ := emit_forms (fun n hn => (hm.body n hn).isStmt) h
  have hall := (Emission.locals_accounts hm.known hm.nodup).append
    ((Emission.freeFragments_accounts (Emission.freesOf m.scope)).append (Emission.accounts_body fun r hr =>
      (hrs r hr).accounts (hm.body _ (hbody ▸ mem_map_of_mem hr)) hm.known))
  refine (hall.needs fun x => ?_).congr fun x => by simp [hbody]
  simp only [CProgram.definitionFragments, CBlock.fragments, mem_append]
  constructor <;> tauto

/-- The text of a compiled program is made of fragments: names of the program, numbers, quoted text, names that the
frame is to provide, and text without an underscore between them. A line of the frame introduces each name of the
frame, except those that are lacking for a function that is printed, something other than a number that is asserted,
or a comparison of something other than numbers; and all of these are indeed mentioned. A function that is called is
one of the frame, or defined in the program. -/
theorem compile_lacking {text file : String} {s : Session} {p : CProgram} {a' : Analysis}
    (h : Yields (compile text file) { session := s } p a') :
    ∃ m a'', Yields (Analysis.ofText text file) { session := s } m a'' ∧
      p.prototypes = merged p.prototypeFragments ∧ p.definitions = merged p.definitionFragments ∧
      (∀ between, glue between ∈ p.fragments → '_' ∉ between.toList) ∧
      (∀ x, Lacking p.fragments x ↔ ∃ n ∈ m.body, n.Lacks x) ∧
      ∀ x, function x ∈ p.fragments → frameDefines (functionName x) = true ∨ ∃ f ∈ p.functions, f.head.name = x := by
  simp only [compile, yields_bind, yields_inSession] at h
  obtain ⟨m, a'', hanalysis, _, hemit, _⟩ := h
  have hm := Analysis.ofText_checked hanalysis
  have haccounts := emit_accounts hm hemit
  have hunits := (emit_emits (fun n hn => (hm.body n hn).isStmt) hemit).functions (m.scope :: a''.scopes)
  have hnames : (Node.unitsIn (m.scope :: a''.scopes) m.body).map (·.head.name) = p.functions.map (·.head.name) := by
    rw [← forall₂_eq_eq_eq, forall₂_map_left_iff, forall₂_map_right_iff]
    exact hunits.imp fun u f hf => by rw [hf.head]; rfl
  have htidy : Tidy p.fragments := tidy_append.2 ⟨p.cuts_prototypes.tidy, p.cuts_definitions.tidy⟩
  refine ⟨m, a'', hanalysis, p.prototypes_eq_merged, p.definitions_eq_merged, fun between => htidy.not_mem, fun x => ?_,
    fun x hx => ?_⟩
  · rw [← haccounts.lacking, Lacking, Lacking, CProgram.mem_fragments (f := foreign x) (by simp)]
  · rw [CProgram.mem_fragments (f := function x) (by simp)] at hx
    refine (haccounts.calls x hx).imp_right ?_
    rintro ⟨loc, kind, params, returns, hmem⟩
    rw [← Node.map_value_unitsIn (m.scope :: a''.scopes)] at hmem
    obtain ⟨u, hu, hvalue⟩ := mem_map.1 hmem
    obtain ⟨n, hn, hunit⟩ := Node.mem_unitsIn.1 hu
    obtain ⟨_, hfunction⟩ := ((hm.body n hn).units u hunit).value
    have hname : u.head.name = x := (Value.function.inj (hfunction.symm.trans hvalue)).2.2.1
    exact mem_map.1 (hnames ▸ mem_map.2 ⟨u, hu, hname⟩)

/-- A program that prints a function. -/
def functionText : String := "print(print)."

set_option maxRecDepth 10000 in
theorem compile_lacking_format : ∃ p a' m a'', Yields (compile functionText "") {} p a' ∧
    Yields (Analysis.ofText functionText "") {} m a'' ∧ Lacking p.fragments "slabes_format_function" ∧
    ∃ n ∈ m.body, n.Lacks "slabes_format_function" := by
  have hgives : gives (compile functionText "") {} (fun p _ => p.fragments.contains (foreign "slabes_format_function")) =
      true := by decide +kernel
  have hprovided : ¬Provided (formatName .function) := fun h =>
    (provided_formatName_iff (t := .function) (by simp)).1 h rfl
  obtain ⟨p, a', hrun, hmentions⟩ := yields_of_gives hgives
  obtain ⟨m, a'', hanalysis, -, -, -, hlacking, -⟩ := compile_lacking (s := {}) hrun
  have hlacks : Lacking p.fragments "slabes_format_function" := ⟨contains_iff_mem.1 hmentions, hprovided⟩
  exact ⟨p, a', m, a'', hrun, hanalysis, hlacks, (hlacking _).1 hlacks⟩

end Code

end Labyrinth
