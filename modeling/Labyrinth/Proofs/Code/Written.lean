import Mathlib
import Labyrinth.Proofs.Code.Flows
import Labyrinth.Proofs.Code.Fragments

/-!
# What is written for a node

The calls and the variables in the code of a node, and in the text that it is emitted to. Some nodes are written more
than once: the value of an assignment is written for each target, and an operand of a comparison for each operand next
to it. A function is code of its own, and becomes a C function of its own.
-/

namespace Labyrinth

open List Labyrinth.Task

namespace Node

/-- How a call begins in C. An assertion begins anew for each argument. -/
def heads : Node → List String
  | .call _ operand args => match operand.info.value with
    | some (.function _ .print _ _ _) => ["printf("]
    | some (.function _ .assert _ _ _) => replicate args.length "slabes_assert("
    | some (.function _ _ x _ _) => [Code.functionName x]
    | _ => []
  | _ => []

theorem heads_call {info : NodeInfo} {operand : Node} {args : List Node} {loc : Location} {kind : FunctionKind}
    {x : String} {params : Option (List (String × Value))} {returns : Value}
    (h : operand.info.value = some (.function loc kind x params returns)) (hprint : kind ≠ .print)
    (hassert : kind ≠ .assert) : heads (.call info operand args) = [Code.functionName x] := by
  cases kind <;> simp_all [heads]

mutual

/-- The calls in the code of a node that is written a number of times, each with how often it is written. -/
def calls (times : Nat) : Node → List (Node × Nat)
  | .call info operand args => (.call info operand args, times) :: callsIn times args
  | .assign _ targets value => callsIn times targets ++ calls (targets.length * times) value
  | .giveBack _ value => calls times value
  | .binary _ lhs _ rhs => calls times lhs ++ calls times rhs
  | .compare _ operand _ operands => calls times operand ++ callsBetween times operands
  | .subscript _ field i j => calls times field ++ calls times i ++ calls times j
  | .condition _ test body => calls times test ++ callsIn times body
  | .loop _ test body => calls times test ++ callsIn times body
  | _ => []

/-- The calls in the code of some nodes. -/
def callsIn (times : Nat) : List Node → List (Node × Nat)
  | [] => []
  | n :: ns => calls times n ++ callsIn times ns

/-- The calls in the operands of a comparison, apart from the first: all but the last have an operand on both sides. -/
def callsBetween (times : Nat) : List Node → List (Node × Nat)
  | [] => []
  | n :: ns => calls (if ns.isEmpty then times else 2 * times) n ++ callsBetween times ns

end

mutual

/-- The names that are read in the code of a node, apart from the names of functions that are called. -/
def reads : Node → List String
  | .name _ x => [x]
  | .call _ _ args => readsIn args
  | .assign _ targets value => readsOf targets ++ value.reads
  | .giveBack _ value => value.reads
  | .binary _ lhs _ rhs => lhs.reads ++ rhs.reads
  | .compare _ operand _ operands => operand.reads ++ readsIn operands
  | .subscript _ field i j => field.reads ++ i.reads ++ j.reads
  | .condition _ test body => test.reads ++ readsIn body
  | .loop _ test body => test.reads ++ readsIn body
  | _ => []

def readsIn : List Node → List String
  | [] => []
  | n :: ns => n.reads ++ readsIn ns

/-- The names that are read in targets: a name is not read where it is assigned to. -/
def readsOf : List Node → List String
  | [] => []
  | .name _ _ :: ts => readsOf ts
  | t :: ts => t.reads ++ readsOf ts

end

theorem readsOf_cons (t : Node) (ts : List Node) : readsOf (t :: ts) = readsOf [t] ++ readsOf ts := by
  cases t <;> simp [readsOf]

def total (head : String) (calls : List (Node × Nat)) : Nat :=
  (calls.map fun c => c.2 * c.1.heads.count head).sum

section

variable (head : String)

@[simp] theorem total_nil : total head [] = 0 := rfl

@[simp] theorem total_cons (c : Node × Nat) (cs : List (Node × Nat)) :
    total head (c :: cs) = c.2 * c.1.heads.count head + total head cs := by
  simp [total]

@[simp] theorem total_append (cs cs' : List (Node × Nat)) : total head (cs ++ cs') = total head cs + total head cs' := by
  simp [total]

end

mutual

/-- What is written more often has its calls written more often. -/
theorem calls_mul (k times : Nat) (n : Node) :
    n.calls (k * times) = (n.calls times).map fun c => (c.1, k * c.2) := by
  cases n with
  | call info operand args => simp [calls, callsIn_mul k times args]
  | assign info targets value =>
    simp [calls, callsIn_mul k times targets, calls_mul k (targets.length * times) value, Nat.mul_left_comm]
  | giveBack info value => exact calls_mul k times value
  | binary info lhs op rhs => simp [calls, calls_mul k times lhs, calls_mul k times rhs]
  | compare info operand ops operands => simp [calls, calls_mul k times operand, callsBetween_mul k times operands]
  | subscript info field i j => simp [calls, calls_mul k times field, calls_mul k times i, calls_mul k times j]
  | condition info test body | loop info test body => simp [calls, calls_mul k times test, callsIn_mul k times body]
  | name | int | matrix | function | builtin | missing => rfl

theorem callsIn_mul (k times : Nat) (ns : List Node) :
    callsIn (k * times) ns = (callsIn times ns).map fun c => (c.1, k * c.2) := by
  cases ns with
  | nil => rfl
  | cons n ns => simp [callsIn, calls_mul k times n, callsIn_mul k times ns]

theorem callsBetween_mul (k times : Nat) (ns : List Node) :
    callsBetween (k * times) ns = (callsBetween times ns).map fun c => (c.1, k * c.2) := by
  cases ns with
  | nil => rfl
  | cons n ns =>
    have hn : (if ns.isEmpty then k * times else 2 * (k * times)) = k * if ns.isEmpty then times else 2 * times := by
      split
      · rfl
      · exact Nat.mul_left_comm 2 k times
    rw [callsBetween, hn, calls_mul k _ n, callsBetween_mul k times ns, callsBetween, map_append]

end

theorem total_calls (head : String) (k : Nat) (n : Node) : total head (n.calls k) = k * total head (n.calls 1) := by
  have hscaled := calls_mul k 1 n
  rw [Nat.mul_one] at hscaled
  rw [hscaled]
  induction n.calls 1 with
  | nil => rfl
  | cons c cs ih => rw [map_cons, total_cons, total_cons, ih, Nat.mul_add, Nat.mul_assoc]

end Node

/-- A function with what surrounds it: the scopes around it, innermost first. -/
structure FunctionUnit where
  value : Value
  head : FunctionHead
  scope : Scope
  outer : List Scope
  body : List Node

mutual

/-- The functions that are defined inside a node, inner ones before outer ones. -/
def Node.units (outer : List Scope) : Node → List FunctionUnit
  | .function info head scope body =>
    unitsIn (scope :: outer) body ++ [⟨functionValue info.loc head, head, scope, outer, body⟩]
  | .assign _ _ value => value.units outer
  | .condition _ _ body => unitsIn outer body
  | .loop _ _ body => unitsIn outer body
  | _ => []

/-- The functions that are defined inside some nodes. -/
def Node.unitsIn (outer : List Scope) : List Node → List FunctionUnit
  | [] => []
  | n :: ns => n.units outer ++ unitsIn outer ns

end

theorem Node.IsExpr.units_eq {n : Node} (hn : n.IsExpr) (outer : List Scope) : n.units outer = [] := by
  cases hn <;> rfl

def Scope.Holds (s : Scope) (x : String) : Prop :=
  ∃ v, (x, v) ∈ s.values ∧ v.type.isVariable = true

namespace Code

def headsOf (fragments : List Fragment) : List String :=
  fragments.filterMap Fragment.head?

def namesOf (fragments : List Fragment) : List String :=
  fragments.filterMap Fragment.name?

section

variable (fs fs' : List Fragment) (f : Fragment)

@[simp] theorem headsOf_nil : headsOf [] = [] := rfl
@[simp] theorem headsOf_cons : headsOf (f :: fs) = f.head?.toList ++ headsOf fs := by
  rw [headsOf, filterMap_cons]
  cases f.head? <;> rfl

@[simp] theorem headsOf_append : headsOf (fs ++ fs') = headsOf fs ++ headsOf fs' := filterMap_append
@[simp] theorem namesOf_nil : namesOf [] = [] := rfl
@[simp] theorem namesOf_cons : namesOf (f :: fs) = f.name?.toList ++ namesOf fs := by
  rw [namesOf, filterMap_cons]
  cases f.name? <;> rfl

@[simp] theorem namesOf_append : namesOf (fs ++ fs') = namesOf fs ++ namesOf fs' := filterMap_append

end

section Frame

variable (start name name' : String) (t : ValueType)

/-- A name from the frame is not that of an assertion if it begins in another way. -/
theorem append_ne_assert (h : start.toList.isPrefixOf "slabes_assert".toList = false) :
    start ++ name ≠ "slabes_assert" := by
  intro heq
  rw [← heq, String.toList_append, isPrefixOf_iff_prefix.2 (prefix_append _ _)] at h
  cases h

@[simp] theorem typeName_ne_assert : typeName t ≠ "slabes_assert" := append_ne_assert _ _ rfl
@[simp] theorem maxName_ne_assert : maxName t ≠ "slabes_assert" := append_ne_assert _ _ rfl
@[simp] theorem minName_ne_assert : minName t ≠ "slabes_assert" := append_ne_assert _ _ rfl
@[simp] theorem formatName_ne_assert : formatName t ≠ "slabes_assert" := append_ne_assert _ _ rfl
@[simp] theorem assignName_ne_assert : "assign_" ++ name ≠ "slabes_assert" := append_ne_assert _ _ rfl
@[simp] theorem initName_ne_assert : "init_slabes_type_matrix_" ++ name ≠ "slabes_assert" := append_ne_assert _ _ rfl

@[simp] theorem operatorName_ne_assert : operatorName start name name' ≠ "slabes_assert" := by
  have h := append_ne_assert "slabes_op_" (start ++ ("__" ++ (name ++ ("__" ++ name')))) rfl
  simp only [← String.append_assoc] at h
  exact h

@[simp] theorem convertName_ne_assert : convertName name name' ≠ "slabes_assert" := by
  have h := append_ne_assert "slabes_convert_" (name ++ ("_to_" ++ name')) rfl
  simp only [← String.append_assoc] at h
  exact h

@[simp] theorem headsOf_formats (types : List ValueType) :
    headsOf (types.flatMap fun t => [.foreign (formatName t), .glue " ", .quoted " ", .glue " "]) = [] := by
  induction types with
  | nil => rfl
  | cons t types ih => simpa using ih

@[simp] theorem namesOf_formats (types : List ValueType) :
    namesOf (types.flatMap fun t => [.foreign (formatName t), .glue " ", .quoted " ", .glue " "]) = [] := by
  induction types with
  | nil => rfl
  | cons t types ih => simpa using ih

@[simp] theorem headsOf_blank (c : Prop) [Decidable c] : headsOf (if c then [.glue " "] else []) = [] := by
  split <;> rfl

@[simp] theorem namesOf_blank (c : Prop) [Decidable c] : namesOf (if c then [.glue " "] else []) = [] := by
  split <;> rfl

end Frame

/-! ### Expressions -/

/-- An expression is what a node is written as: it has the calls of the node as often as they are written, and
mentions what the node reads. -/
structure CExpr.Writes (e : CExpr) (n : Node) : Prop where
  count : ∀ head, (headsOf e.fragments).count head = Node.total head (n.calls 1)
  names : namesOf e.fragments ⊆ n.reads

variable {es : List CExpr} {ns : List Node}

theorem listFragments_writes (h : Forall₂ CExpr.Writes es ns) (first : Bool) :
    (∀ head, (headsOf (listFragments first es)).count head = Node.total head (Node.callsIn 1 ns)) ∧
      namesOf (listFragments first es) ⊆ Node.readsIn ns := by
  induction h generalizing first with
  | nil => exact ⟨fun _ => rfl, List.Subset.refl _⟩
  | cons he _ ih =>
    obtain ⟨hcount, hnames⟩ := ih false
    refine ⟨fun head => ?_, ?_⟩
    · cases first <;> simp [listFragments, Node.callsIn, he.count, hcount]
    · cases first <;> simpa [listFragments, Node.readsIn] using
        ⟨subset_append_of_subset_left _ he.names, subset_append_of_subset_right _ hnames⟩

variable {types : List ValueType} {text : String} {p : CProgram} {s : Session}

theorem assertFragments_writes (h : Forall₂ CExpr.Writes es ns) {messages : List String}
    (htypes : types.length = es.length) (hmessages : messages.length = es.length) :
    (∀ head, (headsOf (assertFragments types messages es)).count head =
      (replicate ns.length "slabes_assert(").count head + Node.total head (Node.callsIn 1 ns)) ∧
      namesOf (assertFragments types messages es) ⊆ Node.readsIn ns := by
  induction h generalizing types messages with
  | nil => exact ⟨fun _ => rfl, List.Subset.refl _⟩
  | cons he _ ih =>
    match types, messages, htypes, hmessages with
    | type :: types, message :: messages, htypes, hmessages =>
      obtain ⟨hcount, hnames⟩ := ih (Nat.succ.inj htypes) (Nat.succ.inj hmessages)
      refine ⟨fun head => ?_, ?_⟩
      · simp [assertFragments, Node.callsIn, he.count, hcount, count_cons, replicate_succ]
        omega
      · simpa [assertFragments, Node.readsIn] using
          ⟨subset_append_of_subset_left _ he.names, subset_append_of_subset_right _ hnames⟩

/-- In a chain of comparisons every operand is written for each operand next to it. -/
theorem compareFragments_writes (h : Forall₂ CExpr.Writes es ns) {ops : List CmpOp} (hops : ops.length = es.length)
    (htypes : types.length = es.length) (first : Bool) (lhs : List Fragment) (left : ValueType) :
    (∀ head, (headsOf (compareFragments first lhs left ops types es)).count head =
      (if es.isEmpty then 0 else (headsOf lhs).count head) + Node.total head (Node.callsBetween 1 ns)) ∧
      namesOf (compareFragments first lhs left ops types es) ⊆ namesOf lhs ++ Node.readsIn ns := by
  induction h generalizing ops types first lhs left with
  | nil => exact ⟨fun _ => rfl, nil_subset _⟩
  | @cons e n es ns he hes ih =>
    match ops, types, hops, htypes with
    | op :: ops, right :: types, hops, htypes =>
      obtain ⟨hcount, hnames⟩ := ih (Nat.succ.inj hops) (Nat.succ.inj htypes) false e.fragments right
      have hheads : headsOf (compareFragments first lhs left (op :: ops) (right :: types) (e :: es)) =
          headsOf lhs ++ headsOf e.fragments ++ headsOf (compareFragments false e.fragments right ops types es) := by
        cases first <;> simp [compareFragments]
      have hall : namesOf (compareFragments first lhs left (op :: ops) (right :: types) (e :: es)) =
          namesOf lhs ++ (namesOf e.fragments ++ namesOf (compareFragments false e.fragments right ops types es)) := by
        cases first <;> simp [compareFragments]
      refine ⟨fun head => ?_, ?_⟩
      · have hempty : es.isEmpty = ns.isEmpty := by cases hes <;> rfl
        rw [hheads, count_append, count_append, hcount, Node.callsBetween, Node.total_append,
          Node.total_calls, he.count, hempty]
        cases ns.isEmpty <;> simp <;> omega
      · have hfirst : namesOf e.fragments ⊆ Node.readsIn (n :: ns) := subset_append_of_subset_left _ he.names
        have hrest : namesOf (compareFragments false e.fragments right ops types es) ⊆ Node.readsIn (n :: ns) :=
          fun x hx => (mem_append.1 (hnames hx)).elim (fun h => hfirst h)
            fun h => mem_append_right _ h
        rw [hall]
        exact append_subset.2 ⟨subset_append_left _ _,
          subset_append_of_subset_right _ (append_subset.2 ⟨hfirst, hrest⟩)⟩

namespace Emission

variable {n value : Node} {e : CExpr} {x : String} {lines : Array String}

/-- An expression is written as its calls and reads say. -/
theorem Forms.writes (h : Forms n e) : e.Writes n := by
  induction h with
  | name | int => exact ⟨fun _ => rfl, List.Subset.refl _⟩
  | print _ hv _ _ ih =>
    obtain ⟨hcount, hnames⟩ := listFragments_writes (forall₂_map_map ih) false
    refine ⟨fun head => ?_, ?_⟩
    · simp [CExpr.fragments, Node.calls, Node.heads, hv, hcount, count_cons]
      omega
    · simpa [CExpr.fragments, Node.reads] using hnames
  | asserts _ hv ht hm _ ih =>
    obtain ⟨hcount, hnames⟩ := assertFragments_writes (forall₂_map_map ih)
      (by rw [← ht.length_eq, length_map, length_map]) (by rw [hm, length_map])
    refine ⟨fun head => ?_, ?_⟩
    · simp [CExpr.fragments, Node.calls, Node.heads, hv, hcount]
    · simpa [CExpr.fragments, Node.reads] using hnames
  | apply _ hv hprint hassert _ ih =>
    obtain ⟨hcount, hnames⟩ := listFragments_writes (forall₂_map_map ih) true
    refine ⟨fun head => ?_, ?_⟩
    · simp [CExpr.fragments, Node.calls, Node.heads_call hv hprint hassert, hcount, count_cons]
      omega
    · simpa [CExpr.fragments, Node.reads] using hnames
  | subscript _ _ _ hwi hwj =>
    refine ⟨fun head => ?_, ?_⟩
    · simp [CExpr.fragments, Node.calls, hwi.count, hwj.count]
    · simpa [CExpr.fragments, Node.reads] using
        ⟨subset_cons_of_subset _ (subset_append_of_subset_left _ hwi.names),
          subset_cons_of_subset _ (subset_append_of_subset_right _ hwj.names)⟩
  | binary _ _ _ _ hwl hwr =>
    refine ⟨fun head => ?_, ?_⟩
    · simp [CExpr.fragments, Node.calls, hwl.count, hwr.count]
    · simpa [CExpr.fragments, Node.reads] using
        ⟨subset_append_of_subset_left _ hwl.names, subset_append_of_subset_right _ hwr.names⟩
  | @compare _ _ _ left first _ rs hlength hne _ ht _ _ hw ih =>
    obtain ⟨hcount, hnames⟩ := compareFragments_writes (forall₂_map_map ih) (by rw [hlength, length_map])
      (by rw [← ht.length_eq, length_map, length_map]) true first.fragments left
    refine ⟨fun head => ?_, fun x hx => ?_⟩
    · rw [CExpr.fragments, hcount, Node.calls, Node.total_append, hw.count]
      simp [hne]
    · exact mem_append.2 ((mem_append.1 (hnames hx)).imp_left fun h => hw.names h)

/-! ### Statements -/

/-- A function is emitted as it is defined. -/
structure Emitted (u : FunctionUnit) (f : CFunction) : Prop where
  head : f.head = prototypeOf u.head
  locals : f.block.locals = variablesOf u.scope
  count : ∀ head, (headsOf f.block.fragments).count head = Node.total head (Node.callsIn 1 u.body)
  names : ∀ x ∈ namesOf f.block.fragments, x ∈ Node.readsIn u.body ∨ u.scope.Holds x

/-- Fragments are what nodes are written as in a scope, together with C functions for the functions that stand inside. -/
structure Writes (s : Scope) (fragments : List Fragment) (fs : List CFunction) (units : List Scope → List FunctionUnit)
    (calls : List (Node × Nat)) (reads : List String) : Prop where
  functions : ∀ outer, Forall₂ Emitted (units outer) fs
  count : ∀ head, (headsOf fragments).count head = Node.total head calls
  names : ∀ x ∈ namesOf fragments, x ∈ reads ∨ s.Holds x

variable {s : Scope} {fragments fragments' : List Fragment} {fs fs' : List CFunction}
  {units units' : List Scope → List FunctionUnit} {calls calls' : List (Node × Nat)} {reads reads' : List String}

theorem Writes.append (h : Writes s fragments fs units calls reads) (h' : Writes s fragments' fs' units' calls' reads') :
    Writes s (fragments ++ fragments') (fs ++ fs') (fun outer => units outer ++ units' outer) (calls ++ calls')
      (reads ++ reads') := by
  refine ⟨fun outer => rel_append (h.functions outer) (h'.functions outer), fun head => ?_, fun x hx => ?_⟩
  · rw [headsOf_append, count_append, h.count, h'.count, Node.total_append]
  · rw [namesOf_append, mem_append] at hx
    rcases hx with hx | hx
    · exact (h.names x hx).imp_left (mem_append_left _)
    · exact (h'.names x hx).imp_left (mem_append_right _)

/-- Fragments without calls and variables between others change nothing. -/
theorem Writes.congr (h : Writes s fragments fs units calls reads) (hheads : headsOf fragments' = headsOf fragments)
    (hnames : namesOf fragments' = namesOf fragments) : Writes s fragments' fs units calls reads :=
  ⟨h.functions, by rw [hheads]; exact h.count, by rw [hnames]; exact h.names⟩

theorem Writes.ofExpr (h : e.Writes n) (s : Scope) : Writes s e.fragments [] (fun _ => []) (n.calls 1) n.reads :=
  ⟨fun _ => .nil, h.count, fun _ hx => .inl (h.names hx)⟩

theorem holds_of_value? {v : Value} (h : s.value? x = some v) (htype : v.type.isVariable = true) : s.Holds x := by
  obtain ⟨before, after, hvalues, -⟩ := lookup_eq_some_iff.1 h
  exact ⟨v, by rw [hvalues]; exact mem_append_cons_self, htype⟩

/-- One effect of an assignment writes the target and the value once. A name is not read where it is assigned to. -/
structure WritesStore (s : Scope) (value target : Node) (store : CStore) : Prop where
  count : ∀ head, (headsOf store.fragments).count head = Node.total head (target.calls 1) + Node.total head (value.calls 1)
  names : ∀ x ∈ namesOf store.fragments, x ∈ Node.readsOf [target] ∨ x ∈ value.reads ∨ s.Holds x

theorem FormsStore.writes {target : Node} {store : CStore} {W : CExpr → Prop}
    (h : FormsStore lines s value W target store) (hW : ∀ e, W e → e.Writes value) :
    WritesStore s value target store := by
  cases h with
  | @number _ x v source t e hx hv _ he =>
    refine ⟨fun head => ?_, fun y hy => .inr ?_⟩
    · simp [CStore.fragments, CExpr.fragments, Node.calls, (hW e he).count]
    · have hy : y = x ∨ y ∈ namesOf e.fragments := by simpa [CStore.fragments, CExpr.fragments] using hy
      rcases hy with rfl | hy
      · exact .inr (holds_of_value? hx (by rw [hv]; rfl))
      · exact .inl ((hW e he).names hy)
  | @other info x v e hx _ he =>
    unfold storeIn
    split
    · next htype =>
      refine ⟨fun head => ?_, fun y hy => .inr ?_⟩
      · simp [CStore.fragments, Node.calls, (hW e he).count]
      · have hy : y = x ∨ y ∈ namesOf e.fragments := by simpa [CStore.fragments] using hy
        rcases hy with rfl | hy
        · exact .inr (holds_of_value? hx htype)
        · exact .inl ((hW e he).names hy)
    · exact ⟨fun head => by simp [CStore.fragments, Node.calls, (hW e he).count],
        fun y hy => .inr (.inl ((hW e he).names hy))⟩
  | @element _ c e hname htarget he =>
    have hreads : Node.readsOf [target] = target.reads := by
      cases target with
      | name => exact absurd rfl (hname _ _)
      | _ => simp [Node.readsOf]
    refine ⟨fun head => ?_, fun y hy => ?_⟩
    · simp [CStore.fragments, htarget.forms.writes.count, (hW e he).count]
    · have hy : y ∈ namesOf c.fragments ∨ y ∈ namesOf e.fragments := by simpa [CStore.fragments] using hy
      rw [hreads]
      exact hy.imp (fun hy => htarget.forms.writes.names hy) fun hy => .inl ((hW e he).names hy)

theorem writes_assign {info : NodeInfo} (rs : List (Node × CStore)) (hrs : ∀ r ∈ rs, WritesStore s value r.1 r.2)
    (hunits : ∀ outer, Forall₂ Emitted (value.units outer) fs) :
    Writes s (CStmt.fragments (.assign (rs.map Prod.snd))) fs
      (fun outer => Node.units outer (.assign info (rs.map Prod.fst) value))
      (Node.calls 1 (.assign info (rs.map Prod.fst) value)) (Node.reads (.assign info (rs.map Prod.fst) value)) := by
  have hstores : (∀ head, (headsOf ((rs.map Prod.snd).flatMap CStore.fragments)).count head =
        Node.total head (Node.callsIn 1 (rs.map Prod.fst)) + rs.length * Node.total head (value.calls 1)) ∧
      ∀ x ∈ namesOf ((rs.map Prod.snd).flatMap CStore.fragments),
        x ∈ Node.readsOf (rs.map Prod.fst) ∨ x ∈ value.reads ∨ s.Holds x := by
    induction rs with
    | nil => exact ⟨fun head => by simp [Node.callsIn], nofun⟩
    | cons r rs ih =>
      obtain ⟨hr, hrs⟩ := forall_mem_cons.1 hrs
      obtain ⟨hcount, hnames⟩ := ih hrs
      refine ⟨fun head => ?_, fun x hx => ?_⟩
      · rw [map_cons, flatMap_cons, headsOf_append, count_append, hr.count, hcount, map_cons,
          Node.callsIn, Node.total_append, length_cons, Nat.succ_mul]
        omega
      · rw [map_cons, flatMap_cons, namesOf_append, mem_append] at hx
        rw [map_cons, Node.readsOf_cons, mem_append]
        rcases hx with hx | hx
        · exact (hr.names x hx).imp_left .inl
        · exact (hnames x hx).imp_left .inr
  refine ⟨hunits, fun head => ?_, fun x hx => ?_⟩
  · rw [CStmt.fragments, hstores.1, Node.calls, Node.total_append, Nat.mul_one, Node.total_calls head (length _),
      length_map]
  · rw [Node.reads, mem_append, or_assoc]
    exact hstores.2 x hx

theorem map_snd_variablesOf (s : Scope) : (variablesOf s).map Prod.snd =
    (s.values.filter fun entry => !s.names.isParam entry.1 && entry.2.type.isVariable).map Prod.fst := by
  rw [variablesOf]
  induction s.values with
  | nil => rfl
  | cons entry entries ih =>
    obtain ⟨y, v⟩ := entry
    cases hparam : s.names.isParam y <;> cases hvariable : v.type.isVariable <;>
      simpa [filterMap_cons, hparam, hvariable] using ih

theorem mem_variablesOf : x ∈ (variablesOf s).map Prod.snd ↔ s.names.isParam x = false ∧ s.Holds x := by
  rw [map_snd_variablesOf, Scope.Holds, ← exists_and_left]
  simp [and_left_comm]

theorem localFragments_only (locals : List (ValueType × String)) :
    headsOf (localFragments locals) = [] ∧ namesOf (localFragments locals) = locals.map Prod.snd := by
  induction locals with
  | nil => exact ⟨rfl, rfl⟩
  | cons entry locals ih => simpa [localFragments] using ih

theorem freeFragments_only (names : List String) :
    headsOf (freeFragments names) = [] ∧ namesOf (freeFragments names) = names := by
  induction names with
  | nil => exact ⟨rfl, rfl⟩
  | cons name names ih => simpa [freeFragments] using ih

theorem holds_of_mem_freesOf (h : x ∈ freesOf s) : s.Holds x := by
  obtain ⟨⟨y, v⟩, hmem, hy⟩ := mem_filterMap.1 h
  dsimp only at hy
  split at hy
  · split at hy
    · cases hy
    · cases hy
      exact ⟨_, hmem, rfl⟩
  · cases hy

/-- The declarations of a scope mention what is bound in it. -/
theorem Writes.declarations (s : Scope) : Writes s (localFragments (variablesOf s)) [] (fun _ => []) [] [] := by
  refine ⟨fun _ => .nil, fun head => ?_, fun x hx => .inr ?_⟩
  · rw [(localFragments_only _).1]
    rfl
  · rw [(localFragments_only _).2] at hx
    exact (mem_variablesOf.1 hx).2

/-- The end of a scope frees what is bound in it. -/
theorem Writes.frees (s : Scope) : Writes s (freeFragments (freesOf s)) [] (fun _ => []) [] [] := by
  refine ⟨fun _ => .nil, fun head => ?_, fun x hx => .inr ?_⟩
  · rw [(freeFragments_only _).1]
    rfl
  · rw [(freeFragments_only _).2] at hx
    exact holds_of_mem_freesOf hx

section

variable {rs : List (Node × CStmt × List CFunction)}

/-- A body is written statement by statement. -/
theorem writes_body
    (hrs : ∀ r ∈ rs, Writes s r.2.1.fragments r.2.2 (fun outer => r.1.units outer) (r.1.calls 1) r.1.reads) :
    Writes s (stmtFragments (rs.map (·.2.1))) (rs.flatMap (·.2.2)) (fun outer => Node.unitsIn outer (rs.map Prod.fst))
      (Node.callsIn 1 (rs.map Prod.fst)) (Node.readsIn (rs.map Prod.fst)) := by
  induction rs with
  | nil => exact ⟨fun _ => .nil, fun _ => rfl, nofun⟩
  | cons r rs ih =>
    obtain ⟨hr, hrs⟩ := forall_mem_cons.1 hrs
    exact hr.append ((ih hrs).congr rfl rfl)

/-- What is bound in a scope is declared before its body, and the fields among it are freed at the end. -/
theorem writes_block
    (hrs : ∀ r ∈ rs, Writes s r.2.1.fragments r.2.2 (fun outer => r.1.units outer) (r.1.calls 1) r.1.reads) :
    Writes s (CBlock.fragments ⟨variablesOf s, rs.map (·.2.1), freesOf s⟩) (rs.flatMap (·.2.2))
      (fun outer => Node.unitsIn outer (rs.map Prod.fst)) (Node.callsIn 1 (rs.map Prod.fst))
      (Node.readsIn (rs.map Prod.fst)) := by
  have h := ((Writes.declarations s).append (writes_body hrs)).append (Writes.frees s)
  simp only [nil_append, append_nil] at h
  exact h

end

theorem FormsStmt.writes {stmt : CStmt} (h : FormsStmt lines s n stmt fs) :
    Writes s stmt.fragments fs (fun outer => n.units outer) (n.calls 1) n.reads := by
  induction h with
  | expr he =>
    rw [funext he.isExpr.units_eq]
    exact Writes.ofExpr he.forms.writes _
  | assign hne _ hrs =>
    refine writes_assign _ (fun r hr => (hrs r hr).writes fun e he => he.forms.writes) fun outer => ?_
    obtain ⟨r, hr⟩ := exists_mem_of_ne_nil _ hne
    obtain ⟨e, he⟩ := (hrs r hr).exists_written
    rw [he.isExpr.units_eq]
    exact .nil
  | field hrs =>
    refine writes_assign _ (fun r hr => ?_) fun _ => .nil
    obtain ⟨info, x, v, item, index, hname, hx, hv, hstore⟩ := hrs r hr
    rw [hname, hstore]
    refine ⟨fun head => rfl, fun y hy => .inr (.inr ?_)⟩
    cases mem_singleton.1 hy
    exact holds_of_value? hx (by rw [hv]; rfl)
  | function hstore _ ih =>
    have hblock := writes_block ih
    have hwrites := hstore.writes fun e he => by rw [he]; exact ⟨fun _ => rfl, nil_subset _⟩
    refine writes_assign [(_, _)] (forall_mem_singleton.2 hwrites) fun outer => ?_
    exact rel_append (hblock.functions _) (.cons ⟨rfl, rfl, hblock.count, hblock.names⟩ .nil)
  | giveBack he =>
    refine ((Writes.frees _).append (Writes.ofExpr he.forms.writes _)).congr ?_ ?_ <;> simp [CStmt.fragments]
  | condition he _ ih | loop he _ ih =>
    refine ((Writes.ofExpr he.forms.writes _).append (writes_body ih)).congr ?_ ?_ <;> simp [CStmt.fragments]

end Emission

/-- The functions of a program are emitted as they are defined, and what stands outside of them likewise. -/
structure CProgram.Emits (p : CProgram) (m : Module) : Prop where
  functions : ∀ outer, Forall₂ Emission.Emitted (Node.unitsIn outer m.body) p.functions
  locals : p.block.locals = Emission.variablesOf m.scope
  count : ∀ head, (headsOf p.block.fragments).count head = Node.total head (Node.callsIn 1 m.body)
  names : ∀ x ∈ namesOf p.block.fragments, x ∈ Node.readsIn m.body ∨ m.scope.Holds x

theorem emit_emits {m : Module} {s' : Session} (hm : ∀ n ∈ m.body, n.IsStmt) (h : Yields (emit text m) s p s') :
    p.Emits m := by
  obtain ⟨rs, hbody, hrs, rfl⟩ := emit_forms hm h
  have hblock := Emission.writes_block fun r hr => (hrs r hr).writes
  rw [← hbody] at hblock
  exact ⟨hblock.functions, rfl, hblock.count, hblock.names⟩

/-- A compiled program emits the program that was analysed. -/
theorem compile_emits {file : String} {a' : Analysis} (h : Yields (compile text file) { session := s } p a') :
    ∃ m a'', Yields (Analysis.ofText text file) { session := s } m a'' ∧ m.Checked a''.scopes ∧ p.Emits m := by
  simp only [compile, yields_bind, yields_inSession] at h
  obtain ⟨m, a'', hanalysis, _, hemit, _⟩ := h
  have hchecked := Analysis.ofText_checked hanalysis
  exact ⟨m, a'', hanalysis, hchecked, emit_emits (fun n hn => (hchecked.body n hn).isStmt) hemit⟩

end Code

end Labyrinth
