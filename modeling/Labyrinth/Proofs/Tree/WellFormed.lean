import Labyrinth.Token.Scan
import Labyrinth.Tree.Chain

/-!
# Trees fit for analysis

A tree is well formed if nothing in it stands in for something that could not be read, its names are names, its
literals are in range, and every chain, comparison and declaration has the parts that it needs.
-/

namespace Labyrinth

open List

variable {ς τ : Type}

/-- A text that may be a name: it begins with a lower-case letter or an underscore, goes on with such characters
and digits, and is no keyword. -/
def IsIdentifier (text : String) : Prop :=
  Keyword.ofChars? text.toList = none ∧ ∃ first rest, text.toList = first :: rest ∧
    (first.isLower = true ∨ first = '_') ∧ ∀ c ∈ rest, c.isLower = true ∨ c.isDigit = true ∨ c = '_'

def NameNode.WellFormed (n : NameNode) : Prop :=
  n.span.recovered = false ∧ IsIdentifier n.value

def TypeNode.WellFormed (t : TypeNode) : Prop :=
  t.span.recovered = false

/-- A literal is in range as it is written, before its sign. -/
def NumberNode.WellFormed (n : NumberNode ς) : Prop :=
  n.span.recovered = false ∧ 0 ≤ n.value ∧ n.value ≤ 32767

def ParamNode.WellFormed (p : ParamNode) : Prop :=
  p.span.recovered = false ∧ p.type.WellFormed ∧ p.name.WellFormed

/-- A part of a chain, apart from its operands: it assigns to something, and to nothing but names and elements
of fields. -/
def AssignPart.Fit (part : AssignPart ς) : Prop :=
  part.span.recovered = false ∧ part.targets ≠ [] ∧ ∀ t ∈ part.targets, t.isTarget = true

/-- Expressions that are well formed. There is none for a hole. -/
inductive Expr.WellFormed : Expr ς → Prop where
  | name {n} : n.WellFormed → Expr.WellFormed (.name n)
  | number {n} : n.WellFormed → Expr.WellFormed (.number n)
  | robot {span} (op) : span.recovered = false → Expr.WellFormed (.robot span op)
  | subscript {span n i j} : span.recovered = false → n.WellFormed → Expr.WellFormed i → Expr.WellFormed j →
      Expr.WellFormed (.subscript span n i j)
  | call {span n args} : span.recovered = false → n.WellFormed → (∀ a ∈ args, Expr.WellFormed a) →
      Expr.WellFormed (.call span n args)
  | unary {span e} (op) : span.recovered = false → Expr.WellFormed e → Expr.WellFormed (.unary span op e)
  | binary {span l r} (op) : span.recovered = false → Expr.WellFormed l → Expr.WellFormed r →
      Expr.WellFormed (.binary span l op r)
  | compare {span e ops es} : span.recovered = false → Expr.WellFormed e → ops.length = es.length → ops ≠ [] →
      (∀ a ∈ es, Expr.WellFormed a) → Expr.WellFormed (.compare span e ops es)
  | assign {span parts} : span.recovered = false → parts ≠ [] → (∀ part ∈ parts, part.Fit) →
      (∀ part ∈ parts, ∀ t ∈ part.targets, Expr.WellFormed t) → (∀ part ∈ parts, Expr.WellFormed part.value) →
      Expr.WellFormed (.assign span parts)

/-- Statements that are well formed. -/
inductive Stmt.WellFormed : Stmt ς → Prop where
  | expr {span e} : span.recovered = false → e.WellFormed → Stmt.WellFormed (.expr span e)
  | declareNumber {span type names value} : span.recovered = false → type.WellFormed → names ≠ [] →
      (∀ n ∈ names, n.WellFormed) → value.WellFormed → Stmt.WellFormed (.declareNumber span type names value)
  | declareField {span element size names value} : span.recovered = false → element.WellFormed → size.WellFormed →
      names ≠ [] → (∀ n ∈ names, n.WellFormed) → value.WellFormed →
      Stmt.WellFormed (.declareField span element size names value)
  | loop {span test body} : span.recovered = false → test.WellFormed → (∀ s ∈ body, Stmt.WellFormed s) →
      Stmt.WellFormed (.loop span test body)
  | check {span test body} : span.recovered = false → test.WellFormed → (∀ s ∈ body, Stmt.WellFormed s) →
      Stmt.WellFormed (.check span test body)
  | function {span returns name params body} : span.recovered = false → returns.WellFormed → IsIdentifier name →
      (∀ p ∈ params, p.WellFormed) → (∀ s ∈ body, Stmt.WellFormed s) →
      Stmt.WellFormed (.function span returns name params body)
  | giveBack {span e} : span.recovered = false → e.WellFormed → Stmt.WellFormed (.giveBack span e)

def Program.WellFormed (p : Program ς) : Prop :=
  p.span.recovered = false ∧ ∀ s ∈ p.body, s.WellFormed

/-! ### Settled signs -/

theorem mapSigns_eq_map (f : ς → τ) (es : List (Expr ς)) : mapSigns f es = es.map (Expr.mapSign f) := by
  induction es with
  | nil => rfl
  | cons e es ih => rw [mapSigns, ih, map_cons]

theorem mapPartSigns_eq_map (f : ς → τ) (ps : List (AssignPart ς)) :
    mapPartSigns f ps = ps.map (AssignPart.mapSign f) := by
  induction ps with
  | nil => rfl
  | cons p ps ih => rw [mapPartSigns, ih, map_cons]

theorem mapStmtSigns_eq_map (f : ς → τ) (ss : List (Stmt ς)) : mapStmtSigns f ss = ss.map (Stmt.mapSign f) := by
  induction ss with
  | nil => rfl
  | cons s ss ih => rw [mapStmtSigns, ih, map_cons]

theorem Expr.isTarget_mapSign (f : ς → τ) (e : Expr ς) : (e.mapSign f).isTarget = e.isTarget := by
  cases e <;> simp [mapSign, isTarget]

@[simp] theorem AssignPart.span_mapSign (f : ς → τ) (part : AssignPart ς) : (part.mapSign f).span = part.span := by
  cases part
  rfl

@[simp] theorem AssignPart.targets_mapSign (f : ς → τ) (part : AssignPart ς) :
    (part.mapSign f).targets = part.targets.map (Expr.mapSign f) := by
  obtain ⟨span, targets, value⟩ := part
  exact mapSigns_eq_map f targets

@[simp] theorem AssignPart.value_mapSign (f : ς → τ) (part : AssignPart ς) :
    (part.mapSign f).value = part.value.mapSign f := by
  cases part
  rfl

theorem AssignPart.Fit.mapSign (f : ς → τ) {part : AssignPart ς} (h : part.Fit) : (part.mapSign f).Fit := by
  obtain ⟨hspan, hne, htargets⟩ := h
  refine ⟨?_, ?_, ?_⟩
  · rw [span_mapSign, hspan]
  · rw [targets_mapSign]
    exact mt map_eq_nil_iff.1 hne
  · rw [targets_mapSign, forall_mem_map]
    intro t ht
    rw [Expr.isTarget_mapSign, htargets t ht]

/-- Settling the signs of literals keeps an expression well formed. -/
theorem Expr.WellFormed.mapSign (f : ς → τ) {e : Expr ς} (h : e.WellFormed) : (e.mapSign f).WellFormed := by
  induction h with
  | name hn => exact .name hn
  | number hn => exact .number hn
  | robot op hs => exact .robot op hs
  | subscript hs hn _ _ hi hj => exact .subscript hs hn hi hj
  | call hs hn _ ih =>
    rw [Expr.mapSign, mapSigns_eq_map]
    exact .call hs hn (forall_mem_map.2 ih)
  | unary op hs _ ih => exact .unary op hs ih
  | binary op hs _ _ hl hr => exact .binary op hs hl hr
  | compare hs _ hlen hne _ he ih =>
    rw [Expr.mapSign, mapSigns_eq_map]
    exact .compare hs he (by rw [hlen, length_map]) hne (forall_mem_map.2 ih)
  | assign hs hne hfit _ _ ht hv =>
    rw [Expr.mapSign, mapPartSigns_eq_map]
    refine .assign hs (mt map_eq_nil_iff.1 hne) ?_ ?_ ?_
    · exact forall_mem_map.2 fun part hpart => (hfit part hpart).mapSign f
    · refine forall_mem_map.2 fun part hpart => ?_
      rw [AssignPart.targets_mapSign]
      exact forall_mem_map.2 (ht part hpart)
    · refine forall_mem_map.2 fun part hpart => ?_
      rw [AssignPart.value_mapSign]
      exact hv part hpart

theorem NumberNode.WellFormed.mapSign (f : ς → τ) {n : NumberNode ς} (h : n.WellFormed) :
    (n.mapSign f).WellFormed := h

/-- Settling the signs of literals keeps a statement well formed. -/
theorem Stmt.WellFormed.mapSign (f : ς → τ) {s : Stmt ς} (h : s.WellFormed) : (s.mapSign f).WellFormed := by
  induction h with
  | expr hs he => exact .expr hs (he.mapSign f)
  | declareNumber hs ht hne hn hv => exact .declareNumber hs ht hne hn (hv.mapSign f)
  | declareField hs ht hu hne hn hv => exact .declareField hs ht hu hne hn (hv.mapSign f)
  | loop hs he _ ih =>
    rw [Stmt.mapSign, mapStmtSigns_eq_map]
    exact .loop hs (he.mapSign f) (forall_mem_map.2 ih)
  | check hs he _ ih =>
    rw [Stmt.mapSign, mapStmtSigns_eq_map]
    exact .check hs (he.mapSign f) (forall_mem_map.2 ih)
  | function hs ht hn hp _ ih =>
    rw [Stmt.mapSign, mapStmtSigns_eq_map]
    exact .function hs ht hn hp (forall_mem_map.2 ih)
  | giveBack hs he => exact .giveBack hs (he.mapSign f)

theorem Program.WellFormed.mapSign (f : ς → τ) {p : Program ς} (h : p.WellFormed) : (p.mapSign f).WellFormed := by
  refine ⟨h.1, ?_⟩
  rw [Program.mapSign, mapStmtSigns_eq_map]
  exact forall_mem_map.2 fun s hs => (h.2 s hs).mapSign f

/-! ### Chains -/

namespace Chain

variable {α : Type} {P : α → Prop}

/-- A run of at least two operands with a property. -/
def RunGood (P : α → Prop) (r : FlowRun α) : Prop :=
  2 ≤ r.operands.length ∧ ∀ e ∈ r.operands, P e

/-- A part that assigns a value to at least one target, all of them with a property, and that reaches from one operand
to another. -/
structure PartGood [ChainOperand α] (P : α → Prop) (part : ChainPart α) : Prop where
  read : part.span.recovered = false
  ne_nil : part.targets ≠ []
  targets : ∀ e ∈ part.targets, ChainOperand.isTarget e = true ∧ P e
  value : P part.value
  span : ∃ first last, P first ∧ P last ∧ part.span.start = (ChainOperand.span first).start ∧
    part.span.stop = (ChainOperand.span last).stop

theorem runsFrom_all (rest : List (Flow × α)) (hrest : ∀ a ∈ rest, P a.2) (flow : Flow) (done : List α)
    (hdone : ∀ e ∈ done, P e) (current : α) (hcurrent : P current) :
    ∀ r ∈ runsFrom flow done current rest, ∀ e ∈ r.operands, P e := by
  induction rest generalizing flow done current with
  | nil => simpa [runsFrom, or_imp, forall_and] using ⟨hdone, hcurrent⟩
  | cons a rest ih =>
    obtain ⟨next, operand⟩ := a
    obtain ⟨hoperand, hrest⟩ := forall_mem_cons.1 hrest
    have hall : ∀ e ∈ current :: done, P e := forall_mem_cons.2 ⟨hcurrent, hdone⟩
    rw [runsFrom]
    split
    · exact ih hrest flow _ hall operand hoperand
    · refine forall_mem_cons.2 ⟨fun e he => hall e (mem_reverse.1 he), ?_⟩
      refine ih hrest next _ ?_ operand hoperand
      split
      · simpa using hcurrent
      · simp

/-- The first run has all operands that were there before. -/
theorem exists_runsFrom (rest : List (Flow × α)) (flow : Flow) (done : List α) (current : α) :
    ∃ r ∈ runsFrom flow done current rest, done.length < r.operands.length := by
  induction rest generalizing done current with
  | nil => simp [runsFrom]
  | cons a rest ih =>
    obtain ⟨next, operand⟩ := a
    rw [runsFrom]
    split
    · obtain ⟨r, hr, hlen⟩ := ih (current :: done) operand
      rw [length_cons] at hlen
      exact ⟨r, hr, by omega⟩
    · exact ⟨_, mem_cons_self, by simp⟩

/-- A chain with an arrow has a run, and all its runs have at least two operands. -/
theorem runs_good {first : α} {rest : List (Flow × α)} (hne : rest ≠ []) (hfirst : P first)
    (hrest : ∀ a ∈ rest, P a.2) : runs first rest ≠ [] ∧ ∀ r ∈ runs first rest, RunGood P r := by
  cases rest with
  | nil => exact absurd rfl hne
  | cons a rest =>
    obtain ⟨flow, operand⟩ := a
    have hall := runsFrom_all ((flow, operand) :: rest) hrest flow [] (by simp) first hfirst
    have hlong : ∃ r ∈ runsFrom flow [] first ((flow, operand) :: rest), 2 ≤ r.operands.length := by
      rw [runsFrom, if_pos rfl]
      exact exists_runsFrom rest flow [first] operand
    constructor
    · obtain ⟨r, hr, hlen⟩ := hlong
      exact ne_nil_of_mem (mem_filter.2 ⟨hr, decide_eq_true hlen⟩)
    · intro r hr
      obtain ⟨hmem, hlen⟩ := mem_filter.1 hr
      exact ⟨of_decide_eq_true hlen, hall r hmem⟩

theorem mem_of_mem_targets {r : FlowRun α} {e : α} (h : e ∈ r.targets) : e ∈ r.operands := by
  rw [FlowRun.targets] at h
  split at h
  · exact dropLast_subset _ (mem_reverse.1 h)
  · exact mem_of_mem_tail h

section Assemble

variable [Inhabited α] [ChainOperand α]

theorem partOf_good {r : FlowRun α} (h : RunGood P r) : match partOf r with
    | .ok part => PartGood P part
    | .error bad => P bad := by
  obtain ⟨hlen, hall⟩ := h
  have hne : r.operands ≠ [] := ne_nil_of_length_pos (by omega)
  rw [partOf]
  split
  · next heq =>
    split at heq
    · cases heq
    · next hfind =>
      cases heq
      have hsize : r.targets.length = r.operands.length - 1 := by
        rw [FlowRun.targets]
        split <;> simp
      refine ⟨rfl, ne_nil_of_length_pos (hsize ▸ by omega), fun t ht => ⟨?_, hall t (mem_of_mem_targets ht)⟩, ?_,
        r.operands.head hne, r.operands.getLast hne, hall _ (head_mem hne), hall _ (getLast_mem hne), ?_, ?_⟩
      · simpa using find?_eq_none.1 hfind t ht
      · rw [FlowRun.value?]
        split
        · rw [getLast?_eq_some_getLast hne]
          exact hall _ (getLast_mem hne)
        · rw [head?_eq_some_head hne]
          exact hall _ (head_mem hne)
      · rw [head?_eq_some_head hne]
        rfl
      · rw [getLast?_eq_some_getLast hne]
        rfl
  · next heq =>
    split at heq
    · next hfind =>
      cases heq
      exact hall _ (mem_of_mem_targets (mem_of_find?_eq_some hfind))
    · cases heq

/-- Runs become good parts, and operands with the property stand in the way. Without an operand in the way there is a
part if there is a run or one was held back. -/
theorem assembleFrom_good {rs : List (FlowRun α)} (hrs : ∀ r ∈ rs, RunGood P r) (held : Option (ChainPart α))
    (hheld : ∀ part ∈ held, PartGood P part) :
    (∀ part ∈ (assembleFrom held rs).1, PartGood P part) ∧ (∀ bad ∈ (assembleFrom held rs).2, P bad) ∧
      ((assembleFrom held rs).2 = [] → (assembleFrom held rs).1 = [] → rs = [] ∧ held = none) := by
  have hlist : ∀ part ∈ held.toList, PartGood P part := fun part hp => hheld part (Option.mem_toList.1 hp)
  induction rs generalizing held with
  | nil => exact ⟨hlist, nofun, fun _ hparts => ⟨rfl, Option.toList_eq_nil_iff.1 hparts⟩⟩
  | cons r rs ih =>
    obtain ⟨hr, hrs⟩ := forall_mem_cons.1 hrs
    obtain ⟨hgood, hbad, hnil⟩ := ih hrs none (by simp) (by simp)
    have hpart := partOf_good hr
    cases hp : partOf r with
    | error bad =>
      rw [hp] at hpart
      simp only [assembleFrom, hp]
      exact ⟨forall_mem_append.2 ⟨hlist, hgood⟩, forall_mem_cons.2 ⟨hpart, hbad⟩,
        fun hbads => absurd hbads (cons_ne_nil _ _)⟩
    | ok part =>
      rw [hp] at hpart
      cases hflow : r.flow with
      | left =>
        obtain ⟨hgood, hbad, hnil⟩ := ih hrs (some part) (by simpa using hpart) (by simpa using hpart)
        simp only [assembleFrom, hp, hflow]
        refine ⟨forall_mem_append.2 ⟨hlist, hgood⟩, hbad, fun hbads hparts => ?_⟩
        exact absurd (hnil hbads (append_eq_nil_iff.1 hparts).2).2 (Option.some_ne_none part)
      | right =>
        cases held with
        | none =>
          simp only [assembleFrom, hp, hflow]
          exact ⟨forall_mem_cons.2 ⟨hpart, hgood⟩, hbad, fun _ hparts => absurd hparts (cons_ne_nil _ _)⟩
        | some left =>
          have hleft := hheld left rfl
          simp only [assembleFrom, hp, hflow]
          refine ⟨forall_mem_cons.2 ⟨⟨hleft.read, ?_, ?_, hleft.value, hleft.span⟩, hgood⟩, hbad,
            fun _ hparts => absurd hparts (cons_ne_nil _ _)⟩
          · exact append_ne_nil_of_left_ne_nil hleft.ne_nil _
          · exact forall_mem_append.2 ⟨hleft.targets, hpart.targets⟩

/-- All parts of a chain are good, and what stands in the way is one of its operands. A chain with an arrow and without
an operand in the way has a part. -/
theorem assemble_good {first : α} {rest : List (Flow × α)} (hne : rest ≠ []) (hfirst : P first)
    (hrest : ∀ a ∈ rest, P a.2) :
    (∀ part ∈ (assemble first rest).1, PartGood P part) ∧ (∀ bad ∈ (assemble first rest).2, P bad) ∧
      ((assemble first rest).2 = [] → (assemble first rest).1 ≠ []) := by
  obtain ⟨hruns, hgood⟩ := runs_good hne hfirst hrest
  obtain ⟨hparts, hbads, hnil⟩ := assembleFrom_good hgood none (by simp)
  exact ⟨hparts, hbads, fun hb hp => hruns (hnil hb hp).1⟩

end Assemble

end Chain

end Labyrinth
