import Labyrinth.Proofs.Tree.WellFormed

/-!
# Where the nodes of a tree stand

What holds of the spans of all nodes of a tree and of the nodes around them.
-/

namespace Labyrinth

variable {ς τ : Type}

/-- A relation that the spans of all nodes of an expression have to the spans of the nodes around them; `outer` is the
span around the expression. A part of a chain is no node of its own here: it starts where something inside the chain
starts, and stops where something stops. -/
inductive Expr.Placed (R : Span → Span → Prop) : Span → Expr ς → Prop where
  | name {outer n} : R outer n.span → Expr.Placed R outer (.name n)
  | number {outer n} : R outer n.span → Expr.Placed R outer (.number n)
  | robot {outer span op} : R outer span → Expr.Placed R outer (.robot span op)
  | subscript {outer span n i j} : R outer span → R span n.span → Expr.Placed R span i → Expr.Placed R span j →
      Expr.Placed R outer (.subscript span n i j)
  | call {outer span n args} : R outer span → R span n.span → (∀ a ∈ args, Expr.Placed R span a) →
      Expr.Placed R outer (.call span n args)
  | unary {outer span op e} : R outer span → Expr.Placed R span e → Expr.Placed R outer (.unary span op e)
  | binary {outer span l op r} : R outer span → Expr.Placed R span l → Expr.Placed R span r →
      Expr.Placed R outer (.binary span l op r)
  | compare {outer span e ops es} : R outer span → Expr.Placed R span e → (∀ a ∈ es, Expr.Placed R span a) →
      Expr.Placed R outer (.compare span e ops es)
  | assign {outer span parts} : R outer span →
      (∀ part ∈ parts, ∃ first last, R span first ∧ R span last ∧ part.span.start = first.start ∧
        part.span.stop = last.stop) →
      (∀ part ∈ parts, ∀ t ∈ part.targets, Expr.Placed R span t) → (∀ part ∈ parts, Expr.Placed R span part.value) →
      Expr.Placed R outer (.assign span parts)
  | hole {outer span} : R outer span → Expr.Placed R outer (.hole span)

/-- Where a statement stands. -/
def Stmt.span : Stmt ς → Span
  | expr span _ | declareNumber span _ _ _ | declareField span _ _ _ _ | loop span _ _ | check span _ _
  | function span _ _ _ _ | giveBack span _ => span

/-- The same for a parameter. -/
structure ParamNode.Placed (R : Span → Span → Prop) (outer : Span) (q : ParamNode) : Prop where
  span : R outer q.span
  type : R q.span q.type.span
  name : R q.span q.name.span

/-- The same for a statement. -/
inductive Stmt.Placed (R : Span → Span → Prop) : Span → Stmt ς → Prop where
  | expr {outer span e} : R outer span → e.Placed R span → Stmt.Placed R outer (.expr span e)
  | declareNumber {outer span type names value} : R outer span → R span type.span → (∀ n ∈ names, R span n.span) →
      R span value.span → Stmt.Placed R outer (.declareNumber span type names value)
  | declareField {outer span element size names value} : R outer span → R span element.span → R span size.span →
      (∀ n ∈ names, R span n.span) → R span value.span →
      Stmt.Placed R outer (.declareField span element size names value)
  | loop {outer span test body} : R outer span → test.Placed R span → (∀ s ∈ body, Stmt.Placed R span s) →
      Stmt.Placed R outer (.loop span test body)
  | check {outer span test body} : R outer span → test.Placed R span → (∀ s ∈ body, Stmt.Placed R span s) →
      Stmt.Placed R outer (.check span test body)
  | function {outer span returns name params body} : R outer span → R span returns.span →
      (∀ q ∈ params, q.Placed R span) → (∀ s ∈ body, Stmt.Placed R span s) →
      Stmt.Placed R outer (.function span returns name params body)
  | giveBack {outer span e} : R outer span → e.Placed R span → Stmt.Placed R outer (.giveBack span e)

/-- The same for everything inside a program. -/
def Program.Placed (R : Span → Span → Prop) (p : Program ς) : Prop :=
  ∀ s ∈ p.body, s.Placed R p.span

variable {R S : Span → Span → Prop} {outer outer' : Span}
variable {e : Expr ς} {s : Stmt ς} {p : Program ς}

theorem Expr.Placed.mono (hRS : ∀ outer span, R outer span → S outer span) (h : e.Placed R outer) :
    e.Placed S outer := by
  induction h with
  | name hn => exact .name (hRS _ _ hn)
  | number hn => exact .number (hRS _ _ hn)
  | robot hs => exact .robot (hRS _ _ hs)
  | subscript hs hn _ _ hi hj => exact .subscript (hRS _ _ hs) (hRS _ _ hn) hi hj
  | call hs hn _ ih => exact .call (hRS _ _ hs) (hRS _ _ hn) ih
  | unary hs _ ih => exact .unary (hRS _ _ hs) ih
  | binary hs _ _ hl hr => exact .binary (hRS _ _ hs) hl hr
  | compare hs _ _ he ih => exact .compare (hRS _ _ hs) he ih
  | assign hs hparts _ _ ht hv =>
    refine .assign (hRS _ _ hs) (fun part hpart => ?_) ht hv
    obtain ⟨first, last, hfirst, hlast, heq⟩ := hparts part hpart
    exact ⟨first, last, hRS _ _ hfirst, hRS _ _ hlast, heq⟩
  | hole hs => exact .hole (hRS _ _ hs)

theorem ParamNode.Placed.mono (hRS : ∀ outer span, R outer span → S outer span) {q : ParamNode}
    (h : q.Placed R outer) : q.Placed S outer :=
  ⟨hRS _ _ h.span, hRS _ _ h.type, hRS _ _ h.name⟩

theorem Stmt.Placed.mono (hRS : ∀ outer span, R outer span → S outer span) (h : s.Placed R outer) :
    s.Placed S outer := by
  induction h with
  | expr hs he => exact .expr (hRS _ _ hs) (he.mono hRS)
  | declareNumber hs ht hns hv =>
    exact .declareNumber (hRS _ _ hs) (hRS _ _ ht) (fun n hn => hRS _ _ (hns n hn)) (hRS _ _ hv)
  | declareField hs he hz hns hv =>
    exact .declareField (hRS _ _ hs) (hRS _ _ he) (hRS _ _ hz) (fun n hn => hRS _ _ (hns n hn)) (hRS _ _ hv)
  | loop hs he _ ih => exact .loop (hRS _ _ hs) (he.mono hRS) ih
  | check hs he _ ih => exact .check (hRS _ _ hs) (he.mono hRS) ih
  | function hs ht hq _ ih => exact .function (hRS _ _ hs) (hRS _ _ ht) (fun q hmem => (hq q hmem).mono hRS) ih
  | giveBack hs he => exact .giveBack (hRS _ _ hs) (he.mono hRS)

theorem Program.Placed.mono (hRS : ∀ outer span, R outer span → S outer span) (h : p.Placed R) : p.Placed S :=
  fun s hs => (h s hs).mono hRS

theorem Expr.Placed.span (h : e.Placed R outer) : R outer e.span := by
  cases h with
  | name h | number h | robot h | subscript h | call h | unary h | binary h | compare h | assign h | hole h => exact h

theorem Stmt.Placed.span (h : s.Placed R outer) : R outer s.span := by
  cases h with
  | expr h | declareNumber h | declareField h | loop h | check h | function h | giveBack h => exact h

/-- What is around an expression matters to the expression as a whole alone. -/
theorem Expr.Placed.under (h : e.Placed R outer) (h' : R outer' e.span) : e.Placed R outer' := by
  cases h with
  | name _ => exact .name h'
  | number _ => exact .number h'
  | robot _ => exact .robot h'
  | subscript _ hn hi hj => exact .subscript h' hn hi hj
  | call _ hn ha => exact .call h' hn ha
  | unary _ he => exact .unary h' he
  | binary _ hl hr => exact .binary h' hl hr
  | compare _ he hes => exact .compare h' he hes
  | assign _ hparts ht hv => exact .assign h' hparts ht hv
  | hole _ => exact .hole h'

theorem Stmt.Placed.under (h : s.Placed R outer) (h' : R outer' s.span) : s.Placed R outer' := by
  cases h with
  | expr _ he => exact .expr h' he
  | declareNumber _ ht hns hv => exact .declareNumber h' ht hns hv
  | declareField _ he hz hns hv => exact .declareField h' he hz hns hv
  | loop _ he hb => exact .loop h' he hb
  | check _ he hb => exact .check h' he hb
  | function _ ht hq hb => exact .function h' ht hq hb
  | giveBack _ he => exact .giveBack h' he

/-- Settling signs moves nothing. -/
theorem Expr.Placed.mapSign (f : ς → τ) (h : e.Placed R outer) : (e.mapSign f).Placed R outer := by
  induction h with
  | name hn => exact .name hn
  | number hn => exact .number hn
  | robot hs => exact .robot hs
  | subscript hs hn _ _ hi hj => exact .subscript hs hn hi hj
  | call hs hn _ ih =>
    rw [Expr.mapSign, mapSigns_eq_map]
    exact .call hs hn (List.forall_mem_map.2 ih)
  | unary hs _ ih => exact .unary hs ih
  | binary hs _ _ hl hr => exact .binary hs hl hr
  | compare hs _ _ he ih =>
    rw [Expr.mapSign, mapSigns_eq_map]
    exact .compare hs he (List.forall_mem_map.2 ih)
  | assign hs hparts _ _ ht hv =>
    rw [Expr.mapSign, mapPartSigns_eq_map]
    refine .assign hs (List.forall_mem_map.2 fun part hpart => ?_) (List.forall_mem_map.2 fun part hpart => ?_)
      (List.forall_mem_map.2 fun part hpart => ?_)
    · rw [AssignPart.span_mapSign]
      exact hparts part hpart
    · rw [AssignPart.targets_mapSign]
      exact List.forall_mem_map.2 (ht part hpart)
    · rw [AssignPart.value_mapSign]
      exact hv part hpart
  | hole hs => exact .hole hs

theorem Stmt.Placed.mapSign (f : ς → τ) (h : s.Placed R outer) : (s.mapSign f).Placed R outer := by
  induction h with
  | expr hs he => exact .expr hs (he.mapSign f)
  | declareNumber hs ht hn hv => exact .declareNumber hs ht hn hv
  | declareField hs he hz hn hv => exact .declareField hs he hz hn hv
  | loop hs he _ ih =>
    rw [Stmt.mapSign, mapStmtSigns_eq_map]
    exact .loop hs (he.mapSign f) (List.forall_mem_map.2 ih)
  | check hs he _ ih =>
    rw [Stmt.mapSign, mapStmtSigns_eq_map]
    exact .check hs (he.mapSign f) (List.forall_mem_map.2 ih)
  | function hs ht hq _ ih =>
    rw [Stmt.mapSign, mapStmtSigns_eq_map]
    exact .function hs ht hq (List.forall_mem_map.2 ih)
  | giveBack hs he => exact .giveBack hs (he.mapSign f)

theorem Program.Placed.mapSign (f : ς → τ) (h : p.Placed R) : (p.mapSign f).Placed R := by
  rw [Program.Placed, Program.mapSign, mapStmtSigns_eq_map]
  exact List.forall_mem_map.2 fun s hs => (h s hs).mapSign f

end Labyrinth
