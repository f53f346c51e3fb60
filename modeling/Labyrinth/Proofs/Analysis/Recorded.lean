import Labyrinth.Proofs.Analysis.Growth
import Labyrinth.Proofs.Analysis.Lowered

/-!
# What analysis records

Analysis leaves a type at every arithmetic node of a program, made from the types that it leaves at the operands.
Comparisons are where a node might be forgotten: an operand is only looked at if there is an operator for it.
-/

namespace Labyrinth

open List Labyrinth.Task

namespace Node

theorem sizeOf_lt_of_mem_children {child n : Node} (h : child ∈ n.children) : sizeOf child < sizeOf n := by
  have hlist : ∀ {ns : List Node}, child ∈ ns → sizeOf child < sizeOf ns := fun h => sizeOf_lt_of_mem h
  cases n <;> simp only [children, mem_cons, not_mem_nil, or_false] at h <;>
    simp only [assign.sizeOf_spec, call.sizeOf_spec, giveBack.sizeOf_spec, binary.sizeOf_spec, compare.sizeOf_spec,
      subscript.sizeOf_spec, condition.sizeOf_spec, loop.sizeOf_spec, function.sizeOf_spec]
  case giveBack => subst h; omega
  case binary => rcases h with rfl | rfl <;> omega
  case subscript => rcases h with rfl | rfl | rfl <;> omega
  case function => have := hlist h; omega
  all_goals
    rcases h with rfl | h
    · omega
    · have := hlist h
      omega

/-- What follows for a node from the nodes directly inside it holds of all nodes. -/
theorem inductionOn {P : Node → Prop} (n : Node) (h : ∀ n : Node, (∀ child ∈ n.children, P child) → P n) : P n :=
  h n fun child hchild =>
    have := sizeOf_lt_of_mem_children hchild
    inductionOn child h
termination_by sizeOf n

def type? (n : Node) : Option ValueType :=
  n.info.value.map Value.type

/-- An arithmetic node has the type that its operands are joined to. -/
def Joined : Node → Prop
  | n@(binary _ lhs _ rhs) => ∃ left right : IntType, lhs.type? = some (.int left) ∧ rhs.type? = some (.int right) ∧
      n.type? = some (.int (left.join right))
  | _ => True

end Node

/-! ### Lowering -/

namespace Node

variable {P : Node → Prop} {n : Node}

/-- What holds of all nodes of expressions and of the commands to the robot holds throughout an expression. -/
theorem IsExpr.throughout (hexpr : ∀ n : Node, n.IsExpr → P n) (hrobot : ∀ op, P (.builtin (Value.robotCommand op)))
    (hn : n.IsExpr) : Throughout P n := by
  have hname : ∀ info x, Throughout P (.name info x) := fun _ _ => throughout_iff.2 ⟨hexpr _ .name, nofun⟩
  induction hn with
  | name => exact hname _ _
  | int => exact throughout_iff.2 ⟨hexpr _ .int, nofun⟩
  | missing => exact throughout_iff.2 ⟨hexpr _ .missing, nofun⟩
  | robot =>
    refine throughout_iff.2 ⟨hexpr _ .robot, forall_mem_cons.2 ⟨?_, nofun⟩⟩
    exact throughout_iff.2 ⟨hrobot _, nofun⟩
  | call hargs ih => exact throughout_iff.2 ⟨hexpr _ (.call hargs), forall_mem_cons.2 ⟨hname _ _, ih⟩⟩
  | subscript hi hj ihi ihj =>
    refine throughout_iff.2 ⟨hexpr _ (.subscript hi hj), forall_mem_cons.2 ⟨hname _ _, ?_⟩⟩
    simp [ihi, ihj]
  | binary hl hr ihl ihr => exact throughout_iff.2 ⟨hexpr _ (.binary hl hr), by simp [children, ihl, ihr]⟩
  | compare hlength hne ho hs iho ih =>
    exact throughout_iff.2 ⟨hexpr _ (.compare hlength hne ho hs), forall_mem_cons.2 ⟨iho, ih⟩⟩

/-- What holds of all nodes that a statement is made of holds throughout it. -/
theorem IsStmt.throughout (hstmt : ∀ n : Node, n.IsStmt → P n) (hrobot : ∀ op, P (.builtin (Value.robotCommand op)))
    (hfield : ∀ info item index value, P (.matrix info item index value))
    (hfunction : ∀ info head scope body, head.Heads scope.names → P (.function info head scope body)) (hn : n.IsStmt) :
    Throughout P n := by
  have hexpr : ∀ {n : Node}, n.IsExpr → Throughout P n := IsExpr.throughout (fun n hn => hstmt n (.expr hn)) hrobot
  induction hn with
  | expr hn => exact hexpr hn
  | assign hne hts hvalue =>
    refine throughout_iff.2 ⟨hstmt _ (.assign hne hts hvalue), forall_mem_cons.2 ⟨hexpr hvalue, ?_⟩⟩
    exact fun t ht => hexpr (hts t ht).isExpr
  | field hts =>
    refine throughout_iff.2 ⟨hstmt _ (.field hts), forall_mem_cons.2 ⟨?_, fun t ht => ?_⟩⟩
    · exact throughout_iff.2 ⟨hfield _ _ _ _, nofun⟩
    · obtain ⟨info, x, rfl⟩ := hts t ht
      exact hexpr .name
  | function hhead hbody ih =>
    refine throughout_iff.2 ⟨hstmt _ (.function hhead hbody), forall_mem_cons.2 ⟨?_, ?_⟩⟩
    · exact throughout_iff.2 ⟨hfunction _ _ _ _ hhead, ih⟩
    · exact forall_mem_singleton.2 (hexpr .name)
  | giveBack hvalue => exact throughout_iff.2 ⟨hstmt _ (.giveBack hvalue), forall_mem_singleton.2 (hexpr hvalue)⟩
  | condition htest hbody ih =>
    exact throughout_iff.2 ⟨hstmt _ (.condition htest hbody), forall_mem_cons.2 ⟨hexpr htest, ih⟩⟩
  | loop htest hbody ih =>
    exact throughout_iff.2 ⟨hstmt _ (.loop htest hbody), forall_mem_cons.2 ⟨hexpr htest, ih⟩⟩

end Node

/-! ### Evaluation -/

/-- Arithmetic joins the types of two numbers. -/
theorem Value.binary?_type {lhs rhs v : Value} (h : lhs.binary? rhs = some v) :
    ∃ left right : IntType, lhs.type = .int left ∧ rhs.type = .int right ∧ v.type = .int (left.join right) := by
  unfold binary? at h
  split at h
  · cases h
    exact ⟨_, _, rfl, rfl, rfl⟩
  · cases h

namespace Node

open Analysis

variable {a a' : Analysis}

/-- The evaluation of a node leaves a node of some kind, with its value recorded, and all values that arithmetic inside
it needs. -/
def Settles (P : Node → Prop) (n : Node) : Prop :=
  ∀ ⦃n' v a a'⦄, Yields n.evaluate a (n', v) a' → P n' ∧ n'.info.value = some v ∧ Throughout Joined n'

variable {ns ts : List Node} {loc : Location} {v : Value} {n : Node}

theorem evaluateAll_settled {P : Node → Prop} {rs : List (Node × Value)} (hns : ∀ n ∈ ns, Settles P n)
    (h : Yields (evaluateAll ns) a rs a') : ∀ n ∈ rs.map Prod.fst, P n ∧ Throughout Joined n := by
  induction ns generalizing a rs with
  | nil =>
    simp only [evaluateAll, yields_pure] at h
    obtain ⟨rfl, _⟩ := h
    exact forall_mem_nil _
  | cons n ns ih =>
    obtain ⟨hn, hns⟩ := forall_mem_cons.1 hns
    simp only [evaluateAll, yields_bind, yields_pure] at h
    obtain ⟨⟨n', v⟩, _, hfirst, rest, _, hrest, rfl, rfl⟩ := h
    exact forall_mem_cons.2 ⟨(hn hfirst).imp_right And.right, ih hns hrest⟩

theorem evaluateChain_settled {lhs : Value} {last : Option Value} {ops : List CmpOp} {ns' : List Node}
    (hns : ∀ n ∈ ns, Settles IsExpr n) (hlength : ops.length = ns.length)
    (h : Yields (evaluateChain loc lhs last ops ns) a (ns', v) a') :
    ns'.length = ns.length ∧ ∀ n ∈ ns', n.IsExpr ∧ Throughout Joined n := by
  induction ns generalizing a loc lhs last ops ns' with
  | nil =>
    unfold evaluateChain at h
    split at h
    · simp only [yields_pure, Prod.mk.injEq] at h
      obtain ⟨⟨rfl, _⟩, _⟩ := h
      exact ⟨rfl, forall_mem_nil _⟩
    · exact absurd h not_yields_fail
  | cons n ns ih =>
    cases ops with
    | nil => cases hlength
    | cons op ops =>
      obtain ⟨hn, hns⟩ := forall_mem_cons.1 hns
      simp only [evaluateChain, yields_bind, yields_pure, Prod.mk.injEq] at h
      obtain ⟨⟨n', rhs⟩, _, hfirst, _, _, _, ⟨ns'', v'⟩, _, hrest, ⟨rfl, rfl⟩, rfl⟩ := h
      obtain ⟨hlen, hall⟩ := ih hns (Nat.succ.inj hlength) hrest
      exact ⟨congrArg (· + 1) hlen, forall_mem_cons.2 ⟨(hn hfirst).imp_right And.right, hall⟩⟩

theorem IsExpr.settles (hn : n.IsExpr) : Settles IsExpr n := by
  induction hn with
  | name =>
    intro n' v a a' h
    simp only [evaluate, yields_bind, yields_pure, Prod.mk.injEq] at h
    obtain ⟨_, _, _, ⟨rfl, rfl⟩, _⟩ := h
    exact ⟨.name, rfl, throughout_iff.2 ⟨trivial, forall_mem_nil _⟩⟩
  | int =>
    intro n' v a a' h
    simp only [evaluate, yields_pure, Prod.mk.injEq] at h
    obtain ⟨⟨rfl, rfl⟩, _⟩ := h
    exact ⟨.int, rfl, throughout_iff.2 ⟨trivial, forall_mem_nil _⟩⟩
  | robot =>
    intro n' v a a' h
    simp only [evaluate, evaluateAll, yields_bind, yields_pure, Prod.mk.injEq] at h
    obtain ⟨⟨_, _⟩, _, ⟨⟨rfl, rfl⟩, _⟩, _, _, _, _, _, ⟨rfl, _⟩, _, _, _, ⟨rfl, rfl⟩, _⟩ := h
    exact ⟨.robot, rfl, throughout_iff.2 ⟨trivial, forall_mem_singleton.2 (throughout_iff.2 ⟨trivial, forall_mem_nil _⟩)⟩⟩
  | call _ ih =>
    intro n' v a a' h
    simp only [evaluate, yields_bind, yields_pure, Prod.mk.injEq] at h
    obtain ⟨⟨_, _⟩, _, ⟨_, _, _, ⟨rfl, rfl⟩, _⟩, _, _, _, args', _, hall, _, _, _, ⟨rfl, rfl⟩, _⟩ := h
    have hargs := evaluateAll_settled ih hall
    refine ⟨.call fun n hn => (hargs n hn).1, rfl, throughout_iff.2 ⟨trivial, forall_mem_cons.2 ⟨?_, ?_⟩⟩⟩
    · exact throughout_iff.2 ⟨trivial, forall_mem_nil _⟩
    · exact fun n hn => (hargs n hn).2
  | subscript _ _ ihi ihj =>
    intro n' v a a' h
    simp only [evaluate, yields_bind, yields_pure, Prod.mk.injEq] at h
    obtain ⟨⟨_, _⟩, _, ⟨_, _, _, ⟨rfl, rfl⟩, _⟩, ⟨index, v'⟩, _, _, ⟨i', iv⟩, _, hi, ⟨j', jv⟩, _, hj, _, _, _, _, _, _,
      ⟨rfl, rfl⟩, _⟩ := h
    obtain ⟨hi, -, hij⟩ := ihi hi
    obtain ⟨hj, -, hjj⟩ := ihj hj
    refine ⟨.subscript hi hj, rfl, throughout_iff.2 ⟨trivial, forall_mem_cons.2 ⟨?_, by simp [hij, hjj]⟩⟩⟩
    exact throughout_iff.2 ⟨trivial, forall_mem_nil _⟩
  | binary _ _ ihl ihr =>
    intro n' v a a' h
    simp only [evaluate, yields_bind, yields_pure, Prod.mk.injEq] at h
    obtain ⟨⟨lhs', left⟩, _, hlhs, ⟨rhs', right⟩, _, hrhs, _, _, hresult, ⟨rfl, rfl⟩, _⟩ := h
    obtain ⟨hl, hleft, hlj⟩ := ihl hlhs
    obtain ⟨hr, hright, hrj⟩ := ihr hrhs
    obtain ⟨leftType, rightType, hlt, hrt, hvt⟩ := Value.binary?_type (binaryValue_eq hresult).1
    refine ⟨.binary hl hr, rfl, throughout_iff.2 ⟨⟨leftType, rightType, ?_, ?_, ?_⟩, by simp [children, hlj, hrj]⟩⟩
    · rw [type?, hleft, Option.map_some, hlt]
    · rw [type?, hright, Option.map_some, hrt]
    · exact congrArg some hvt
  | compare hlength hne _ _ iho ih =>
    intro n' v a a' h
    simp only [evaluate, yields_bind, yields_pure, Prod.mk.injEq] at h
    obtain ⟨⟨operand', first⟩, _, hfirst, ⟨operands', v'⟩, _, hchain, ⟨rfl, rfl⟩, _⟩ := h
    obtain ⟨ho, -, hoj⟩ := iho hfirst
    obtain ⟨hlen, hall⟩ := evaluateChain_settled ih hlength hchain
    refine ⟨.compare (hlength.trans hlen.symm) ?_ ho fun n hn => (hall n hn).1, rfl,
      throughout_iff.2 ⟨trivial, forall_mem_cons.2 ⟨hoj, fun n hn => (hall n hn).2⟩⟩⟩
    exact ne_nil_of_length_pos (hlen ▸ length_pos_iff.2 hne)
  | missing =>
    intro n' v a a' h
    simp [evaluate] at h

theorem IsTarget.settles (hn : n.IsTarget) : Settles IsTarget n := by
  intro n' v a a' h
  obtain ⟨hexpr, hsettled⟩ := hn.isExpr.settles h
  refine ⟨?_, hsettled⟩
  cases hn with
  | name =>
    simp only [evaluate, yields_bind, yields_pure, Prod.mk.injEq] at h
    obtain ⟨_, _, _, ⟨rfl, rfl⟩, _⟩ := h
    exact .name
  | element =>
    simp only [evaluate, yields_bind, yields_pure, Prod.mk.injEq] at h
    obtain ⟨⟨_, _⟩, _, ⟨_, _, _, ⟨rfl, rfl⟩, _⟩, ⟨_, _⟩, _, _, ⟨_, _⟩, _, _, ⟨_, _⟩, _, _, _, _, _, _, _, _, ⟨rfl, rfl⟩, _⟩ := h
    cases hexpr with
    | subscript hi hj => exact .element hi hj

theorem bindTargets_settled {value : Value} {ts' : List Node} (hts : ∀ t ∈ ts, t.IsTarget)
    (h : Yields (bindTargets loc value ts) a ts' a') :
    ts'.length = ts.length ∧ (∀ t ∈ ts', t.IsTarget ∧ Throughout Joined t) ∧
      ((∀ t ∈ ts, ∃ info x, t = .name info x) → ts' = ts) := by
  induction ts generalizing a ts' with
  | nil =>
    simp only [bindTargets, yields_pure] at h
    obtain ⟨rfl, _⟩ := h
    exact ⟨rfl, forall_mem_nil _, fun _ => rfl⟩
  | cons t ts ih =>
    obtain ⟨ht, hrests⟩ := forall_mem_cons.1 hts
    cases ht with
    | name =>
      simp only [bindTargets, yields_bind, yields_pure] at h
      obtain ⟨_, _, _, _, _, hrest, rfl, rfl⟩ := h
      obtain ⟨hlength, hall, hsame⟩ := ih hrests hrest
      refine ⟨congrArg (· + 1) hlength, forall_mem_cons.2 ⟨⟨.name, throughout_iff.2 ⟨trivial, forall_mem_nil _⟩⟩, hall⟩, fun h => ?_⟩
      rw [hsame (forall_mem_cons.1 h).2]
    | element hi hj =>
      simp only [bindTargets, yields_bind, yields_pure] at h
      obtain ⟨⟨t', w⟩, _, heval, _, _, hrest, rfl, rfl⟩ := h
      obtain ⟨hlength, hall, -⟩ := ih hrests hrest
      refine ⟨congrArg (· + 1) hlength, forall_mem_cons.2
        ⟨((IsTarget.element hi hj).settles heval).imp_right And.right, hall⟩, fun h => ?_⟩
      obtain ⟨_, _, hname⟩ := h _ mem_cons_self
      cases hname

theorem of_yields_assign {info : NodeInfo} {value n' : Node}
    (h : Yields (evaluate (.assign info ts value)) a (n', v) a') :
    ∃ ts' value' w b b' c c', Yields (bindTargets info.loc v ts) b ts' b' ∧ Yields value.evaluate c (value', w) c' ∧
      n' = .assign { info with value := some v } ts' value' := by
  rw [evaluate] at h
  split at h
  all_goals simp only [yields_bind, yields_pure, Prod.mk.injEq] at h
  · obtain ⟨ts', _, hbind, ⟨value', w⟩, _, heval, ⟨rfl, rfl⟩, _⟩ := h
    exact ⟨ts', value', w, _, _, _, _, hbind, heval, rfl⟩
  · obtain ⟨⟨value', w⟩, _, heval, ts', _, hbind, ⟨rfl, rfl⟩, _⟩ := h
    exact ⟨ts', value', w, _, _, _, _, hbind, heval, rfl⟩

theorem IsStmt.settles (hn : n.IsStmt) : Settles IsStmt n := by
  induction hn with
  | expr hn => exact fun n' v a a' h => (hn.settles h).imp_left .expr
  | assign hne hts hvalue =>
    intro n' v a a' h
    obtain ⟨ts', value', w, _, _, _, _, hbind, heval, rfl⟩ := of_yields_assign h
    obtain ⟨hlength, hall, -⟩ := bindTargets_settled hts hbind
    obtain ⟨hvalue, -, hjoined⟩ := hvalue.settles heval
    refine ⟨.assign ?_ (fun t ht => (hall t ht).1) hvalue, rfl,
      throughout_iff.2 ⟨trivial, forall_mem_cons.2 ⟨hjoined, fun t ht => (hall t ht).2⟩⟩⟩
    exact ne_nil_of_length_pos (hlength ▸ length_pos_iff.2 hne)
  | field hts =>
    intro n' v a a' h
    obtain ⟨ts', value', w, _, _, _, _, hbind, heval, rfl⟩ := of_yields_assign h
    have htargets : ∀ t ∈ _, IsTarget t := fun t ht => by
      obtain ⟨_, _, rfl⟩ := hts t ht
      exact .name
    obtain ⟨-, hall, hsame⟩ := bindTargets_settled htargets hbind
    cases hsame hts
    simp only [evaluate, yields_pure, Prod.mk.injEq] at heval
    obtain ⟨⟨rfl, rfl⟩, _⟩ := heval
    exact ⟨.field hts, rfl, throughout_iff.2 ⟨trivial, forall_mem_cons.2
      ⟨throughout_iff.2 ⟨trivial, forall_mem_nil _⟩, fun t ht => (hall t ht).2⟩⟩⟩
  | function hhead _ ih =>
    intro n' v a a' h
    obtain ⟨ts', value', w, _, _, _, _, hbind, heval, rfl⟩ := of_yields_assign h
    obtain ⟨-, hall, hsame⟩ := bindTargets_settled (by simpa using .name) hbind
    cases hsame (by simp)
    simp only [evaluate, yields_bind, yields_pure, Prod.mk.injEq] at heval
    obtain ⟨_, _, hpush, body', _, hbody, frame, _, hpop, ⟨rfl, rfl⟩, _⟩ := heval
    have hstmts := evaluateAll_settled ih hbody
    have hgrow := growing_evaluateAll _ hbody
    rw [push_scopes hpush] at hgrow
    obtain ⟨_, _, hscopes, hgrows, -⟩ := hgrow.of_cons
    refine ⟨.function ?_ fun n hn => (hstmts n hn).1, rfl, throughout_iff.2 ⟨trivial, forall_mem_cons.2
      ⟨throughout_iff.2 ⟨trivial, fun n hn => (hstmts n hn).2⟩, fun t ht => (hall t ht).2⟩⟩⟩
    rw [(pop_scopes hpop hscopes).1, hgrows.names]
    exact hhead
  | giveBack hvalue =>
    intro n' v a a' h
    simp only [evaluate, yields_bind, yields_pure, Prod.mk.injEq] at h
    obtain ⟨_, _, _, ⟨value', v'⟩, _, heval, _, _, _, ⟨rfl, rfl⟩, _⟩ := h
    obtain ⟨hvalue, -, hjoined⟩ := hvalue.settles heval
    exact ⟨.giveBack hvalue, rfl, throughout_iff.2 ⟨trivial, forall_mem_singleton.2 hjoined⟩⟩
  | condition htest _ ih =>
    intro n' v a a' h
    simp only [evaluate, yields_bind, yields_pure, Prod.mk.injEq] at h
    obtain ⟨⟨test', v'⟩, _, heval, body', _, hall, ⟨rfl, rfl⟩, _⟩ := h
    obtain ⟨htest, -, hjoined⟩ := htest.settles heval
    have hbody := evaluateAll_settled ih hall
    exact ⟨.condition htest fun n hn => (hbody n hn).1, rfl,
      throughout_iff.2 ⟨trivial, forall_mem_cons.2 ⟨hjoined, fun n hn => (hbody n hn).2⟩⟩⟩
  | loop htest _ ih =>
    intro n' v a a' h
    simp only [evaluate, yields_bind, yields_pure, Prod.mk.injEq] at h
    obtain ⟨⟨test', v'⟩, _, heval, body', _, hall, ⟨rfl, rfl⟩, _⟩ := h
    obtain ⟨htest, -, hjoined⟩ := htest.settles heval
    have hbody := evaluateAll_settled ih hall
    exact ⟨.loop htest fun n hn => (hbody n hn).1, rfl,
      throughout_iff.2 ⟨trivial, forall_mem_cons.2 ⟨hjoined, fun n hn => (hbody n hn).2⟩⟩⟩

end Node

/-- Evaluation yields statements, and every arithmetic node among them has the type that its operands are joined to. -/
theorem Module.evaluate_settled {m m' : Module} {a a' : Analysis} (hm : ∀ n ∈ m.body, n.IsStmt)
    (h : Yields m.evaluate a m' a') : ∀ n ∈ m'.body, n.IsStmt ∧ Node.Throughout Node.Joined n := by
  simp only [Module.evaluate, yields_bind, yields_pure] at h
  obtain ⟨_, _, _, body, _, hall, _, _, _, rfl, _⟩ := h
  exact Node.evaluateAll_settled (fun n hn => (hm n hn).settles) hall

end Labyrinth
