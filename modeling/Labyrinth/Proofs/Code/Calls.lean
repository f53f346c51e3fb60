import Labyrinth.Proofs.Code.Written

/-!
# How often calls are written

Every call of a program is written at least once, in the C function of the function that it stands in. It is written
once for each target of the assignments whose value it stands in, and once for each operand next to the operands of
comparisons that it stands in. So it is written exactly once unless it stands in the value of an assignment with
several targets or between two operands of a comparison.
-/

namespace Labyrinth

open List Labyrinth.Task

namespace Node

/-- The nodes directly inside a node that are written more than once, or not at all. -/
def repeated : Node → List Node
  | .assign _ targets value => if targets.length = 1 then [] else [value]
  | .compare _ _ _ operands => operands.dropLast
  | _ => []

/-- There are no calls in what is written more than once. -/
def Single (n : Node) : Prop :=
  ∀ r ∈ n.repeated, r.calls 1 = []

/-- Calls are written once. -/
def Once (cs : List (Node × Nat)) : Prop :=
  ∀ c ∈ cs, c.2 = 1

section

variable {n : Node} {ns : List Node} {cs cs' : List (Node × Nat)}

@[simp] theorem once_nil : Once [] := nofun

@[simp] theorem once_cons {c : Node × Nat} : Once (c :: cs) ↔ c.2 = 1 ∧ Once cs :=
  forall_mem_cons

@[simp] theorem once_append : Once (cs ++ cs') ↔ Once cs ∧ Once cs' :=
  forall_mem_append

/-- What is written several times has its calls written once only if there are none. -/
theorem once_calls {k : Nat} (hk : k ≠ 0) :
    Once (n.calls k) ↔ Once (n.calls 1) ∧ (k ≠ 1 → n.calls 1 = []) := by
  have hscaled := calls_mul k 1 n
  rw [Nat.mul_one] at hscaled
  rw [hscaled, Once, forall_mem_map]
  by_cases h1 : k = 1
  · subst h1
    simp [Once]
  · constructor
    · intro h
      have hnone : n.calls 1 = [] := eq_nil_iff_forall_not_mem.2 fun c hc => by
        have hc1 : k * c.2 = 1 := h c hc
        exact h1 (Nat.eq_one_of_mul_eq_one_right hc1)
      rw [hnone]
      exact ⟨once_nil, fun _ => rfl⟩
    · intro h
      rw [h.2 h1]
      exact nofun

theorem once_callsIn : Once (callsIn 1 ns) ↔ ∀ n ∈ ns, Once (n.calls 1) := by
  induction ns with
  | nil => simp [callsIn]
  | cons n ns ih => simp [callsIn, ih]

theorem once_callsBetween :
    Once (callsBetween 1 ns) ↔ (∀ n ∈ ns, Once (n.calls 1)) ∧ ∀ r ∈ ns.dropLast, r.calls 1 = [] := by
  induction ns with
  | nil => simp [callsBetween]
  | cons n ns ih =>
    cases ns with
    | nil => simp [callsBetween]
    | cons m ns =>
      have htwice : Once (n.calls 2) ↔ Once (n.calls 1) ∧ n.calls 1 = [] :=
        (once_calls (by decide)).trans (and_congr_right' (by simp))
      rw [callsBetween, once_append, ih]
      simp only [dropLast_cons_cons, forall_mem_cons]
      exact (and_congr_left' htwice).trans and_and_and_comm

end

/-- In an expression all calls are written once if there are none in what is written more than once. -/
theorem IsExpr.once_iff {n : Node} (hn : n.IsExpr) : Once (n.calls 1) ↔ Throughout Single n := by
  have hleaf : ∀ {k : Node}, k.children = [] → k.repeated = [] → Throughout Single k := fun hchildren hrepeated =>
    throughout_iff.2 ⟨by simp [Single, hrepeated], by simp [hchildren]⟩
  induction hn with
  | name | int | missing => exact iff_of_true once_nil (hleaf rfl rfl)
  | robot =>
    rw [throughout_iff]
    simpa [calls, callsIn, children, Single, repeated] using hleaf rfl rfl
  | @call _ calleeInfo x _ _ ih =>
    have hcallee : Throughout Single (.name calleeInfo x) := hleaf rfl rfl
    rw [throughout_iff]
    simp [calls, once_callsIn, children, hcallee, Single, repeated, forall₂_congr ih]
  | @subscript _ fieldInfo x _ _ _ _ ihi ihj =>
    have hfield : Throughout Single (.name fieldInfo x) := hleaf rfl rfl
    rw [throughout_iff]
    simp [calls, children, Single, repeated, hfield, ihi, ihj]
  | binary _ _ ihl ihr =>
    rw [throughout_iff]
    simp [calls, children, Single, repeated, ihl, ihr]
  | compare _ _ _ _ iho ih =>
    rw [throughout_iff]
    simp only [calls, once_append, once_callsBetween, children, forall_mem_cons, Single, repeated, iho,
      forall₂_congr ih]
    exact ⟨fun h => ⟨h.2.2, h.1, h.2.1⟩, fun h => ⟨h.2.1, h.2.2, h.1⟩⟩

/-- The calls of a node and of the functions inside it are all written once. -/
def AllOnce (outer : List Scope) (n : Node) : Prop :=
  Once (n.calls 1) ∧ ∀ u ∈ n.units outer, Once (callsIn 1 u.body)

theorem forall_allOnce {outer : List Scope} {ns : List Node} :
    (∀ n ∈ ns, AllOnce outer n) ↔ Once (callsIn 1 ns) ∧ ∀ u ∈ unitsIn outer ns, Once (callsIn 1 u.body) := by
  induction ns with
  | nil => simp [callsIn, unitsIn]
  | cons n ns ih =>
    rw [forall_mem_cons, ih, callsIn, once_append, unitsIn, forall_mem_append]
    exact and_and_and_comm

theorem single_assign {info : NodeInfo} {targets : List Node} {value : Node} :
    Single (.assign info targets value) ↔ (targets.length ≠ 1 → value.calls 1 = []) := by
  rw [Single, repeated]
  split
  · next h => simp [h]
  · next h => simp [h]

theorem throughout_single_name (info : NodeInfo) (x : String) : Throughout Single (.name info x) :=
  throughout_iff.2 ⟨nofun, nofun⟩

theorem IsStmt.allOnce_iff {n : Node} (hn : n.IsStmt) (outer : List Scope) :
    AllOnce outer n ↔ Throughout Single n := by
  induction hn generalizing outer with
  | expr hn =>
    have hunits : units outer _ = [] := hn.units_eq outer
    rw [AllOnce, hunits, hn.once_iff]
    simp
  | @assign _ targets _ hne hts hvalue =>
    have hlength : targets.length * 1 ≠ 0 := by simpa using hne
    have htargets := forall₂_congr fun t ht => (hts t ht).isExpr.once_iff
    rw [throughout_iff, AllOnce, calls, once_append, once_callsIn, once_calls hlength, units, hvalue.units_eq,
      single_assign, children, forall_mem_cons, htargets, hvalue.once_iff, Nat.mul_one]
    exact ⟨fun h => ⟨h.1.2.2, h.1.2.1, h.1.1⟩, fun h => ⟨⟨h.2.2, h.2.1, h.1⟩, forall_mem_nil _⟩⟩
  | field hts =>
    have hname : ∀ t ∈ _, Once (calls 1 t) ∧ Throughout Single t := fun t ht => by
      obtain ⟨info, x, rfl⟩ := hts t ht
      exact ⟨once_nil, throughout_single_name info x⟩
    refine iff_of_true ⟨?_, forall_mem_nil _⟩ (throughout_iff.2 ⟨single_assign.2 fun _ => rfl, forall_mem_cons.2 ⟨?_, ?_⟩⟩)
    · exact once_append.2 ⟨once_callsIn.2 fun t ht => (hname t ht).1, once_nil⟩
    · exact throughout_iff.2 ⟨forall_mem_nil _, forall_mem_nil _⟩
    · exact fun t ht => (hname t ht).2
  | @function info nameInfo functionInfo head scope body _ _ ih =>
    have hbody := (forall₂_congr fun s hs => ih s hs (scope :: outer)).symm.trans forall_allOnce
    have hfunction : Throughout Single (.function functionInfo head scope body) ↔ ∀ s ∈ body, Throughout Single s :=
      throughout_iff.trans (and_iff_right (forall_mem_nil _))
    rw [throughout_iff, children, forall_mem_cons, hfunction, hbody, single_assign]
    simp [AllOnce, calls, callsIn, units, throughout_single_name, or_imp, forall_and, and_comm]
  | giveBack hvalue =>
    rw [throughout_iff]
    simp [AllOnce, calls, units, children, Single, repeated, hvalue.once_iff]
  | condition htest _ ih | loop htest _ ih =>
    rw [throughout_iff]
    have hbody := (forall₂_congr fun s hs => ih s hs outer).symm.trans forall_allOnce
    simp [AllOnce, calls, units, children, Single, repeated, htest.once_iff, hbody, and_assoc]

def isCall : Node → Bool
  | .call _ _ _ => true
  | _ => false

/-- A call is among some calls and is written at least once. -/
def Among (c : Node) (cs : List (Node × Nat)) : Prop :=
  ∃ k, 0 < k ∧ (c, k) ∈ cs

section

variable {c n : Node} {ns : List Node} {cs cs' : List (Node × Nat)}

theorem among_append : Among c (cs ++ cs') ↔ Among c cs ∨ Among c cs' := by
  simp only [Among, mem_append, and_or_left, exists_or]

theorem Among.mul {k : Nat} (hk : 0 < k) (h : Among c (n.calls 1)) : Among c (n.calls k) := by
  obtain ⟨j, hj, hmem⟩ := h
  have hscaled := calls_mul k 1 n
  rw [Nat.mul_one] at hscaled
  rw [hscaled]
  exact ⟨k * j, Nat.mul_pos hk hj, mem_map_of_mem hmem⟩

theorem among_callsIn (hn : n ∈ ns) (h : Among c (n.calls 1)) : Among c (callsIn 1 ns) := by
  induction ns with
  | nil => cases hn
  | cons m ns ih =>
    rw [callsIn, among_append]
    rcases mem_cons.1 hn with rfl | hn
    · exact .inl h
    · exact .inr (ih hn)

theorem among_callsBetween (hn : n ∈ ns) (h : Among c (n.calls 1)) : Among c (callsBetween 1 ns) := by
  induction ns with
  | nil => cases hn
  | cons m ns ih =>
    rw [callsBetween, among_append]
    rcases mem_cons.1 hn with rfl | hn
    · exact .inl (h.mul (by split <;> decide))
    · exact .inr (ih hn)

end

section

variable {info : NodeInfo} {operand : Node} {args : List Node} {n : Node}

theorem within_call_iff (hn : n.isCall = false) :
    Within (.call info operand args) n ↔ ∃ child ∈ n.children, Within (.call info operand args) child := by
  constructor
  · intro h
    cases h with
    | here => cases hn
    | inside hchild h => exact ⟨_, hchild, h⟩
  · rintro ⟨child, hchild, h⟩
    exact .inside hchild h

theorem not_within_name {nameInfo : NodeInfo} {x : String} : ¬Within (.call info operand args) (.name nameInfo x) := by
  rw [within_call_iff rfl]
  exact nofun

/-- Every call in an expression is among its calls. -/
theorem IsExpr.among (hn : n.IsExpr) (h : Within (.call info operand args) n) :
    Among (.call info operand args) (n.calls 1) := by
  induction hn with
  | name => exact absurd h not_within_name
  | int | missing =>
    rw [within_call_iff rfl] at h
    obtain ⟨_, hchild, _⟩ := h
    cases hchild
  | robot =>
    cases h with
    | here => exact ⟨1, Nat.one_pos, mem_cons_self⟩
    | inside hchild h =>
      cases mem_singleton.1 hchild
      rw [within_call_iff rfl] at h
      obtain ⟨_, hchild, _⟩ := h
      cases hchild
  | call _ ih =>
    cases h with
    | here => exact ⟨1, Nat.one_pos, mem_cons_self⟩
    | inside hchild h =>
      rcases mem_cons.1 hchild with rfl | hchild
      · exact absurd h not_within_name
      · obtain ⟨k, hk, hmem⟩ := among_callsIn hchild (ih _ hchild h)
        exact ⟨k, hk, mem_cons_of_mem _ hmem⟩
  | subscript _ _ ihi ihj =>
    rw [within_call_iff rfl] at h
    obtain ⟨child, hchild, h⟩ := h
    simp only [children, mem_cons, not_mem_nil, or_false] at hchild
    rw [calls, among_append, among_append]
    rcases hchild with rfl | rfl | rfl
    · exact absurd h not_within_name
    · exact .inl (.inr (ihi h))
    · exact .inr (ihj h)
  | binary _ _ ihl ihr =>
    rw [within_call_iff rfl] at h
    obtain ⟨child, hchild, h⟩ := h
    simp only [children, mem_cons, not_mem_nil, or_false] at hchild
    rw [calls, among_append]
    rcases hchild with rfl | rfl
    · exact .inl (ihl h)
    · exact .inr (ihr h)
  | compare _ _ _ _ iho ih =>
    rw [within_call_iff rfl] at h
    obtain ⟨child, hchild, h⟩ := h
    rw [calls, among_append]
    rcases mem_cons.1 hchild with rfl | hchild
    · exact .inl (iho h)
    · exact .inr (among_callsBetween hchild (ih child hchild h))

/-- Every call in a statement is among its calls, or among those of a function inside it. -/
def Covered (outer : List Scope) (n : Node) : Prop :=
  ∀ ⦃info operand args⦄, Within (.call info operand args) n → Among (.call info operand args) (n.calls 1) ∨
    ∃ u ∈ n.units outer, Among (.call info operand args) (callsIn 1 u.body)

theorem covered_in {outer : List Scope} {ns : List Node} (hns : ∀ s ∈ ns, Covered outer s) (hn : n ∈ ns)
    (h : Within (.call info operand args) n) : Among (.call info operand args) (callsIn 1 ns) ∨
      ∃ u ∈ unitsIn outer ns, Among (.call info operand args) (callsIn 1 u.body) := by
  refine (hns n hn h).imp (among_callsIn hn) fun ⟨u, hu, hamong⟩ => ⟨u, ?_, hamong⟩
  clear hns h hamong
  induction ns with
  | nil => cases hn
  | cons m ns ih =>
    rw [unitsIn, mem_append]
    rcases mem_cons.1 hn with rfl | hn
    · exact .inl hu
    · exact .inr (ih hn)

theorem IsStmt.covered (hn : n.IsStmt) (outer : List Scope) : Covered outer n := by
  induction hn generalizing outer with
  | expr hn => exact fun _ _ _ h => .inl (hn.among h)
  | @assign _ targets _ hne hts hvalue =>
    intro info operand args h
    rw [within_call_iff rfl] at h
    obtain ⟨child, hchild, h⟩ := h
    rw [calls, among_append]
    refine .inl ?_
    rcases mem_cons.1 hchild with rfl | hchild
    · exact .inr ((hvalue.among h).mul (by simpa [length_pos_iff] using hne))
    · exact .inl (among_callsIn hchild ((hts child hchild).isExpr.among h))
  | field hts =>
    intro info operand args h
    rw [within_call_iff rfl] at h
    obtain ⟨child, hchild, h⟩ := h
    rcases mem_cons.1 hchild with rfl | hchild
    · rw [within_call_iff rfl] at h
      obtain ⟨_, hchild, _⟩ := h
      cases hchild
    · obtain ⟨_, _, rfl⟩ := hts child hchild
      exact absurd h not_within_name
  | function _ _ ih =>
    intro info operand args h
    rw [within_call_iff rfl] at h
    obtain ⟨child, hchild, h⟩ := h
    rcases mem_cons.1 hchild with rfl | hchild
    · rw [within_call_iff rfl] at h
      obtain ⟨child, hchild, h⟩ := h
      refine .inr ?_
      rcases covered_in (fun s hs => ih s hs (_ :: outer)) hchild h with hamong | ⟨u, hu, hamong⟩
      · exact ⟨_, mem_append_right _ mem_cons_self, hamong⟩
      · exact ⟨u, mem_append_left _ hu, hamong⟩
    · cases mem_singleton.1 hchild
      exact absurd h not_within_name
  | giveBack hvalue =>
    intro info operand args h
    rw [within_call_iff rfl] at h
    obtain ⟨child, hchild, h⟩ := h
    cases mem_singleton.1 hchild
    exact .inl (hvalue.among h)
  | condition htest _ ih | loop htest _ ih =>
    intro info operand args h
    rw [within_call_iff rfl] at h
    obtain ⟨child, hchild, h⟩ := h
    rw [calls, among_append, or_assoc]
    rcases mem_cons.1 hchild with rfl | hchild
    · exact .inl (htest.among h)
    · exact .inr (covered_in (fun s hs => ih s hs outer) hchild h)

end

end Node

/-- The code of a program, function by function, and at last what stands outside of functions. -/
def Module.bodies (m : Module) : List (List Node) :=
  (Node.unitsIn [m.scope] m.body).map FunctionUnit.body ++ [m.body]

namespace Code

/-- The code of an emitted program, function by function, and at last what stands outside of functions. -/
def CProgram.blocks (p : CProgram) : List CBlock :=
  p.functions.map CFunction.block ++ [p.block]

/-- The calls of some nodes begin in the text of a block as often as they are written. -/
def CBlock.Calls (block : CBlock) (body : List Node) : Prop :=
  ∀ head, (headsOf block.fragments).count head = Node.total head (Node.callsIn 1 body)

theorem CProgram.Emits.calls {p : CProgram} {m : Module} (h : p.Emits m) :
    Forall₂ CBlock.Calls p.blocks m.bodies := by
  refine rel_append ?_ (.cons h.count .nil)
  rw [forall₂_map_left_iff, forall₂_map_right_iff]
  exact (h.functions [m.scope]).flip.imp fun f u hu => hu.count

/-- The text of a compiled program is made of fragments in which every call of the program begins as often as it is
written: for each target of an assignment whose value it stands in, and for each operand next to an operand of a
comparison that it stands in. No call is left out, and all of them are written exactly once if and only if there is
none in the value of an assignment with several targets, nor between two operands of a comparison. -/
theorem compile_calls {text file : String} {s : Session} {p : CProgram} {a' : Analysis}
    (h : Yields (compile text file) { session := s } p a') :
    ∃ m a'', Yields (Analysis.ofText text file) { session := s } m a'' ∧
    p.definitions = merged p.definitionFragments ∧
    Forall₂ CBlock.Calls p.blocks m.bodies ∧
    (∀ root ∈ m.body, ∀ info operand args, Node.Within (.call info operand args) root →
      ∃ body ∈ m.bodies, Node.Among (.call info operand args) (Node.callsIn 1 body)) ∧
    ((∀ body ∈ m.bodies, Node.Once (Node.callsIn 1 body)) ↔ ∀ root ∈ m.body, Node.Throughout Node.Single root) := by
  obtain ⟨m, a'', hanalysis, hchecked, hemits⟩ := compile_emits h
  have hstmt : ∀ n ∈ m.body, n.IsStmt := fun n hn => (hchecked.body n hn).isStmt
  refine ⟨m, a'', hanalysis, p.definitions_eq_merged, hemits.calls, ?_, ?_⟩
  · intro root hroot info operand args hcall
    have hcovered := Node.covered_in (fun n hn => (hstmt n hn).covered [m.scope]) hroot hcall
    rcases hcovered with hamong | ⟨u, hu, hamong⟩
    · exact ⟨m.body, mem_append_right _ mem_cons_self, hamong⟩
    · exact ⟨u.body, mem_append_left _ (mem_map_of_mem hu), hamong⟩
  · rw [← forall₂_congr fun n hn => (hstmt n hn).allOnce_iff [m.scope], Node.forall_allOnce, Module.bodies,
      forall_mem_append, forall_mem_map, forall_mem_singleton]
    exact and_comm

/-- A command to the robot whose result goes into two variables. -/
def twiceText : String := "go>>a>>c."

set_option maxRecDepth 10000 in
theorem compile_calls_twice : ∃ p a' m a'', Yields (compile twiceText "") {} p a' ∧
    Yields (Analysis.ofText twiceText "") {} m a'' ∧ (Node.callsIn 1 m.body).map Prod.snd = [2] ∧
    (headsOf p.block.fragments).count "slabes_func___robot_command_go" = 2 ∧
    ¬∀ root ∈ m.body, Node.Throughout Node.Single root := by
  have hcompiled : gives (compile twiceText "") {} (fun p _ =>
      (headsOf p.block.fragments).count "slabes_func___robot_command_go" == 2) = true := by decide +kernel
  have hanalysed : gives (Analysis.ofText twiceText "") {} (fun m _ =>
      (Node.callsIn 1 m.body).map Prod.snd == [2]) = true := by decide +kernel
  obtain ⟨p, a', hrun, hcount⟩ := yields_of_gives hcompiled
  obtain ⟨m, a'', hanalysis, _, _, _, honce⟩ := compile_calls (s := {}) hrun
  obtain ⟨_, _, hrun', htimes⟩ := yields_of_gives hanalysed
  obtain ⟨rfl, -⟩ := hanalysis.unique hrun'
  have htimes := beq_iff_eq.1 htimes
  refine ⟨p, a', m, a'', hrun, hanalysis, htimes, beq_iff_eq.1 hcount, fun hsingle => ?_⟩
  have hbody := honce.2 hsingle m.body (mem_append_right _ mem_cons_self)
  have htwo : 2 ∈ (Node.callsIn 1 m.body).map Prod.snd := by
    rw [htimes]
    exact mem_cons_self
  obtain ⟨c, hc, htwice⟩ := mem_map.1 htwo
  exact absurd (hbody c hc) (by rw [htwice]; decide)

end Code

end Labyrinth
