import Labyrinth.Proofs.Code.Flows

/-!
# Two rules of promotion

Analysis joins the types of two operands to the wider one, and of equal widths to the signed one. The C operators
combine two numbers in the wider type, and of equal widths in that of the right operand. The two rules part where
a signed number stands to the left of an unsigned one of its width.
-/

namespace Labyrinth

open Labyrinth.Task

/-! ### Types by their names -/

theorem NumberKind.word_eq (k : NumberKind) : k.word = match k with
    | .tiny => "tiny"
    | .small => "small"
    | .normal => "normal"
    | .big => "big" := by
  cases k <;> decide +kernel

theorem NumberKind.rank_injective {k k' : NumberKind} (h : k.rank = k'.rank) : k = k' := by
  cases k <;> cases k' <;> first | rfl | cases h

namespace IntType

/-- The name of a type tells its width and whether it is signed, and nothing else. -/
theorem name_eq_iff {a b : IntType} : a.name = b.name ↔ a.kind = b.kind ∧ a.sign.isSigned = b.sign.isSigned := by
  obtain ⟨k, s⟩ := a
  obtain ⟨k', s'⟩ := b
  simp only [name, NumberKind.word_eq]
  generalize s.isSigned = x
  generalize s'.isSigned = y
  cases k <;> cases k' <;> cases x <;> cases y <;> decide

/-- A signed number on the left and an unsigned one of its width on the right. -/
def Crossed (a b : IntType) : Prop :=
  a.kind = b.kind ∧ a.sign.isSigned = true ∧ b.sign.isSigned = false

/-- The two rules agree on the name of a type unless the operands are crossed. -/
theorem join_name_eq_iff (a b : IntType) : (a.join b).name = (a.operatorType b).name ↔ ¬Crossed a b := by
  rw [join, operatorType, before, Crossed]
  rcases Nat.lt_trichotomy a.kind.rank b.kind.rank with hlt | heq | hgt
  · have hne : a.kind ≠ b.kind := fun h => Nat.ne_of_lt hlt (congrArg _ h)
    simp [hlt, Nat.not_lt_of_gt hlt, hne]
  · have hkind := NumberKind.rank_injective heq
    simp only [hkind, Nat.lt_irrefl, decide_false, Bool.false_or, BEq.rfl, Bool.true_and, gt_iff_lt, if_false,
      true_and, decide_eq_true_eq]
    split
    · next hsign =>
      have hright : b.sign.isSigned = true := by
        cases hb : b.sign <;> rw [hb] at hsign <;> first | rfl | exact absurd hsign (Nat.not_lt_zero _)
      simp [hright]
    · next hsign =>
      rw [name_eq_iff]
      cases ha : a.sign <;> cases hb : b.sign <;> simp_all [Signedness.isSigned, Signedness.rank]
  · have hne : a.kind ≠ b.kind := fun h => Nat.ne_of_gt hgt (congrArg _ h)
    simp [hgt, Nat.not_lt_of_gt hgt, Nat.ne_of_gt hgt, hne]

end IntType

/-! ### What the operators hand back -/

namespace Operator

variable {t : IntType} {m : Memory}

/-- The result, and what was handed back, are numbers of the C type of a type. -/
def Memory.Stored (t : IntType) (m : Memory) : Prop :=
  (∃ z, m.result = t.store z) ∧ ∀ d ∈ m.done, ∃ z, d = t.store z

theorem Test.run_stored (test : Test) (h : m.Stored t) : (test.run t m).2.Stored t := by
  cases test with
  | overflow op => exact ⟨⟨_, rfl⟩, h.2⟩
  | less _ _ => exact h
  | greater _ _ => exact h
  | atLeast _ _ => exact h
  | equal _ _ => exact h

theorem Move.run_stored (step : Move) (h : m.Stored t) : (step.run t m).Stored t := by
  cases step with
  | set _ => exact ⟨⟨_, rfl⟩, h.2⟩
  | compute _ => exact ⟨⟨_, rfl⟩, h.2⟩
  | finish _ => exact ⟨h.1, fun d hd => ⟨_, (Option.mem_some_iff.1 hd).symm⟩⟩

theorem runChoice_stored (test : Test) (yes no : Move) (h : m.Stored t) : (runChoice t m test yes no).Stored t := by
  have htest := test.run_stored h
  rw [runChoice]
  dsimp only
  split
  · exact yes.run_stored htest
  · exact no.run_stored htest

theorem Branch.run_stored (branch : Branch) (h : m.Stored t) : (branch.run t m).Stored t := by
  cases branch with
  | one step => exact step.run_stored h
  | choose test yes no => exact runChoice_stored test yes no h
  | chooseApart test yes no => exact runChoice_stored test yes no h

theorem runBranches_stored (list : List (Test × Branch)) (h : m.Stored t) : (runBranches t m list).Stored t := by
  induction list generalizing m with
  | nil => exact h
  | cons entry rest ih =>
    have htest := entry.1.run_stored h
    rw [runBranches]
    dsimp only
    split
    · exact entry.2.run_stored htest
    · exact ih htest

theorem Paragraph.run_stored (p : Paragraph) (h : m.Stored t) : (p.run t m).Stored t := by
  unfold Paragraph.run
  split
  · exact h
  · cases p with
    | move step => exact step.run_stored h
    | branches spread list => exact runBranches_stored list h

theorem foldl_stored (body : Body) (h : m.Stored t) : (body.foldl (Paragraph.run t) m).Stored t := by
  induction body generalizing m with
  | nil => exact h
  | cons p rest ih => exact ih (p.run_stored h)

/-- Whatever its body, an operator hands back a number of the C type of its type. -/
theorem Body.run_stored (t : IntType) (body : Body) (x y : Int) : ∃ z, body.run t x y = t.store z := by
  have hzero : Memory.Stored t { lhs := x, rhs := y } := by
    refine ⟨⟨0, ?_⟩, nofun⟩
    rw [IntType.store]
    split <;> simp
  obtain ⟨hresult, hdone⟩ := foldl_stored body hzero
  rw [Body.run]
  cases h : (body.foldl (Paragraph.run t) { lhs := x, rhs := y }).done with
  | none => exact hresult
  | some d => exact hdone d h

end Operator

namespace IntType

/-- The operators combine two numbers in the type that they are converted to. -/
theorem apply_stored (a b : IntType) (op : BinOp) (x y : Int) :
    ∃ z, a.apply b op x y = (a.operatorType b).store z := by
  rw [apply]
  split
  · next h =>
    subst h
    rw [operatorType, if_neg (Nat.lt_irrefl _)]
    exact Operator.Body.run_stored a _ x y
  · exact Operator.Body.run_stored _ _ _ _

end IntType

/-! ### The operators of a program -/

namespace Code

/-- The operator for an operation on numbers of two types. -/
def operatorFor (op : BinOp) (a b : IntType) : Definition :=
  if a.name = b.name then sameOperator op a.sign.isSigned a.name
  else mixedOperator op (a.operatorType b).name a.name b.name

def declarable (t : IntType) : IntType :=
  ⟨t.kind, .ofBool t.sign.isSigned⟩

theorem name_declarable (t : IntType) : (declarable t).name = t.name := by
  rw [IntType.name_eq_iff, declarable]
  cases t.sign <;> exact ⟨rfl, rfl⟩

theorem operatorType_declarable (a b : IntType) :
    ((declarable a).operatorType (declarable b)).name = (a.operatorType b).name := by
  rw [IntType.operatorType, IntType.operatorType]
  change (if a.kind.rank > b.kind.rank then declarable a else declarable b).name = _
  split <;> exact name_declarable _

theorem declarable_sign (t : IntType) : (declarable t).sign ∈ [Signedness.signed, Signedness.unsigned] := by
  rw [declarable]
  cases t.sign.isSigned <;> simp [Signedness.ofBool]

theorem mem_all_kinds (k : NumberKind) : k ∈ NumberKind.all := by
  cases k <;> decide

theorem mem_all_ops (op : BinOp) : op ∈ BinOp.all := by
  cases op <;> decide

/-- There is an operator for every operation and every two types. -/
theorem operatorFor_mem (op : BinOp) (a b : IntType) : operatorFor op a b ∈ arithmetic := by
  rw [operatorFor, arithmetic, List.mem_append]
  split
  · next hname =>
    refine .inl (List.mem_flatMap.2 ⟨a.kind, mem_all_kinds _, List.mem_flatMap.2
      ⟨(declarable a).sign, declarable_sign a, List.mem_map.2 ⟨op, mem_all_ops op, ?_⟩⟩⟩)
    change sameOperator op (declarable a).sign.isSigned (declarable a).name = _
    rw [(IntType.name_eq_iff.1 (name_declarable a)).2, name_declarable]
  · next hname =>
    have hne : declarable a ≠ declarable b := by
      intro h
      rw [← name_declarable a, ← name_declarable b, h] at hname
      exact hname rfl
    refine .inr (List.mem_flatMap.2 ⟨a.kind, mem_all_kinds _, List.mem_flatMap.2 ⟨b.kind, mem_all_kinds _,
      List.mem_flatMap.2 ⟨op, mem_all_ops op, List.mem_flatMap.2 ⟨(declarable a).sign, declarable_sign a,
      List.mem_filterMap.2 ⟨(declarable b).sign, declarable_sign b, ?_⟩⟩⟩⟩⟩)
    change (if declarable a = declarable b then none else some (mixedOperator op
      ((declarable a).operatorType (declarable b)).name (declarable a).name (declarable b).name)) = _
    rw [if_neg hne, operatorType_declarable, name_declarable, name_declarable]

theorem operatorFor_names (op : BinOp) (a b : IntType) :
    (operatorFor op a b).names = [operatorName op.word a.name b.name] := by
  rw [operatorFor]
  split
  · next h => rw [sameOperator, h]
  · rfl

end Code

/-- Every arithmetic node of an analysed program has the type that its operands are joined to. It is emitted as the
operator for its operands, which hands back a number of the C type of the type that it converts them to, and this is
the type of the node unless the operands are crossed. -/
theorem Analysis.ofText_operators {text file : String} {a a' : Analysis} {m : Module} {root lhs rhs : Node}
    {info : NodeInfo} {op : BinOp} (h : Yields (Analysis.ofText text file) a m a') (hroot : root ∈ m.body)
    (hn : Node.Within (.binary info lhs op rhs) root) :
    ∃ left right : IntType, lhs.type? = some (.int left) ∧ rhs.type? = some (.int right) ∧
      (Node.binary info lhs op rhs).type? = some (.int (left.join right)) ∧
      (∀ emission e emission', Yields (Code.Emission.emitExpr (.binary info lhs op rhs)) emission e emission' →
        e.parts.head? = some (Code.operatorName op.word left.name right.name)) ∧
      (Code.operatorFor op left right).names = [Code.operatorName op.word left.name right.name] ∧
      Code.operatorFor op left right ∈ Code.arithmetic ∧
      (∀ x y, ∃ z, left.apply right op x y = (left.operatorType right).store z) ∧
      ((left.join right).name = (left.operatorType right).name ↔ ¬left.Crossed right) := by
  obtain ⟨left, right, hleft, hright, htype⟩ : Node.Joined _ := (ofText_settled h root hroot).2 _ hn
  refine ⟨left, right, hleft, hright, htype, ?_, Code.operatorFor_names op left right,
    Code.operatorFor_mem op left right, IntType.apply_stored left right op, IntType.join_name_eq_iff left right⟩
  intro emission e emission' hemit
  simp only [Code.Emission.emitExpr, yields_bind, yields_pure] at hemit
  obtain ⟨_, _, hl, _, _, hr, _, _, _, _, _, _, rfl, _⟩ := hemit
  have hlt := hleft.symm.trans (Code.Emission.typeOf_eq hl).1
  have hrt := hright.symm.trans (Code.Emission.typeOf_eq hr).1
  cases hlt
  cases hrt
  rfl

/-- A signed literal less an unsigned one. -/
def crossedText : String := "1-+1."

/-- The types of the two parts of a program that is one difference. -/
def Module.differenceTypes (m : Module) : Option (Option ValueType × Option ValueType) :=
  match m.body with
  | [.binary _ lhs .sub rhs] => some (lhs.type?, rhs.type?)
  | _ => none

set_option maxRecDepth 10000 in
theorem Analysis.ofText_operators_crossed : ∃ m a' info lhs rhs, Yields (Analysis.ofText crossedText "") {} m a' ∧
    m.body = [.binary info lhs .sub rhs] ∧ ∃ left right : IntType, left.Crossed right ∧
    (Node.binary info lhs .sub rhs).type? = some (.int (left.join right)) ∧
    (left.join right).name ≠ (left.operatorType right).name := by
  have hgives : gives (Analysis.ofText crossedText "") {} (fun m _ => m.differenceTypes ==
      some (some (.int ⟨.big, .signed⟩), some (.int ⟨.big, .unsigned⟩))) = true := by decide +kernel
  obtain ⟨m, a', hrun, hshape⟩ := yields_of_gives hgives
  rw [beq_iff_eq, Module.differenceTypes] at hshape
  split at hshape
  · next info lhs rhs hbody =>
    rw [Option.some.injEq, Prod.mk.injEq] at hshape
    obtain ⟨left, right, hleft, hright, htype, _, _, _, _, hagree⟩ :=
      Analysis.ofText_operators hrun (by rw [hbody]; exact List.mem_cons_self) .here
    cases hshape.1.symm.trans hleft
    cases hshape.2.symm.trans hright
    have hcrossed : IntType.Crossed ⟨.big, .signed⟩ ⟨.big, .unsigned⟩ := ⟨rfl, rfl, rfl⟩
    exact ⟨m, a', info, lhs, rhs, hrun, hbody, _, _, hcrossed, htype, fun h => hagree.1 h hcrossed⟩
  · cases hshape

end Labyrinth
