import Labyrinth.Analysis.Evaluation
import Labyrinth.Proofs.Scope.Tables

/-!
# The steps of evaluation

What each step of evaluation does if it comes to a result. Most steps leave the scopes around them as they are; an
assignment binds a name further. So whatever is evaluated, the scopes only grow.
-/

namespace Labyrinth

open Labyrinth.Task

/-- The scopes around the current place, innermost first. -/
def Analysis.scopes (a : Analysis) : List Scope :=
  a.frames.map Frame.scope

namespace Analysis

variable {a a' : Analysis} {u : Unit} {place : Nat} {name : String} {v value : Value} {loc : Location}

theorem origin?_eq (a : Analysis) (x : String) :
    origin? a.frames x = NameTable.depth? x (a.scopes.map Scope.names) := by
  rw [origin?, scopes, List.map_map]
  rfl

/-- A name is looked up where it is declared. -/
theorem lookup_eq (h : Yields (lookup name loc) a v a') : ∃ place s,
    NameTable.depth? name (a.scopes.map Scope.names) = some place ∧ a.scopes[place]? = some s ∧
      s.value? name = some v ∧ a' = a := by
  simp only [lookup, yields_get_bind] at h
  split at h
  · next place hplace =>
    simp only [valueAt, yields_get_bind] at h
    split at h
    · next w hw =>
      obtain ⟨rfl, rfl⟩ := yields_pure.1 h
      rw [origin?_eq] at hplace
      obtain ⟨_, htable, _⟩ := NameTable.declares_of_depth? hplace
      rw [List.getElem?_map, Option.map_eq_some_iff] at htable
      obtain ⟨s, hs, -⟩ := htable
      refine ⟨place, s, hplace, hs, ?_, rfl⟩
      rw [scopes, List.getElem?_map, Option.map_eq_some_iff] at hs
      obtain ⟨f, hf, rfl⟩ := hs
      rwa [List.getD_eq_getElem?_getD, hf] at hw
    · simp [reportUndefined, Session.reportFatal] at h
  · simp [reportUndefined, Session.reportFatal] at h

/-- What a binding in the frame at a place can do. -/
theorem bindAt_cases (h : Yields (bindAt place name value loc) a u a') :
    (∃ s', (a.frames.getD place default).scope.bind name value = .ok s' ∧ a'.scopes = a.scopes.set place s') ∨
      ∃ declared, (a.frames.getD place default).scope.bind name value = .error declared ∧ a'.scopes = a.scopes := by
  simp only [bindAt, yields_get_bind] at h
  split at h
  · next s' hbind =>
    simp only [yields_modify] at h
    subst h
    exact .inl ⟨s', hbind, by rw [scopes, List.map_set]; rfl⟩
  · next declared hbind =>
    obtain ⟨_, -, rfl⟩ := yields_inSession.1 h
    exact .inr ⟨declared, hbind, rfl⟩

theorem getD_of_scopes {s : Scope} (h : a.scopes[place]? = some s) : (a.frames.getD place default).scope = s := by
  rw [scopes, List.getElem?_map, Option.map_eq_some_iff] at h
  obtain ⟨frame, hframe, rfl⟩ := h
  rw [List.getD_eq_getElem?_getD, hframe, Option.getD_some]

theorem grow_of_bindAt (h : Yields (bindAt place name value loc) a u a') : Scope.Grow a.scopes a'.scopes := by
  obtain ⟨s', hbind, hscopes⟩ | ⟨_, _, hscopes⟩ := bindAt_cases h
  · rw [hscopes]
    cases hs : a.scopes[place]? with
    | none =>
      rw [List.set_eq_of_length_le (List.getElem?_eq_none_iff.1 hs)]
      exact .refl _
    | some s =>
      rw [getD_of_scopes hs] at hbind
      exact .set hs (Scope.bind_grows hbind)
  · rw [hscopes]
    exact .refl _

theorem push_scopes {f : Frame} (h : Yields (push f) a u a') : a'.scopes = f.scope :: a.scopes := by
  simp only [push, yields_modify] at h
  subst h
  rfl

theorem pop_scopes {f : Frame} {s : Scope} {S : List Scope} (h : Yields pop a f a') (ha : a.scopes = s :: S) :
    f.scope = s ∧ a'.scopes = S := by
  simp only [pop, yields_get_bind] at h
  split at h
  · next hframes =>
    rw [scopes, hframes] at ha
    cases ha
  · next frame outer hframes =>
    simp only [yields_modify_bind, yields_pure] at h
    obtain ⟨rfl, rfl⟩ := h
    rw [scopes, hframes] at ha
    exact List.cons.inj ha

theorem not_yields_reportType {α : Type} {message : String} {r : α} :
    ¬Yields (reportType loc message : Task Analysis α) a r a' := by
  simp [reportType, Session.reportFatal]

theorem binaryValue_eq {op : BinOp} {lhs rhs : Value}
    (h : Yields (binaryValue loc op lhs rhs) a v a') : lhs.binary? rhs = some v ∧ a' = a := by
  rw [binaryValue] at h
  split at h
  · next hv =>
    obtain ⟨rfl, rfl⟩ := yields_pure.1 h
    exact ⟨hv, rfl⟩
  · exact absurd h not_yields_reportType

theorem compareValue_eq {op : CmpOp} {lhs rhs : Value} (h : Yields (compareValue loc op lhs rhs) a v a') :
    lhs.compare? rhs = some v ∧ a' = a := by
  rw [compareValue] at h
  split at h
  · next hv =>
    obtain ⟨rfl, rfl⟩ := yields_pure.1 h
    exact ⟨hv, rfl⟩
  · exact absurd h not_yields_reportType

theorem checkIndex_eq {type : IntType} {index : Value} (h : Yields (checkIndex loc type index) a u a') :
    (index.convertTo (.int loc type 0)).isSome = true ∧ a' = a := by
  rw [checkIndex] at h
  split at h
  · exact absurd h not_yields_reportType
  · next hsome =>
    rw [Option.isNone_iff_eq_none, ← ne_eq, Option.ne_none_iff_isSome] at hsome
    exact ⟨hsome, (yields_pure.1 h).2.symm⟩

theorem returnType_eq (h : Yields (returnType loc) a v a') :
    (a.frames.headD default).role = .function v ∧ a' = a := by
  simp only [returnType, yields_get_bind] at h
  split at h
  · next hrole =>
    obtain ⟨rfl, rfl⟩ := yields_pure.1 h
    exact ⟨hrole, rfl⟩
  · exact absurd h not_yields_reportType

theorem returnValue_eq {returns : Value} (h : Yields (returnValue loc value returns) a v a') :
    value.convertTo returns = some v ∧ a' = a := by
  unfold returnValue at h
  split at h
  · next hv =>
    obtain ⟨rfl, rfl⟩ := yields_pure.1 h
    exact ⟨hv, rfl⟩
  · exact absurd h not_yields_reportType

theorem elementValue_eq {field : Value} {index : IntType}
    (h : Yields (elementValue loc field) a (index, v) a') :
    (∃ origin item value, field = .matrix origin item index value ∧ v = .int loc item 0) ∧ a' = a := by
  unfold elementValue at h
  split at h
  · simp only [yields_pure, Prod.mk.injEq] at h
    obtain ⟨⟨rfl, rfl⟩, rfl⟩ := h
    exact ⟨⟨_, _, _, rfl, rfl⟩, rfl⟩
  · exact absurd h not_yields_reportType

theorem calleeResult_eq {callee : Value} (h : Yields (calleeResult loc callee) a v a') :
    (∃ origin kind name params, callee = .function origin kind name params v) ∧ a' = a := by
  unfold calleeResult at h
  split at h
  · obtain ⟨rfl, rfl⟩ := yields_pure.1 h
    exact ⟨⟨_, _, _, _, rfl⟩, rfl⟩
  · exact absurd h not_yields_reportType

end Analysis

/-! ### Evaluation binds further names -/

/-- Whatever a computation does to the frames around it is to bind names further. -/
def Analysis.Growing {α : Type} (act : Task Analysis α) : Prop :=
  ∀ ⦃a r a'⦄, Yields act a r a' → Scope.Grow a.scopes a'.scopes

namespace Analysis.Growing

variable {α β : Type}

theorem of_still {act : Task Analysis α} (h : ∀ {a r a'}, Yields act a r a' → a' = a) : Growing act := by
  intro a r a' hact
  rw [h hact]
  exact .refl _

theorem pure (x : α) : Growing (Pure.pure x : Task Analysis α) :=
  .of_still fun h => (yields_pure.1 h).2.symm

theorem bind {act : Task Analysis α} {next : α → Task Analysis β} (h : Growing act) (hnext : ∀ x, Growing (next x)) :
    Growing (act >>= next) := by
  intro a r a' hact
  obtain ⟨x, b, hfirst, hrest⟩ := yields_bind.1 hact
  exact (h hfirst).trans (hnext x hrest)

theorem inSession (act : Run α) : Growing (Labyrinth.inSession act) := by
  intro a r a' hact
  obtain ⟨session, -, rfl⟩ := yields_inSession.1 hact
  exact .refl _

end Analysis.Growing

namespace Node

open Analysis

theorem growing_assign (name : String) (value : Value) (loc : Location) : Growing (Analysis.assign name value loc) := by
  intro a r a' h
  rw [Analysis.assign, yields_get_bind] at h
  exact grow_of_bindAt h

theorem growing_lookup (name : String) (loc : Location) : Growing (lookup name loc) := by
  refine .of_still fun h => ?_
  obtain ⟨_, _, _, _, _, ha⟩ := lookup_eq h
  exact ha

mutual

theorem growing_evaluate (n : Node) : Growing n.evaluate := by
  cases n with
  | assign info targets value =>
    rw [evaluate]
    split
    · exact (growing_bindTargets _ _ targets).bind fun _ => (growing_evaluate value).bind fun _ => .pure _
    · exact (growing_evaluate value).bind fun _ => (growing_bindTargets _ _ targets).bind fun _ => .pure _
  | call info operand args =>
    rw [evaluate]
    exact (growing_evaluate operand).bind fun _ => (Growing.of_still fun h => (calleeResult_eq h).2).bind fun _ =>
      (growing_evaluateAll args).bind fun _ => (Growing.inSession _).bind fun _ => .pure _
  | giveBack info value =>
    rw [evaluate]
    exact (Growing.of_still fun h => (returnType_eq h).2).bind fun _ => (growing_evaluate value).bind fun _ =>
      (Growing.of_still fun h => (returnValue_eq h).2).bind fun _ => .pure _
  | binary info lhs op rhs =>
    rw [evaluate]
    exact (growing_evaluate lhs).bind fun _ => (growing_evaluate rhs).bind fun _ =>
      (Growing.of_still fun h => (binaryValue_eq h).2).bind fun _ => .pure _
  | compare info operand ops operands =>
    rw [evaluate]
    exact (growing_evaluate operand).bind fun _ => (growing_evaluateChain _ _ _ _ operands).bind fun _ => .pure _
  | subscript info field i j =>
    rw [evaluate]
    exact (growing_evaluate field).bind fun _ => (Growing.of_still fun h => (elementValue_eq h).2).bind fun _ =>
      (growing_evaluate i).bind fun _ => (growing_evaluate j).bind fun _ =>
      (Growing.of_still fun h => (checkIndex_eq h).2).bind fun _ =>
      (Growing.of_still fun h => (checkIndex_eq h).2).bind fun _ => .pure _
  | name info text =>
    rw [evaluate]
    exact (growing_lookup text info.loc).bind fun _ => .pure _
  | condition info test body | loop info test body =>
    rw [evaluate]
    exact (growing_evaluate test).bind fun _ => (growing_evaluateAll body).bind fun _ => .pure _
  | int info type value => exact .pure _
  | matrix info item index value => exact .pure _
  | function info head scope body =>
    intro a r a' h
    simp only [evaluate, yields_bind, yields_pure] at h
    obtain ⟨_, b, hpush, rs, c, hbody, frame, _, hpop, -, rfl⟩ := h
    have hgrow := growing_evaluateAll body hbody
    rw [push_scopes hpush] at hgrow
    obtain ⟨t, T, hscopes, -, hgrow⟩ := hgrow.of_cons
    rw [(pop_scopes hpop hscopes).2]
    exact hgrow
  | builtin f => exact .pure _
  | missing => exact fun _ _ _ h => absurd h not_yields_fail

theorem growing_evaluateAll (ns : List Node) : Growing (evaluateAll ns) := by
  cases ns with
  | nil => exact .pure _
  | cons n ns => exact (growing_evaluate n).bind fun _ => (growing_evaluateAll ns).bind fun _ => .pure _

theorem growing_evaluateChain (loc : Location) (lhs : Value) (last : Option Value) (ops : List CmpOp)
    (ns : List Node) : Growing (evaluateChain loc lhs last ops ns) := by
  have hdone : ∀ ns : List Node, Growing (match last with
      | some value => Pure.pure (ns, value)
      | none => fail (.unset "res") : Task Analysis (List Node × Value)) := by
    intro ns
    cases last with
    | none => exact fun _ _ _ h => absurd h not_yields_fail
    | some value => exact .pure _
  cases ns with
  | nil => exact hdone []
  | cons n ns =>
    cases ops with
    | nil => exact hdone (n :: ns)
    | cons op ops =>
      exact (growing_evaluate n).bind fun _ => (Growing.of_still fun h => (compareValue_eq h).2).bind fun _ =>
        (growing_evaluateChain _ _ _ ops ns).bind fun _ => .pure _

theorem growing_bindTargets (loc : Location) (value : Value) (ns : List Node) :
    Growing (bindTargets loc value ns) := by
  match ns with
  | [] => exact .pure _
  | target :: rest =>
    rw [bindTargets.eq_def]
    split
    · next heq => cases heq
    · next heq =>
      cases heq
      exact (growing_assign _ _ _).bind fun _ => (growing_bindTargets loc value rest).bind fun _ => .pure _
    · next heq =>
      cases heq
      exact (growing_evaluate target).bind fun _ => (growing_bindTargets loc value rest).bind fun _ => .pure _

end

end Node

end Labyrinth
