import Labyrinth.Proofs.Analysis.Checked

/-!
# How evaluation ends

Evaluation comes to values, ends the run with a report, or breaks off where an expression is missing. On the way it
collects one kind of diagnostic only: an assigned value that does not fit the value its name had.
-/

namespace Labyrinth

open List Labyrinth.Task

/-- The diagnostic says that a value cannot be converted to the type of an earlier one. -/
def Diagnostic.IsMismatch (d : Diagnostic) : Prop :=
  d.kind = typeKind ∧ ∃ old new : Value, new.convertTo old = none ∧
    d.message = s!"declared type '{old.type.shown}' does not match assigned type '{new.type.shown}'"

theorem Scope.bind_eq_error {s : Scope} {x : String} {v : Value} {t : ValueType} (h : s.bind x v = .error t) :
    ∃ old, v.convertTo old = none ∧ t = old.type := by
  unfold Scope.bind at h
  split at h
  · cases h
  · next old _ =>
    split at h
    · cases h
    · next hconvert =>
      cases h
      exact ⟨old, hconvert, rfl⟩

namespace Analysis

variable {x : String}

/-- What evaluation goes by: how it may end, and where the nodes lie. It may end the run with a report, and it may
collect mismatches. -/
structure Ground where
  conduct : Conduct
  lies : Location → Prop
  exits : conduct.exits
  collects : ∀ d : Diagnostic, d.IsMismatch → conduct.collects d
  reads : ∀ loc, lies loc → conduct.Reads loc .unknown

variable {α : Type} {g : Ground} {a : Analysis} {loc : Location}

/-- Evaluation is under way. -/
def Upright (g : Ground) (a : Analysis) : Prop :=
  g.conduct.Keeps a.session

def Stopped (g : Ground) (stop : Stop) (a : Analysis) : Prop :=
  g.conduct.Stops stop a.session

/-- A computation goes on, or ends the run in order. -/
def Proceeds (g : Ground) (act : Task Analysis α) : Prop :=
  ∀ {a : Analysis}, Upright g a → Ends act a (fun _ => Upright g) (Stopped g)

theorem proceeds_pure (r : α) : Proceeds g (pure r : Task Analysis α) :=
  fun ha => ends_pure.2 ha

theorem proceeds_reportType {message : String} (hloc : g.lies loc) :
    Proceeds g (reportType loc message : Task Analysis α) :=
  fun ha => ends_inSession.2 (Conduct.ends_reportFatal ha g.exits (g.reads loc hloc))

theorem proceeds_reportUndefined (hloc : g.lies loc) :
    Proceeds g (reportUndefined x loc : Task Analysis α) :=
  fun ha => ends_inSession.2 (Conduct.ends_reportFatal ha g.exits (g.reads loc hloc))

theorem proceeds_binaryValue {op : BinOp} {lhs rhs : Value} (hloc : g.lies loc) :
    Proceeds g (binaryValue loc op lhs rhs) := by
  unfold binaryValue
  split
  · exact proceeds_pure _
  · exact proceeds_reportType hloc

theorem proceeds_compareValue {op : CmpOp} {lhs rhs : Value} (hloc : g.lies loc) :
    Proceeds g (compareValue loc op lhs rhs) := by
  unfold compareValue
  split
  · exact proceeds_pure _
  · exact proceeds_reportType hloc

theorem proceeds_checkIndex {type : IntType} {index : Value} (hloc : g.lies loc) :
    Proceeds g (checkIndex loc type index) := by
  unfold checkIndex
  split
  · exact proceeds_reportType hloc
  · exact proceeds_pure _

theorem proceeds_elementValue {field : Value} (hloc : g.lies loc) : Proceeds g (elementValue loc field) := by
  unfold elementValue
  split
  · exact proceeds_pure _
  · exact proceeds_reportType hloc

theorem proceeds_calleeResult {callee : Value} (hloc : g.lies loc) : Proceeds g (calleeResult loc callee) := by
  unfold calleeResult
  split
  · exact proceeds_pure _
  · exact proceeds_reportType hloc

theorem proceeds_returnType (hloc : g.lies loc) : Proceeds g (returnType loc) := by
  intro a ha
  simp only [returnType, ends_bind, ends_get]
  split
  · exact proceeds_pure _ ha
  · exact proceeds_reportType hloc ha

theorem proceeds_returnValue {value returns : Value} (hloc : g.lies loc) :
    Proceeds g (returnValue loc value returns) := by
  unfold returnValue
  split
  · exact proceeds_pure _
  · exact proceeds_reportType hloc

theorem proceeds_lookup (hloc : g.lies loc) : Proceeds g (lookup x loc) := by
  intro a ha
  simp only [lookup, ends_bind, ends_get]
  split
  · simp only [valueAt, ends_bind, ends_get]
    split
    · exact proceeds_pure _ ha
    · exact proceeds_reportUndefined hloc ha
  · exact proceeds_reportUndefined hloc ha

theorem proceeds_assign {v : Value} (hloc : g.lies loc) : Proceeds g (assign x v loc) := by
  intro a ha
  simp only [assign, bindAt, ends_bind, ends_get]
  split
  · exact ends_modify.2 ha
  · next hbind =>
    obtain ⟨old, hconvert, rfl⟩ := Scope.bind_eq_error hbind
    rw [ends_inSession]
    refine Conduct.ends_report ha (g.reads loc hloc) ?_
    exact fun d hkind hmessage => g.collects d ⟨hkind, old, v, hconvert, hmessage⟩

theorem proceeds_push (frame : Frame) : Proceeds g (push frame) :=
  fun ha => ends_modify.2 ha

theorem proceeds_pop : Proceeds g pop := by
  intro a ha
  simp only [pop, ends_bind, ends_get]
  split
  · exact proceeds_pure _ ha
  · exact ends_bind.2 (ends_modify.2 (ends_pure.2 ha))

/-- Arguments are checked against what a function takes. -/
theorem proceeds_checkArgs {callee result : Value} {args : List Value} {b b' : Analysis} (hloc : g.lies loc)
    (hcallee : Yields (calleeResult loc callee) b result b') :
    Proceeds g (inSession (callee.checkArgs args loc) : Task Analysis Unit) := by
  obtain ⟨⟨origin, kind, name, params, rfl⟩, _⟩ := calleeResult_eq hcallee
  have heach : ∀ (ps : List (String × Value)) (args : List Value) {s : Session}, g.conduct.Keeps s →
      Ends (Value.checkEach name loc ps args) s (fun _ => g.conduct.Keeps) g.conduct.Stops := by
    intro ps
    induction ps with
    | nil => exact fun _ _ hs => ends_pure.2 hs
    | cons p ps ih =>
      intro args s hs
      cases args with
      | nil => exact ends_pure.2 hs
      | cons arg args =>
        rw [Value.checkEach]
        split
        · exact ends_bind.2 (Conduct.ends_reportFatal hs g.exits (g.reads loc hloc))
        · exact ih args hs
  intro a ha
  rw [ends_inSession]
  cases params with
  | none => exact ends_pure.2 ha
  | some ps =>
    rw [Value.checkArgs]
    split
    · exact ends_bind.2 (Conduct.ends_reportFatal ha g.exits (g.reads loc hloc))
    · exact heach _ _ ha

end Analysis

namespace Node

open Analysis

variable {g : Analysis.Ground}
variable {n : Node} {a : Analysis} {ns : List Node}

/-- What evaluation has to find at a node: a comparison compares something, and an operand of it lies where it can be
reported. An expression may only be missing if evaluation may break off there. -/
def Orderly (g : Analysis.Ground) : Node → Prop
  | .missing => g.conduct.breaks (.absent "evaluate")
  | .builtin _ => True
  | .compare info operand ops operands => g.lies info.loc ∧ ops.length = operands.length ∧ operands ≠ [] ∧
      ∀ n ∈ operand :: operands, n.isWhole = true → g.lies n.info.loc
  | n => g.lies n.info.loc

/-- What comes of the evaluation of a node: evaluation goes on only if no expression is missing, and nodes stay where
they are. -/
structure Emerges (g : Analysis.Ground) (n n' : Node) (a : Analysis) : Prop where
  upright : Upright g a
  isWhole : n.isWhole = true
  loc : n'.info.loc = n.info.loc
  located : Throughout (Located g.lies) n'

/-- Evaluation of the node ends in order. -/
def EndsOrderly (g : Analysis.Ground) (n : Node) : Prop :=
  ∀ {a : Analysis}, Upright g a → Ends n.evaluate a (fun r => Emerges g n r.1) (Stopped g)

structure AllEmerge (g : Analysis.Ground) (ns ns' : List Node) (a : Analysis) : Prop where
  upright : Upright g a
  areWhole : areWhole ns = true
  located : ∀ n ∈ ns', Throughout (Located g.lies) n

theorem Emerges.cons {n' : Node} {ns' : List Node} {a' : Analysis} (h : Emerges g n n' a)
    (hs : AllEmerge g ns ns' a') : AllEmerge g (n :: ns) (n' :: ns') a' := by
  refine ⟨hs.upright, ?_, forall_mem_cons.2 ⟨h.located, hs.located⟩⟩
  rw [Node.areWhole, h.isWhole, hs.areWhole]
  rfl

theorem ends_evaluateAll (hns : ∀ n ∈ ns, n.EndsOrderly g) (ha : Upright g a) :
    Ends (evaluateAll ns) a (fun rs => AllEmerge g ns (rs.map Prod.fst)) (Stopped g) := by
  induction ns generalizing a with
  | nil => exact ends_pure.2 ⟨ha, rfl, nofun⟩
  | cons n ns ih =>
    obtain ⟨hn, hns⟩ := forall_mem_cons.1 hns
    rw [evaluateAll]
    exact (hn ha).bind fun _ _ _ h => (ih hns h.upright).bind fun _ _ _ hs => ends_pure.2 (h.cons hs)

theorem ends_evaluateChain {loc : Location} {lhs : Value} {last : Option Value} {ops : List CmpOp}
    (hns : ∀ n ∈ ns, n.EndsOrderly g) (hlocs : ∀ n ∈ ns, n.isWhole = true → g.lies n.info.loc)
    (hlength : ops.length = ns.length) (hlast : ns = [] → last.isSome) (hloc : g.lies loc) (ha : Upright g a) :
    Ends (evaluateChain loc lhs last ops ns) a (fun r => AllEmerge g ns r.1) (Stopped g) := by
  induction ns generalizing a loc lhs last ops with
  | nil =>
    obtain ⟨v, rfl⟩ := Option.isSome_iff_exists.1 (hlast rfl)
    exact ends_pure.2 ⟨ha, rfl, nofun⟩
  | cons n ns ih =>
    obtain ⟨hn, hns⟩ := forall_mem_cons.1 hns
    obtain ⟨hnloc, hlocs⟩ := forall_mem_cons.1 hlocs
    cases ops with
    | nil => cases hlength
    | cons op ops =>
      rw [evaluateChain]
      refine (hn ha).bind fun r _ _ h => (proceeds_compareValue hloc h.upright).bind fun _ _ _ ha => ?_
      have hnext : g.lies r.1.info.loc := h.loc ▸ hnloc h.isWhole
      refine (ih hns hlocs (Nat.succ.inj hlength) (fun _ => rfl) hnext ha).bind fun _ _ _ hs => ?_
      exact ends_pure.2 (h.cons hs)

theorem ends_bindTargets {loc : Location} {v : Value} {ts : List Node}
    (hts : ∀ t ∈ ts, t.EndsOrderly g) (hlocs : ∀ t ∈ ts, Throughout (Orderly g) t) (hloc : g.lies loc)
    (ha : Upright g a) : Ends (bindTargets loc v ts) a (AllEmerge g ts) (Stopped g) := by
  induction ts generalizing a with
  | nil => exact ends_pure.2 ⟨ha, rfl, forall_mem_nil _⟩
  | cons t ts ih =>
    obtain ⟨ht, hrest⟩ := forall_mem_cons.1 hts
    obtain ⟨htloc, hrestlocs⟩ := forall_mem_cons.1 hlocs
    unfold bindTargets
    split
    · next heq => cases heq
    · next heq =>
      cases heq
      refine (proceeds_assign hloc ha).bind fun _ _ _ ha => (ih hrest hrestlocs ha).bind fun _ _ _ hs => ends_pure.2 ?_
      exact Emerges.cons ⟨ha, rfl, rfl, throughout_iff.2 ⟨(throughout_iff.1 htloc).1, forall_mem_nil _⟩⟩ hs
    · next heq =>
      cases heq
      exact (ht ha).bind fun _ _ _ h => (ih hrest hrestlocs h.upright).bind fun _ _ _ hs => ends_pure.2 (h.cons hs)

/-- Evaluation ends in order, node by node. -/
theorem endsOrderly (hn : Throughout (Orderly g) n) : n.EndsOrderly g := by
  induction n using inductionOn with | h n ih =>
  obtain ⟨horderly, hthroughout⟩ := throughout_iff.1 hn
  have hchildren : ∀ child ∈ n.children, child.EndsOrderly g := fun child h => ih child h (hthroughout child h)
  intro a ha
  cases n with
  | assign info targets value =>
    obtain ⟨hvalue, htargets⟩ := forall_mem_cons.1 hchildren
    have hlocs := (forall_mem_cons.1 hthroughout).2
    rw [evaluate]
    split
    · refine (ends_bindTargets htargets hlocs horderly ha).bind fun _ _ _ hts => ?_
      refine (hvalue hts.upright).bind fun _ _ _ hv => ends_pure.2 ⟨hv.upright, ?_, rfl, ?_⟩
      · rw [isWhole, hts.areWhole, hv.isWhole]
        rfl
      · exact throughout_iff.2 ⟨horderly, forall_mem_cons.2 ⟨hv.located, hts.located⟩⟩
    · refine (hvalue ha).bind fun _ _ _ hv => ?_
      refine (ends_bindTargets htargets hlocs horderly hv.upright).bind fun _ _ _ hts => ends_pure.2 ⟨hts.upright, ?_, rfl, ?_⟩
      · rw [isWhole, hts.areWhole, hv.isWhole]
        rfl
      · exact throughout_iff.2 ⟨horderly, forall_mem_cons.2 ⟨hv.located, hts.located⟩⟩
  | call info operand args =>
    obtain ⟨hoperand, hargs⟩ := forall_mem_cons.1 hchildren
    rw [evaluate]
    refine (hoperand ha).bind fun _ _ _ ho => ?_
    refine (proceeds_calleeResult horderly ho.upright).bind fun _ _ hcallee ha => ?_
    refine (ends_evaluateAll hargs ha).bind fun _ _ _ hs => ?_
    refine (proceeds_checkArgs horderly hcallee hs.upright).bind fun _ _ _ ha => ends_pure.2 ⟨ha, ?_, rfl, ?_⟩
    · rw [isWhole, ho.isWhole, hs.areWhole]
      rfl
    · exact throughout_iff.2 ⟨horderly, forall_mem_cons.2 ⟨ho.located, hs.located⟩⟩
  | giveBack info value =>
    rw [evaluate]
    refine (proceeds_returnType horderly ha).bind fun _ _ _ ha => ?_
    refine (hchildren value mem_cons_self ha).bind fun _ _ _ hv => ?_
    refine (proceeds_returnValue horderly hv.upright).bind fun _ _ _ ha => ends_pure.2 ⟨ha, hv.isWhole, rfl, ?_⟩
    exact throughout_iff.2 ⟨horderly, forall_mem_singleton.2 hv.located⟩
  | binary info lhs op rhs =>
    rw [evaluate]
    refine (hchildren lhs (by simp [children]) ha).bind fun _ _ _ hl => ?_
    refine (hchildren rhs (by simp [children]) hl.upright).bind fun _ _ _ hr => ?_
    refine (proceeds_binaryValue horderly hr.upright).bind fun _ _ _ ha => ends_pure.2 ⟨ha, ?_, rfl, ?_⟩
    · rw [isWhole, hl.isWhole, hr.isWhole]
      rfl
    · exact throughout_iff.2 ⟨horderly, by simp [children, hl.located, hr.located]⟩
  | compare info operand ops operands =>
    obtain ⟨hoperand, hoperands⟩ := forall_mem_cons.1 hchildren
    obtain ⟨hinfo, hlength, hne, hlocs⟩ := horderly
    obtain ⟨hloc, hlocs⟩ := forall_mem_cons.1 hlocs
    rw [evaluate]
    refine (hoperand ha).bind fun r _ _ ho => ?_
    have hfirst : g.lies r.1.info.loc := ho.loc ▸ hloc ho.isWhole
    refine (ends_evaluateChain hoperands hlocs hlength (absurd · hne) hfirst ho.upright).bind fun _ _ _ hs => ?_
    refine ends_pure.2 ⟨hs.upright, ?_, rfl, ?_⟩
    · rw [isWhole, ho.isWhole, hs.areWhole]
      rfl
    · exact throughout_iff.2 ⟨hinfo, forall_mem_cons.2 ⟨ho.located, hs.located⟩⟩
  | subscript info field i j =>
    rw [evaluate]
    refine (hchildren field (by simp [children]) ha).bind fun _ _ _ hf => ?_
    refine (proceeds_elementValue horderly hf.upright).bind fun _ _ _ ha => ?_
    refine (hchildren i (by simp [children]) ha).bind fun _ _ _ hi => ?_
    refine (hchildren j (by simp [children]) hi.upright).bind fun _ _ _ hj => ?_
    refine (proceeds_checkIndex horderly hj.upright).bind fun _ _ _ ha => ?_
    refine (proceeds_checkIndex horderly ha).bind fun _ _ _ ha => ends_pure.2 ⟨ha, ?_, rfl, ?_⟩
    · rw [isWhole, hf.isWhole, hi.isWhole, hj.isWhole]
      rfl
    · exact throughout_iff.2 ⟨horderly, by simp [children, hf.located, hi.located, hj.located]⟩
  | name info text =>
    rw [evaluate]
    refine (proceeds_lookup horderly ha).bind fun _ _ _ ha => ends_pure.2 ⟨ha, rfl, rfl, ?_⟩
    exact throughout_iff.2 ⟨horderly, forall_mem_nil _⟩
  | condition info test body | loop info test body =>
    obtain ⟨htest, hbody⟩ := forall_mem_cons.1 hchildren
    rw [evaluate]
    refine (htest ha).bind fun _ _ _ ht => ?_
    refine (ends_evaluateAll hbody ht.upright).bind fun _ _ _ hb => ends_pure.2 ⟨hb.upright, ?_, rfl, ?_⟩
    · rw [isWhole, ht.isWhole, hb.areWhole]
      rfl
    · exact throughout_iff.2 ⟨horderly, forall_mem_cons.2 ⟨ht.located, hb.located⟩⟩
  | int info type value | matrix info item index value =>
    rw [evaluate]
    exact ends_pure.2 ⟨ha, rfl, rfl, throughout_iff.2 ⟨horderly, forall_mem_nil _⟩⟩
  | function info head scope body =>
    rw [evaluate]
    refine (proceeds_push _ ha).bind fun _ _ _ ha => (ends_evaluateAll hchildren ha).bind fun _ _ _ hb => ?_
    refine (proceeds_pop hb.upright).bind fun _ _ _ ha => ends_pure.2 ⟨ha, hb.areWhole, rfl, ?_⟩
    exact throughout_iff.2 ⟨horderly, hb.located⟩
  | builtin f =>
    rw [evaluate]
    exact ends_pure.2 ⟨ha, rfl, rfl, throughout_iff.2 ⟨trivial, forall_mem_nil _⟩⟩
  | missing =>
    rw [evaluate]
    exact ends_fail.2 ⟨horderly, ha⟩

theorem isWhole_of_areWhole (h : areWhole ns = true) : ∀ n ∈ ns, n.isWhole = true := by
  induction ns with
  | nil => exact nofun
  | cons n ns ih =>
    rw [areWhole, Bool.and_eq_true] at h
    exact forall_mem_cons.2 ⟨h.1, ih h.2⟩

/-- In a whole node no expression is missing. -/
theorem throughout_of_isWhole (h : n.isWhole = true) : Throughout (fun n => n ≠ .missing) n := by
  induction n using inductionOn with | h n ih =>
  refine throughout_iff.2 ⟨fun hmissing => ?_, fun child hchild => ih child hchild ?_⟩
  · rw [hmissing] at h
    cases h
  · cases n <;> simp only [isWhole, Bool.and_eq_true] at h <;>
      simp only [children, mem_cons, not_mem_nil, or_false] at hchild
    case assign => exact hchild.elim (· ▸ h.2) (isWhole_of_areWhole h.1 child)
    case call => exact hchild.elim (· ▸ h.1) (isWhole_of_areWhole h.2 child)
    case giveBack => exact hchild ▸ h
    case binary => exact hchild.elim (· ▸ h.1) (· ▸ h.2)
    case compare => exact hchild.elim (· ▸ h.1) (isWhole_of_areWhole h.2 child)
    case subscript => rcases hchild with rfl | rfl | rfl <;> simp [h]
    case condition => exact hchild.elim (· ▸ h.1) (isWhole_of_areWhole h.2 child)
    case loop => exact hchild.elim (· ▸ h.1) (isWhole_of_areWhole h.2 child)
    case function => exact isWhole_of_areWhole h child hchild

/-- A comparison compares an expression with at least one other. -/
def Comparing : Node → Prop
  | .compare _ operand ops operands => ops.length = operands.length ∧ operands ≠ [] ∧ ∀ n ∈ operand :: operands, n.IsExpr
  | _ => True

theorem IsStmt.comparing (hn : n.IsStmt) : Throughout Comparing n := by
  refine hn.throughout (fun n hn => ?_) (fun _ => trivial) (fun _ _ _ _ => trivial) fun _ _ _ _ _ => trivial
  cases hn with
  | expr hn =>
    cases hn with
    | compare hlength hne ho hs => exact ⟨hlength, hne, forall_mem_cons.2 ⟨ho, hs⟩⟩
    | name | int | robot | call | subscript | binary | missing => trivial
  | assign | field | function | giveBack | condition | loop => trivial

theorem IsExpr.lies {L : Location → Prop} (hn : n.IsExpr) (hwhole : n.isWhole = true) (h : Located L n) :
    L n.info.loc := by
  cases hn with
  | missing => cases hwhole
  | name | int | robot | call | subscript | binary | compare => exact h

/-- Nodes whose comparisons compare something are such that their evaluation ends in order. -/
theorem orderly_of_comparing (hn : Throughout Comparing n) (hlies : Throughout (Located g.lies) n)
    (hmissing : Throughout (fun n => n = .missing → g.conduct.breaks (.absent "evaluate")) n) :
    Throughout (Orderly g) n := by
  induction n using inductionOn with | h n ih =>
  obtain ⟨hcomparing, hns⟩ := throughout_iff.1 hn
  obtain ⟨hlocated, hlies⟩ := throughout_iff.1 hlies
  obtain ⟨hbreaks, hmissing⟩ := throughout_iff.1 hmissing
  refine throughout_iff.2 ⟨?_, fun child h => ih child h (hns child h) (hlies child h) (hmissing child h)⟩
  cases n with
  | compare info operand ops operands =>
    obtain ⟨hlength, hne, hoperands⟩ := hcomparing
    refine ⟨hlocated, hlength, hne, fun n hn hwhole => (hoperands n hn).lies hwhole ?_⟩
    exact (throughout_iff.1 (hlies n hn)).1
  | missing => exact hbreaks rfl
  | builtin f => trivial
  | assign | call | giveBack | binary | subscript | name | condition | loop | int | matrix | function => exact hlocated

end Node

/-- Evaluation of a program ends in order. -/
theorem Module.ends_evaluate {g : Analysis.Ground} {m : Module} {a : Analysis}
    (hm : ∀ n ∈ m.body, Node.Throughout (Node.Orderly g) n) (ha : Analysis.Upright g a) :
    Ends m.evaluate a (fun m' a' => Analysis.Upright g a' ∧ Node.areWhole m.body = true ∧
      ∀ n ∈ m'.body, Node.Throughout (Node.Located g.lies) n) (Analysis.Stopped g) := by
  rw [Module.evaluate]
  refine (Analysis.proceeds_push _ ha).bind fun _ _ _ ha => ?_
  refine (Node.ends_evaluateAll (fun n hn => Node.endsOrderly (hm n hn)) ha).bind fun _ _ _ hb => ?_
  exact (Analysis.proceeds_pop hb.upright).bind fun _ _ _ ha => ends_pure.2 ⟨ha, hb.areWhole, hb.located⟩

end Labyrinth
