import Labyrinth.Proofs.Analysis.Recorded
import Labyrinth.Proofs.Grammar.Soundness

/-!
# What evaluation leaves behind

A judgement on the nodes of a program after evaluation: under some scopes, every name has the type of what is bound
to it where it is declared, and every other node has the type that follows from the nodes inside it. Binding further
names does not change a judgement, so that it can be made under the scopes as they are in the end. The values that
are bound to names are numbers, fields, and functions of the program or of the language.
-/

namespace Labyrinth

open List Labyrinth.Task

variable {fns : List Value} {v : Value} {n : Node}

/-! ### Judgements -/

/-- A value that may come up in a program with some functions: a number, a field, or a function that is one of them or
comes with the language, and gives back a number. -/
def Value.Known (fns : List Value) : Value → Prop
  | .function loc kind name params returns => (∃ t, returns.type = .int t) ∧
      (.function loc kind name params returns ∈ fns ∨ .function loc kind name params returns ∈ builtins.map Prod.snd)
  | .module => False
  | _ => True

theorem Value.known_of_type (h : ∃ t, v.type = .int t) : v.Known fns := by
  obtain ⟨t, ht⟩ := h
  cases v with
  | int => trivial
  | matrix => cases ht
  | function => cases ht
  | module => cases ht

theorem Value.Known.int (loc : Location) (type : IntType) (value : Int) :
    Known fns (.int loc type value) :=
  trivial

theorem Value.Known.matrix (loc : Location) (item index : IntType) (value : Int) :
    Known fns (.matrix loc item index value) :=
  trivial

theorem Value.Known.convertTo {value other converted : Value} (h : value.Known fns)
    (hconverted : value.convertTo other = some converted) : converted.Known fns := by
  unfold Value.convertTo at hconverted
  split at hconverted
  · cases hconverted
    trivial
  · split at hconverted
    · cases hconverted
      trivial
    · cases hconverted
  · cases hconverted
    exact h
  · exact h.elim
  · cases hconverted

theorem Value.compare?_type {lhs rhs : Value} (h : lhs.compare? rhs = some v) : v.type = .int truthType := by
  unfold compare? at h
  split at h <;> cases h <;> rfl

/-- The functions that the language brings along may come up in any program. -/
theorem Value.known_of_mem_builtins : ∀ entry ∈ builtins, entry.2.Known fns := by
  have hknown : ∀ {kind name anyArgs width}, builtin kind name anyArgs width ∈ builtins.map Prod.snd →
      (builtin kind name anyArgs width).Known fns := fun h => ⟨⟨_, rfl⟩, .inr h⟩
  simp only [builtins, forall_mem_cons, not_mem_nil, false_implies, implies_true, and_true]
  refine ⟨?_, ?_, ?_, ?_, ?_, ?_, ?_, ?_⟩ <;> exact hknown (by simp [builtins])

theorem Value.robotCommand_mem_builtins (op : RobotOp) : robotCommand op ∈ builtins.map Prod.snd := by
  cases op with
  | move => exact mem_of_getElem? (i := 3) rfl
  | rotateLeft => exact mem_of_getElem? (i := 4) rfl
  | rotateRight => exact mem_of_getElem? (i := 5) rfl
  | sonar => exact mem_of_getElem? (i := 6) rfl
  | compass => exact mem_of_getElem? (i := 7) rfl

theorem Value.known_robotCommand (op : RobotOp) : (robotCommand op).Known fns := by
  obtain ⟨entry, hentry, hcommand⟩ := mem_map.1 (robotCommand_mem_builtins op)
  exact hcommand ▸ known_of_mem_builtins entry hentry

/-- A name is bound to a value of a type where it is declared. -/
def Scope.Finds (S : List Scope) (x : String) (type : ValueType) : Prop :=
  ∃ (place : Nat) (s : Scope) (v : Value), NameTable.depth? x (S.map Scope.names) = some place ∧ S[place]? = some s ∧
    s.value? x = some v ∧ v.type = type

theorem Scope.Finds.grow {S T : List Scope} {x : String} {type : ValueType} (h : Finds S x type)
    (hgrow : Grow S T) : Finds T x type := by
  obtain ⟨place, s, v, hdepth, hs, hv, htype⟩ := h
  obtain ⟨t, ht, hgrows⟩ := hgrow.2 place s hs
  obtain ⟨w, hw, hwtype⟩ := hgrows.value x v hv
  exact ⟨place, t, w, by rw [hgrow.names, hdepth], ht, hw, hwtype.trans htype⟩

/-- Names are bound where they are declared, or where they are assigned to if they are declared nowhere. -/
def Scope.Owns (names : List NameTable) (s : Scope) : Prop :=
  ∀ x v, s.value? x = some v → s.names.declares x = true ∨ NameTable.depth? x names = none

namespace Node

/-- An expression has a value under some scopes. -/
inductive Typed (fns : List Value) (S : List Scope) : Node → Value → Prop where
  | name {loc x v} : Scope.Finds S x v.type → v.Known fns → Typed fns S (.name ⟨loc, some v⟩ x) v
  | int {loc type value} :
      Typed fns S (.int ⟨loc, some (.int loc type value)⟩ type value) (.int loc type value)
  | robot {loc op origin kind name params returns} :
      Value.robotCommand op = .function origin kind name params returns →
      Typed fns S (.call ⟨loc, some returns⟩ (.builtin (Value.robotCommand op)) []) returns
  | call {loc calleeLoc x origin kind name params returns} {rs : List (Node × Value)} :
      Scope.Finds S x .function → Value.Known fns (.function origin kind name params returns) →
      (∀ r ∈ rs, Typed fns S r.1 r.2) →
      Typed fns S (.call ⟨loc, some returns⟩ (.name ⟨calleeLoc, some (.function origin kind name params returns)⟩ x)
        (rs.map Prod.fst)) returns
  | subscript {loc fieldLoc x origin item index value i j vi vj} : Scope.Finds S x (.matrix item index) →
      Typed fns S i vi → Typed fns S j vj →
      Typed fns S (.subscript ⟨loc, some (.int loc item 0)⟩ (.name ⟨fieldLoc, some (.matrix origin item index value)⟩ x)
        i j) (.int loc item 0)
  | binary {loc lhs op rhs left right v} : Typed fns S lhs left → Typed fns S rhs right →
      left.binary? right = some v → Typed fns S (.binary ⟨loc, some v⟩ lhs op rhs) v
  | compare {loc operand first ops v} {rs : List (Node × Value)} : ops.length = rs.length → rs ≠ [] →
      Typed fns S operand first → (∀ r ∈ rs, Typed fns S r.1 r.2) → v.type = .int Value.truthType →
      Typed fns S (.compare ⟨loc, some v⟩ operand ops (rs.map Prod.fst)) v

/-- A statement is in order under some scopes. -/
inductive Checked (fns : List Value) : List Scope → Node → Prop where
  | expr {S n v} : Typed fns S n v → Checked fns S n
  | assign {S loc targets value v} : targets ≠ [] → (∀ t ∈ targets, t.IsTarget) →
      (∀ t ∈ targets, (∃ info x, t = .name info x) ∨ ∃ v, Typed fns S t v) → Typed fns S value v →
      Checked fns S (.assign ⟨loc, some v⟩ targets value)
  | field {S info targets fieldInfo item index value} : (∀ t ∈ targets, ∃ info x, t = .name info x) →
      Checked fns S (.assign info targets (.matrix fieldInfo item index value))
  | function {S info nameInfo functionInfo head scope body} : head.Heads scope.names →
      Scope.Grows { names := scope.names, values := head.params } scope → (scope.values.map Prod.fst).Nodup →
      Scope.Owns ((scope :: S).map Scope.names) scope → (∀ x v, scope.value? x = some v → v.Known fns) →
      (∀ s ∈ body, Checked fns (scope :: S) s) →
      Checked fns S (.assign info [.name nameInfo head.name] (.function functionInfo head scope body))
  | giveBack {S info value v} : Typed fns S value v → Checked fns S (.giveBack info value)
  | condition {S info test body v} : Typed fns S test v → (∀ s ∈ body, Checked fns S s) →
      Checked fns S (.condition info test body)
  | loop {S info test body v} : Typed fns S test v → (∀ s ∈ body, Checked fns S s) →
      Checked fns S (.loop info test body)

variable {fns : List Value} {S T : List Scope} {n : Node} {v : Value}

theorem Typed.value (h : Typed fns S n v) : n.info.value = some v := by
  cases h <;> rfl

theorem Typed.known (h : Typed fns S n v) : v.Known fns := by
  cases h with
  | name _ hv => exact hv
  | int => trivial
  | @robot _ op _ _ _ _ _ hop =>
    have hknown : (Value.robotCommand op).Known fns := Value.known_robotCommand op
    rw [hop] at hknown
    exact Value.known_of_type hknown.1
  | call _ hv _ => exact Value.known_of_type hv.1
  | subscript => trivial
  | @binary _ _ _ _ left right _ _ _ hv =>
    unfold Value.binary? at hv
    split at hv
    · cases hv
      trivial
    · cases hv
  | compare _ _ _ _ htype => exact Value.known_of_type ⟨_, htype⟩

theorem Typed.grow (h : Typed fns S n v) (hgrow : Scope.Grow S T) : Typed fns T n v := by
  induction h with
  | name hx hv => exact .name (hx.grow hgrow) hv
  | int => exact .int
  | robot hop => exact .robot hop
  | call hx hv _ ih => exact .call (hx.grow hgrow) hv ih
  | subscript hx _ _ hi hj => exact .subscript (hx.grow hgrow) hi hj
  | binary _ _ hv hl hr => exact .binary hl hr hv
  | compare hlength hne _ _ htype ho ih => exact .compare hlength hne ho ih htype

theorem Checked.grow (h : Checked fns S n) (hgrow : Scope.Grow S T) : Checked fns T n := by
  induction h generalizing T with
  | expr hn => exact .expr (hn.grow hgrow)
  | assign hne ht hts hv =>
    refine .assign hne ht (fun t h => ?_) (hv.grow hgrow)
    exact (hts t h).imp_right fun ⟨v, hv⟩ => ⟨v, hv.grow hgrow⟩
  | field hts => exact .field hts
  | function hhead hparams hnodup howns hknown _ ih =>
    refine .function hhead hparams hnodup ?_ hknown fun s hs => ih s hs (.cons (.refl _) hgrow)
    rwa [map_cons, hgrow.names]
  | giveBack hv => exact .giveBack (hv.grow hgrow)
  | condition ht _ ih => exact .condition (ht.grow hgrow) fun s hs => ih s hs hgrow
  | loop ht _ ih => exact .loop (ht.grow hgrow) fun s hs => ih s hs hgrow

end Node

/-! ### Evaluation -/

/-- Scopes during evaluation: what is bound in them is known and has a place of its own. -/
structure Scope.Sound (fns : List Value) (S : List Scope) : Prop where
  known : ∀ s ∈ S, ∀ x v, s.value? x = some v → v.Known fns
  nodup : ∀ s ∈ S, (s.values.map Prod.fst).Nodup
  owns : ∀ (i : Nat) (s : Scope), S[i]? = some s → s.Owns ((S.map Scope.names).drop i)

variable {S : List Scope} {x text file : String} {a a' : Analysis} {loc : Location} {m : Module} {s : Session}

theorem Analysis.lookup_finds (h : Yields (lookup x loc) a v a') (ha : Scope.Sound fns a.scopes) :
    Scope.Finds a.scopes x v.type ∧ v.Known fns ∧ a' = a := by
  obtain ⟨place, s, hplace, hs, hvalue, rfl⟩ := lookup_eq h
  exact ⟨⟨place, s, v, hplace, hs, hvalue, rfl⟩, ha.known s (mem_of_getElem? hs) x v hvalue, rfl⟩

namespace Scope.Sound

variable {fns : List Value} {S : List Scope} {s s' : Scope} {x : String} {v : Value}

/-- A name that is bound where it is declared, or innermost if it is declared nowhere. -/
theorem set (hS : Sound fns S) (hv : v.Known fns)
    (hs : S[(NameTable.depth? x (S.map Scope.names)).getD 0]? = some s) (hbind : s.bind x v = .ok s') :
    Sound fns (S.set ((NameTable.depth? x (S.map Scope.names)).getD 0) s') := by
  have hnames := (Grow.set hs (bind_grows hbind)).names
  generalize hplace : (NameTable.depth? x (S.map Scope.names)).getD 0 = place at *
  obtain ⟨w, rfl, hw⟩ := bind_eq_ok hbind
  have hmem := mem_of_getElem? hs
  have hknown : w.Known fns := by
    rcases hw with ⟨-, rfl⟩ | ⟨old, -, hconverted⟩
    · exact hv
    · exact hv.convertTo hconverted
  refine ⟨?_, ?_, ?_⟩
  · intro t ht y u hu
    rcases mem_or_eq_of_mem_set ht with ht | rfl
    · exact hS.known t ht y u hu
    · rw [value?_putValue] at hu
      split at hu
      · cases hu
        exact hknown
      · exact hS.known s hmem y u hu
  · intro t ht
    rcases mem_or_eq_of_mem_set ht with ht | rfl
    · exact hS.nodup t ht
    · exact nodup_putValue (hS.nodup s hmem)
  · intro i t ht
    rw [hnames]
    by_cases hi : place = i
    · subst hi
      rw [getElem?_set_self (List.getElem?_eq_some_iff.1 hs).1] at ht
      cases ht
      intro y u hu
      rw [value?_putValue] at hu
      split at hu
      · next hy =>
        subst hy
        cases hdepth : NameTable.depth? y (S.map Scope.names) with
        | none =>
          rw [hdepth] at hplace
          exact .inr (by rw [← hplace]; exact hdepth)
        | some d =>
          obtain ⟨table, htable, hdeclares⟩ := NameTable.declares_of_depth? hdepth
          rw [hdepth] at hplace
          dsimp only [Option.getD_some] at hplace
          rw [hplace, getElem?_map, hs] at htable
          cases htable
          exact .inl hdeclares
      · exact hS.owns place s hs y u hu
    · rw [getElem?_set_ne hi] at ht
      exact hS.owns i t ht

theorem cons (hS : Sound fns S) (hknown : ∀ x v, s.value? x = some v → v.Known fns)
    (hnodup : (s.values.map Prod.fst).Nodup) (howns : s.Owns ((s :: S).map Scope.names)) : Sound fns (s :: S) := by
  refine ⟨forall_mem_cons.2 ⟨hknown, hS.known⟩, forall_mem_cons.2 ⟨hnodup, hS.nodup⟩, fun i t ht => ?_⟩
  cases i with
  | zero =>
    cases ht
    exact howns
  | succ i => exact hS.owns i t ht

theorem tail (hS : Sound fns (s :: S)) : Sound fns S :=
  ⟨(forall_mem_cons.1 hS.known).2, (forall_mem_cons.1 hS.nodup).2, fun i => hS.owns (i + 1)⟩

end Scope.Sound

theorem Analysis.assign_sound {u : Unit} (h : Yields (assign x v loc) a u a') (hv : v.Known fns)
    (ha : Scope.Sound fns a.scopes) : Scope.Sound fns a'.scopes := by
  rw [assign, yields_get_bind, origin?_eq] at h
  obtain ⟨s', hbind, hscopes⟩ | ⟨_, _, hscopes⟩ := bindAt_cases h
  · rw [hscopes]
    cases hs : a.scopes[(NameTable.depth? x (a.scopes.map Scope.names)).getD 0]? with
    | none =>
      rw [set_eq_of_length_le (List.getElem?_eq_none_iff.1 hs)]
      exact ha
    | some s =>
      rw [getD_of_scopes hs] at hbind
      exact ha.set hv hs hbind
  · rwa [hscopes]

/-- The scope that the body of a function begins with. -/
theorem FunctionHead.Heads.sound {head : FunctionHead} {scope : Scope} (hhead : head.Heads scope.names)
    (hS : Scope.Sound fns S) : Scope.Sound fns ({ scope with values := head.params } :: S) := by
  have hmem : ∀ x v, Scope.value? { scope with values := head.params } x = some v → (x, v) ∈ head.params := by
    intro x v hv
    obtain ⟨before, after, hparams, _⟩ := lookup_eq_some_iff.1 hv
    dsimp only at hparams
    rw [hparams]
    exact mem_append_cons_self
  refine hS.cons (fun x v hv => Value.known_of_type (hhead.int _ (hmem x v hv))) hhead.nodup fun x v hv => .inl ?_
  exact NameTable.declares_of_isParam ((hhead.isParam_iff x).2 (mem_map_of_mem (hmem x v hv)))

namespace Node

open Analysis

variable {fns : List Value} {a a' : Analysis}
variable {n : Node}

/-- The evaluation of a node yields an expression with its value and binds nothing. -/
def Types (fns : List Value) (n : Node) : Prop :=
  ∀ ⦃n' v a a'⦄, Yields n.evaluate a (n', v) a' → Scope.Sound fns a.scopes →
    Typed fns a.scopes n' v ∧ a'.scopes = a.scopes

variable {ns : List Node} {rs : List (Node × Value)} {loc : Location} {S : List Scope}

theorem evaluateAll_typed (hns : ∀ n ∈ ns, n.Types fns) (h : Yields (evaluateAll ns) a rs a')
    (ha : Scope.Sound fns a.scopes) : (∀ r ∈ rs, Typed fns a.scopes r.1 r.2) ∧ a'.scopes = a.scopes := by
  induction ns generalizing a rs with
  | nil =>
    simp only [evaluateAll, yields_pure] at h
    obtain ⟨rfl, rfl⟩ := h
    exact ⟨forall_mem_nil _, rfl⟩
  | cons n ns ih =>
    obtain ⟨hn, hns⟩ := forall_mem_cons.1 hns
    simp only [evaluateAll, yields_bind, yields_pure] at h
    obtain ⟨_, b, hfirst, _, _, hrest, rfl, rfl⟩ := h
    obtain ⟨hfirst, hscopes⟩ := hn hfirst ha
    obtain ⟨hrest, hscopes'⟩ := ih hns hrest (hscopes ▸ ha)
    exact ⟨forall_mem_cons.2 ⟨hfirst, hscopes ▸ hrest⟩, hscopes'.trans hscopes⟩

theorem evaluateChain_typed {lhs : Value} {last : Option Value} {ops : List CmpOp} {ns' : List Node}
    (hns : ∀ n ∈ ns, n.Types fns) (hlength : ops.length = ns.length)
    (hlast : ∀ w, last = some w → w.type = .int Value.truthType)
    (h : Yields (evaluateChain loc lhs last ops ns) a (ns', v) a') (ha : Scope.Sound fns a.scopes) :
    ∃ rs : List (Node × Value), ns' = rs.map Prod.fst ∧ rs.length = ns.length ∧
      (∀ r ∈ rs, Typed fns a.scopes r.1 r.2) ∧ v.type = .int Value.truthType ∧ a'.scopes = a.scopes := by
  induction ns generalizing a loc lhs last ops ns' with
  | nil =>
    unfold evaluateChain at h
    split at h
    · simp only [yields_pure, Prod.mk.injEq] at h
      obtain ⟨⟨rfl, rfl⟩, rfl⟩ := h
      exact ⟨[], rfl, rfl, forall_mem_nil _, hlast _ rfl, rfl⟩
    · exact absurd h not_yields_fail
  | cons n ns ih =>
    cases ops with
    | nil => cases hlength
    | cons op ops =>
      obtain ⟨hn, hns⟩ := forall_mem_cons.1 hns
      simp only [evaluateChain, yields_bind, yields_pure, Prod.mk.injEq] at h
      obtain ⟨⟨n', rhs⟩, b, hfirst, w, _, hvalue, ⟨ns'', v'⟩, _, hrest, ⟨rfl, rfl⟩, rfl⟩ := h
      obtain ⟨htyped, hscopes⟩ := hn hfirst ha
      obtain ⟨hcompare, rfl⟩ := compareValue_eq hvalue
      have hw := Value.compare?_type hcompare
      obtain ⟨rs, rfl, hlen, hrs, hv, hscopes'⟩ := ih hns (Nat.succ.inj hlength)
        (fun u hu => Option.some.inj hu ▸ hw) hrest (hscopes ▸ ha)
      exact ⟨(n', rhs) :: rs, rfl, congrArg (· + 1) hlen, forall_mem_cons.2 ⟨htyped, hscopes ▸ hrs⟩, hv,
        hscopes'.trans hscopes⟩

theorem IsExpr.types (hn : n.IsExpr) : n.Types fns := by
  induction hn with
  | name =>
    intro n' v a a' h ha
    simp only [evaluate, yields_bind, yields_pure, Prod.mk.injEq] at h
    obtain ⟨_, _, hlookup, ⟨rfl, rfl⟩, rfl⟩ := h
    obtain ⟨hfinds, hknown, rfl⟩ := lookup_finds hlookup ha
    exact ⟨.name hfinds hknown, rfl⟩
  | int =>
    intro n' v a a' h ha
    simp only [evaluate, yields_pure, Prod.mk.injEq] at h
    obtain ⟨⟨rfl, rfl⟩, rfl⟩ := h
    exact ⟨.int, rfl⟩
  | robot =>
    intro n' v a a' h ha
    simp only [evaluate, evaluateAll, yields_bind, yields_pure, yields_inSession, Prod.mk.injEq] at h
    obtain ⟨_, _, ⟨⟨rfl, rfl⟩, rfl⟩, _, _, hcallee, _, _, ⟨rfl, rfl⟩, _, _, ⟨_, _, rfl⟩, ⟨rfl, rfl⟩, rfl⟩ := h
    obtain ⟨⟨origin, kind, name, params, hop⟩, rfl⟩ := calleeResult_eq hcallee
    exact ⟨.robot hop, rfl⟩
  | call _ ih =>
    intro n' v a a' h ha
    simp only [evaluate, yields_bind, yields_pure, yields_inSession, Prod.mk.injEq] at h
    obtain ⟨⟨_, _⟩, _, ⟨_, _, hlookup, ⟨rfl, rfl⟩, rfl⟩, _, _, hcallee, rs, _, hargs, _, _, ⟨_, _, rfl⟩,
      ⟨rfl, rfl⟩, rfl⟩ := h
    obtain ⟨hfinds, hknown, rfl⟩ := lookup_finds hlookup ha
    obtain ⟨⟨origin, kind, name, params, rfl⟩, rfl⟩ := calleeResult_eq hcallee
    obtain ⟨hargs, hscopes⟩ := evaluateAll_typed ih hargs ha
    exact ⟨.call hfinds hknown hargs, hscopes⟩
  | subscript _ _ ihi ihj =>
    intro n' v a a' h ha
    simp only [evaluate, yields_bind, yields_pure, Prod.mk.injEq] at h
    obtain ⟨⟨_, _⟩, _, ⟨_, _, hlookup, ⟨rfl, rfl⟩, rfl⟩, ⟨index, v'⟩, _, helement, ⟨i', iv⟩, b, hi, ⟨j', jv⟩, c, hj, _, _,
      hcheck, _, _, hcheck', ⟨rfl, rfl⟩, rfl⟩ := h
    obtain ⟨hfinds, hknown, rfl⟩ := lookup_finds hlookup ha
    obtain ⟨⟨origin, item, value, rfl, rfl⟩, rfl⟩ := elementValue_eq helement
    obtain ⟨-, rfl⟩ := checkIndex_eq hcheck
    obtain ⟨-, rfl⟩ := checkIndex_eq hcheck'
    obtain ⟨hi, hscopes⟩ := ihi hi ha
    obtain ⟨hj, hscopes'⟩ := ihj hj (hscopes ▸ ha)
    exact ⟨.subscript hfinds hi (hscopes ▸ hj), hscopes'.trans hscopes⟩
  | binary _ _ ihl ihr =>
    intro n' v a a' h ha
    simp only [evaluate, yields_bind, yields_pure, Prod.mk.injEq] at h
    obtain ⟨⟨lhs', left⟩, b, hlhs, ⟨rhs', right⟩, _, hrhs, _, _, hresult, ⟨rfl, rfl⟩, rfl⟩ := h
    obtain ⟨hl, hscopes⟩ := ihl hlhs ha
    obtain ⟨hr, hscopes'⟩ := ihr hrhs (hscopes ▸ ha)
    obtain ⟨hv, rfl⟩ := binaryValue_eq hresult
    exact ⟨.binary hl (hscopes ▸ hr) hv, hscopes'.trans hscopes⟩
  | compare hlength hne _ _ iho ih =>
    intro n' v a a' h ha
    simp only [evaluate, yields_bind, yields_pure, Prod.mk.injEq] at h
    obtain ⟨⟨operand', first⟩, b, hfirst, ⟨operands', v'⟩, _, hchain, ⟨rfl, rfl⟩, rfl⟩ := h
    obtain ⟨ho, hscopes⟩ := iho hfirst ha
    obtain ⟨rs, rfl, hlen, hrs, hv, hscopes'⟩ := evaluateChain_typed ih hlength (by simp) hchain (hscopes ▸ ha)
    refine ⟨.compare (hlength.trans hlen.symm) ?_ ho (hscopes ▸ hrs) hv, hscopes'.trans hscopes⟩
    exact ne_nil_of_length_pos (hlen ▸ length_pos_iff.2 hne)
  | missing =>
    intro n' v a a' h ha
    simp [evaluate] at h

theorem Typed.isExpr (h : Typed fns S n v) : n.IsExpr := by
  induction h with
  | name => exact .name
  | int => exact .int
  | robot => exact .robot
  | call _ _ _ ih => exact .call (forall_mem_map.2 ih)
  | subscript _ _ _ hi hj => exact .subscript hi hj
  | binary _ _ _ hl hr => exact .binary hl hr
  | compare hlength hne _ _ _ ho ih =>
    exact .compare (hlength.trans (length_map _).symm) (mt map_eq_nil_iff.1 hne) ho (forall_mem_map.2 ih)

theorem Checked.isStmt (h : Checked fns S n) : n.IsStmt := by
  induction h with
  | expr hn => exact .expr hn.isExpr
  | assign hne ht _ hv => exact .assign hne ht hv.isExpr
  | field hts => exact .field hts
  | function hhead _ _ _ _ _ ih => exact .function hhead ih
  | giveBack hv => exact .giveBack hv.isExpr
  | condition ht _ ih => exact .condition ht.isExpr ih
  | loop ht _ ih => exact .loop ht.isExpr ih

mutual

/-- The functions that are defined inside a node, inner ones before outer ones. -/
def functions : Node → List Value
  | function info head _ body => functionsIn body ++ [functionValue info.loc head]
  | assign _ _ value => value.functions
  | condition _ _ body => functionsIn body
  | loop _ _ body => functionsIn body
  | _ => []

def functionsIn : List Node → List Value
  | [] => []
  | n :: ns => n.functions ++ functionsIn ns

end

theorem IsExpr.functions_eq (hn : n.IsExpr) : n.functions = [] := by
  cases hn <;> rfl

/-- The evaluation of a node yields a statement in order, and only binds names to what is known. -/
def Checks (fns : List Value) (n : Node) : Prop :=
  ∀ ⦃n' v a a'⦄, Yields n.evaluate a (n', v) a' → n.functions ⊆ fns → Scope.Sound fns a.scopes →
    Scope.Sound fns a'.scopes ∧ n'.functions = n.functions ∧ Checked fns a'.scopes n'

theorem evaluateAll_checked (hns : ∀ n ∈ ns, n.Checks fns) (h : Yields (evaluateAll ns) a rs a')
    (hfns : functionsIn ns ⊆ fns) (ha : Scope.Sound fns a.scopes) :
    Scope.Sound fns a'.scopes ∧ functionsIn (rs.map Prod.fst) = functionsIn ns ∧
      ∀ n ∈ rs.map Prod.fst, Checked fns a'.scopes n := by
  induction ns generalizing a rs with
  | nil =>
    simp only [evaluateAll, yields_pure] at h
    obtain ⟨rfl, rfl⟩ := h
    exact ⟨ha, rfl, forall_mem_nil _⟩
  | cons n ns ih =>
    obtain ⟨hn, hns⟩ := forall_mem_cons.1 hns
    rw [functionsIn, append_subset] at hfns
    simp only [evaluateAll, yields_bind, yields_pure] at h
    obtain ⟨_, b, hfirst, _, _, hrest, rfl, rfl⟩ := h
    obtain ⟨hb, hfunctions, hchecked⟩ := hn hfirst hfns.1 ha
    obtain ⟨ha', hfunctions', hcheckeds⟩ := ih hns hrest hfns.2 hb
    have hgrow := growing_evaluateAll ns hrest
    refine ⟨ha', ?_, forall_mem_cons.2 ⟨hchecked.grow hgrow, hcheckeds⟩⟩
    rw [map_cons, functionsIn, hfunctions, hfunctions', functionsIn]

theorem bindTargets_checked {ts ts' : List Node} (hts : ∀ t ∈ ts, t.IsTarget)
    (h : Yields (bindTargets loc v ts) a ts' a') (hv : v.Known fns) (ha : Scope.Sound fns a.scopes) :
    Scope.Sound fns a'.scopes ∧ ∀ t ∈ ts', (∃ info x, t = .name info x) ∨ ∃ v, Typed fns a'.scopes t v := by
  induction ts generalizing a ts' with
  | nil =>
    simp only [bindTargets, yields_pure] at h
    obtain ⟨rfl, rfl⟩ := h
    exact ⟨ha, forall_mem_nil _⟩
  | cons t ts ih =>
    obtain ⟨ht, hrests⟩ := forall_mem_cons.1 hts
    cases ht with
    | @name info x =>
      simp only [bindTargets, yields_bind, yields_pure] at h
      obtain ⟨_, b, hassign, _, _, hrest, rfl, rfl⟩ := h
      obtain ⟨ha', htyped⟩ := ih hrests hrest (assign_sound hassign hv ha)
      exact ⟨ha', forall_mem_cons.2 ⟨.inl ⟨info, x, rfl⟩, htyped⟩⟩
    | element hi hj =>
      simp only [bindTargets, yields_bind, yields_pure] at h
      obtain ⟨⟨t', w⟩, b, heval, _, _, hrest, rfl, rfl⟩ := h
      obtain ⟨htyped, hscopes⟩ := (IsExpr.subscript hi hj).types heval ha
      obtain ⟨ha', htypeds⟩ := ih hrests hrest (hscopes ▸ ha)
      have hgrow := growing_bindTargets _ _ ts hrest
      exact ⟨ha', forall_mem_cons.2 ⟨.inr ⟨w, htyped.grow (hscopes ▸ hgrow)⟩, htypeds⟩⟩

theorem IsExpr.literal?_eq_some (hn : n.IsExpr) (h : n.literal? = some v) :
    ∃ info type value, n = .int info type value ∧ v = .int info.loc type value := by
  cases hn with
  | int => exact ⟨_, _, _, rfl, (Option.some.inj h).symm⟩
  | name | robot | call | subscript | binary | compare | missing => cases h

theorem function_checked {info : NodeInfo} {head : FunctionHead} {scope : Scope} {body : List Node} {n' : Node}
    (hhead : head.Heads scope.names) (hbody : ∀ s ∈ body, s.Checks fns)
    (h : Yields (evaluate (.function info head scope body)) a (n', v) a') (hfns : functionsIn body ⊆ fns)
    (ha : Scope.Sound fns a.scopes) : Scope.Sound fns a'.scopes ∧
      n'.functions = functions (.function info head scope body) ∧
      ∀ info nameInfo, Checked fns a'.scopes (.assign info [.name nameInfo head.name] n') := by
  simp only [evaluate, yields_bind, yields_pure, Prod.mk.injEq] at h
  obtain ⟨_, b, hpush, body', c, hall, frame, _, hpop, ⟨rfl, rfl⟩, rfl⟩ := h
  have hb := push_scopes hpush
  dsimp only at hb
  obtain ⟨hsound, hfunctions, hchecked⟩ := evaluateAll_checked hbody hall hfns (hb ▸ hhead.sound ha)
  have hgrow := growing_evaluateAll body hall
  rw [hb] at hgrow
  obtain ⟨scope', S, hc, hgrows, hgrow⟩ := hgrow.of_cons
  obtain ⟨rfl, rfl⟩ := pop_scopes hpop hc
  rw [hc] at hsound hchecked
  have hnames : frame.scope.names = scope.names := hgrows.names
  refine ⟨hsound.tail, ?_, fun info nameInfo => .function (hnames ▸ hhead) ?_ ?_ ?_ ?_ hchecked⟩
  · rw [functions, hfunctions, functions]
  · rwa [hnames]
  · exact hsound.nodup _ mem_cons_self
  · exact hsound.owns 0 _ rfl
  · exact hsound.known _ mem_cons_self

theorem IsStmt.checks (hn : n.IsStmt) : n.Checks fns := by
  induction hn with
  | expr hn =>
    intro n' v a a' h hfns ha
    obtain ⟨htyped, hscopes⟩ := hn.types h ha
    rw [hscopes, htyped.isExpr.functions_eq, hn.functions_eq]
    exact ⟨ha, rfl, .expr htyped⟩
  | assign hne hts hvalue =>
    intro n' v a a' h hfns ha
    have hnonempty {ts' : List Node} (hlength : ts'.length = _) : ts' ≠ [] :=
      ne_nil_of_length_pos (hlength ▸ length_pos_iff.2 hne)
    rw [evaluate] at h
    split at h
    all_goals
      simp only [yields_bind, yields_pure, Prod.mk.injEq] at h
    · next result hliteral =>
      obtain ⟨ts', b, hbind, ⟨value', v'⟩, _, heval, ⟨rfl, rfl⟩, rfl⟩ := h
      obtain ⟨info, type, k, rfl, rfl⟩ := hvalue.literal?_eq_some hliteral
      obtain ⟨hlength, htargets, -⟩ := bindTargets_settled hts hbind
      obtain ⟨hb, htypeds⟩ := bindTargets_checked hts hbind (.int _ _ _) ha
      simp only [evaluate, yields_pure, Prod.mk.injEq] at heval
      obtain ⟨⟨rfl, rfl⟩, rfl⟩ := heval
      exact ⟨hb, rfl, .assign (hnonempty hlength) (fun t ht => (htargets t ht).1) htypeds .int⟩
    · obtain ⟨⟨value', v'⟩, b, heval, ts', _, hbind, ⟨rfl, rfl⟩, rfl⟩ := h
      obtain ⟨htyped, hscopes⟩ := hvalue.types heval ha
      obtain ⟨hlength, htargets, -⟩ := bindTargets_settled hts hbind
      obtain ⟨ha', htypeds⟩ := bindTargets_checked hts hbind htyped.known (hscopes ▸ ha)
      have hgrow := growing_bindTargets _ _ _ hbind
      rw [hscopes] at hgrow
      refine ⟨ha', ?_, .assign (hnonempty hlength) (fun t ht => (htargets t ht).1) htypeds (htyped.grow hgrow)⟩
      rw [functions, htyped.isExpr.functions_eq, functions, hvalue.functions_eq]
  | field hts =>
    intro n' v a a' h hfns ha
    simp only [evaluate, literal?, yields_bind, yields_pure, Prod.mk.injEq] at h
    obtain ⟨ts', b, hbind, ⟨_, _⟩, _, ⟨⟨rfl, rfl⟩, rfl⟩, ⟨rfl, rfl⟩, rfl⟩ := h
    have htargets : ∀ t ∈ _, IsTarget t := fun t ht => by
      obtain ⟨_, _, rfl⟩ := hts t ht
      exact .name
    obtain ⟨hb, -⟩ := bindTargets_checked htargets hbind (.matrix _ _ _ _) ha
    cases (bindTargets_settled htargets hbind).2.2 hts
    exact ⟨hb, rfl, .field hts⟩
  | @function info nameInfo functionInfo head scope body hhead hbody ih =>
    intro n' v a a' h hfns ha
    rw [evaluate] at h
    simp only [literal?, yields_bind, yields_pure, Prod.mk.injEq] at h
    obtain ⟨ts', b, hbind, ⟨value', v'⟩, _, heval, ⟨rfl, rfl⟩, rfl⟩ := h
    have hin : functionsIn body ++ [functionValue functionInfo.loc head] ⊆ fns := hfns
    rw [append_subset, cons_subset] at hin
    have hknown : (functionValue functionInfo.loc head).Known fns := ⟨hhead.returns, .inl hin.2.1⟩
    have htargets : ∀ t ∈ [Node.name nameInfo head.name], t.IsTarget := by simpa using .name
    obtain ⟨hb, -⟩ := bindTargets_checked htargets hbind hknown ha
    cases (bindTargets_settled htargets hbind).2.2 (by simp)
    obtain ⟨ha', hfunctions, hchecked⟩ := function_checked hhead ih heval hin.1 hb
    exact ⟨ha', hfunctions, hchecked _ _⟩
  | giveBack hvalue =>
    intro n' v a a' h hfns ha
    simp only [evaluate, yields_bind, yields_pure, Prod.mk.injEq] at h
    obtain ⟨_, _, hreturns, ⟨value', v'⟩, b, heval, _, _, hresult, ⟨rfl, rfl⟩, rfl⟩ := h
    obtain ⟨-, rfl⟩ := returnType_eq hreturns
    obtain ⟨-, rfl⟩ := returnValue_eq hresult
    obtain ⟨htyped, hscopes⟩ := hvalue.types heval ha
    rw [hscopes]
    exact ⟨ha, rfl, .giveBack htyped⟩
  | condition htest hbody ih =>
    intro n' v a a' h hfns ha
    simp only [evaluate, yields_bind, yields_pure, Prod.mk.injEq] at h
    obtain ⟨⟨test', v'⟩, b, heval, body', _, hall, ⟨rfl, rfl⟩, rfl⟩ := h
    obtain ⟨htyped, hscopes⟩ := htest.types heval ha
    obtain ⟨ha', hfunctions, hchecked⟩ := evaluateAll_checked ih hall hfns (hscopes ▸ ha)
    exact ⟨ha', hfunctions, .condition (htyped.grow (hscopes ▸ growing_evaluateAll _ hall)) hchecked⟩
  | loop htest hbody ih =>
    intro n' v a a' h hfns ha
    simp only [evaluate, yields_bind, yields_pure, Prod.mk.injEq] at h
    obtain ⟨⟨test', v'⟩, b, heval, body', _, hall, ⟨rfl, rfl⟩, rfl⟩ := h
    obtain ⟨htyped, hscopes⟩ := htest.types heval ha
    obtain ⟨ha', hfunctions, hchecked⟩ := evaluateAll_checked ih hall hfns (hscopes ▸ ha)
    exact ⟨ha', hfunctions, .loop (htyped.grow (hscopes ▸ growing_evaluateAll _ hall)) hchecked⟩

end Node

/-! ### Programs -/

/-- A program after evaluation, under the scopes of its surroundings. -/
structure Module.Checked (S : List Scope) (m : Module) : Prop where
  isParam : ∀ x, m.scope.names.isParam x = false
  nodup : (m.scope.values.map Prod.fst).Nodup
  owns : m.scope.Owns ((m.scope :: S).map Scope.names)
  known : ∀ x v, m.scope.value? x = some v → v.Known (Node.functionsIn m.body)
  body : ∀ n ∈ m.body, n.Checked (Node.functionsIn m.body) (m.scope :: S)

theorem Module.evaluate_checked {m' : Module} (hbody : ∀ n ∈ m.body, n.IsStmt) (hvalues : m.scope.values = [])
    (hparams : ∀ x, m.scope.names.isParam x = false) (h : Yields m.evaluate a m' a')
    (ha : Scope.Sound (Node.functionsIn m.body) a.scopes) : m'.Checked a'.scopes := by
  simp only [Module.evaluate, yields_bind, yields_pure] at h
  obtain ⟨_, b, hpush, body, c, hall, frame, _, hpop, rfl, rfl⟩ := h
  have hb := Analysis.push_scopes hpush
  dsimp only at hb
  have hsound : Scope.Sound (Node.functionsIn m.body) b.scopes := by
    have hnone : ∀ x, m.scope.value? x = none := fun x => by rw [Scope.value?, hvalues]; rfl
    rw [hb]
    refine ha.cons (fun x v hv => ?_) (by rw [hvalues]; exact nodup_nil) fun x v hv => ?_
    · cases (hnone x).symm.trans hv
    · cases (hnone x).symm.trans hv
  obtain ⟨hsound, hfunctions, hchecked⟩ :=
    Node.evaluateAll_checked (fun n hn => (hbody n hn).checks) hall (List.Subset.refl _) hsound
  have hgrow := Node.growing_evaluateAll _ hall
  rw [hb] at hgrow
  obtain ⟨scope', S, hc, hgrows, hgrow⟩ := hgrow.of_cons
  obtain ⟨rfl, rfl⟩ := Analysis.pop_scopes hpop hc
  rw [hc] at hsound hchecked
  refine ⟨fun x => ?_, hsound.nodup _ mem_cons_self, hsound.owns 0 _ rfl, ?_, ?_⟩
  · rw [hgrows.names, hparams]
  · rw [hfunctions]
    exact hsound.known _ mem_cons_self
  · rwa [hfunctions]

/-- What the language brings along is in order, whatever functions a program has. -/
theorem Scope.sound_builtins (fns : List Value) : Scope.Sound fns [Scope.builtins] := by
  have hmem : ∀ x v, Scope.builtins.value? x = some v → (x, v) ∈ Value.builtins := by
    intro x v hv
    obtain ⟨before, after, hentries, _⟩ := lookup_eq_some_iff.1 hv
    have hbuiltins : Value.builtins = before ++ (x, v) :: after := hentries
    rw [hbuiltins]
    exact mem_append_cons_self
  have hdeclares : ∀ x ∈ Value.builtins.map Prod.fst, Scope.builtins.names.declares x = true := by decide
  refine ⟨forall_mem_singleton.2 fun x v hv => Value.known_of_mem_builtins _ (hmem x v hv),
    forall_mem_singleton.2 (by decide), fun i s hs x v hv => ?_⟩
  cases i with
  | zero =>
    cases hs
    exact .inl (hdeclares x (mem_map_of_mem (hmem x v hv)))
  | succ i => cases hs

/-- What a text is lowered to are statements. -/
theorem Program.lower_isStmt_of_text {tree : Program Sign} {s₀ s' : Session}
    (htree : Yields (ofText text file) s₀ tree s) (hlower : Yields (tree.lower text file) s m s') :
    (∀ n ∈ m.body, n.IsStmt) ∧ m.scope.values = [] ∧ ∀ x, m.scope.names.isParam x = false :=
  lower_isStmt (wellFormed_of_text htree) (ofText_placed htree) hlower

/-- What is evaluated for a text are statements in a scope without bindings and parameters. -/
theorem Analysis.of_yields_ofText (h : Yields (Analysis.ofText text file) a m a') :
    ∃ (lowered : Module) (s : Session), (∀ n ∈ lowered.body, n.IsStmt) ∧
      lowered.scope.values = [] ∧ (∀ x, lowered.scope.names.isParam x = false) ∧
      Yields lowered.evaluate { a with session := s } m a' := by
  simp only [Analysis.ofText, yields_bind, yields_inSession, if_true] at h
  obtain ⟨tree, _, ⟨_, htree, rfl⟩, lowered, _, ⟨_, hlower, rfl⟩, _, _, ⟨s, _, rfl⟩, heval⟩ := h
  obtain ⟨hbody, hvalues, hparams⟩ := Program.lower_isStmt_of_text htree hlower
  exact ⟨lowered, s, hbody, hvalues, hparams, heval⟩

/-- A program that was analysed is in order. -/
theorem Analysis.ofText_checked (h : Yields (Analysis.ofText text file) { session := s } m a') :
    m.Checked a'.scopes := by
  obtain ⟨lowered, _, hbody, hvalues, hparams, heval⟩ := of_yields_ofText h
  exact Module.evaluate_checked hbody hvalues hparams heval (Scope.sound_builtins _)

/-- A program that was analysed is made of statements, and its arithmetic nodes have the types that their operands are
joined to. -/
theorem Analysis.ofText_settled (h : Yields (Analysis.ofText text file) a m a') :
    ∀ n ∈ m.body, n.IsStmt ∧ Node.Throughout Node.Joined n := by
  obtain ⟨lowered, _, hbody, _, _, heval⟩ := of_yields_ofText h
  exact Module.evaluate_settled hbody heval

end Labyrinth
