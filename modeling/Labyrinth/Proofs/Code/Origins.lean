import Labyrinth.Proofs.Code.Written

/-!
# Where names come from

The names that the code of a scope reads or assigns to, and what is called there. Each of them is bound in the scope
itself or in one around it, and what is called is a function of the program or of the language.
-/

namespace Labyrinth

open List Labyrinth.Task

/-! ### Names and calls of a program -/

namespace Node

variable {fns : List Value} {S : List Scope} {n : Node} {ns : List Node} {x : String}

theorem mem_readsIn : x ∈ readsIn ns ↔ ∃ n ∈ ns, x ∈ n.reads := by
  induction ns with
  | nil => simp [readsIn]
  | cons n ns ih => simp [readsIn, ih]

theorem mem_readsOf (h : x ∈ readsOf ns) : ∃ t ∈ ns, x ∈ t.reads ∧ ∀ info y, t ≠ .name info y := by
  induction ns with
  | nil => cases h
  | cons t ts ih =>
    rw [readsOf_cons, mem_append] at h
    rcases h with h | h
    · refine ⟨t, mem_cons_self, ?_⟩
      cases t <;> simp_all [readsOf]
    · obtain ⟨t', ht', hx⟩ := ih h
      exact ⟨t', mem_cons_of_mem _ ht', hx⟩

theorem mem_callsIn {k : Nat} {c : Node × Nat} : c ∈ callsIn k ns ↔ ∃ n ∈ ns, c ∈ n.calls k := by
  induction ns with
  | nil => simp [callsIn]
  | cons n ns ih => simp [callsIn, ih]

theorem mem_callsBetween {k : Nat} {c : Node × Nat} (h : c ∈ callsBetween k ns) : ∃ n ∈ ns, ∃ j, c ∈ n.calls j := by
  induction ns with
  | nil => cases h
  | cons n ns ih =>
    rw [callsBetween, mem_append] at h
    rcases h with h | h
    · exact ⟨n, mem_cons_self, _, h⟩
    · obtain ⟨n', hn', hc⟩ := ih h
      exact ⟨n', mem_cons_of_mem _ hn', hc⟩

theorem mem_unitsIn {u : FunctionUnit} : u ∈ unitsIn S ns ↔ ∃ n ∈ ns, u ∈ n.units S := by
  induction ns with
  | nil => simp [unitsIn]
  | cons n ns ih => simp [unitsIn, ih]

/-- Every name that an expression reads is bound where it is declared. -/
theorem Typed.finds {v : Value} (h : Typed fns S n v) : ∀ x ∈ n.reads, ∃ type, Scope.Finds S x type := by
  induction h with
  | name hx _ =>
    intro y hy
    cases mem_singleton.1 hy
    exact ⟨_, hx⟩
  | int | robot => exact nofun
  | call _ _ _ ih =>
    intro y hy
    obtain ⟨_, hn, hy⟩ := mem_readsIn.1 hy
    obtain ⟨r, hr, rfl⟩ := mem_map.1 hn
    exact ih r hr y hy
  | subscript hx _ _ hi hj =>
    intro y hy
    simp only [reads, mem_append, mem_singleton, or_assoc] at hy
    rcases hy with rfl | hy | hy
    · exact ⟨_, hx⟩
    · exact hi y hy
    · exact hj y hy
  | binary _ _ _ hl hr =>
    intro y hy
    exact (mem_append.1 hy).elim (hl y) (hr y)
  | compare _ _ _ _ _ ho ih =>
    intro y hy
    rcases mem_append.1 hy with hy | hy
    · exact ho y hy
    · obtain ⟨_, hn, hy⟩ := mem_readsIn.1 hy
      obtain ⟨r, hr, rfl⟩ := mem_map.1 hn
      exact ih r hr y hy

/-- Every name that a statement reads is bound where it is declared. -/
theorem Checked.finds (h : Checked fns S n) : ∀ x ∈ n.reads, ∃ type, Scope.Finds S x type := by
  induction h with
  | expr hn => exact hn.finds
  | assign _ _ hts hv =>
    intro y hy
    rcases mem_append.1 hy with hy | hy
    · obtain ⟨t, ht, hy, hname⟩ := mem_readsOf hy
      rcases hts t ht with ⟨info, z, rfl⟩ | ⟨v, hv⟩
      · exact absurd rfl (hname info z)
      · exact hv.finds y hy
    · exact hv.finds y hy
  | field hts =>
    intro y hy
    rcases mem_append.1 hy with hy | hy
    · obtain ⟨t, ht, -, hname⟩ := mem_readsOf hy
      obtain ⟨info, z, rfl⟩ := hts t ht
      exact absurd rfl (hname info z)
    · cases hy
  | function => exact nofun
  | giveBack hv => exact hv.finds
  | condition ht _ ih | loop ht _ ih =>
    intro y hy
    rcases mem_append.1 hy with hy | hy
    · exact ht.finds y hy
    · obtain ⟨s, hs, hy⟩ := mem_readsIn.1 hy
      exact ih s hs y hy

/-- What is called: a command to the robot, or the function that a name stands for. -/
inductive Callee (S : List Scope) : Node → Value → Prop where
  | command {op} : Callee S (.builtin (Value.robotCommand op)) (Value.robotCommand op)
  | named {loc x v} : Scope.Finds S x .function → Callee S (.name ⟨loc, some v⟩ x) v

theorem Callee.value {v : Value} (h : Callee S n v) : n.info.value = some v := by
  cases h <;> rfl

/-- A call of a function that may come up in a program with some functions. -/
def CallsKnown (fns : List Value) (S : List Scope) (n : Node) : Prop :=
  ∃ info operand args v, n = .call info operand args ∧ Callee S operand v ∧ v.Known fns

theorem Typed.callsKnown {v : Value} (h : Typed fns S n v) : ∀ k, ∀ c ∈ n.calls k, CallsKnown fns S c.1 := by
  induction h with
  | name | int => exact nofun
  | @robot _ op =>
    intro k c hc
    cases mem_singleton.1 hc
    exact ⟨_, _, _, _, rfl, .command, Value.known_robotCommand op⟩
  | call hx hv _ ih =>
    intro k c hc
    rcases mem_cons.1 hc with rfl | hc
    · exact ⟨_, _, _, _, rfl, .named hx, hv⟩
    · obtain ⟨_, hn, hc⟩ := mem_callsIn.1 hc
      obtain ⟨r, hr, rfl⟩ := mem_map.1 hn
      exact ih r hr k c hc
  | subscript _ _ _ hi hj =>
    intro k c hc
    simp only [calls, nil_append] at hc
    exact (mem_append.1 hc).elim (hi k c) (hj k c)
  | binary _ _ _ hl hr =>
    intro k c hc
    exact (mem_append.1 hc).elim (hl k c) (hr k c)
  | compare _ _ _ _ _ ho ih =>
    intro k c hc
    rcases mem_append.1 hc with hc | hc
    · exact ho k c hc
    · obtain ⟨_, hn, j, hc⟩ := mem_callsBetween hc
      obtain ⟨r, hr, rfl⟩ := mem_map.1 hn
      exact ih r hr j c hc

theorem Checked.callsKnown (h : Checked fns S n) : ∀ k, ∀ c ∈ n.calls k, CallsKnown fns S c.1 := by
  induction h with
  | expr hn => exact hn.callsKnown
  | assign _ _ hts hv =>
    intro k c hc
    rcases mem_append.1 hc with hc | hc
    · obtain ⟨t, ht, hc⟩ := mem_callsIn.1 hc
      rcases hts t ht with ⟨info, z, rfl⟩ | ⟨v, hv⟩
      · cases hc
      · exact hv.callsKnown k c hc
    · exact hv.callsKnown _ c hc
  | field hts =>
    intro k c hc
    rcases mem_append.1 hc with hc | hc
    · obtain ⟨t, ht, hc⟩ := mem_callsIn.1 hc
      obtain ⟨info, z, rfl⟩ := hts t ht
      cases hc
    · cases hc
  | function => exact nofun
  | giveBack hv => exact hv.callsKnown
  | condition ht _ ih | loop ht _ ih =>
    intro k c hc
    rcases mem_append.1 hc with hc | hc
    · exact ht.callsKnown k c hc
    · obtain ⟨s, hs, hc⟩ := mem_callsIn.1 hc
      exact ih s hs k c hc

mutual

/-- The functions inside a node, as values. -/
theorem map_value_units (outer : List Scope) (n : Node) : (n.units outer).map FunctionUnit.value = n.functions := by
  cases n with
  | function info head scope body => simp [units, functions, map_value_unitsIn (scope :: outer) body]
  | assign info targets value => exact map_value_units outer value
  | condition info test body => exact map_value_unitsIn outer body
  | loop info test body => exact map_value_unitsIn outer body
  | call | giveBack | binary | compare | subscript | name | int | matrix | builtin | missing => rfl

theorem map_value_unitsIn (outer : List Scope) (ns : List Node) :
    (unitsIn outer ns).map FunctionUnit.value = functionsIn ns := by
  cases ns with
  | nil => rfl
  | cons n ns => simp [unitsIn, functionsIn, map_value_units outer n, map_value_unitsIn outer ns]

end

end Node

/-- Code in a scope after evaluation, with the scopes around it. -/
structure Scope.Houses (fns : List Value) (S : List Scope) (s : Scope) (body : List Node) : Prop where
  nodup : (s.values.map Prod.fst).Nodup
  owns : s.Owns ((s :: S).map Scope.names)
  body : ∀ n ∈ body, n.Checked fns (s :: S)

/-- A function after evaluation. -/
structure FunctionUnit.Checked (fns : List Value) (u : FunctionUnit) : Prop where
  value : ∃ loc, u.value = Node.functionValue loc u.head
  heads : u.head.Heads u.scope.names
  params : Scope.Grows { names := u.scope.names, values := u.head.params } u.scope
  houses : u.scope.Houses fns u.outer u.body

theorem Node.Checked.units {fns : List Value} {S : List Scope} {n : Node} (h : Node.Checked fns S n) :
    ∀ u ∈ n.units S, u.Checked fns := by
  induction h with
  | expr hn =>
    rw [hn.isExpr.units_eq]
    exact nofun
  | assign _ _ _ hv =>
    rw [Node.units, hv.isExpr.units_eq]
    exact nofun
  | field | giveBack => exact nofun
  | function hheads hparams hnodup howns _ hbody ih =>
    intro u hu
    rcases mem_append.1 hu with hu | hu
    · obtain ⟨s, hs, hu⟩ := Node.mem_unitsIn.1 hu
      exact ih s hs u hu
    · cases mem_singleton.1 hu
      exact ⟨⟨_, rfl⟩, hheads, hparams, hnodup, howns, hbody⟩
  | condition _ _ ih | loop _ _ ih =>
    intro u hu
    obtain ⟨s, hs, hu⟩ := Node.mem_unitsIn.1 hu
    exact ih s hs u hu

/-! ### Where names come from -/

namespace Scope

variable {fns : List Value} {S : List Scope} {s : Scope} {body : List Node} {x : String}

/-- How many scopes have to be left to get where a name is bound. -/
def origin (S : List Scope) (x : String) : Nat :=
  (NameTable.depth? x (S.map names)).getD 0

theorem value?_eq_some_iff (hnodup : (s.values.map Prod.fst).Nodup) {v : Value} :
    s.value? x = some v ↔ (x, v) ∈ s.values := by
  rw [value?]
  generalize s.values = entries at hnodup ⊢
  induction entries with
  | nil => simp
  | cons entry entries ih =>
    obtain ⟨y, w⟩ := entry
    rw [map_cons, nodup_cons] at hnodup
    rw [lookup_cons_ite, mem_cons, Prod.mk.injEq]
    by_cases hxy : x = y
    · subst hxy
      have hnot : (x, v) ∉ entries := fun hmem => hnodup.1 (mem_map.2 ⟨_, hmem, rfl⟩)
      simp [hnot, eq_comm]
    · simp [hxy, ih hnodup.2]

theorem holds_iff (hnodup : (s.values.map Prod.fst).Nodup) :
    s.Holds x ↔ ∃ v, s.value? x = some v ∧ v.type.isVariable = true := by
  simp only [Holds, value?_eq_some_iff hnodup]

/-- What code in a scope mentions is bound where it comes from. It is a variable of the scope itself if and only if
it comes from there and is a variable. -/
theorem Houses.bound (h : s.Houses fns S body) (hx : x ∈ Node.readsIn body ∨ s.Holds x) :
    ∃ t v, (s :: S)[origin (s :: S) x]? = some t ∧ t.value? x = some v ∧
      (s.Holds x ↔ origin (s :: S) x = 0 ∧ v.type.isVariable = true) := by
  -- Whatever the scope holds comes from the scope.
  have hown : ∀ v, s.value? x = some v → origin (s :: S) x = 0 := by
    intro v hv
    rcases h.owns x v hv with hdeclares | hnone
    · rw [origin, map_cons, NameTable.depth?, if_pos hdeclares]
      rfl
    · rw [origin, hnone]
      rfl
  have hholds := holds_iff (x := x) h.nodup
  have hiff : ∀ v, origin (s :: S) x = 0 → s.value? x = some v →
      (s.Holds x ↔ origin (s :: S) x = 0 ∧ v.type.isVariable = true) := by
    intro v hzero hv
    rw [hholds, hv]
    simp [hzero]
  rcases hx with hx | hx
  · obtain ⟨n, hn, hx⟩ := Node.mem_readsIn.1 hx
    obtain ⟨_, place, t, v, hdepth, ht, hv, -⟩ := (h.body n hn).finds x hx
    have horigin : origin (s :: S) x = place := by rw [origin, hdepth]; rfl
    refine ⟨t, v, horigin ▸ ht, hv, ?_⟩
    by_cases hzero : place = 0
    · subst hzero
      cases ht
      exact hiff v horigin hv
    · refine iff_of_false (fun hs => ?_) fun hs => hzero (horigin ▸ hs.1)
      obtain ⟨w, hw, -⟩ := hholds.1 hs
      exact hzero (horigin ▸ hown w hw)
  · obtain ⟨v, hv, -⟩ := hholds.1 hx
    have hzero := hown v hv
    exact ⟨s, v, hzero ▸ rfl, hv, hiff v hzero hv⟩

end Scope

/-- What a function takes is held by its scope. -/
theorem FunctionUnit.Checked.holds_of_param {fns : List Value} {u : FunctionUnit} {x : String} (hu : u.Checked fns)
    (hx : x ∈ u.head.params.map Prod.fst) : u.scope.Holds x := by
  obtain ⟨⟨_, v⟩, hentry, rfl⟩ := mem_map.1 hx
  obtain ⟨t, ht⟩ := hu.heads.int _ hentry
  have hparam := (Scope.value?_eq_some_iff (s := { names := u.scope.names, values := u.head.params })
    hu.heads.nodup).2 hentry
  obtain ⟨w, hw, htype⟩ := hu.params.value _ v hparam
  exact (Scope.holds_iff hu.houses.nodup).2 ⟨w, hw, by rw [htype, ht]; rfl⟩

end Labyrinth
