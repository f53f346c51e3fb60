import Labyrinth.Proofs.Code.Scoping

/-!
# Where fields are freed

The ways through the code of a C function: a check is entered or passed, the body of a loop is run any number of times,
and a return ends the way. The fields of a function are freed at every return, before the value that is handed back is
computed, and at the end of the function. So each of them is freed once on every way, and after all its uses, except
for those in the value that is handed back.
-/

namespace Labyrinth

open List Labyrinth.Task

namespace Code

/-! ### Ways through code -/

/-- What happens to a variable. -/
inductive CEvent where
  | use (name : String)
  | free (name : String)
deriving DecidableEq

/-- The variables that fragments mention are used. -/
def usesOf (fragments : List Fragment) : List CEvent :=
  (namesOf fragments).map .use

/-- A way through statements: what happens on it, and what it hands back unless it goes on behind them. -/
inductive Way : List CStmt → List CEvent → Option CExpr → Prop where
  | done : Way [] [] none
  | expr {e rest events result} : Way rest events result → Way (.expr e :: rest) (usesOf e.fragments ++ events) result
  | assign {stores rest events result} : Way rest events result →
      Way (.assign stores :: rest) (usesOf (stores.flatMap CStore.fragments) ++ events) result
  | giveBack {frees e rest} : Way (.giveBack frees e :: rest) (frees.map .free ++ usesOf e.fragments) (some e)
  | pass {test body rest events result} : Way rest events result →
      Way (.condition test body :: rest) (usesOf test.fragments ++ events) result
  | enter {test body rest events result} : Way (body ++ rest) events result →
      Way (.condition test body :: rest) (usesOf test.fragments ++ events) result
  | leave {test body rest events result} : Way rest events result →
      Way (.loop test body :: rest) (usesOf test.fragments ++ events) result
  | again {test body rest events result} : Way (body ++ .loop test body :: rest) events result →
      Way (.loop test body :: rest) (usesOf test.fragments ++ events) result

/-- A way through the content of a scope. At the end of the scope its fields are freed. -/
inductive CBlock.Way (b : CBlock) : List CEvent → Option CExpr → Prop where
  | done {events} : Code.Way b.body events none → CBlock.Way b (events ++ b.frees.map .free) none
  | back {events e} : Code.Way b.body events (some e) → CBlock.Way b events (some e)

/-- Every return inside a statement frees some fields. -/
inductive CStmt.Releases (names : List String) : CStmt → Prop where
  | expr {e} : Releases names (.expr e)
  | assign {stores} : Releases names (.assign stores)
  | giveBack {e} : Releases names (.giveBack names e)
  | condition {test body} : (∀ s ∈ body, Releases names s) → Releases names (.condition test body)
  | loop {test body} : (∀ s ∈ body, Releases names s) → Releases names (.loop test body)

variable {names : List String} {events : List CEvent} {result : Option CExpr} {x : String}

theorem free_not_mem_usesOf (fragments : List Fragment) : CEvent.free x ∉ usesOf fragments := by
  simp [usesOf]

theorem use_mem_usesOf {fragments : List Fragment} : CEvent.use x ∈ usesOf fragments ↔ x ∈ namesOf fragments := by
  simp [usesOf]

/-- Nothing is freed before the end. -/
def EndsWith (events ending : List CEvent) : Prop :=
  ∃ before, (∀ x, .free x ∉ before) ∧ events = before ++ ending

theorem EndsWith.self (ending : List CEvent) : EndsWith ending ending :=
  ⟨[], fun _ => not_mem_nil, rfl⟩

theorem EndsWith.uses {ending : List CEvent} (h : EndsWith events ending) (fragments : List Fragment) :
    EndsWith (usesOf fragments ++ events) ending := by
  obtain ⟨before, hfree, rfl⟩ := h
  refine ⟨usesOf fragments ++ before, fun x hx => ?_, (append_assoc ..).symm⟩
  exact (mem_append.1 hx).elim (free_not_mem_usesOf fragments) (hfree x)

def ending (names : List String) : Option CExpr → List CEvent
  | none => []
  | some e => names.map .free ++ usesOf e.fragments

/-- On a way through statements nothing is freed but by the return at its end. -/
theorem Way.endsWith {stmts : List CStmt} (h : Way stmts events result) (hs : ∀ s ∈ stmts, s.Releases names) :
    EndsWith events (ending names result) := by
  induction h with
  | done => exact .self _
  | expr _ ih | assign _ ih | pass _ ih | leave _ ih => exact (ih (forall_mem_cons.1 hs).2).uses _
  | giveBack =>
    cases (forall_mem_cons.1 hs).1
    exact .self _
  | enter _ ih =>
    obtain ⟨hcondition, hrest⟩ := forall_mem_cons.1 hs
    cases hcondition with
    | condition hbody => exact (ih (forall_mem_append.2 ⟨hbody, hrest⟩)).uses _
  | again _ ih =>
    cases (forall_mem_cons.1 hs).1 with
    | loop hbody => exact (ih (forall_mem_append.2 ⟨hbody, hs⟩)).uses _

/-- On a way through a scope its fields are freed after everything but the value that is handed back. -/
theorem CBlock.Way.endsWith {b : CBlock} (h : b.Way events result) (hb : ∀ s ∈ b.body, s.Releases b.frees) :
    EndsWith events (b.frees.map .free ++ result.elim [] fun e => usesOf e.fragments) := by
  cases h with
  | done h =>
    obtain ⟨before, hfree, rfl⟩ := h.endsWith hb
    exact ⟨before, hfree, by simp [ending]⟩
  | back h => exact h.endsWith hb

/-- Fields that are freed one after another at the end are freed once, with nothing but what comes then behind it. -/
theorem EndsWith.count_free {fields : List String} {rest : List CEvent}
    (h : EndsWith events (fields.map .free ++ rest)) (hnodup : fields.Nodup) (hx : x ∈ fields) (hrest : .free x ∉ rest) :
    events.count (.free x) = 1 ∧
      ∀ before after, events = before ++ .free x :: after → (.use x ∈ after ↔ .use x ∈ rest) := by
  obtain ⟨start, hstart, rfl⟩ := h
  obtain ⟨first, last, rfl⟩ := append_of_mem hx
  obtain ⟨-, hlast, hdisjoint⟩ := nodup_append.1 hnodup
  have hfirst : x ∉ first := fun hmem => hdisjoint x hmem x mem_cons_self rfl
  have hbefore : CEvent.free x ∉ start ++ first.map .free := by simp [hstart, hfirst]
  have hafter : CEvent.free x ∉ last.map .free ++ rest := by simp [(nodup_cons.1 hlast).1, hrest]
  have hevents : start ++ ((first ++ x :: last).map .free ++ rest) =
      (start ++ first.map .free) ++ .free x :: (last.map .free ++ rest) := by simp
  rw [hevents]
  refine ⟨?_, fun before after heq => ?_⟩
  · rw [count_append, count_cons_self, count_eq_zero.2 hbefore, count_eq_zero.2 hafter]
  · obtain ⟨-, -, rfl⟩ := (append_cons_inj_of_notMem hbefore hafter).1 heq
    simp

/-! ### Fields of a scope -/

def fieldsOf (locals : List (ValueType × String)) : List String :=
  locals.filterMap fun
    | (.matrix _ _, x) => some x
    | _ => none

theorem mem_fieldsOf {locals : List (ValueType × String)} :
    x ∈ fieldsOf locals ↔ ∃ item index, (.matrix item index, x) ∈ locals := by
  rw [fieldsOf, mem_filterMap]
  constructor
  · rintro ⟨⟨type, y⟩, hmem, heq⟩
    cases type with
    | matrix item index =>
      cases heq
      exact ⟨item, index, hmem⟩
    | _ => cases heq
  · rintro ⟨item, index, hmem⟩
    exact ⟨_, hmem, rfl⟩

theorem fieldsOf_sublist (locals : List (ValueType × String)) : (fieldsOf locals).Sublist (locals.map Prod.snd) := by
  induction locals with
  | nil => exact .slnil
  | cons entry locals ih =>
    obtain ⟨type, y⟩ := entry
    cases type with
    | matrix => exact ih.cons_cons y
    | _ => exact ih.cons y

/-- What a scope frees are the fields among its variables. -/
theorem Emission.freesOf_eq (s : Scope) : freesOf s = fieldsOf (variablesOf s) := by
  rw [freesOf, fieldsOf, variablesOf, filterMap_filterMap]
  refine filterMap_congr ?_
  rintro ⟨y, v⟩ -
  cases v <;> cases hparam : s.names.isParam y <;> simp [hparam, Value.type, ValueType.isVariable]

/-- The fields among the variables of a scope are freed at its end and by every return. -/
structure CBlock.Frees (b : CBlock) : Prop where
  frees : b.frees = fieldsOf b.locals
  returns : ∀ s ∈ b.body, s.Releases b.frees

/-- A statement frees the fields of its scope at every return, and so do the functions inside it. -/
theorem Emission.FormsStmt.releases {lines : Array String} {s : Scope} {n : Node} {stmt : CStmt} {fs : List CFunction}
    (h : FormsStmt lines s n stmt fs) : stmt.Releases (freesOf s) ∧ ∀ f ∈ fs, f.block.Frees := by
  induction h with
  | expr => exact ⟨.expr, forall_mem_nil _⟩
  | assign | field => exact ⟨.assign, forall_mem_nil _⟩
  | function _ _ ih =>
    refine ⟨.assign, forall_mem_append.2 ⟨forall_mem_flatMap.2 fun r hr => (ih r hr).2, ?_⟩⟩
    exact forall_mem_singleton.2 ⟨freesOf_eq _, forall_mem_map.2 fun r hr => (ih r hr).1⟩
  | giveBack => exact ⟨.giveBack, forall_mem_nil _⟩
  | condition _ _ ih =>
    exact ⟨.condition (forall_mem_map.2 fun r hr => (ih r hr).1),
      forall_mem_flatMap.2 fun r hr => (ih r hr).2⟩
  | loop _ _ ih =>
    exact ⟨.loop (forall_mem_map.2 fun r hr => (ih r hr).1), forall_mem_flatMap.2 fun r hr => (ih r hr).2⟩

/-! ### Compiled programs -/

/-- The C functions of an emitted program free their fields. -/
theorem emit_frees {text : String} {m : Module} {p : CProgram} {s s' : Session} (hm : ∀ n ∈ m.body, n.IsStmt)
    (h : Yields (emit text m) s p s') : ∀ f ∈ p.functions, f.block.Frees := by
  obtain ⟨rs, -, hrs, rfl⟩ := emit_forms hm h
  exact forall_mem_flatMap.2 fun r hr => (hrs r hr).releases.2

/-- The variables of the C functions of an emitted program have names of their own. -/
theorem CProgram.Emits.nodup_locals {p : CProgram} {m : Module} {S : List Scope} (h : p.Emits m) (hm : m.Checked S) :
    ∀ f ∈ p.functions, (f.block.locals.map Prod.snd).Nodup := by
  intro f hf
  obtain ⟨k, hk⟩ := getElem?_of_mem hf
  have hrel := rel_getElem? (h.functions (m.scope :: S)) k
  rw [hk] at hrel
  cases hu : (Node.unitsIn (m.scope :: S) m.body)[k]? with
  | none =>
    rw [hu] at hrel
    cases hrel
  | some u =>
    rw [hu] at hrel
    obtain ⟨n, hn, hmem⟩ := Node.mem_unitsIn.1 (mem_of_getElem? hu)
    cases hrel with
    | some hemitted =>
      rw [hemitted.locals]
      exact nodup_variablesOf ((hm.body n hn).units u hmem).houses.nodup

/-- On every way through a C function of a compiled program each field among its variables is freed once, and it is
used after that if and only if the value that is handed back mentions it. -/
theorem compile_frees {text file : String} {s : Session} {p : CProgram} {a' : Analysis}
    (h : Yields (compile text file) { session := s } p a') :
    ∀ f ∈ p.functions, ∀ events result, f.block.Way events result →
      ∀ item index x, (.matrix item index, x) ∈ f.block.locals → events.count (.free x) = 1 ∧
        ∀ before after, events = before ++ .free x :: after →
          (.use x ∈ after ↔ ∃ e, result = some e ∧ x ∈ namesOf e.fragments) := by
  intro f hf events result hway item index x hx
  simp only [compile, yields_bind, yields_inSession] at h
  obtain ⟨m, a'', hanalysis, _, hemit, _⟩ := h
  have hm := Analysis.ofText_checked hanalysis
  have hstmts : ∀ n ∈ m.body, n.IsStmt := fun n hn => (hm.body n hn).isStmt
  have hfrees := emit_frees hstmts hemit f hf
  have hnodup : f.block.frees.Nodup := by
    rw [hfrees.frees]
    exact ((emit_emits hstmts hemit).nodup_locals hm f hf).sublist (fieldsOf_sublist _)
  have hmem : x ∈ f.block.frees := by
    rw [hfrees.frees]
    exact mem_fieldsOf.2 ⟨item, index, hx⟩
  have hends := (hway.endsWith hfrees.returns).count_free hnodup hmem
  cases result with
  | none => simpa using hends not_mem_nil
  | some e => simpa [use_mem_usesOf] using hends (free_not_mem_usesOf e.fragments)

/-- A function that hands an element of its field back. -/
def elementText : String := "tiny k begin field tiny tiny m << 1, return m[0 0]. end."

/-- Whether a program is a function that frees its only field and hands back a value read from that field alone. -/
def CProgram.handsElementBack (p : CProgram) (name : String) : Bool :=
  match p.functions with
  | [⟨_, ⟨[(.matrix _ _, x)], [.assign _, .giveBack [y] e], _⟩⟩] =>
    x == name && y == name && namesOf e.fragments == [name]
  | _ => false

set_option maxRecDepth 10000 in
theorem compile_frees_element : ∃ p a' f before after e, Yields (compile elementText "") {} p a' ∧ f ∈ p.functions ∧
    f.block.Way (before ++ .free "m" :: after) (some e) ∧ (before ++ .free "m" :: after).count (.free "m") = 1 ∧
    .use "m" ∈ after := by
  have hgives : gives (compile elementText "") {} (fun p _ => p.handsElementBack "m") = true := by decide +kernel
  obtain ⟨p, a', hrun, hshape⟩ := yields_of_gives hgives
  rw [CProgram.handsElementBack] at hshape
  split at hshape
  · next head item index x stores y e frees hfunctions =>
    simp only [Bool.and_eq_true, beq_iff_eq] at hshape
    obtain ⟨⟨rfl, rfl⟩, hnames⟩ := hshape
    have hf := hfunctions ▸ mem_singleton_self _
    have hway := CBlock.Way.back (b := ⟨[(.matrix item index, "m")], [.assign stores, .giveBack ["m"] e], frees⟩)
      (.assign .giveBack)
    have hfrees := compile_frees (s := {}) hrun _ hf _ _ hway item index "m" mem_cons_self
    refine ⟨p, a', _, _, _, e, hrun, hf, hway, hfrees.1, ?_⟩
    exact (hfrees.2 _ _ rfl).2 ⟨e, rfl, hnames ▸ mem_cons_self⟩
  · cases hshape

end Code

end Labyrinth
