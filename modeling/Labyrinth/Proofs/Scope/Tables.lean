import Labyrinth.Proofs.Task
import Labyrinth.Scope.Basic

/-!
# Tables and bindings

What tables of names and lists of bound values answer after a declaration or a binding. A table marks as parameters
exactly what a function takes, whatever its body declares; a name that is bound again keeps its place and its type.
-/

namespace Labyrinth

open List Labyrinth.Task

theorem lookup_cons_ite {β : Type} (key name : String) (b : β) (entries : List (String × β)) :
    ((key, b) :: entries).lookup name = if name = key then some b else entries.lookup name := by
  rw [lookup_cons]
  split
  · next h => rw [if_pos (beq_iff_eq.1 h)]
  · next h => rw [if_neg (beq_eq_false_iff_ne.1 h)]

/-! ### Statements of one level -/

section Level

variable {ς : Type}

/-- The names that a statement declares by itself. -/
def Stmt.ownNames : Stmt ς → List String
  | .declareNumber _ _ names _ => names.map NameNode.value
  | .declareField _ _ _ names _ => names.map NameNode.value
  | .function _ _ name _ _ => [name]
  | _ => []

/-- A statement stands among others or, at any depth, in the body of a loop or a check among them. What is inside a
function stands on a level of its own. -/
inductive Stmt.Stands (s : Stmt ς) : List (Stmt ς) → Prop where
  | here {ss} : s ∈ ss → Stands s ss
  | loop {span test body ss} : .loop span test body ∈ ss → Stands s body → Stands s ss
  | check {span test body ss} : .check span test body ∈ ss → Stands s body → Stands s ss

mutual

/-- A statement with the statements of its level inside it, in the order of the text. -/
def Stmt.level : Stmt ς → List (Stmt ς)
  | .loop span test body => .loop span test body :: levelOf body
  | .check span test body => .check span test body :: levelOf body
  | s => [s]

/-- The statements of a level, in the order of the text. -/
def Stmt.levelOf : List (Stmt ς) → List (Stmt ς)
  | [] => []
  | s :: ss => s.level ++ levelOf ss

end

namespace Stmt

theorem mem_level_self (s : Stmt ς) : s ∈ s.level := by
  cases s <;> simp [level]

variable {s : Stmt ς} {ss : List (Stmt ς)}

theorem level_subset_levelOf (h : s ∈ ss) : s.level ⊆ levelOf ss := by
  induction ss with
  | nil => cases h
  | cons first ss ih =>
    rcases mem_cons.1 h with rfl | h
    · exact subset_append_left _ _
    · exact List.Subset.trans (ih h) (subset_append_right _ _)

theorem Stands.mem_levelOf (h : s.Stands ss) : s ∈ levelOf ss := by
  induction h with
  | here hs => exact level_subset_levelOf hs (mem_level_self s)
  | loop hs _ ih | check hs _ ih => exact level_subset_levelOf hs (by simp [level, ih])

theorem Stands.mono {ss' : List (Stmt ς)} (h : s.Stands ss) (hss : ss ⊆ ss') : s.Stands ss' := by
  cases h with
  | here hs => exact .here (hss hs)
  | loop hs h => exact .loop (hss hs) h
  | check hs h => exact .check (hss hs) h

mutual

theorem stands_of_mem_level {s : Stmt ς} (t : Stmt ς) (h : s ∈ t.level) : s.Stands [t] := by
  cases t with
  | loop span test body =>
    rcases mem_cons.1 h with rfl | h
    · exact .here mem_cons_self
    · exact .loop mem_cons_self (stands_of_mem_levelOf body h)
  | check span test body =>
    rcases mem_cons.1 h with rfl | h
    · exact .here mem_cons_self
    · exact .check mem_cons_self (stands_of_mem_levelOf body h)
  | expr | declareNumber | declareField | function | giveBack => exact .here h

theorem stands_of_mem_levelOf {s : Stmt ς} (ss : List (Stmt ς)) (h : s ∈ levelOf ss) : s.Stands ss := by
  cases ss with
  | nil => cases h
  | cons t ss =>
    rcases mem_append.1 h with h | h
    · exact (stands_of_mem_level t h).mono (cons_subset_cons _ (nil_subset _))
    · exact (stands_of_mem_levelOf ss h).mono (subset_cons_self _ _)

end

end Stmt

end Level

/-! ### Tables of names -/

namespace NameTable

variable {ς : Type} {t : NameTable} {args xs : List String}
variable {name : String} {body : List (Stmt ς)}

theorem declares_iff_isSome_lookup : t.declares name = true ↔ (t.entries.lookup name).isSome = true := by
  rw [declares, lookup_isSome_iff, any_eq_true]
  exact exists_congr fun entry => and_congr_right fun _ => by rw [beq_iff_eq, beq_iff_eq, eq_comm]

theorem declares_of_isParam (h : t.isParam name = true) : t.declares name = true := by
  rw [isParam, beq_iff_eq] at h
  rw [declares_iff_isSome_lookup, h]
  rfl

/-- A table lists names, each where it occurs first, and marks those that are arguments. -/
def Lists (t : NameTable) (args xs : List String) : Prop :=
  t.entries = xs.eraseDups.map fun name => (name, decide (name ∈ args))

theorem Lists.declares_iff (h : t.Lists args xs) : t.declares name = true ↔ name ∈ xs := by
  rw [declares, h]
  simp

theorem eraseDups_append_singleton (xs : List String) (name : String) :
    (xs ++ [name]).eraseDups = xs.eraseDups ++ if name ∈ xs then [] else [name] := by
  rw [eraseDups_append]
  by_cases h : name ∈ xs <;> simp [removeAll, h, eraseDups_cons]

theorem Lists.declare (h : t.Lists args xs) (hargs : args ⊆ xs) (name : String) :
    (t.declare name).Lists args (xs ++ [name]) := by
  rw [Lists, eraseDups_append_singleton, map_append, ← h, NameTable.declare]
  by_cases hname : name ∈ xs
  · rw [if_pos (h.declares_iff.2 hname), if_pos hname, map_nil, append_nil]
  · rw [if_neg (mt h.declares_iff.1 hname), if_neg hname]
    simp [mt (@hargs name) hname]

theorem Lists.declareAll (h : t.Lists args xs) (hargs : args ⊆ xs) (names : List NameNode) :
    (t.declareAll names).Lists args (xs ++ names.map NameNode.value) := by
  induction names generalizing t xs with
  | nil => rwa [map_nil, append_nil]
  | cons name names ih =>
    rw [map_cons, append_cons]
    exact ih (h.declare hargs name.value) (List.Subset.trans hargs (subset_append_left _ _))

/-- Among arguments every name is marked. -/
theorem Lists.declareParam (h : t.Lists xs xs) (name : String) :
    (t.declareParam name).Lists (xs ++ [name]) (xs ++ [name]) := by
  have hdeclared : (t.declare name).entries = _ := h.declare (List.Subset.refl _) name
  rw [Lists, NameTable.declareParam, hdeclared, map_map]
  refine map_congr_left fun other hother => ?_
  have hmem : other ∈ xs ++ [name] := mem_eraseDups.1 hother
  by_cases hname : other = name
  · simp [hname]
  · have hxs : other ∈ xs := by simpa [hname] using hmem
    simp [hname, hxs]

theorem lists_params (params : List ParamNode) (h : t.Lists xs xs) :
    (params.foldl (fun t p => t.declareParam p.name.value) t).Lists (xs ++ params.map fun p => p.name.value)
      (xs ++ params.map fun p => p.name.value) := by
  induction params generalizing t xs with
  | nil => rwa [map_nil, append_nil]
  | cons p params ih =>
    rw [map_cons, append_cons]
    exact ih (h.declareParam p.name.value)

mutual

/-- A statement adds the names of its level. -/
theorem Lists.addStmt {t : NameTable} {xs : List String} (s : Stmt ς) (h : t.Lists args xs) (hargs : args ⊆ xs) :
    (addStmt t s).Lists args (xs ++ s.level.flatMap Stmt.ownNames) := by
  cases s with
  | declareNumber span type names value | declareField span element size names value =>
    simpa [NameTable.addStmt, Stmt.level, Stmt.ownNames] using h.declareAll hargs names
  | function span returns name params body => simpa [NameTable.addStmt, Stmt.level, Stmt.ownNames] using h.declare hargs name
  | loop span test body | check span test body =>
    simpa [NameTable.addStmt, Stmt.level, Stmt.ownNames] using Lists.addStmts body h hargs
  | expr span e | giveBack span e => simpa [NameTable.addStmt, Stmt.level, Stmt.ownNames] using h

theorem Lists.addStmts {t : NameTable} {xs : List String} (ss : List (Stmt ς)) (h : t.Lists args xs)
    (hargs : args ⊆ xs) :
    (addStmts t ss).Lists args (xs ++ (Stmt.levelOf ss).flatMap Stmt.ownNames) := by
  cases ss with
  | nil => simpa [NameTable.addStmts, Stmt.levelOf] using h
  | cons s ss =>
    rw [Stmt.levelOf, flatMap_append, ← append_assoc]
    exact Lists.addStmts ss (Lists.addStmt s h hargs) (List.Subset.trans hargs (subset_append_left _ _))

end

theorem lists_nil : Lists {} [] [] := rfl

/-- The table of a function lists its arguments and then the names of its body. -/
theorem lists_ofFunction (params : List ParamNode) (body : List (Stmt ς)) :
    (ofFunction params body).Lists (params.map fun p => p.name.value)
      ((params.map fun p => p.name.value) ++ (Stmt.levelOf body).flatMap Stmt.ownNames) :=
  Lists.addStmts body (lists_params params lists_nil) (List.Subset.refl _)

theorem lists_ofProgram (p : Program ς) : (ofProgram p).Lists [] ((Stmt.levelOf p.body).flatMap Stmt.ownNames) :=
  Lists.addStmts p.body lists_nil (List.Subset.refl _)

theorem Lists.isParam_iff (h : t.Lists args xs) (hargs : args ⊆ xs) (name : String) :
    t.isParam name = true ↔ name ∈ args := by
  have hlookup : ∀ names : List String, (names.map fun name => (name, decide (name ∈ args))).lookup name =
      if name ∈ names then some (decide (name ∈ args)) else none := by
    intro names
    induction names with
    | nil => rfl
    | cons first names ih =>
      rw [map_cons, lookup_cons_ite, ih]
      by_cases hfirst : name = first <;> simp [hfirst]
  rw [isParam, h, hlookup]
  by_cases hname : name ∈ args
  · simp [hargs hname, hname]
  · simp [hname]

/-- What a table holds for arguments and a body: the arguments, and what declarations and functions on the level of
the body are called, in the order of their first places in the text, with a mark on the arguments. -/
structure Describes (t : NameTable) (args : List String) (body : List (Stmt ς)) : Prop where
  names : ∀ name, t.declares name = true ↔ name ∈ args ∨ ∃ s : Stmt ς, s.Stands body ∧ name ∈ s.ownNames
  order : t.entries.map Prod.fst = (args ++ (Stmt.levelOf body).flatMap Stmt.ownNames).eraseDups
  marks : ∀ entry ∈ t.entries, entry.2 = true ↔ entry.1 ∈ args

theorem Lists.describes (h : t.Lists args (args ++ (Stmt.levelOf body).flatMap Stmt.ownNames)) :
    t.Describes args body where
  names name := by
    rw [h.declares_iff, mem_append, mem_flatMap]
    exact or_congr_right (exists_congr fun s => and_congr_left fun _ =>
      ⟨Stmt.stands_of_mem_levelOf body, Stmt.Stands.mem_levelOf⟩)
  order := by
    rw [h, map_map]
    exact map_id _
  marks entry hentry := by
    rw [h] at hentry
    obtain ⟨name, -, rfl⟩ := mem_map.1 hentry
    exact decide_eq_true_iff

/-- The tables of functions and programs hold what is declared on their own level, and nothing else. -/
theorem tables_describe :
    (∀ (params : List ParamNode) (body : List (Stmt ς)),
      (ofFunction params body).Describes (params.map fun p => p.name.value) body) ∧
    ∀ p : Program ς, (ofProgram p).Describes [] p.body :=
  ⟨fun params body => (lists_ofFunction params body).describes, fun p => (lists_ofProgram p).describes⟩

/-- The table of a function marks what the function takes. -/
theorem isParam_ofFunction {params : List ParamNode} :
    (ofFunction params body).isParam name = true ↔ name ∈ params.map fun p => p.name.value :=
  (lists_ofFunction params body).isParam_iff (subset_append_left _ _) name

theorem declares_of_depth? {tables : List NameTable} {place : Nat} (h : depth? name tables = some place) :
    ∃ t, tables[place]? = some t ∧ t.declares name = true := by
  induction tables generalizing place with
  | nil => cases h
  | cons t outer ih =>
    rw [depth?] at h
    split at h
    · next ht =>
      cases h
      exact ⟨t, rfl, ht⟩
    · obtain ⟨outerPlace, houter, rfl⟩ := Option.map_eq_some_iff.1 h
      exact ih houter

end NameTable

/-! ### Bound values -/

namespace Scope

variable {values : List (String × Value)} {name other : String} {value : Value}

theorem lookup_putValue (values : List (String × Value)) (name other : String) (value : Value) :
    (putValue values name value).lookup other = if other = name then some value else values.lookup other := by
  induction values with
  | nil => rw [putValue, lookup_cons_ite]
  | cons entry values ih =>
    obtain ⟨key, old⟩ := entry
    rw [putValue]
    split
    · next h =>
      dsimp only at h
      subst h
      rw [lookup_cons_ite, lookup_cons_ite]
      split <;> rfl
    · next h =>
      rw [lookup_cons_ite, lookup_cons_ite, ih]
      by_cases hother : other = key
      · subst hother
        simp [show ¬other = name from h]
      · simp [hother]

theorem mem_putValue {entry : String × Value} (h : entry ∈ putValue values name value) :
    entry = (name, value) ∨ entry ∈ values := by
  induction values with
  | nil => exact .inl (mem_singleton.1 h)
  | cons first values ih =>
    rw [putValue] at h
    split at h
    · exact (mem_cons.1 h).imp_right (mem_cons_of_mem _)
    · rcases mem_cons.1 h with rfl | h
      · exact .inr mem_cons_self
      · exact (ih h).imp_right (mem_cons_of_mem _)

theorem map_fst_putValue (values : List (String × Value)) (name : String) (value : Value) :
    (putValue values name value).map Prod.fst =
      if name ∈ values.map Prod.fst then values.map Prod.fst else values.map Prod.fst ++ [name] := by
  induction values with
  | nil => simp [putValue]
  | cons entry values ih =>
    rw [putValue]
    split
    · next h => simp [h]
    · next h =>
      rw [map_cons, ih, map_cons]
      by_cases hname : name ∈ values.map Prod.fst
      · rw [if_pos hname, if_pos (mem_cons_of_mem _ hname)]
      · rw [if_neg hname, if_neg fun hcons => (mem_cons.1 hcons).elim (Ne.symm h) hname]
        rfl

theorem mem_map_fst_putValue :
    other ∈ (putValue values name value).map Prod.fst ↔ other = name ∨ other ∈ values.map Prod.fst := by
  rw [map_fst_putValue]
  split
  · next h => exact ⟨.inr, fun h' => h'.elim (fun h' => h' ▸ h) id⟩
  · rw [mem_append, mem_singleton, or_comm]

theorem nodup_putValue (h : (values.map Prod.fst).Nodup) : ((putValue values name value).map Prod.fst).Nodup := by
  rw [map_fst_putValue]
  split
  · exact h
  · next hname => exact nodup_append.2 ⟨h, by simp, by grind⟩

variable {entries : List (String × Value)}

theorem mem_map_fst_byName : name ∈ (byName entries).map Prod.fst ↔ name ∈ entries.map Prod.fst := by
  have hfold : ∀ start : List (String × Value),
      name ∈ (entries.foldl (fun values entry => putValue values entry.1 entry.2) start).map Prod.fst ↔
        name ∈ entries.map Prod.fst ∨ name ∈ start.map Prod.fst := by
    induction entries with
    | nil => simp
    | cons entry entries ih =>
      intro start
      rw [foldl_cons, ih, mem_map_fst_putValue, map_cons, mem_cons, or_left_comm, or_assoc]
  rw [byName, hfold]
  simp

/-- What holds of no values, and still holds when one of some entries is put, holds of these entries by name. -/
theorem byName_induction {P : List (String × Value) → Prop} (hnil : P [])
    (hput : ∀ values, P values → ∀ entry ∈ entries, P (putValue values entry.1 entry.2)) : P (byName entries) := by
  have hfold : ∀ start, P start → P (entries.foldl (fun values entry => putValue values entry.1 entry.2) start) := by
    induction entries with
    | nil => exact fun _ h => h
    | cons entry entries ih =>
      exact fun start hstart => ih (fun values hvalues e he => hput values hvalues e (mem_cons_of_mem _ he)) _
        (hput start hstart entry mem_cons_self)
  exact hfold [] hnil

end Scope

/-! ### Frames during evaluation -/

theorem Value.convertTo_type {value other converted : Value} (h : value.convertTo other = some converted) :
    converted.type = other.type := by
  unfold convertTo at h
  split at h
  · next htype => exact Option.some.inj h ▸ htype.symm
  · next htype =>
    split at h
    · exact Option.some.inj h ▸ htype.symm
    · cases h
  · next htype => exact Option.some.inj h ▸ htype.symm
  · next htype => exact Option.some.inj h ▸ htype.symm
  · cases h

/-- A scope has become another one: it has the same table, and what was bound is bound to a value of its type. -/
structure Scope.Grows (s s' : Scope) : Prop where
  names : s'.names = s.names
  value : ∀ x v, s.value? x = some v → ∃ v', s'.value? x = some v' ∧ v'.type = v.type

namespace Scope

theorem Grows.refl (s : Scope) : s.Grows s :=
  ⟨rfl, fun _ v h => ⟨v, h, rfl⟩⟩

variable {s s' : Scope} {name : String} {value : Value}

theorem Grows.trans {t u : Scope} (h : s.Grows t) (h' : t.Grows u) : s.Grows u := by
  refine ⟨h'.names.trans h.names, fun x v hv => ?_⟩
  obtain ⟨v', hv', htype⟩ := h.value x v hv
  obtain ⟨v'', hv'', htype'⟩ := h'.value x v' hv'
  exact ⟨v'', hv'', htype'.trans htype⟩

/-- Binding a name puts its value in place of the one it has, converted to the type of that one. -/
theorem bind_eq_ok (h : s.bind name value = .ok s') :
    ∃ v, s' = { s with values := putValue s.values name v } ∧ (s.value? name = none ∧ v = value ∨
      ∃ old, s.value? name = some old ∧ value.convertTo old = some v) := by
  unfold bind at h
  split at h
  · next hnone =>
    cases h
    exact ⟨value, rfl, .inl ⟨hnone, rfl⟩⟩
  · next old hold =>
    split at h
    · next converted hconverted =>
      cases h
      exact ⟨converted, rfl, .inr ⟨old, hold, hconverted⟩⟩
    · cases h

theorem value?_putValue (s : Scope) (name other : String) (value : Value) :
    value? { s with values := putValue s.values name value } other =
      if other = name then some value else s.value? other :=
  lookup_putValue s.values name other value

theorem bind_grows (h : s.bind name value = .ok s') : s.Grows s' := by
  obtain ⟨w, rfl, hw⟩ := bind_eq_ok h
  refine ⟨rfl, fun x v hv => ?_⟩
  rw [value?_putValue]
  by_cases hx : x = name
  · subst hx
    rcases hw with ⟨hnone, -⟩ | ⟨old, hold, hconverted⟩
    · cases hnone.symm.trans hv
    · cases hold.symm.trans hv
      exact ⟨w, if_pos rfl, Value.convertTo_type hconverted⟩
  · exact ⟨v, (if_neg hx).trans hv, rfl⟩

end Scope

/-- Scopes have become others, each of them by binding names. -/
def Scope.Grow (S S' : List Scope) : Prop :=
  S'.length = S.length ∧ ∀ (i : Nat) (s : Scope), S[i]? = some s → ∃ s', S'[i]? = some s' ∧ s.Grows s'

namespace Scope

theorem Grow.refl (S : List Scope) : Grow S S :=
  ⟨rfl, fun _ s h => ⟨s, h, .refl _⟩⟩

variable {S T : List Scope} {s : Scope}

theorem Grow.trans {U : List Scope} (h : Grow S T) (h' : Grow T U) : Grow S U := by
  refine ⟨h'.1.trans h.1, fun i s hs => ?_⟩
  obtain ⟨t, ht, hgrows⟩ := h.2 i s hs
  obtain ⟨u, hu, hgrows'⟩ := h'.2 i t ht
  exact ⟨u, hu, hgrows.trans hgrows'⟩

theorem Grow.cons {s t : Scope} {S T : List Scope} (h : s.Grows t) (h' : Grow S T) : Grow (s :: S) (t :: T) := by
  refine ⟨congrArg (· + 1) h'.1, fun i u hu => ?_⟩
  cases i with
  | zero =>
    cases hu
    exact ⟨t, rfl, h⟩
  | succ i => exact h'.2 i u hu

theorem Grow.of_cons (h : Grow (s :: S) T) : ∃ t T', T = t :: T' ∧ s.Grows t ∧ Grow S T' := by
  cases T with
  | nil => cases h.1
  | cons t T' =>
    obtain ⟨_, ht, hgrows⟩ := h.2 0 s rfl
    cases ht
    exact ⟨t, T', rfl, hgrows, Nat.succ.inj h.1, fun i => h.2 (i + 1)⟩

theorem Grow.names (h : Grow S T) : T.map Scope.names = S.map Scope.names := by
  induction S generalizing T with
  | nil => rw [length_eq_zero_iff.1 h.1]
  | cons s S ih =>
    obtain ⟨t, T', rfl, hgrows, h⟩ := h.of_cons
    rw [map_cons, map_cons, ih h, hgrows.names]

/-- A binding in one of some scopes. -/
theorem Grow.set {place : Nat} {s' : Scope} (hs : S[place]? = some s) (h : s.Grows s') : Grow S (S.set place s') := by
  refine ⟨length_set, fun i t ht => ?_⟩
  by_cases hi : place = i
  · subst hi
    cases hs.symm.trans ht
    exact ⟨s', getElem?_set_self (List.getElem?_eq_some_iff.1 hs).1, h⟩
  · exact ⟨t, by rw [getElem?_set_ne hi, ht], .refl _⟩

end Scope

end Labyrinth
