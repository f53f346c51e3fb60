import Labyrinth.Proofs.Code.Origins

/-!
# What identifiers stand for

Names of a program are looked up in scopes around each other. Emitted code has only two levels: the variables and
parameters of a C function, and what stands at file scope before. So a name keeps its meaning if it is a variable of
the scope that it is used in, and stands for nothing if it comes from further out. A call reaches the function that is
meant if no other function has its name and it is not the entry, which is defined under a name of its own.
-/

namespace Labyrinth

open List Labyrinth.Task

namespace Code

/-! ### The rules of C -/

/-- What stands at file scope in an emitted program. -/
inductive FileItem where
  | function (f : CFunction)
  /-- A variable of the whole file. -/
  | global (type : ValueType) (name : String)
  /-- Statements outside of functions. -/
  | code (block : CBlock)
deriving Inhabited

namespace FileItem

def parts : FileItem → List String
  | function f => f.parts
  | global type name => [typeName type, variableName name, " = 0;;"]
  | code block => stmtParts block.body ++ freeParts block.frees

/-- The variables with a scope inside. -/
def inner : FileItem → List String
  | function f => f.head.params.map Prod.snd ++ f.block.locals.map Prod.snd
  | _ => []

/-- Whether a variable of the whole file has a name. -/
def declares (x : String) : FileItem → Bool
  | global _ name => name == x
  | _ => false

end FileItem

/-- What stands at file scope after the prototypes, in order. -/
def CProgram.items (p : CProgram) : List FileItem :=
  p.functions.map .function ++ (p.block.locals.map fun (type, name) => .global type name) ++ [.code p.block]

def CProgram.codePlace (p : CProgram) : Nat :=
  p.functions.length + p.block.locals.length

/-- The item that holds the variable that a name stands for inside an item: that item, or else the first one before it
that declares the name for the whole file. -/
def CProgram.holder? (p : CProgram) (place : Nat) (x : String) : Option Nat :=
  if x ∈ (p.items[place]?.map FileItem.inner).getD [] then some place
  else (p.items.take place).findIdx? (FileItem.declares x)

/-- Where a function is defined: in the frame around a program, or by an item of it. -/
inductive Origin where
  | frame
  | item (place : Nat)
deriving DecidableEq

/-- Whether the frame around a program defines a C function. -/
def frameDefines (c : String) : Bool :=
  [NumberKind.tiny, .small].any fun kind =>
    middleLines.contains (typeName (.int ⟨kind, .unsigned⟩) ++ " " ++ c ++ "() \x7b")

/-- A C function of a name is defined somewhere. -/
def CProgram.Defines (p : CProgram) (c : String) : Origin → Prop
  | .frame => frameDefines c = true
  | .item place => ∃ f, p.items[place]? = some (.function f) ∧ definitionName f.head.name = c

/-- A C identifier stands for a function: it is defined there and nowhere else. The frame and the prototypes come first,
so the place of a call does not matter. -/
def CProgram.StandsFor (p : CProgram) (c : String) (o : Origin) : Prop :=
  p.Defines c o ∧ ∀ o', p.Defines c o' → o' = o

/-- How a call of a function begins in C. -/
def headOf : Value → Option String
  | .function _ .print _ _ _ => some "printf("
  | .function _ .assert _ _ _ => some "slabes_assert("
  | .function _ _ x _ _ => some (functionName x)
  | _ => none

/-- What a variable stands for in an item of a program, where the item has been emitted for code under some scopes: if
it is a variable of the innermost scope, for the one that has been emitted for it, and otherwise for nothing. -/
def CProgram.Binds (p : CProgram) (place : Nat) (S : List Scope) (own : Nat → Prop) (x : String) : Prop :=
  ∃ s v, S[Scope.origin S x]? = some s ∧ s.value? x = some v ∧
    if Scope.origin S x = 0 ∧ v.type.isVariable = true then ∃ j, p.holder? place x = some j ∧ own j
    else p.holder? place x = none

/-- What the beginning of a call stands for, where a call in some code under some scopes begins like that. A function of the program is reached if and only if it is
not the entry and no other function has its name, in the program or in the frame. A function that the language brings
along is reached if and only if no function of the program has its name. -/
def CProgram.Reaches (p : CProgram) (units : List FunctionUnit) (S : List Scope) (body : List Node) (head : String) :
    Prop :=
  ∃ info operand args times v, (.call info operand args, times) ∈ Node.callsIn 1 body ∧ Node.Callee S operand v ∧
    headOf v = some head ∧
    ((∃ k u, units[k]? = some u ∧ u.value = v ∧ (p.StandsFor head (.item k) ↔ u.head.name ≠ entryName ∧
        frameDefines head = false ∧ ∀ j u', units[j]? = some u' → u'.head.name = u.head.name → j = k)) ∨
      v ∈ Value.builtins.map Prod.snd ∧ (head ∈ ["printf(", "slabes_assert("] ∨
        (p.StandsFor head .frame ↔ ∀ u ∈ units, definitionName u.head.name ≠ head)))

/-! ### Items -/

section

variable {p : CProgram} {k : Nat} {f : CFunction} {x : String}

theorem CProgram.items_function : p.items[k]? = some (.function f) ↔ p.functions[k]? = some f := by
  rw [items, append_assoc, getElem?_append, length_map]
  split
  · rw [getElem?_map, Option.map_eq_some_iff]
    simp
  · next hk =>
    rw [getElem?_eq_none (Nat.le_of_not_lt hk)]
    refine iff_of_false (fun h => ?_) nofun
    rcases mem_append.1 (mem_of_getElem? h) with h | h
    · obtain ⟨_, _, h⟩ := mem_map.1 h
      cases h
    · cases mem_singleton.1 h

theorem CProgram.items_global {type : ValueType} (h : p.items[k]? = some (.global type x)) :
    p.functions.length ≤ k ∧ p.block.locals[k - p.functions.length]? = some (type, x) := by
  rw [items, append_assoc, getElem?_append, length_map] at h
  split at h
  · rw [getElem?_map, Option.map_eq_some_iff] at h
    obtain ⟨_, _, h⟩ := h
    cases h
  · next hk =>
    refine ⟨Nat.le_of_not_lt hk, ?_⟩
    rw [getElem?_append] at h
    split at h
    · rw [getElem?_map, Option.map_eq_some_iff] at h
      obtain ⟨⟨_, _⟩, hlocal, h⟩ := h
      cases h
      exact hlocal
    · cases mem_singleton.1 (mem_of_getElem? h)

/-- Inside a function only its own variables have a meaning: at file scope there are only functions before it. -/
theorem CProgram.holder?_function (hf : p.functions[k]? = some f) :
    p.holder? k x = if x ∈ FileItem.inner (.function f) then some k else none := by
  have hitem := items_function.2 hf
  have hk := (List.getElem?_eq_some_iff.1 hf).1
  rw [holder?, hitem, Option.map_some, Option.getD_some]
  congr 1
  refine findIdx?_eq_none_iff.2 fun item hmem => ?_
  rw [items, append_assoc, take_append_of_le_length (by rw [length_map]; omega)] at hmem
  obtain ⟨_, _, rfl⟩ := mem_map.1 (mem_of_mem_take hmem)
  rfl

theorem CProgram.items_codePlace (p : CProgram) : p.items[p.codePlace]? = some (.code p.block) := by
  rw [items, getElem?_append_right (by simp [codePlace])]
  simp [codePlace]

/-- Outside of functions the variables of the whole file have a meaning. -/
theorem CProgram.holder?_code (p : CProgram) (x : String) :
    p.holder? p.codePlace x = (p.items.take p.codePlace).findIdx? (FileItem.declares x) := by
  rw [holder?, items_codePlace]
  exact if_neg not_mem_nil

theorem CProgram.take_codePlace (p : CProgram) : p.items.take p.codePlace =
    p.functions.map .function ++ p.block.locals.map fun (type, name) => .global type name :=
  take_left' (by simp [codePlace])

theorem CProgram.holder?_code_of_not_mem (h : x ∉ p.block.locals.map Prod.snd) :
    p.holder? p.codePlace x = none := by
  rw [holder?_code, take_codePlace, findIdx?_eq_none_iff]
  intro item hitem
  rcases mem_append.1 hitem with hitem | hitem
  · obtain ⟨_, _, rfl⟩ := mem_map.1 hitem
    rfl
  · obtain ⟨⟨type, name⟩, hlocal, rfl⟩ := mem_map.1 hitem
    rw [FileItem.declares, beq_eq_false_iff_ne]
    rintro rfl
    exact h (mem_map_of_mem hlocal)

theorem CProgram.holder?_code_of_mem (h : x ∈ p.block.locals.map Prod.snd) :
    ∃ j, p.holder? p.codePlace x = some j ∧ ∃ type, p.items[j]? = some (.global type x) := by
  rw [holder?_code]
  obtain ⟨⟨type, y⟩, hlocal, hxy⟩ := mem_map.1 h
  cases hxy
  cases hfind : (p.items.take p.codePlace).findIdx? (FileItem.declares y) with
  | none =>
    refine absurd (findIdx?_eq_none_iff.1 hfind (.global type y) ?_) (by simp [FileItem.declares])
    rw [take_codePlace]
    exact mem_append_right _ (mem_map.2 ⟨_, hlocal, rfl⟩)
  | some j =>
    obtain ⟨hj, hdeclares, -⟩ := findIdx?_eq_some_iff_getElem.1 hfind
    have hitem : p.items[j]? = some (p.items.take p.codePlace)[j] := by
      rw [getElem_take, getElem?_eq_getElem]
    refine ⟨j, rfl, ?_⟩
    rw [hitem]
    generalize (p.items.take p.codePlace)[j] = item at hdeclares
    cases item with
    | function | code => cases hdeclares
    | global type' name =>
      cases beq_iff_eq.1 hdeclares
      exact ⟨type', rfl⟩

theorem CProgram.items_global_unique {j : Nat} {type type' : ValueType}
    (hnodup : (p.block.locals.map Prod.snd).Nodup) (h : p.items[k]? = some (.global type x))
    (h' : p.items[j]? = some (.global type' x)) : k = j := by
  obtain ⟨hk, h⟩ := items_global h
  obtain ⟨hj, h'⟩ := items_global h'
  have hlt := (List.getElem?_eq_some_iff.1 h).1
  have hsame := (getElem?_inj (j := j - p.functions.length) (by rwa [length_map]) hnodup).1
    (by rw [getElem?_map, getElem?_map, h, h']; rfl)
  omega

/-- The parts of a program are those of what stands at file scope. -/
theorem CProgram.parts_items (p : CProgram) :
    p.items.flatMap FileItem.parts = p.functions.flatMap CFunction.parts ++ p.block.parts := by
  simp [items, flatMap_append, flatMap_map, FileItem.parts, CBlock.parts]

end

/-! ### Variables -/

section

variable {s : Scope} {x : String}

theorem nodup_variablesOf (h : (s.values.map Prod.fst).Nodup) : ((Emission.variablesOf s).map Prod.snd).Nodup := by
  rw [Emission.map_snd_variablesOf]
  exact h.sublist (filter_sublist.map _)

variable {fns : List Value} {u : FunctionUnit} {f : CFunction}

theorem Emission.Emitted.inner_eq (h : Emission.Emitted u f) : FileItem.inner (.function f) =
    u.head.params.map Prod.fst ++ (Emission.variablesOf u.scope).map Prod.snd := by
  rw [FileItem.inner, h.head, h.locals, Emission.prototypeOf, map_map]
  rfl

/-- The variables of the C function for a function are the variables of its scope. -/
theorem Emission.Emitted.mem_inner (h : Emission.Emitted u f) (hu : u.Checked fns) :
    x ∈ FileItem.inner (.function f) ↔ u.scope.Holds x := by
  rw [h.inner_eq, mem_append, Emission.mem_variablesOf]
  refine ⟨fun hx => hx.elim hu.holds_of_param And.right, fun hx => ?_⟩
  cases hparam : u.scope.names.isParam x with
  | true => exact .inl ((hu.heads.isParam_iff x).1 hparam)
  | false => exact .inr ⟨rfl, hx⟩

/-- A C function declares every variable once. -/
theorem Emission.Emitted.nodup_inner (h : Emission.Emitted u f) (hu : u.Checked fns) :
    (FileItem.inner (.function f)).Nodup := by
  rw [h.inner_eq]
  refine nodup_append.2 ⟨hu.heads.nodup, nodup_variablesOf hu.houses.nodup, ?_⟩
  rintro x hx _ hx' rfl
  have hparam := (hu.heads.isParam_iff x).2 hx
  rw [(Emission.mem_variablesOf.1 hx').1] at hparam
  cases hparam

end

/-! ### Calls -/

theorem definitionName_eq_iff {x y : String} : definitionName x = functionName y ↔ x ≠ entryName ∧ x = y := by
  rw [definitionName]
  split
  · next hx =>
    refine iff_of_false (fun h => ?_) fun h => h.1 hx
    have hlist := congrArg String.toList h
    simp [functionName] at hlist
  · next hx =>
    simp [functionName, hx]

theorem exists_call_of_mem_headsOf {fragments : List Fragment} {calls : List (Node × Nat)} {head : String}
    (hcount : ∀ head, (headsOf fragments).count head = Node.total head calls) (h : head ∈ headsOf fragments) :
    ∃ c ∈ calls, head ∈ c.1.heads := by
  have hpos : 0 < Node.total head calls := hcount head ▸ count_pos_iff.2 h
  clear hcount
  induction calls with
  | nil => cases hpos
  | cons c cs ih =>
    by_cases hc : head ∈ c.1.heads
    · exact ⟨c, mem_cons_self, hc⟩
    · rw [Node.total_cons, count_eq_zero.2 hc, Nat.mul_zero, Nat.zero_add] at hpos
      obtain ⟨c', hc', hhead⟩ := ih hpos
      exact ⟨c', mem_cons_of_mem _ hc', hhead⟩

theorem headOf_of_mem_heads {info : NodeInfo} {operand : Node} {args : List Node} {v : Value} {head : String}
    (hv : operand.info.value = some v) (h : head ∈ Node.heads (.call info operand args)) : headOf v = some head := by
  rw [Node.heads, hv] at h
  cases v with
  | int | matrix | module => cases h
  | function loc kind name params returns =>
    cases kind with
    | assert => rw [eq_of_mem_replicate h]; rfl
    | _ => rw [mem_singleton.1 h]; rfl

/-- A function that the language brings along is printing, an assertion, or a function of the frame. -/
theorem frameDefines_of_mem_builtins {v : Value} {head : String} (hv : v ∈ Value.builtins.map Prod.snd)
    (h : headOf v = some head) : head ∈ ["printf(", "slabes_assert("] ∨ frameDefines head = true := by
  have hall : ∀ v ∈ Value.builtins.map Prod.snd, ∀ head ∈ headOf v,
      head ∈ ["printf(", "slabes_assert("] ∨ frameDefines head = true := by decide +kernel
  exact hall v hv head h

section

variable {p : CProgram} {units : List FunctionUnit} {S : List Scope} {head : String}

theorem rel_getElem? {α β : Type} {R : α → β → Prop} {as : List α} {bs : List β} (h : Forall₂ R as bs) (i : Nat) :
    Option.Rel R as[i]? bs[i]? := by
  induction h generalizing i with
  | nil => exact .none
  | cons hab _ ih =>
    cases i with
    | zero => exact .some hab
    | succ i => exact ih i

/-- A C function is defined under the C name of the function that it is emitted for. -/
theorem CProgram.defines_item (hunits : Forall₂ Emission.Emitted units p.functions) {place : Nat} :
    p.Defines head (.item place) ↔ ∃ u, units[place]? = some u ∧ definitionName u.head.name = head := by
  have hrel := rel_getElem? hunits place
  simp only [Defines, items_function]
  generalize p.functions[place]? = f?, units[place]? = u? at hrel ⊢
  cases hrel with
  | none => simp
  | some hu =>
    have hname : _ = _ := congrArg CPrototype.name hu.head
    simp [hname, Emission.prototypeOf]

theorem CProgram.standsFor_item (hunits : Forall₂ Emission.Emitted units p.functions) {k : Nat} {u : FunctionUnit}
    (hu : units[k]? = some u) : p.StandsFor (functionName u.head.name) (.item k) ↔ u.head.name ≠ entryName ∧
      frameDefines (functionName u.head.name) = false ∧
      ∀ j u', units[j]? = some u' → u'.head.name = u.head.name → j = k := by
  constructor
  · rintro ⟨hitem, honly⟩
    obtain ⟨u₁, hu₁, hname₁⟩ := (defines_item hunits).1 hitem
    obtain ⟨hentry, hname⟩ := definitionName_eq_iff.1 hname₁
    rw [hname] at hentry
    refine ⟨hentry, ?_, fun j u' hu' hname' => ?_⟩
    · exact Bool.eq_false_iff.2 fun hframe => nomatch honly .frame hframe
    · cases honly (.item j) ((defines_item hunits).2 ⟨u', hu', definitionName_eq_iff.2 ⟨hname' ▸ hentry, hname'⟩⟩)
      rfl
  · rintro ⟨hentry, hframe, honly⟩
    refine ⟨(defines_item hunits).2 ⟨u, hu, definitionName_eq_iff.2 ⟨hentry, rfl⟩⟩, fun o ho => ?_⟩
    cases o with
    | frame => cases hframe.symm.trans ho
    | item j =>
      obtain ⟨u', hu', hname⟩ := (defines_item hunits).1 ho
      rw [honly j u' hu' (definitionName_eq_iff.1 hname).2]

theorem CProgram.standsFor_frame (hunits : Forall₂ Emission.Emitted units p.functions)
    (hframe : frameDefines head = true) :
    p.StandsFor head .frame ↔ ∀ u ∈ units, definitionName u.head.name ≠ head := by
  constructor
  · rintro ⟨-, honly⟩ u hu hname
    obtain ⟨k, hk⟩ := getElem?_of_mem hu
    cases honly _ ((defines_item hunits).2 ⟨u, hk, hname⟩)
  · intro hnone
    refine ⟨hframe, fun o ho => ?_⟩
    cases o with
    | frame => rfl
    | item k =>
      obtain ⟨u, hu, hname⟩ := (defines_item hunits).1 ho
      exact absurd hname (hnone u (mem_of_getElem? hu))

/-- Every call that begins in emitted code is for a function that the language or the program has. -/
theorem CProgram.reaches {fragments : List Fragment} {body : List Node} {s : Scope}
    (hunits : Forall₂ Emission.Emitted units p.functions) (hchecked : ∀ u ∈ units, u.Checked (units.map (·.value)))
    (hbody : s.Houses (units.map (·.value)) S body)
    (hcount : ∀ head, (headsOf fragments).count head = Node.total head (Node.callsIn 1 body)) (h : head ∈ headsOf fragments) :
    p.Reaches units (s :: S) body head := by
  obtain ⟨⟨c, times⟩, hc, hhead⟩ := exists_call_of_mem_headsOf hcount h
  obtain ⟨n, hn, hmem⟩ := Node.mem_callsIn.1 hc
  obtain ⟨info, operand, args, v, rfl, hcallee, hknown⟩ := (hbody.body n hn).callsKnown 1 _ hmem
  have hheadOf := headOf_of_mem_heads hcallee.value hhead
  refine ⟨info, operand, args, times, v, hc, hcallee, hheadOf, ?_⟩
  cases v with
  | int | matrix | module => cases hheadOf
  | function loc kind name params returns =>
    rcases hknown.2 with hmem | hmem
    · obtain ⟨u, hu, hvalue⟩ := mem_map.1 hmem
      obtain ⟨k, hk⟩ := getElem?_of_mem hu
      obtain ⟨loc', hfunction⟩ := (hchecked u hu).value
      rw [← hvalue, hfunction] at hheadOf
      cases hheadOf
      exact .inl ⟨k, u, hk, hvalue, standsFor_item hunits hk⟩
    · exact .inr ⟨hmem, (frameDefines_of_mem_builtins hmem hheadOf).imp_right (standsFor_frame hunits)⟩

end

/-! ### Programs -/

def CProgram.IsGlobal (p : CProgram) (x : String) (place : Nat) : Prop :=
  (∃ type, p.items[place]? = some (.global type x)) ∧
    ∀ j type, p.items[j]? = some (.global type x) → j = place

section

variable {fns : List Value} {p : CProgram} {x : String}

/-- A variable that a C function mentions. -/
theorem CProgram.binds_function {k : Nat} {u : FunctionUnit} {f : CFunction} (hu : u.Checked fns)
    (hemitted : Emission.Emitted u f) (hf : p.functions[k]? = some f) (hx : x ∈ namesOf f.block.fragments) :
    p.Binds k (u.scope :: u.outer) (· = k) x := by
  obtain ⟨s, v, hs, hv, hholds⟩ := hu.houses.bound (hemitted.names x hx)
  refine ⟨s, v, hs, hv, ?_⟩
  simp only [holder?_function hf, hemitted.mem_inner hu, hholds]
  split
  · exact ⟨k, rfl, rfl⟩
  · rfl

/-- A variable that is mentioned outside of functions. -/
theorem CProgram.binds_code {m : Module} {S : List Scope} (hm : m.Checked S) (hemits : p.Emits m)
    (hx : x ∈ namesOf p.block.fragments) : p.Binds p.codePlace (m.scope :: S) (p.IsGlobal x) x := by
  have hhouses : m.scope.Houses (Node.functionsIn m.body) S m.body := ⟨hm.nodup, hm.owns, hm.body⟩
  obtain ⟨s, v, hs, hv, hholds⟩ := hhouses.bound (hemits.names x hx)
  have hlocals : x ∈ p.block.locals.map Prod.snd ↔ m.scope.Holds x := by
    rw [hemits.locals, Emission.mem_variablesOf, and_iff_right (hm.isParam x)]
  have hnodup : (p.block.locals.map Prod.snd).Nodup := by
    rw [hemits.locals]
    exact nodup_variablesOf hm.nodup
  refine ⟨s, v, hs, hv, ?_⟩
  simp only [← hholds, ← hlocals]
  split
  · next hmem =>
    obtain ⟨j, hj, type, hitem⟩ := holder?_code_of_mem hmem
    exact ⟨j, hj, ⟨type, hitem⟩, fun j' type' hitem' => items_global_unique hnodup hitem' hitem⟩
  · next hmem => exact holder?_code_of_not_mem hmem

end

/-- In a compiled program every function is emitted to a C function with the variables of its scope, each of them once.
A name that it mentions comes from a scope where it is bound. If that is the scope of the function itself and the name
is a variable there, it stands for the variable of the C function, and in all other cases for nothing: not for a
variable of a function around it, nor for a variable of the program, which comes after all functions. Outside of
functions, names stand for the variables of the whole file in the same way. A call begins with what stands for the
function that was found for it, unless that is the entry or shares its name with another function. -/
theorem compile_scoping {text file : String} {s : Session} {p : CProgram} {a' : Analysis}
    (h : Yields (compile text file) { session := s } p a') :
    ∃ m a'' units, Yields (Analysis.ofText text file) { session := s } m a'' ∧
      units = Node.unitsIn (m.scope :: a''.scopes) m.body ∧ units.length = p.functions.length ∧
      p.definitions = mergeParts (p.items.flatMap FileItem.parts) ∧
      (∀ k u, units[k]? = some u → ∃ f, p.items[k]? = some (.function f) ∧ Emission.Emitted u f ∧
        (FileItem.inner (.function f)).Nodup ∧ (∀ x, x ∈ FileItem.inner (.function f) ↔ u.scope.Holds x) ∧
        (∀ x ∈ namesOf f.block.fragments, p.Binds k (u.scope :: u.outer) (· = k) x) ∧
        ∀ head ∈ headsOf f.block.fragments, p.Reaches units (u.scope :: u.outer) u.body head) ∧
      p.items[p.codePlace]? = some (.code p.block) ∧
      (∀ x ∈ namesOf p.block.fragments, p.Binds p.codePlace (m.scope :: a''.scopes) (p.IsGlobal x) x) ∧
      ∀ head ∈ headsOf p.block.fragments, p.Reaches units (m.scope :: a''.scopes) m.body head := by
  obtain ⟨m, a'', hanalysis, hm, hemits⟩ := compile_emits h
  have hunits := hemits.functions (m.scope :: a''.scopes)
  have hvalues := Node.map_value_unitsIn (m.scope :: a''.scopes) m.body
  have hchecked : ∀ u ∈ Node.unitsIn (m.scope :: a''.scopes) m.body, u.Checked (Node.functionsIn m.body) := by
    intro u hu
    obtain ⟨n, hn, hu⟩ := Node.mem_unitsIn.1 hu
    exact (hm.body n hn).units u hu
  refine ⟨m, a'', _, hanalysis, rfl, hunits.length_eq, by rw [p.parts_items]; rfl, fun k u hk => ?_, p.items_codePlace,
    fun x hx => CProgram.binds_code hm hemits hx, fun head hhead => ?_⟩
  · have hrel := rel_getElem? hunits k
    have hu := hchecked u (mem_of_getElem? hk)
    rw [hk] at hrel
    cases hf : p.functions[k]? with
    | none =>
      rw [hf] at hrel
      cases hrel
    | some f =>
      rw [hf] at hrel
      cases hrel with
      | some hemitted =>
        refine ⟨f, CProgram.items_function.2 hf, hemitted, hemitted.nodup_inner hu, fun x => hemitted.mem_inner hu,
          fun x hx => CProgram.binds_function hu hemitted hf hx, fun head hhead => ?_⟩
        exact CProgram.reaches hunits (hvalues ▸ hchecked) (hvalues ▸ hu.houses) hemitted.count hhead
  · exact CProgram.reaches hunits (hvalues ▸ hchecked) ⟨hm.nodup, hm.owns, hvalues ▸ hm.body⟩ hemits.count hhead

/-- A program that calls its entry. -/
def entryText : String := "big main begin main(), . end, ."

set_option maxRecDepth 10000 in
theorem compile_scoping_entry : ∃ p a' f units S body, Yields (compile entryText "") {} p a' ∧ p.functions = [f] ∧
    "slabes_func_main" ∈ headsOf f.block.fragments ∧ p.Reaches units S body "slabes_func_main" ∧
    ∀ o, ¬p.StandsFor "slabes_func_main" o := by
  have hgives : gives (compile entryText "") {} (fun p _ =>
      (p.functions.map fun f => (f.head.name, headsOf f.block.fragments)) == [("main", ["slabes_func_main"])]) = true := by
    decide +kernel
  obtain ⟨p, a', hrun, hshape⟩ := yields_of_gives hgives
  obtain ⟨m, a'', units, -, -, hlength, -, hfunctions, -⟩ := compile_scoping (s := {}) hrun
  obtain ⟨f, hp, hf⟩ := map_eq_singleton_iff.1 (beq_iff_eq.1 hshape)
  obtain ⟨hname, hheads⟩ := Prod.mk.inj hf
  have hk : 0 < units.length := by rw [hlength, hp]; exact Nat.one_pos
  obtain ⟨f', hf', -, -, -, -, hreaches⟩ := hfunctions 0 _ (getElem?_eq_getElem hk)
  rw [CProgram.items_function, hp] at hf'
  cases hf'
  have hmem : "slabes_func_main" ∈ headsOf f.block.fragments := by rw [hheads]; exact mem_cons_self
  refine ⟨p, a', f, units, _, _, hrun, hp, hmem, hreaches _ hmem, ?_⟩
  rintro (_ | k) ⟨hdefines, -⟩
  · have hframe : frameDefines "slabes_func_main" = false := by decide +kernel
    cases hframe.symm.trans hdefines
  · obtain ⟨g, hg, hgname⟩ := hdefines
    rw [CProgram.items_function, hp] at hg
    cases mem_singleton.1 (mem_of_getElem? hg)
    rw [hname] at hgname
    exact absurd hgname (by decide +kernel)

end Code

end Labyrinth
