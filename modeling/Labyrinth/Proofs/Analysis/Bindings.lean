import Mathlib
import Labyrinth.Proofs.Code.Origins
import Labyrinth.Proofs.Code.Stages

/-!
# Names and the types of their values

A name keeps the type of the first value that is bound to it: a later value is converted to that type, or refused with
one report. So evaluation only ever binds further names, and what it records for a name is the type that the name has
in the end. A value that is assigned to a name can be read back, provided that the name is declared.
-/

namespace Labyrinth

open List Labyrinth.Task

/-! ### Writing and reading -/

/-- A report that ends the run is printed. -/
theorem Session.run_reportFatal {α : Type} (loc : Location) (kind message : String) (source : SourceLine) (s : Session) :
    (reportFatal loc kind message source : Run α).run s =
      match Diagnostic.make s.folder loc kind message source with
      | .ok d => (.error (.exit 1), { s with out := s.out ++ (d.text ++ "\n") })
      | .error cause => (.error (.fault cause), s) := by
  rw [reportFatal, run_bind, show (get : Run Session).run s = (.ok s, s) from rfl]
  dsimp only
  rw [run_bind]
  cases Diagnostic.make s.folder loc kind message source with
  | error cause => rfl
  | ok d => rfl

namespace Analysis

variable {a a' : Analysis} {u : Unit} {place : Nat} {name : String} {value : Value} {loc : Location}

/-- The type that a name of the frame at a place has once a value was assigned to it: the one that it had before, or
else that of the value. -/
def typeAfter (a : Analysis) (place : Nat) (name : String) (value : Value) : ValueType :=
  match (a.frames.getD place default).scope.value? name with
  | some old => old.type
  | none => value.type

/-- A name is bound to a value of a type in the scope at a place. -/
def BoundAt (a : Analysis) (place : Nat) (name : String) (type : ValueType) : Prop :=
  ∃ s v, a.scopes[place]? = some s ∧ s.value? name = some v ∧ v.type = type

theorem BoundAt.grow {type : ValueType} (h : BoundAt a place name type) (hgrow : Scope.Grow a.scopes a'.scopes) :
    BoundAt a' place name type := by
  obtain ⟨s, v, hs, hv, rfl⟩ := h
  obtain ⟨s', hs', hgrows⟩ := hgrow.2 place s hs
  obtain ⟨v', hv', htype⟩ := hgrows.value name v hv
  exact ⟨s', v', hs', hv', htype⟩

theorem origin?_of_grow (hgrow : Scope.Grow a.scopes a'.scopes) : origin? a'.frames name = origin? a.frames name := by
  rw [origin?_eq, origin?_eq, hgrow.names]

/-- Whether or not a value fits, the name that it is assigned to is bound afterwards. -/
theorem boundAt_of_assign (h : Yields (Analysis.assign name value loc) a u a')
    (hplace : origin? a.frames name = some place) : BoundAt a' place name (a.typeAfter place name value) := by
  rw [Analysis.assign, yields_get_bind, hplace, Option.getD_some] at h
  rw [origin?_eq] at hplace
  obtain ⟨_, htable, -⟩ := NameTable.declares_of_depth? hplace
  rw [getElem?_map, Option.map_eq_some_iff] at htable
  obtain ⟨s, hs, -⟩ := htable
  have hlt := (List.getElem?_eq_some_iff.1 hs).1
  rw [typeAfter, getD_of_scopes hs]
  obtain ⟨s', hbind, hscopes⟩ | ⟨declared, hbind, hscopes⟩ := bindAt_cases h
  all_goals rw [getD_of_scopes hs] at hbind
  · obtain ⟨v, rfl, hv⟩ := Scope.bind_eq_ok hbind
    refine ⟨_, v, by rw [hscopes, getElem?_set_self hlt], by rw [Scope.value?_putValue, if_pos rfl], ?_⟩
    obtain ⟨hnone, rfl⟩ | ⟨old, hold, hconverted⟩ := hv
    · rw [hnone]
    · rw [hold, Value.convertTo_type hconverted]
  · rw [Scope.bind] at hbind
    split at hbind
    · cases hbind
    · next old hold => exact ⟨s, old, by rw [hscopes, hs], hold, by rw [hold]⟩

/-- What is bound to a name where it is declared can be read. -/
theorem yields_lookup {type : ValueType} (loc : Location) (hplace : origin? a.frames name = some place)
    (hbound : BoundAt a place name type) : ∃ v, Yields (lookup name loc) a v a ∧ v.type = type := by
  obtain ⟨s, v, hs, hv, htype⟩ := hbound
  refine ⟨v, ?_, htype⟩
  rw [lookup, yields_get_bind, hplace]
  simp only [valueAt, yields_get_bind, getD_of_scopes hs, hv, yields_pure, and_self]

end Analysis

namespace Node

open Analysis

/-- What was assigned to a name can be read if and only if the name is declared. It has the type of the name then;
otherwise reading ends the run. -/
theorem evaluate_assign_read {info targetInfo : NodeInfo} {name : String} {value n : Node} {v : Value}
    {a a' : Analysis} (readInfo : NodeInfo) (h : Yields (evaluate (.assign info [.name targetInfo name] value)) a (n, v) a') :
    match origin? a.frames name with
    | some place => ∃ b w, (if value.literal?.isSome then b = a else ∃ value', Yields value.evaluate a (value', v) b) ∧
        w.type = b.typeAfter place name v ∧
        Yields (evaluate (.name readInfo name)) a' (.name { readInfo with value := some w } name, w) a'
    | none => (evaluate (.name readInfo name)).run a' =
        match Diagnostic.make a'.session.folder readInfo.loc Diagnostic.nameKind s!"name '{name}' is not defined"
          .unknown with
        | .ok d => (.error (.exit 1), { a' with session.out := a'.session.out ++ (d.text ++ "\n") })
        | .error cause => (.error (.fault cause), a') := by
  have hgrow := growing_evaluate _ h
  cases hplace : origin? a.frames name with
  | none =>
    rw [← origin?_of_grow hgrow] at hplace
    have hlookup : (lookup name readInfo.loc).run a' = (reportUndefined name readInfo.loc).run a' := by
      rw [Analysis.lookup, run_bind, show (get : Task Analysis Analysis).run a' = (.ok a', a') from rfl]
      dsimp only
      rw [hplace]
    have hreport := Session.run_reportFatal (α := Value) readInfo.loc Diagnostic.nameKind
      s!"name '{name}' is not defined" .unknown a'.session
    rw [evaluate, run_bind, hlookup, reportUndefined, inSession, ExceptT.run_mk, show HasSession.session a' = a'.session from rfl]
    rw [hreport]
    generalize Diagnostic.make _ _ _ _ _ = made
    cases made with
    | error cause => rfl
    | ok d => rfl
  | some place =>
    have hread : ∀ {b c : Analysis} {u : Unit} {loc : Location}, Yields (Analysis.assign name v loc) b u c →
        Scope.Grow a.scopes b.scopes → Scope.Grow c.scopes a'.scopes → ∃ w, w.type = b.typeAfter place name v ∧
          Yields (evaluate (.name readInfo name)) a' (.name { readInfo with value := some w } name, w) a' := by
      intro b c u loc hassign hbefore hafter
      have hbound := boundAt_of_assign hassign ((origin?_of_grow hbefore).trans hplace)
      obtain ⟨w, hw, htype⟩ := yields_lookup readInfo.loc ((origin?_of_grow hgrow).trans hplace) (hbound.grow hafter)
      exact ⟨w, htype, hw.bind (yields_pure.2 ⟨rfl, rfl⟩)⟩
    rw [evaluate] at h
    split at h
    · next result hliteral =>
      simp only [bindTargets, yields_bind, yields_pure] at h
      obtain ⟨_, c, ⟨_, _, hassign, _, _, ⟨-, rfl⟩, -, rfl⟩, _, _, hvalue, heq, rfl⟩ := h
      obtain ⟨-, rfl⟩ := Prod.mk.inj heq
      obtain ⟨w, hw⟩ := hread hassign (.refl _) (growing_evaluate _ hvalue)
      exact ⟨a, w, by rw [hliteral]; rfl, hw⟩
    · next hliteral =>
      simp only [bindTargets, yields_bind, yields_pure] at h
      obtain ⟨⟨value', _⟩, b, hvalue, _, c, ⟨_, _, hassign, _, _, ⟨-, rfl⟩, -, rfl⟩, heq, rfl⟩ := h
      obtain ⟨-, rfl⟩ := Prod.mk.inj heq
      obtain ⟨w, hw⟩ := hread hassign (growing_evaluate _ hvalue) (.refl _)
      exact ⟨b, w, by rw [hliteral]; exact ⟨value', hvalue⟩, hw⟩

theorem evaluate_assign_read_index :
    let info : NodeInfo := ⟨.builtin, none⟩
    let table := NameTable.declare {} "index"
    let a : Analysis := { frames := [{ scope := { names := table } }] }
    let five := Value.int .builtin ⟨.small, .signed⟩ 5
    let a' : Analysis := { frames := [{ scope := { names := table, values := [("index", five)] } }] }
    (∃ n, Yields (evaluate (.assign info [.name info "index"] (.int info ⟨.small, .signed⟩ 5))) a (n, five) a') ∧
      ∃ w, w.type = .int ⟨.small, .signed⟩ ∧
        Yields (evaluate (.name info "index")) a' (.name { info with value := some w } "index", w) a' := by
  intro info table a five a'
  obtain ⟨n, h⟩ : ∃ n, Yields (evaluate (.assign info [.name info "index"] (.int info ⟨.small, .signed⟩ 5))) a
      (n, five) a' := ⟨_, rfl⟩
  refine ⟨⟨n, h⟩, ?_⟩
  obtain ⟨b, w, rfl, htype, hw⟩ := evaluate_assign_read info h
  exact ⟨w, htype, hw⟩

end Node

/-! ### Types last -/

namespace Node

/-- A name stands in value position inside a node, under the scopes of the functions in between. -/
inductive NameWithin : List Scope → Node → List Scope → NodeInfo → String → Prop where
  | here {S info x} : NameWithin S (.name info x) S info x
  | inside {S T root child info x} : child ∈ root.valued → root.isFunction = false → NameWithin S child T info x →
      NameWithin S root T info x
  | body {S T functionInfo head scope body child info x} : child ∈ body → NameWithin (scope :: S) child T info x →
      NameWithin S (.function functionInfo head scope body) T info x

variable {fns : List Value} {S T : List Scope} {n : Node} {info : NodeInfo} {x : String}

/-- For every name in value position inside a node the type is recorded of what is bound to it where it is declared. In
the scopes of functions a name is bound once. -/
def Recalls (S : List Scope) (n : Node) : Prop :=
  ∀ ⦃T info x⦄, NameWithin S n T info x → (∃ v, info.value = some v ∧ Scope.Finds T x v.type) ∧
    ∀ s ∈ T, s ∈ S ∨ (s.values.map Prod.fst).Nodup

theorem recalls_name {loc : Location} {v : Value} (h : Scope.Finds S x v.type) : Recalls S (.name ⟨loc, some v⟩ x) := by
  intro T info y hname
  cases hname with
  | here => exact ⟨⟨v, rfl, h⟩, fun _ => .inl⟩
  | inside hchild => cases hchild

theorem recalls_of_valued (hname : n.isName = false) (hfunction : n.isFunction = false)
    (h : ∀ child ∈ n.valued, Recalls S child) : Recalls S n := by
  intro T info y hwithin
  cases hwithin with
  | here => cases hname
  | inside hchild _ hwithin => exact h _ hchild hwithin
  | body => cases hfunction

theorem recalls_function {functionInfo : NodeInfo} {head : FunctionHead} {scope : Scope} {body : List Node}
    (hnodup : (scope.values.map Prod.fst).Nodup) (h : ∀ child ∈ body, Recalls (scope :: S) child) :
    Recalls S (.function functionInfo head scope body) := by
  intro T info y hwithin
  cases hwithin with
  | inside _ hfunction => cases hfunction
  | body hchild hwithin =>
    obtain ⟨hrecorded, hscopes⟩ := h _ hchild hwithin
    refine ⟨hrecorded, fun s hs => ?_⟩
    rcases hscopes s hs with hs | hs
    · exact (mem_cons.1 hs).elim (fun heq => .inr (heq ▸ hnodup)) .inl
    · exact .inr hs

theorem Typed.recalls {v : Value} (h : Typed fns S n v) : Recalls S n := by
  induction h with
  | name hfinds => exact recalls_name hfinds
  | int => exact recalls_of_valued rfl rfl nofun
  | robot => exact recalls_of_valued rfl rfl (forall_mem_singleton.2 (recalls_of_valued rfl rfl nofun))
  | call hfinds _ _ ih =>
    exact recalls_of_valued rfl rfl (forall_mem_cons.2 ⟨recalls_name hfinds, forall_mem_map.2 ih⟩)
  | subscript hfinds _ _ ihi ihj =>
    exact recalls_of_valued rfl rfl (forall_mem_cons.2 ⟨recalls_name hfinds, by simp [ihi, ihj]⟩)
  | binary _ _ _ ihlhs ihrhs => exact recalls_of_valued rfl rfl (by simp [valued, children, ihlhs, ihrhs])
  | compare _ _ _ _ _ ihoperand ihoperands =>
    exact recalls_of_valued rfl rfl (forall_mem_cons.2 ⟨ihoperand, forall_mem_map.2 ihoperands⟩)

theorem Checked.recalls (h : Checked fns S n) : Recalls S n := by
  induction h with
  | expr hn => exact hn.recalls
  | assign _ _ htargets hvalue =>
    refine recalls_of_valued rfl rfl (forall_mem_cons.2 ⟨hvalue.recalls, fun t ht => ?_⟩)
    obtain ⟨ht, hname⟩ := mem_filter.1 ht
    obtain ⟨_, _, rfl⟩ | ⟨_, htyped⟩ := htargets t ht
    · cases hname
    · exact htyped.recalls
  | field htargets =>
    refine recalls_of_valued rfl rfl (forall_mem_cons.2 ⟨recalls_of_valued rfl rfl nofun, fun t ht => ?_⟩)
    obtain ⟨ht, hname⟩ := mem_filter.1 ht
    obtain ⟨_, _, rfl⟩ := htargets t ht
    cases hname
  | function _ _ hnodup _ _ _ ih =>
    exact recalls_of_valued rfl rfl (forall_mem_singleton.2 (recalls_function hnodup ih))
  | giveBack hvalue => exact recalls_of_valued rfl rfl (forall_mem_singleton.2 hvalue.recalls)
  | condition htest _ ih | loop htest _ ih =>
    exact recalls_of_valued rfl rfl (forall_mem_cons.2 ⟨htest.recalls, ih⟩)

end Node

/-- A value that is bound to a name again is converted to the type that the name has, or refused with one report. -/
theorem Analysis.yields_bindAt_again {a : Analysis} {place : Nat} {s : Scope} {name : String} {value old : Value}
    {loc : Location} (hs : a.scopes[place]? = some s) (hold : s.value? name = some old)
    (hmake : ∀ message cause,
      Diagnostic.make a.session.folder loc Diagnostic.typeKind message .unknown ≠ .error cause) :
    ∃ a', Yields (bindAt place name value loc) a () a' ∧
      ((∃ new, new.type = old.type ∧ a'.session = a.session ∧
          a'.scopes = a.scopes.set place { s with values := Scope.putValue s.values name new }) ∨
        ∃ d, d.kind = Diagnostic.typeKind ∧ a' = { a with session.pending := a.session.pending.push d }) := by
  simp only [bindAt, yields_get_bind, getD_of_scopes hs, Scope.bind, hold]
  cases hconverted : value.convertTo old with
  | some new =>
    refine ⟨_, yields_modify.2 rfl, .inl ⟨new, Value.convertTo_type hconverted, rfl, ?_⟩⟩
    rw [scopes, map_set]
    rfl
  | none =>
    have hmake := hmake s!"declared type '{old.type.shown}' does not match assigned type '{value.type.shown}'"
    cases hmade : Diagnostic.make a.session.folder loc Diagnostic.typeKind
        s!"declared type '{old.type.shown}' does not match assigned type '{value.type.shown}'" .unknown with
    | error cause => exact absurd hmade (hmake cause)
    | ok d =>
      refine ⟨_, yields_inSession.2 ⟨_, ?_, rfl⟩, .inr ⟨d, (Diagnostic.make_eq hmade).2.1, rfl⟩⟩
      rw [Session.report, yields_get_bind]
      exact yields_bind.2 ⟨d, _, yields_ofExcept.2 ⟨hmade, rfl⟩, yields_modify.2 rfl⟩

/-- The variables of a scope have the types of what is bound to them. -/
theorem Code.Emission.mem_variablesOf_iff {s : Scope} (hnodup : (s.values.map Prod.fst).Nodup) {x : String} {v : Value}
    (hv : s.value? x = some v) {type : ValueType} :
    (type, x) ∈ variablesOf s ↔ type = v.type ∧ type.isVariable = true ∧ s.names.isParam x = false := by
  have hmem : ∀ w, (x, w) ∈ s.values ↔ w = v := fun w => by
    rw [← Scope.value?_eq_some_iff hnodup, hv, Option.some_inj, eq_comm]
  simp only [variablesOf, mem_filterMap, Prod.exists]
  constructor
  · rintro ⟨y, w, hentry, heq⟩
    split at heq
    · cases heq
    · next hvariable =>
      cases heq
      rw [(hmem w).1 hentry] at hvariable ⊢
      simpa [and_comm] using hvariable
  · rintro ⟨rfl, hvariable, hparam⟩
    exact ⟨x, v, (hmem v).2 rfl, by simp [hvariable, hparam]⟩

/-- The types of names last: once a name has a value, its type stays, so that the type recorded wherever the name is
read is the one that the name has in the end, with which it is declared in the program that is emitted. -/
theorem Analysis.ofText_types_last {text file : String} {session : Session} {m : Module} {a : Analysis}
    (h : Yields (Analysis.ofText text file) { session } m a) (hcovers : session.folder.Covers file text) :
    (∀ (b : Analysis) (place : Nat) (s : Scope) (name : String) (value old : Value) (loc : Location),
      b.session.folder = session.folder → loc.file = file → Text.HasLine text loc.line →
      b.scopes[place]? = some s → s.value? name = some old →
      ∃ b', Yields (bindAt place name value loc) b () b' ∧
        ((∃ new, new.type = old.type ∧ b'.session = b.session ∧
            b'.scopes = b.scopes.set place { s with values := Scope.putValue s.values name new }) ∨
          ∃ d, d.kind = Diagnostic.typeKind ∧ b' = { b with session.pending := b.session.pending.push d })) ∧
    ∀ n ∈ m.body, ∀ T info x, n.NameWithin (m.scope :: a.scopes) T info x →
      ∃ v place s w, info.value = some v ∧ NameTable.depth? x (T.map Scope.names) = some place ∧ T[place]? = some s ∧
        s.value? x = some w ∧ w.type = v.type ∧ (s ∈ a.scopes ∨ ∀ type, (type, x) ∈ Code.Emission.variablesOf s ↔
          type = v.type ∧ type.isVariable = true ∧ s.names.isParam x = false) := by
  constructor
  · intro b place s name value old loc hfolder hfile hline hs hold
    refine yields_bindAt_again hs hold fun message cause hmake => ?_
    rw [hfolder] at hmake
    subst hfile
    exact absurd hcovers (Diagnostic.not_covers_of_make hline hmake).2
  · intro n hn T info x hwithin
    have hchecked := ofText_checked h
    obtain ⟨⟨v, hv, place, s, w, hplace, hs, hw, htype⟩, hscopes⟩ := (hchecked.body n hn).recalls hwithin
    refine ⟨v, place, s, w, hv, hplace, hs, hw, htype, ?_⟩
    have hnodup : s ∈ a.scopes ∨ (s.values.map Prod.fst).Nodup := by
      rcases hscopes s (mem_of_getElem? hs) with hmem | hnodup
      · exact (mem_cons.1 hmem).elim (fun heq => .inr (heq ▸ hchecked.nodup)) .inl
      · exact .inr hnodup
    refine hnodup.imp_right fun hnodup type => ?_
    rw [← htype]
    exact Code.Emission.mem_variablesOf_iff hnodup hw

/-- A program that reads a name of the program inside a function. -/
def innerText : String := "tiny h << 1, tiny k begin return h. end."

/-- Whether the second statement is a function that hands a name back. -/
def Module.handsBack (m : Module) (x : String) : Bool :=
  match m.body with
  | [_, .assign _ _ (.function _ _ _ [.giveBack _ (.name _ y)])] => y == x
  | _ => false

theorem Analysis.ofText_types_last_inner : ∃ m a info T, Yields (Analysis.ofText innerText "") {} m a ∧
    Folder.Covers {} "" innerText ∧ (∃ n ∈ m.body, n.NameWithin (m.scope :: a.scopes) T info "h") ∧
    ∃ v, info.value = some v ∧ Scope.Finds T "h" v.type := by
  have hcovers : Folder.Covers {} "" innerText := by
    have hentry : Folder.entry {} (Path.ofText "").text = .directory := by cbv
    delta Folder.Covers
    rw [hentry]
    trivial
  have hgives : gives (Analysis.ofText innerText "") {} (fun m _ => m.handsBack "h") = true := by decide +kernel
  obtain ⟨m, a, hrun, hshape⟩ := yields_of_gives hgives
  rw [Module.handsBack] at hshape
  split at hshape
  · next scope _ info x hbody =>
    cases beq_iff_eq.1 hshape
    have hn : ∃ n ∈ m.body, n.NameWithin (m.scope :: a.scopes) (scope :: m.scope :: a.scopes) info "h" := by
      refine ⟨_, by rw [hbody]; exact mem_cons_of_mem _ mem_cons_self, ?_⟩
      exact .inside mem_cons_self rfl (.body mem_cons_self (.inside mem_cons_self rfl .here))
    obtain ⟨n, hmem, hwithin⟩ := hn
    obtain ⟨v, place, s, w, hv, hplace, hs, hw, htype, -⟩ := (ofText_types_last hrun hcovers).2 n hmem _ _ _ hwithin
    exact ⟨m, a, info, _, hrun, hcovers, ⟨n, hmem, hwithin⟩, v, hv, place, s, w, hplace, hs, hw, htype⟩
  · cases hshape

end Labyrinth
