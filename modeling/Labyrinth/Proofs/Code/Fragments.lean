import Labyrinth.Code.Tree

/-!
# Identifiers in emitted text

The text of an emitted program, cut into fragments as small as identifiers. An identifier is made for a name of the
program, or it has to come from the frame around it. Everything else is a number, a text in quotes, or one of a few
texts without an underscore, which no identifier of the frame is without.
-/

namespace Labyrinth.Code

inductive Fragment where
  /-- An identifier that has to come from the frame. -/
  | foreign (name : String)
  /-- A variable, by its name in the program. -/
  | mention (name : String)
  /-- A function where it is called, by its name in the program or in the language. -/
  | function (name : String)
  /-- A function where it is defined or declared, by its name in the program. -/
  | defined (name : String)
  | number (value : Int)
  | quoted (text : String)
  /-- Anything else. -/
  | glue (text : String)
deriving DecidableEq, Repr, Inhabited

namespace Fragment

def text : Fragment → String
  | foreign name => name
  | mention name => variableName name
  | function name => functionName name
  | defined name => definitionName name
  | number value => toString value
  | quoted text => "\"" ++ text ++ "\""
  | glue text => text

/-- The texts that stand between identifiers, numbers and quotes. -/
def glues : List String :=
  [" ", ", ", "), ", ") ", "( ", "max(min(", "printf( ", "&& ", "[ ", "+ ", "* ", " ] ", "= ", "(&", "(& ", " ) ",
    ");; ", "free( ", " );; ", "return  ", "; ", "if ( ", ") \x7b\n ", "while (!( ", ")) \x7b\n ", "\x7b\n ",
    "\x7d\n ", ";; ", "  = 0;; ", "void ", ";\n "]

/-- Whether a fragment is an identifier, a number, a text in quotes, or a known text. -/
def isKnown : Fragment → Bool
  | glue text => glues.contains text
  | _ => true

/-- How a call begins, if a fragment is the beginning of one. -/
@[simp] def head? : Fragment → Option String
  | function name => some (functionName name)
  | glue text => if text = "printf( " then some "printf(" else none
  | foreign name => if name = "slabes_assert" then some "slabes_assert(" else none
  | _ => none

/-- The variable that a fragment mentions. -/
@[simp] def name? : Fragment → Option String
  | mention name => some name
  | _ => none

theorem not_mem_of_mem_glues : ∀ text ∈ glues, '_' ∉ text.toList := by decide +kernel

end Fragment

open Fragment

def rendered (fragments : List Fragment) : String :=
  String.join (fragments.map Fragment.text)

@[simp] theorem rendered_nil : rendered [] = "" := rfl

@[simp] theorem rendered_cons (f : Fragment) (fs : List Fragment) : rendered (f :: fs) = f.text ++ rendered fs := by
  simp [rendered]

@[simp] theorem rendered_append (fs gs : List Fragment) : rendered (fs ++ gs) = rendered fs ++ rendered gs := by
  simp [rendered]

/-! ### Cutting -/

mutual

def CExpr.fragments : CExpr → List Fragment
  | .literal type value =>
    [glue "max(min(", number value, glue ", ", foreign (maxName (.int type)), glue "), ",
      foreign (minName (.int type)), glue ") "]
  | .plain value => [number value, glue " "]
  | .variable name => [mention name, glue " "]
  | .apply f args =>
    function f :: glue " " :: glue "( " :: listFragments true args ++
      ((if listParts true args = [] then [glue " "] else []) ++ [glue ") "])
  | .print types args =>
    glue "printf( " :: (types.flatMap fun t => [foreign (formatName t), glue " ", quoted " ", glue " "]) ++
      quoted "\\n" :: glue " " :: listFragments false args ++ [glue ") "]
  | .asserts types args messages => assertFragments types messages args
  | .binary op left right lhs rhs =>
    foreign (operatorName op.word left.name right.name) :: glue " " :: glue "( " :: lhs.fragments ++
      glue ", " :: rhs.fragments ++ [glue ") "]
  | .compare first firstType ops types operands =>
    compareFragments true first.fragments firstType ops types operands
  | .element field index i j =>
    field.fragments ++ glue "[ " :: i.fragments ++ glue "+ " :: j.fragments ++
      [glue "* ", foreign (maxName (.int index)), glue " ] "]
  | .convert source target value =>
    foreign (convertName source.name target.name) :: glue " " :: glue "( " :: value.fragments ++ [glue ") "]
  | .nothing => []

def listFragments (first : Bool) : List CExpr → List Fragment
  | [] => []
  | e :: es => (if first then [] else [glue ", "]) ++ e.fragments ++ listFragments false es

def assertFragments (types : List ValueType) (messages : List String) : List CExpr → List Fragment
  | [] => []
  | e :: es => match types, messages with
    | type :: types, message :: messages =>
      [foreign "slabes_assert", glue "( ", foreign (convertName type.name "unsigned_tiny"), glue " ", glue "( "] ++
        e.fragments ++ [glue "), ", quoted message, glue " ) "] ++ assertFragments types messages es
    | _, _ => []

def compareFragments (first : Bool) (lhs : List Fragment) (left : ValueType) (ops : List CmpOp)
    (types : List ValueType) : List CExpr → List Fragment
  | [] => []
  | e :: es => match ops, types with
    | op :: ops, right :: types =>
      (if first then [] else [glue "&& "]) ++
        foreign (operatorName op.word left.name right.name) :: glue " " :: glue "( " :: lhs ++ glue ", " :: e.fragments ++
          glue ") " :: compareFragments false e.fragments right ops types es
    | _, _ => []

end

def CStore.fragments : CStore → List Fragment
  | .element target value => target.fragments ++ glue "= " :: value.fragments
  | .setUp item name value index =>
    [foreign ("init_slabes_type_matrix_" ++ item.name), glue "(&", mention name, glue ", "] ++ value.fragments ++
      [glue ", ", foreign (maxName (.int index)), glue " ) "]
  | .variable type name value =>
    [foreign ("assign_" ++ typeName type), glue " ", glue "(& ", mention name, glue " ", glue ", "] ++
      value.fragments ++ [glue ");; "]
  | .bare value => value.fragments

def freeFragments (names : List String) : List Fragment :=
  names.flatMap fun name => [glue "free( ", mention name, glue " );; "]

mutual

def CStmt.fragments : CStmt → List Fragment
  | .expr e => e.fragments
  | .assign stores => stores.flatMap CStore.fragments
  | .giveBack frees value => freeFragments frees ++ glue "return  " :: value.fragments ++ [glue "; "]
  | .condition test body =>
    glue "if ( " :: test.fragments ++ glue ") \x7b\n " :: stmtFragments body ++ [glue "\x7d\n "]
  | .loop test body =>
    glue "while (!( " :: test.fragments ++ glue ")) \x7b\n " :: stmtFragments body ++ [glue "\x7d\n "]

def stmtFragments : List CStmt → List Fragment
  | [] => []
  | s :: ss => s.fragments ++ glue ";; " :: stmtFragments ss

end

def localFragments (locals : List (ValueType × String)) : List Fragment :=
  locals.flatMap fun (type, name) => [foreign (typeName type), glue " ", mention name, glue "  = 0;; "]

def CBlock.fragments (b : CBlock) : List Fragment :=
  localFragments b.locals ++ stmtFragments b.body ++ freeFragments b.frees

def paramFragments : List (ValueType × String) → List Fragment
  | [] => [glue "void "]
  | [(type, name)] => [foreign (typeName type), glue " ", mention name, glue " "]
  | (type, name) :: params => [foreign (typeName type), glue " ", mention name, glue ", "] ++ paramFragments params

def CPrototype.fragments (p : CPrototype) : List Fragment :=
  [foreign (typeName p.returns), glue " ", defined p.name, glue " ", glue "( "] ++ paramFragments p.params ++ [glue ") "]

def CFunction.fragments (f : CFunction) : List Fragment :=
  f.head.fragments ++ glue "\x7b\n " :: f.block.fragments ++ [glue "\x7d\n "]

def CProgram.prototypeFragments (p : CProgram) : List Fragment :=
  p.functions.flatMap fun f => f.head.fragments ++ [glue ";\n "]

def CProgram.definitionFragments (p : CProgram) : List Fragment :=
  p.functions.flatMap CFunction.fragments ++ p.block.fragments

/-! ### The text of fragments -/

/-- Texts with a blank after each of them. -/
def spread (texts : List String) : String :=
  String.join (texts.map (· ++ " "))

@[simp] theorem spread_nil : spread [] = "" := rfl

@[simp] theorem spread_cons (text : String) (texts : List String) :
    spread (text :: texts) = text ++ " " ++ spread texts := by
  simp [spread]

@[simp] theorem spread_append (xs ys : List String) : spread (xs ++ ys) = spread xs ++ spread ys := by
  simp [spread]

theorem spread_eq_joined {texts : List String} (h : texts ≠ []) : spread texts = Text.joined " " texts ++ " " := by
  induction texts with
  | nil => exact absurd rfl h
  | cons text texts ih =>
    cases texts with
    | nil => simp [Text.joined]
    | cons next texts =>
      rw [spread_cons, ih (List.cons_ne_nil _ _)]
      simp [Text.joined, String.intercalate_cons_cons, String.append_assoc]

/-- Between the identifiers, numbers and quotes among fragments stands nothing but known texts. -/
def Tidy (fragments : List Fragment) : Prop :=
  ∀ f ∈ fragments, f.isKnown

variable {fs gs fragments : List Fragment}

@[simp] theorem tidy_nil : Tidy [] := by simp [Tidy]

@[simp] theorem tidy_cons {f : Fragment} : Tidy (f :: fs) ↔ f.isKnown ∧ Tidy fs := by
  simp [Tidy]

@[simp] theorem tidy_append : Tidy (fs ++ gs) ↔ Tidy fs ∧ Tidy gs :=
  List.forall_mem_append

/-- Known texts do not belong to an identifier of the frame. -/
theorem Tidy.not_mem {text : String} (h : Tidy fragments) (hmem : glue text ∈ fragments) : '_' ∉ text.toList :=
  not_mem_of_mem_glues text (List.contains_iff_mem.1 (h _ hmem))

/-- Fragments are what parts are cut into. -/
structure Cuts (fragments : List Fragment) (parts : List String) : Prop where
  tidy : Tidy fragments
  rendered_eq : rendered fragments = spread parts

theorem Cuts.append {ps qs : List String} (h : Cuts fs ps) (h' : Cuts gs qs) : Cuts (fs ++ gs) (ps ++ qs) :=
  ⟨tidy_append.2 ⟨h.tidy, h'.tidy⟩, by rw [rendered_append, spread_append, h.rendered_eq, h'.rendered_eq]⟩

theorem cuts_flatMap {α : Type} {f : α → List Fragment} {g : α → List String} (h : ∀ a, Cuts (f a) (g a)) (as : List α) :
    Cuts (as.flatMap f) (as.flatMap g) := by
  induction as with
  | nil => exact ⟨tidy_nil, rfl⟩
  | cons a as ih => exact (h a).append ih

theorem toTruth_eq (name : String) :
    s!"slabes_convert_{name}_to_unsigned_tiny" = convertName name "unsigned_tiny" := by
  change "slabes_convert_" ++ name ++ "_to_unsigned_tiny" = "slabes_convert_" ++ name ++ "_to_" ++ "unsigned_tiny"
  rw [← String.toList_inj]
  simp

section Cuts

attribute [local simp] isKnown glues Fragment.text String.append_assoc

/-- One part cut into fragments. -/
theorem cuts_part {fragments : List Fragment} {part : String} (ht : Tidy fragments)
    (h : rendered fragments = part ++ " ") : Cuts fragments [part] :=
  ⟨ht, by simp [h]⟩

theorem cuts_close : Cuts [glue ") "] [")"] :=
  cuts_part (by simp) (by simp)

theorem cuts_formats (types : List ValueType) :
    Cuts ((types.flatMap fun t => [foreign (formatName t), glue " ", quoted " ", glue " "]) ++
      [quoted "\\n", glue " "]) [printFormat types] := by
  refine cuts_part ?_ ?_
  · induction types with
    | nil => simp
    | cons t types ih => simpa using ih
  · rw [printFormat, ← String.toList_inj]
    induction types with
    | nil => rfl
    | cons t types ih => simpa using ih

/-- Parts with blanks between them make up one part. -/
theorem Cuts.joined {fs : List Fragment} {ps : List String} (h : Cuts fs ps) :
    Cuts (fs ++ if ps = [] then [glue " "] else []) [Text.joined " " ps] := by
  split
  · next hps => exact cuts_part (by simp [h.tidy]) (by simp [h.rendered_eq, hps, Text.joined])
  · next hps => exact cuts_part (by simp [h.tidy]) (by simp [h.rendered_eq, spread_eq_joined hps])

mutual

/-- The parts of an expression are cut into its fragments. -/
theorem CExpr.cuts : ∀ e : CExpr, Cuts e.fragments e.parts
  | .literal _ _ => by
    constructor
    · simp [CExpr.fragments]
    · rw [CExpr.fragments, CExpr.parts]
      delta literalText
      simp [toString]
  | .plain _ | .variable _ => by constructor <;> simp [CExpr.fragments, CExpr.parts]
  | .apply f args => by
    have hhead : Cuts [function f, glue " ", glue "( "] [functionName f, "("] := ⟨by simp, by simp⟩
    simpa [CExpr.fragments, CExpr.parts] using hhead.append ((cuts_listFragments true args).joined.append cuts_close)
  | .print types args => by
    have hhead : Cuts [glue "printf( "] ["printf("] := cuts_part (by simp) (by simp)
    have hargs := ((cuts_formats types).append (cuts_listFragments false args)).joined
    simpa [CExpr.fragments, CExpr.parts] using hhead.append (hargs.append cuts_close)
  | .asserts types args messages => cuts_assertFragments types messages args
  | .binary _ _ _ lhs rhs => by
    have hl := lhs.cuts
    have hr := rhs.cuts
    constructor <;> simp [CExpr.fragments, CExpr.parts, hl.tidy, hl.rendered_eq, hr.tidy, hr.rendered_eq]
  | .compare first firstType ops types operands => cuts_compareFragments true first.cuts firstType ops types operands
  | .element field _ i j => by
    have hf := field.cuts
    have hi := i.cuts
    have hj := j.cuts
    constructor <;>
      simp [CExpr.fragments, CExpr.parts, hf.tidy, hf.rendered_eq, hi.tidy, hi.rendered_eq, hj.tidy, hj.rendered_eq]
  | .convert _ _ value => by
    have h := value.cuts
    constructor <;> simp [CExpr.fragments, CExpr.parts, h.tidy, h.rendered_eq]
  | .nothing => ⟨tidy_nil, rfl⟩

theorem cuts_listFragments : ∀ (first : Bool) (es : List CExpr), Cuts (listFragments first es) (listParts first es)
  | _, [] => ⟨tidy_nil, rfl⟩
  | first, e :: es => by
    refine .append (.append ?_ e.cuts) (cuts_listFragments false es)
    cases first
    · exact cuts_part (by simp) (by simp)
    · exact ⟨tidy_nil, rfl⟩

theorem cuts_assertFragments : ∀ (types : List ValueType) (messages : List String) (es : List CExpr),
    Cuts (assertFragments types messages es) (assertParts types messages es)
  | _, _, [] => ⟨tidy_nil, rfl⟩
  | [], _, _ :: _ => ⟨tidy_nil, rfl⟩
  | _ :: _, [], _ :: _ => ⟨tidy_nil, rfl⟩
  | type :: types, message :: messages, e :: es => by
    refine .append (.append (.append ?_ e.cuts) ?_) (cuts_assertFragments types messages es) <;> constructor
    · simp
    · rw [toTruth_eq, ← String.toList_inj]
      simp
    · simp
    · simp

theorem cuts_compareFragments (first : Bool) {lhs : List Fragment} {lhsParts : List String} (hlhs : Cuts lhs lhsParts)
    (left : ValueType) : ∀ (ops : List CmpOp) (types : List ValueType) (es : List CExpr),
      Cuts (compareFragments first lhs left ops types es) (compareParts first lhsParts left ops types es)
  | _, _, [] => ⟨tidy_nil, rfl⟩
  | [], _, _ :: _ => ⟨tidy_nil, rfl⟩
  | _ :: _, [], _ :: _ => ⟨tidy_nil, rfl⟩
  | op :: ops, right :: types, e :: es => by
    have he := e.cuts
    have hrest := cuts_compareFragments false he right ops types es
    cases first <;> constructor <;>
      simp [compareFragments, compareParts, hlhs.tidy, hlhs.rendered_eq, he.tidy, he.rendered_eq, hrest.tidy,
        hrest.rendered_eq]

end

theorem CStore.cuts (store : CStore) : Cuts store.fragments store.parts := by
  cases store with
  | bare value => exact value.cuts
  | element target value =>
    have ht := target.cuts
    have h := value.cuts
    constructor <;> simp [CStore.fragments, CStore.parts, ht.tidy, ht.rendered_eq, h.tidy, h.rendered_eq]
  | setUp _ _ value _ | «variable» _ _ value =>
    have h := value.cuts
    constructor <;> simp [CStore.fragments, CStore.parts, h.tidy, h.rendered_eq, toString]

theorem cuts_freeFragments (names : List String) : Cuts (freeFragments names) (freeParts names) :=
  cuts_flatMap (fun name => ⟨by simp, by simp⟩) names

mutual

theorem CStmt.cuts (s : CStmt) : Cuts s.fragments s.parts := by
  cases s with
  | expr e => exact e.cuts
  | assign stores => exact cuts_flatMap CStore.cuts stores
  | giveBack frees value =>
    have hf := cuts_freeFragments frees
    have h := value.cuts
    constructor <;> simp [CStmt.fragments, CStmt.parts, hf.tidy, hf.rendered_eq, h.tidy, h.rendered_eq]
  | condition test body | loop test body =>
    have ht := test.cuts
    have hb := cuts_stmtFragments body
    constructor <;> simp [CStmt.fragments, CStmt.parts, ht.tidy, ht.rendered_eq, hb.tidy, hb.rendered_eq]

theorem cuts_stmtFragments (ss : List CStmt) : Cuts (stmtFragments ss) (stmtParts ss) := by
  cases ss with
  | nil => exact ⟨tidy_nil, rfl⟩
  | cons s ss =>
    have hs := s.cuts
    have hss := cuts_stmtFragments ss
    constructor <;> simp [stmtFragments, stmtParts, hs.tidy, hs.rendered_eq, hss.tidy, hss.rendered_eq]

end

theorem CBlock.cuts (b : CBlock) : Cuts b.fragments b.parts :=
  ((cuts_flatMap (fun _ => ⟨by simp, by simp⟩) b.locals).append (cuts_stmtFragments b.body)).append
    (cuts_freeFragments b.frees)

theorem cuts_paramFragments (params : List (ValueType × String)) :
    Cuts (paramFragments params) [if params.isEmpty then "void"
      else Text.joined ", " (params.map fun (type, name) => typeName type ++ " " ++ variableName name)] := by
  fun_induction paramFragments params with
  | case1 => exact cuts_part (by simp) rfl
  | case2 type name => exact cuts_part (by simp) (by simp [Text.joined])
  | case3 type name params hne ih =>
    have hne : params ≠ [] := fun h => hne (by rw [h])
    obtain ⟨next, rest, rfl⟩ := List.exists_cons_of_ne_nil hne
    constructor
    · simp [ih.tidy]
    · simp [ih.rendered_eq, Text.joined, String.intercalate_cons_cons]

theorem CPrototype.cuts (p : CPrototype) : Cuts p.fragments p.parts := by
  have h := cuts_paramFragments p.params
  constructor
  · simp [fragments, h.tidy]
  · simp [fragments, parts, h.rendered_eq]

theorem CFunction.cuts (f : CFunction) : Cuts f.fragments f.parts := by
  have hh := f.head.cuts
  have hb := f.block.cuts
  constructor <;> simp [fragments, parts, hh.tidy, hh.rendered_eq, hb.tidy, hb.rendered_eq]

theorem CProgram.cuts_prototypes (p : CProgram) :
    Cuts p.prototypeFragments (p.functions.flatMap fun f => f.head.parts ++ [";\n"]) :=
  cuts_flatMap (fun f => f.head.cuts.append (cuts_part (by simp) rfl)) p.functions

theorem CProgram.cuts_definitions (p : CProgram) :
    Cuts p.definitionFragments (p.functions.flatMap CFunction.parts ++ p.block.parts) :=
  (cuts_flatMap CFunction.cuts p.functions).append p.block.cuts

end Cuts

/-- Fragments put together: a line ends where a semicolon is doubled, and the last blank is left out. -/
def merged (fragments : List Fragment) : String :=
  Text.replaceAll (String.ofList (rendered fragments).toList.dropLast) ";;" ";\n"

theorem Cuts.mergeParts_eq {parts : List String} (h : Cuts fragments parts) :
    mergeParts parts = merged fragments := by
  rw [mergeParts, merged, h.rendered_eq]
  congr 1
  by_cases hparts : parts = []
  · subst hparts
    rfl
  · rw [spread_eq_joined hparts]
    simp

theorem CProgram.prototypes_eq_merged (p : CProgram) : p.prototypes = merged p.prototypeFragments :=
  p.cuts_prototypes.mergeParts_eq

theorem CProgram.definitions_eq_merged (p : CProgram) : p.definitions = merged p.definitionFragments :=
  p.cuts_definitions.mergeParts_eq

end Labyrinth.Code
