import Labyrinth.Proofs.Code.Filling
import Labyrinth.Proofs.Code.Promotion

/-!
# What the frame provides

The frame around a program defines macros, types and functions. Each of its definitions introduces the names that it
is listed with, in a line of its own. The names are those for number types, fields, operators and conversions; there
are none for operators on fields and functions, for conversions of them, and for printing functions.
-/

namespace Labyrinth

open List

/-! ### Names of types -/

/-- The names of number types. -/
def IntType.names : List String :=
  ["tiny", "small", "normal", "big", "unsigned_tiny", "unsigned_small", "unsigned_normal", "unsigned_big"]

theorem IntType.name_mem_names (t : IntType) : t.name ∈ IntType.names := by
  obtain ⟨k, s⟩ := t
  simp only [IntType.name, NumberKind.word_eq]
  cases s.isSigned <;> cases k <;> decide

/-! ### Names of operations -/

theorem BinOp.letters_word (op : BinOp) : '/' ∉ op.word.toList ∧ 'x' ∉ op.word.toList ∧ 'f' ∉ op.word.toList := by
  cases op <;> decide +kernel

theorem CmpOp.letters_word (op : CmpOp) : '/' ∉ op.word.toList ∧ 'x' ∉ op.word.toList ∧ 'f' ∉ op.word.toList := by
  cases op <;> decide +kernel

namespace Code

/-! ### Lines that introduce names -/

/-- A line of a text begins with a text. -/
def LineBegins (text start : String) : Prop :=
  ∃ before after, text.toList = before ++ '\n' :: (start.toList ++ after)

/-- Whether a text has only letters, digits and underscores. -/
def isWord (text : String) : Bool :=
  text.toList.all fun c => c.isAlphanum || c == '_'

/-- A text introduces a name: a line begins with the definition of a macro, of a type or of a function. -/
inductive Introduces (text name : String) : Prop where
  | define (after : String) : after ∈ [" ", "("] → LineBegins text ("#define " ++ name ++ after) → Introduces text name
  | type (declared : String) : declared.toList.getLast? ∈ [some ' ', some '*'] →
      LineBegins text ("typedef " ++ declared ++ name ++ ";") → Introduces text name
  | function (returns : String) : isWord returns = true → LineBegins text (returns ++ " " ++ name ++ "(") →
      Introduces text name

variable {a b text word x : String} {d : Definition} {info : IntInfo}

theorem isWord_append (ha : isWord a = true) (hb : isWord b = true) : isWord (a ++ b) = true := by
  rw [isWord, String.toList_append, all_append, Bool.and_eq_true]
  exact ⟨ha, hb⟩

theorem slash_not_mem_of_isWord (h : isWord text = true) : '/' ∉ text.toList := fun hmem => by
  simpa using all_eq_true.1 h _ hmem

def frameMarks : List String :=
  ["/*ctype*/", "/*name*/", "/*format*/", "/*max_value*/", "/*min_value*/", "/*op*/", "/*op_name*/", "/*name1*/",
    "/*name2*/"]

theorem isMark_of_mem_frameMarks : ∀ mark ∈ frameMarks, isMark mark = true := by
  decide

/-- A filled text has lines that begin as those of the text did. -/
theorem begins_fill (k : Nat) (start : String) (slots : List (Slot × String)) {lines : List String}
    {marks : List (String × String)} {cs : List Char} {line : String} (hcs : lines[k + 1]? = some (String.ofList cs))
    (hopens : isOpened cs start slots = true) (hmarks : marks.map Prod.fst ⊆ frameMarks := by simp)
    (hnew : ∀ mark ∈ marks, '/' ∉ mark.2.toList ∨ ∀ entry ∈ slots, entry.1 ≠ .mark mark.1 := by simp [*])
    (hline : line.toList = start.toList ++ slotChars (fillSlots marks slots) := by simp) : LineBegins (fill lines marks) line := by
  obtain ⟨before, after, htext⟩ := opens_fill hcs hopens fun mark hmark =>
    ⟨isMark_of_mem_frameMarks _ (hmarks (mem_map_of_mem hmark)), hnew mark hmark⟩
  exact ⟨before, after, by rw [htext, hline, append_assoc]⟩

theorem toList_operatorName (op left right : String) : (operatorName op left right).toList =
    "slabes_op_".toList ++ (op.toList ++ ("__".toList ++ (left.toList ++ ("__".toList ++ right.toList)))) := by
  change ("slabes_op_" ++ op ++ "__" ++ left ++ "__" ++ right).toList = _
  simp only [String.toList_append, append_assoc]

theorem toList_convertName (source target : String) : (convertName source target).toList =
    "slabes_convert_".toList ++ (source.toList ++ ("_to_".toList ++ target.toList)) := by
  change ("slabes_convert_" ++ source ++ "_to_" ++ target).toList = _
  simp only [String.toList_append, append_assoc]

section Introducing

attribute [local simp] frameMarks fillSlots Slot.fill slotChars Slot.chars toList_operatorName toList_convertName

variable {name left right : String} (hname : isWord name = true) (hleft : isWord left = true)
  (hright : isWord right = true)

set_option maxRecDepth 4000 in
include hname in
theorem intType_introduces {ctype format greatest least : String} (hctype : isWord ctype = true) :
    ∀ x ∈ intTypeNames name, Introduces (fill intTypeLines [("/*ctype*/", ctype), ("/*name*/", name),
      ("/*format*/", format), ("/*max_value*/", greatest), ("/*min_value*/", least)]) x := by
  have hname := slash_not_mem_of_isWord hname
  have hctype := slash_not_mem_of_isWord hctype
  simp only [intTypeNames, forall_mem_cons, not_mem_nil, false_implies, implies_true, and_true]
  refine ⟨.type (ctype ++ " ") (by simp) ?_, .define " " (by simp) ?_, .define " " (by simp) ?_, .define " " (by simp) ?_,
    .function "void" (by decide) ?_⟩
  · exact begins_fill 0 "typedef " [(.mark "/*ctype*/", " slabes_type_"), (.mark "/*name*/", ";")] rfl rfl
  · exact begins_fill 2 "#define slabes_format_" [(.mark "/*name*/", " ")] rfl rfl
  · exact begins_fill 3 "#define slabes_max_value_" [(.mark "/*name*/", " ")] rfl rfl
  · exact begins_fill 4 "#define slabes_min_value_" [(.mark "/*name*/", " ")] rfl rfl
  · exact begins_fill 6 "void assign_slabes_type_" [(.mark "/*name*/", "(")] rfl rfl

set_option maxRecDepth 4000 in
include hname in
theorem matrixType_introduces : ∀ x ∈ (matrixType name).names, Introduces (matrixType name).text x := by
  have hname := slash_not_mem_of_isWord hname
  simp only [matrixType, forall_mem_cons, not_mem_nil, false_implies, implies_true, and_true]
  have hlast : ("slabes_type_" ++ name ++ " *").toList.getLast? = some '*' := by
    rw [String.toList_append, getLast?_append, show " *".toList.getLast? = some '*' by decide]
    rfl
  refine ⟨.type ("slabes_type_" ++ name ++ " *") (by rw [hlast]; simp) ?_,
    .define " " (by simp) ?_, .function "void" (by decide) ?_, .function "void" (by decide) ?_⟩
  · exact begins_fill 0 "typedef slabes_type_" [(.mark "/*name*/", " *slabes_type_matrix_"), (.mark "/*name*/", ";")]
      rfl rfl
  · exact begins_fill 2 "#define slabes_format_matrix_" [(.mark "/*name*/", " ")] rfl rfl
  · exact begins_fill 4 "void init_slabes_type_matrix_" [(.mark "/*name*/", "(")] rfl rfl
  · exact begins_fill 16 "void assign_slabes_type_matrix_" [(.mark "/*name*/", "(")] rfl rfl

set_option maxRecDepth 4000 in
include hname in
theorem sameOperator_introduces (op : BinOp) (signed : Bool) :
    Introduces (sameOperator op signed name).text (operatorName op.word name name) := by
  have hop := op.letters_word.1
  refine .function ("slabes_type_" ++ name) (isWord_append (by decide) hname) ?_
  have hname := slash_not_mem_of_isWord hname
  exact begins_fill 0 "slabes_type_" [(.mark "/*name*/", " slabes_op_"), (.mark "/*op_name*/", "__"),
    (.mark "/*name1*/", "__"), (.mark "/*name2*/", "(")] rfl rfl

set_option maxRecDepth 4000 in
include hname hleft hright in
theorem mixedOperator_introduces (op : BinOp) :
    Introduces (mixedOperator op name left right).text (operatorName op.word left right) := by
  have hop := op.letters_word.1
  have hname := slash_not_mem_of_isWord hname
  have hleft := slash_not_mem_of_isWord hleft
  have hright := slash_not_mem_of_isWord hright
  exact .define "(" (by simp) (begins_fill 0 "#define slabes_op_" [(.mark "/*op_name*/", "__"), (.mark "/*name1*/", "__"),
    (.mark "/*name2*/", "(")] rfl rfl)

set_option maxRecDepth 4000 in
include hleft hright in
theorem comparison_introduces (op : CmpOp) :
    Introduces (comparison op left right).text (operatorName op.word left right) := by
  have hop := op.letters_word.1
  have hleft := slash_not_mem_of_isWord hleft
  have hright := slash_not_mem_of_isWord hright
  refine .function "slabes_type_tiny" (by decide) ?_
  exact begins_fill 0 "slabes_type_tiny slabes_op_" [(.mark "/*op_name*/", "__"), (.mark "/*name1*/", "__"),
    (.mark "/*name2*/", "(")] rfl rfl

set_option maxRecDepth 4000 in
include hleft hright in
theorem conversion_introduces : Introduces (conversion left right).text (convertName left right) := by
  refine .function ("slabes_type_" ++ right) (isWord_append (by decide) hright) ?_
  have hleft := slash_not_mem_of_isWord hleft
  have hright := slash_not_mem_of_isWord hright
  exact begins_fill 0 "slabes_type_" [(.mark "/*name2*/", " slabes_convert_"), (.mark "/*name1*/", "_to_"),
    (.mark "/*name2*/", "(")] rfl rfl

set_option maxRecDepth 4000 in
theorem widthConversions_introduce {info : IntInfo} (hname : isWord info.name = true) :
    ∀ d ∈ widthConversions info, ∀ x ∈ d.names, Introduces d.text x := by
  have hslash := slash_not_mem_of_isWord hname
  have hsame {word : String} (hword : isWord word = true) : Introduces
      (fill convertSameLines [("/*name1*/", word ++ info.name), ("/*name2*/", word ++ info.name)])
      (convertName (word ++ info.name) (word ++ info.name)) := by
    have hword := slash_not_mem_of_isWord hword
    exact .define "(" (by simp) (begins_fill 0 "#define slabes_convert_" [(.mark "/*name1*/", "_to_"),
      (.mark "/*name2*/", "(")] rfl rfl)
  simp only [widthConversions, signWords, map_cons, map_nil, cons_append, nil_append,
    forall_mem_cons, not_mem_nil, false_implies, implies_true, and_true]
  refine ⟨⟨.define " " (by simp) ?_, .function ("slabes_type_unsigned_" ++ info.name)
      (isWord_append (by decide) hname) ?_⟩, ⟨.define " " (by simp) ?_, .function ("slabes_type_" ++ info.name)
      (isWord_append (by decide) hname) ?_⟩, hsame (by decide), hsame (by decide)⟩
  · exact begins_fill 0 "#define slabes_remove_sign_" [(.mark "/*name*/", " ")] rfl rfl
  · exact begins_fill 1 "slabes_type_unsigned_" [(.mark "/*name*/", " slabes_convert_"),
      (.mark "/*name*/", "_to_unsigned_"), (.mark "/*name*/", "(")] rfl rfl
  · exact begins_fill 0 "#define slabes_add_sign_" [(.mark "/*name*/", " ")] rfl rfl
  · exact begins_fill 1 "slabes_type_" [(.mark "/*name*/", " slabes_convert_unsigned_"),
      (.mark "/*name*/", "_to_"), (.mark "/*name*/", "(")] rfl rfl

end Introducing

/-! ### The names of the frame -/

def frameDefinitions : List Definition :=
  typeDefinitions ++ (operatorDefinitions ++ conversionDefinitions)

/-- The names that the definitions of the frame come with. -/
inductive RuntimeName : String → Prop where
  | number (t : IntType) {x : String} : x ∈ intTypeNames t.name → RuntimeName x
  | field (t : IntType) {x : String} : x ∈ (matrixType t.name).names → RuntimeName x
  | arithmetic (op : BinOp) (a b : IntType) : RuntimeName (operatorName op.word a.name b.name)
  | comparison (op : CmpOp) (a b : IntType) : RuntimeName (operatorName op.word a.name b.name)
  | conversion (a b : IntType) : RuntimeName (convertName a.name b.name)
  | removeSign (k : NumberKind) : RuntimeName ("slabes_remove_sign_" ++ k.word)
  | addSign (k : NumberKind) : RuntimeName ("slabes_add_sign_" ++ k.word)

/-- The width of a kind of numbers in C. -/
def infoOf : NumberKind → IntInfo
  | .tiny => ⟨"tiny", 1, "int8_t", "%hh", true⟩
  | .small => ⟨"small", 5, "int8_t", "%hh", true⟩
  | .normal => ⟨"normal", 10, "int16_t", "%h", true⟩
  | .big => ⟨"big", 15, "int16_t", "%h", true⟩

theorem standard_eq : IntInfo.standard = NumberKind.all.map infoOf := rfl

theorem infoOf_name (k : NumberKind) : (infoOf k).name = k.word := by
  rw [NumberKind.word_eq]
  cases k <;> rfl

/-- The word before the name of a width for a sign. -/
def signWord (s : Signedness) : String := if s.isSigned then "" else "unsigned_"

theorem name_eq_signWord (t : IntType) : t.name = signWord t.sign ++ (infoOf t.kind).name := by
  rw [IntType.name, signWord, infoOf_name]

theorem isWord_name (t : IntType) : isWord t.name = true :=
  (by decide : ∀ name ∈ IntType.names, isWord name = true) _ t.name_mem_names

/-- Every sign of a number type stands for one of the words, and the other way round. -/
theorem exists_sign_of_mem (h : word ∈ signWords) : ∃ s : Signedness, word = signWord s := by
  simp only [signWords, mem_cons, not_mem_nil, or_false] at h
  rcases h with rfl | rfl
  · exact ⟨.signed, rfl⟩
  · exact ⟨.unsigned, rfl⟩

theorem signWord_mem (s : Signedness) : signWord s ∈ signWords := by
  cases s <;> decide

/-- The C type of the number type of a width. -/
def IsIntType (info : IntInfo) (word : String) (d : Definition) : Prop :=
  ∃ format greatest least, d = ⟨intTypeNames (word ++ info.name), fill intTypeLines [("/*ctype*/", word ++ info.ctype),
    ("/*name*/", word ++ info.name), ("/*format*/", format), ("/*max_value*/", greatest), ("/*min_value*/", least)]⟩

theorem exists_mem_of_forall₂ {α β : Type} {R : α → β → Prop} {as : List α} {bs : List β} {a : α}
    (h : Forall₂ R as bs) (ha : a ∈ as) : ∃ b ∈ bs, R a b := by
  induction h with
  | nil => cases ha
  | cons hab _ ih =>
    rcases mem_cons.1 ha with rfl | ha
    · exact ⟨_, mem_cons_self, hab⟩
    · obtain ⟨b, hb, h⟩ := ih ha
      exact ⟨b, mem_cons_of_mem _ hb, h⟩

/-- The definitions of number types are those of both types of each width. -/
theorem intTypes_standard : ∃ ds, typeDefinitions = ds ++ matrixTypes IntInfo.standard ∧
    (∀ d ∈ ds, ∃ info ∈ IntInfo.standard, ∃ word ∈ signWords, IsIntType info word d) ∧
      ∀ info ∈ IntInfo.standard, ∀ word ∈ signWords, ∃ d ∈ ds, IsIntType info word d := by
  have hmade : ∃ ds, (intTypes IntInfo.standard).toOption.getD [] = ds ∧
      Forall₂ (fun entry => IsIntType entry.1 entry.2) (IntInfo.standard.product signWords) ds := by
    refine ⟨_, rfl, ?_⟩
    iterate 8 refine .cons ⟨_, _, _, rfl⟩ ?_
    exact .nil
  obtain ⟨ds, hds, hmade⟩ := hmade
  refine ⟨ds, by rw [typeDefinitions, hds], fun d hd => ?_, fun info hinfo word hword => ?_⟩
  · obtain ⟨⟨info, word⟩, hmem, h⟩ := exists_mem_of_forall₂ hmade.flip hd
    exact ⟨info, (pair_mem_product.1 hmem).1, word, (pair_mem_product.1 hmem).2, h⟩
  · exact exists_mem_of_forall₂ (a := (info, word)) hmade (pair_mem_product.2 ⟨hinfo, hword⟩)

theorem exists_kind_of_mem_standard (h : info ∈ IntInfo.standard) : ∃ k, info = infoOf k := by
  rw [standard_eq, mem_map] at h
  obtain ⟨k, -, rfl⟩ := h
  exact ⟨k, rfl⟩

theorem infoOf_mem_standard (k : NumberKind) : infoOf k ∈ IntInfo.standard :=
  mem_map_of_mem (mem_all_kinds k)

/-- A name that is put together for a width is the name of a number type. -/
theorem exists_type_of_mem (hinfo : info ∈ IntInfo.standard) (hword : word ∈ signWords) :
    ∃ t : IntType, word ++ info.name = t.name := by
  obtain ⟨k, rfl⟩ := exists_kind_of_mem_standard hinfo
  obtain ⟨s, rfl⟩ := exists_sign_of_mem hword
  exact ⟨⟨k, s⟩, (name_eq_signWord ⟨k, s⟩).symm⟩

/-- A definition comes with names of the frame, and its text introduces them. -/
def Definition.Sound (d : Definition) : Prop :=
  ∀ x ∈ d.names, RuntimeName x ∧ Introduces d.text x

theorem sound_of_mem_typeDefinitions : ∀ d ∈ typeDefinitions, d.Sound := by
  intro d hd
  obtain ⟨ds, hds, hmade, -⟩ := intTypes_standard
  rw [hds] at hd
  rcases mem_append.1 hd with hd | hd
  · obtain ⟨info, hinfo, word, hword, format, greatest, least, rfl⟩ := hmade d hd
    obtain ⟨t, ht⟩ := exists_type_of_mem hinfo hword
    have hctype : isWord (word ++ info.ctype) = true :=
      (by decide : ∀ info ∈ IntInfo.standard, ∀ word ∈ signWords, isWord (word ++ info.ctype) = true)
        info hinfo word hword
    rw [ht]
    exact fun x hx => ⟨.number t hx, intType_introduces (isWord_name t) hctype x hx⟩
  · obtain ⟨info, hinfo, hd⟩ := mem_flatMap.1 hd
    obtain ⟨word, hword, rfl⟩ : ∃ word ∈ signWords, d = matrixType (word ++ info.name) := by
      rcases mem_pair.1 hd with rfl | rfl
      · exact ⟨"", by decide, rfl⟩
      · exact ⟨"unsigned_", by decide, rfl⟩
    obtain ⟨t, ht⟩ := exists_type_of_mem hinfo hword
    rw [ht]
    exact fun x hx => ⟨.field t hx, matrixType_introduces (isWord_name t) x hx⟩

theorem sound_of_mem_operatorDefinitions : ∀ d ∈ operatorDefinitions, d.Sound := by
  intro d hd
  rw [operatorDefinitions, arithmetic, mem_append, mem_append] at hd
  rcases hd with (hd | hd) | hd
  · simp only [sameOperators, mem_flatMap, mem_map] at hd
    obtain ⟨k, -, s, -, op, -, rfl⟩ := hd
    intro x hx
    cases mem_singleton.1 hx
    exact ⟨.arithmetic op ⟨k, s⟩ ⟨k, s⟩, sameOperator_introduces (isWord_name ⟨k, s⟩) op _⟩
  · simp only [mixedOperators, mem_flatMap, mem_filterMap] at hd
    obtain ⟨k, -, k', -, op, -, s, -, s', -, hd⟩ := hd
    split at hd
    · cases hd
    · cases hd
      intro x hx
      cases mem_singleton.1 hx
      exact ⟨.arithmetic op ⟨k, s⟩ ⟨k', s'⟩,
        mixedOperator_introduces (isWord_name _) (isWord_name ⟨k, s⟩) (isWord_name ⟨k', s'⟩) op⟩
  · simp only [comparisons, mem_flatMap, mem_map] at hd
    obtain ⟨left, hleft, right, hright, op, -, word, hword, word', hword', rfl⟩ := hd
    obtain ⟨a, ha⟩ := exists_type_of_mem hleft hword
    obtain ⟨b, hb⟩ := exists_type_of_mem hright hword'
    rw [ha, hb]
    intro x hx
    cases mem_singleton.1 hx
    exact ⟨.comparison op a b, comparison_introduces (isWord_name a) (isWord_name b) op⟩

theorem sound_of_mem_conversionDefinitions : ∀ d ∈ conversionDefinitions, d.Sound := by
  intro d hd
  rw [conversionDefinitions, conversions, mem_append] at hd
  rcases hd with hd | hd
  · obtain ⟨info, hinfo, hd⟩ := mem_flatMap.1 hd
    obtain ⟨k, rfl⟩ := exists_kind_of_mem_standard hinfo
    have hname : isWord (infoOf k).name = true := by cases k <;> decide
    have hsigned : (infoOf k).name = IntType.name ⟨k, .signed⟩ := (name_eq_signWord ⟨k, .signed⟩).symm
    have hunsigned : "unsigned_" ++ (infoOf k).name = IntType.name ⟨k, .unsigned⟩ :=
      (name_eq_signWord ⟨k, .unsigned⟩).symm
    refine fun x hx => ⟨?_, widthConversions_introduce hname d hd x hx⟩
    simp only [widthConversions, signWords, map_cons, map_nil, cons_append, nil_append,
      mem_cons, not_mem_nil, or_false] at hd
    rcases hd with rfl | rfl | rfl | rfl
    · rcases mem_pair.1 hx with rfl | rfl
      · exact infoOf_name k ▸ .removeSign k
      · rw [hunsigned, hsigned]
        exact .conversion _ _
    · rcases mem_pair.1 hx with rfl | rfl
      · exact infoOf_name k ▸ .addSign k
      · rw [hunsigned, hsigned]
        exact .conversion _ _
    · cases mem_singleton.1 hx
      rw [show "" ++ (infoOf k).name = (infoOf k).name from String.empty_append, hsigned]
      exact .conversion _ _
    · cases mem_singleton.1 hx
      rw [hunsigned]
      exact .conversion _ _
  · simp only [mem_flatMap] at hd
    obtain ⟨⟨source, i⟩, hsource, ⟨target, k⟩, htarget, hd⟩ := hd
    dsimp only at hd
    split at hd
    · cases hd
    · simp only [mem_flatMap, mem_map] at hd
      obtain ⟨word, hword, word', hword', rfl⟩ := hd
      obtain ⟨a, ha⟩ := exists_type_of_mem (mem_of_getElem? (mem_zipIdx_iff_getElem?.1 hsource)) hword
      obtain ⟨b, hb⟩ := exists_type_of_mem (mem_of_getElem? (mem_zipIdx_iff_getElem?.1 htarget)) hword'
      rw [ha, hb]
      intro x hx
      cases mem_singleton.1 hx
      exact ⟨.conversion a b, conversion_introduces (isWord_name a) (isWord_name b)⟩

theorem mem_signs (op : CmpOp) : op ∈ CmpOp.all := by
  cases op <;> decide

/-- Some definition of the frame comes with each of the names. -/
theorem RuntimeName.exists_definition (h : RuntimeName x) : ∃ d ∈ frameDefinitions, x ∈ d.names := by
  have htype {d : Definition} (hd : d ∈ typeDefinitions) : d ∈ frameDefinitions := mem_append_left _ hd
  have hoperator {d : Definition} (hd : d ∈ operatorDefinitions) : d ∈ frameDefinitions :=
    mem_append_right _ (mem_append_left _ hd)
  have hconversion {d : Definition} (hd : d ∈ conversionDefinitions) : d ∈ frameDefinitions :=
    mem_append_right _ (mem_append_right _ hd)
  have hwidth {d : Definition} {k : NumberKind} (hd : d ∈ widthConversions (infoOf k)) : d ∈ frameDefinitions :=
    hconversion (mem_append_left _ (mem_flatMap.2 ⟨_, infoOf_mem_standard k, hd⟩))
  cases h with
  | number t hx =>
    obtain ⟨ds, hds, -, hmade⟩ := intTypes_standard
    obtain ⟨d, hd, _, _, _, rfl⟩ := hmade _ (infoOf_mem_standard t.kind) _ (signWord_mem t.sign)
    have hmem := htype (by rw [hds]; exact mem_append_left _ hd)
    rw [name_eq_signWord] at hx
    exact ⟨_, hmem, hx⟩
  | field t hx =>
    refine ⟨matrixType t.name, htype (mem_append_right _ ?_), hx⟩
    refine mem_flatMap.2 ⟨_, infoOf_mem_standard t.kind, ?_⟩
    rw [name_eq_signWord, signWord]
    split <;> simp
  | arithmetic op a b =>
    exact ⟨operatorFor op a b, hoperator (mem_append_left _ (operatorFor_mem op a b)), by simp [operatorFor_names]⟩
  | comparison op a b =>
    refine ⟨Code.comparison op a.name b.name, hoperator (mem_append_right _ ?_), mem_singleton_self _⟩
    simp only [comparisons, mem_flatMap, mem_map]
    exact ⟨_, infoOf_mem_standard a.kind, _, infoOf_mem_standard b.kind, op, mem_signs op, _, signWord_mem a.sign, _,
      signWord_mem b.sign, by rw [name_eq_signWord a, name_eq_signWord b]⟩
  | removeSign k => exact ⟨_, hwidth (k := k) mem_cons_self, by rw [infoOf_name]; exact mem_cons_self⟩
  | addSign k =>
    exact ⟨_, hwidth (k := k) (mem_cons_of_mem _ mem_cons_self), by rw [infoOf_name]; exact mem_cons_self⟩
  | conversion a b =>
    obtain ⟨k, s⟩ := a
    obtain ⟨k', s'⟩ := b
    rw [name_eq_signWord, name_eq_signWord]
    by_cases hkind : k = k'
    · subst hkind
      dsimp only [signWord]
      cases s.isSigned <;> cases s'.isSigned
      · exact ⟨_, hwidth (k := k) (mem_of_getElem? (i := 3) rfl), mem_singleton_self _⟩
      · exact ⟨_, hwidth (k := k) (mem_of_getElem? (i := 1) rfl), by simp⟩
      · exact ⟨_, hwidth (k := k) (mem_of_getElem? (i := 0) rfl), by simp⟩
      · exact ⟨_, hwidth (k := k) (mem_of_getElem? (i := 2) rfl), mem_singleton_self _⟩
    · have hplace (k : NumberKind) : (infoOf k, k.rank - 1) ∈ IntInfo.standard.zipIdx := by cases k <;> decide
      have hne : k.rank - 1 ≠ k'.rank - 1 := by cases k <;> cases k' <;> first | exact absurd rfl hkind | decide
      refine ⟨Code.conversion (signWord s ++ (infoOf k).name) (signWord s' ++ (infoOf k').name),
        hconversion (mem_append_right _ ?_), mem_singleton_self _⟩
      refine mem_flatMap.2 ⟨_, hplace k, mem_flatMap.2 ⟨_, hplace k', ?_⟩⟩
      dsimp only
      rw [if_neg hne]
      simp only [mem_flatMap, mem_map]
      exact ⟨_, signWord_mem s, _, signWord_mem s', rfl⟩

/-! ### Names that are provided -/

/-- A text stands in another one. -/
def StandsIn (text whole : String) : Prop :=
  text.toList <:+: whole.toList

theorem Introduces.mono {whole : String} (h : Introduces text x) (hin : StandsIn text whole) :
    Introduces whole x := by
  obtain ⟨before, after, hwhole⟩ := hin
  have hline {line : String} (hline : LineBegins text line) : LineBegins whole line := by
    obtain ⟨before', after', htext⟩ := hline
    exact ⟨before ++ before', after' ++ after, by rw [← hwhole, htext]; simp⟩
  cases h with
  | define stop hstop h => exact .define stop hstop (hline h)
  | type declared hdeclared h => exact .type declared hdeclared (hline h)
  | function returns hreturns h => exact .function returns hreturns (hline h)

theorem standsIn_joined {separator : String} {texts : List String} (h : text ∈ texts) :
    StandsIn text (Text.joined separator texts) := by
  induction texts with
  | nil => cases h
  | cons first rest ih =>
    cases rest with
    | nil =>
      cases mem_singleton.1 h
      simp [StandsIn, Text.joined]
    | cons next rest =>
      have hjoined : (Text.joined separator (first :: next :: rest)).toList =
          first.toList ++ (separator.toList ++ (Text.joined separator (next :: rest)).toList) := by
        simp [Text.joined, String.intercalate_cons_cons]
      rw [StandsIn, hjoined]
      rcases mem_cons.1 h with rfl | h
      · exact (prefix_append _ _).isInfix
      · exact (ih h).trans ((suffix_append_of_suffix (suffix_append _ _)).isInfix)

theorem StandsIn.refl : StandsIn text text :=
  infix_rfl

theorem StandsIn.append_left (h : StandsIn text a) (b : String) : StandsIn text (a ++ b) := by
  rw [StandsIn, String.toList_append]
  exact h.trans (prefix_append _ _).isInfix

theorem StandsIn.append_right (h : StandsIn text b) (a : String) : StandsIn text (a ++ b) := by
  rw [StandsIn, String.toList_append]
  exact h.trans (suffix_append _ _).isInfix

theorem standsIn_sections (h : d ∈ frameDefinitions) : StandsIn d.text sections := by
  have hsection {ds : List Definition} (hd : d ∈ ds) : StandsIn d.text (sectionText ds) :=
    standsIn_joined (mem_map_of_mem hd)
  simp only [frameDefinitions, typeDefinitions, operatorDefinitions, mem_append] at h
  rw [sections]
  rcases h with (h | h) | (h | h) | h
  · iterate 7 refine StandsIn.append_left ?_ _
    exact (hsection h).append_right _
  · iterate 6 refine StandsIn.append_left ?_ _
    exact (hsection h).append_right _
  · iterate 4 refine StandsIn.append_left ?_ _
    exact (hsection h).append_right _
  · iterate 3 refine StandsIn.append_left ?_ _
    exact (hsection h).append_right _
  · refine StandsIn.append_left ?_ _
    exact (hsection h).append_right _

set_option maxRecDepth 4000 in
theorem introduces_assert : Introduces sections "slabes_assert" := by
  have hmiddle : Introduces (Text.joined "\n" middleLines) "slabes_assert" := by
    refine .function "slabes_type_unsigned_tiny" (by decide) ?_
    obtain ⟨before, after, hlines⟩ := @exists_joined_eq middleLines _ 57 rfl
    obtain ⟨rest, hrest⟩ : ("slabes_type_unsigned_tiny" ++ " " ++ "slabes_assert" ++ "(").toList <+:
        "slabes_type_unsigned_tiny slabes_assert(slabes_type_unsigned_tiny value, const char *msg) \x7b".toList :=
      isPrefixOf_iff_prefix.1 (by decide)
    exact ⟨before, rest ++ after, by rw [hlines, ← hrest, append_assoc]⟩
  obtain ⟨before, hsections⟩ : ∃ before, sections = before ++ Text.joined "\n" middleLines := ⟨_, sections.eq_1⟩
  rw [hsections]
  exact hmiddle.mono (StandsIn.refl.append_right before)

/-- A name is provided by the frame: a definition comes with it, or it is that of the function for assertions, and a
line introduces it. -/
def Provided (x : String) : Prop :=
  ((∃ d ∈ frameDefinitions, x ∈ d.names) ∨ x = "slabes_assert") ∧ Introduces sections x

theorem sound_of_mem_frameDefinitions (h : d ∈ frameDefinitions) : d.Sound := by
  rcases mem_append.1 h with h | h
  · exact sound_of_mem_typeDefinitions d h
  · exact (mem_append.1 h).elim (sound_of_mem_operatorDefinitions d) (sound_of_mem_conversionDefinitions d)

theorem provided_iff : Provided x ↔ RuntimeName x ∨ x = "slabes_assert" := by
  constructor
  · rintro ⟨⟨d, hd, hx⟩ | rfl, -⟩
    · exact .inl (sound_of_mem_frameDefinitions hd x hx).1
    · exact .inr rfl
  · rintro (h | rfl)
    · obtain ⟨d, hd, hx⟩ := h.exists_definition
      exact ⟨.inl ⟨d, hd, hx⟩, (sound_of_mem_frameDefinitions hd x hx).2.mono (standsIn_sections hd)⟩
    · exact ⟨.inr rfl, introduces_assert⟩

/-! ### Sites -/

section Sites

variable (a b : IntType) {s t : ValueType}

theorem provided_convertName : Provided (convertName a.name b.name) :=
  provided_iff.2 (.inl (.conversion a b))

theorem provided_operatorName (op : BinOp) : Provided (operatorName op.word a.name b.name) :=
  provided_iff.2 (.inl (.arithmetic op a b))

theorem provided_maxName : Provided (maxName (.int a)) :=
  provided_iff.2 (.inl (.number a (mem_of_getElem? (i := 2) rfl)))

theorem provided_minName : Provided (minName (.int a)) :=
  provided_iff.2 (.inl (.number a (mem_of_getElem? (i := 3) rfl)))

theorem provided_initName : Provided ("init_slabes_type_matrix_" ++ a.name) :=
  provided_iff.2 (.inl (.field a (by simp [matrixType])))

/-- There is a C type for what lives in variables. -/
theorem provided_typeName (hvariable : t.isVariable = true) (ht : t ≠ .module) :
    Provided (typeName t) ∧ Provided ("assign_" ++ typeName t) := by
  cases t with
  | int a =>
    refine ⟨provided_iff.2 (.inl (.number a ?_)), provided_iff.2 (.inl (.number a ?_))⟩ <;> delta typeName <;>
      simp [intTypeNames, ValueType.name, ← String.append_assoc]
  | matrix item index =>
    refine ⟨provided_iff.2 (.inl (.field item ?_)), provided_iff.2 (.inl (.field item ?_))⟩ <;> delta typeName <;>
      simp [matrixType, ValueType.name, ← String.append_assoc]
  | module => exact absurd rfl ht
  | function => cases hvariable

/-- Letters that no number type has in its name. -/
theorem letters_name : 'x' ∉ a.name.toList ∧ 'f' ∉ a.name.toList ∧ 'c' ∉ a.name.toList :=
  (by decide : ∀ name ∈ IntType.names, 'x' ∉ name.toList ∧ 'f' ∉ name.toList ∧ 'c' ∉ name.toList) _
    a.name_mem_names

/-- The operators and conversions of the frame are for numbers, and its formats for numbers and fields. -/
theorem RuntimeName.letters {x : String} (h : RuntimeName x) :
    ("slabes_op_".toList <+: x.toList ∨ "slabes_convert_".toList <+: x.toList →
      'x' ∉ x.toList ∧ 'f' ∉ x.toList) ∧ ("slabes_format_".toList <+: x.toList → 'c' ∉ x.toList) := by
  cases h with
  | number t h =>
    simp only [intTypeNames, mem_cons, not_mem_nil, or_false] at h
    rcases h with rfl | rfl | rfl | rfl | rfl <;> simp [letters_name]
  | field t h =>
    simp only [matrixType, mem_cons, not_mem_nil, or_false] at h
    rcases h with rfl | rfl | rfl | rfl <;> simp [letters_name]
  | arithmetic op a b | comparison op a b =>
    have hop := op.letters_word.2
    simp [toList_operatorName, hop, letters_name]
  | conversion a b => simp [toList_convertName, letters_name]
  | removeSign k => simp
  | addSign k => simp

/-- A type that is neither that of numbers nor that of programs has a letter in its name that gives it away. -/
theorem letter_of_not_int (hint : ¬∃ a, t = .int a) (ht : t ≠ .module) :
    'x' ∈ t.name.toList ∨ 'f' ∈ t.name.toList := by
  cases t with
  | int a => exact absurd ⟨a, rfl⟩ hint
  | matrix item index => exact .inl (by simp [ValueType.name])
  | module => exact absurd rfl ht
  | function => exact .inr (by decide)

/-- There are comparisons for numbers only. -/
theorem provided_comparison_iff (op : CmpOp) (hs : s ≠ .module) (ht : t ≠ .module) :
    Provided (operatorName op.word s.name t.name) ↔ (∃ a, s = .int a) ∧ ∃ b, t = .int b := by
  constructor
  · intro h
    rcases provided_iff.1 h with h | h
    · have hletters := h.letters.1 (.inl (by rw [toList_operatorName]; exact prefix_append _ _))
      simp only [toList_operatorName, mem_append, not_or] at hletters
      have hnone {t : ValueType} (ht : t ≠ .module) (hx : 'x' ∉ t.name.toList) (hf : 'f' ∉ t.name.toList) :
          ∃ a, t = .int a := by
        by_contra hint
        exact (letter_of_not_int hint ht).elim hx hf
      exact ⟨hnone hs hletters.1.2.2.2.1 hletters.2.2.2.2.1, hnone ht hletters.1.2.2.2.2.2 hletters.2.2.2.2.2.2⟩
    · have hlist := congrArg String.toList h
      rw [toList_operatorName] at hlist
      simp at hlist
  · rintro ⟨⟨a, rfl⟩, ⟨b, rfl⟩⟩
    exact provided_iff.2 (.inl (.comparison op a b))

/-- Only numbers are converted to truth values. -/
theorem provided_toTruth_iff (ht : t ≠ .module) : Provided (convertName t.name "unsigned_tiny") ↔ ∃ a, t = .int a := by
  constructor
  · intro h
    by_contra hint
    rcases provided_iff.1 h with h | h
    · have hletters := h.letters.1 (.inr (by rw [toList_convertName]; exact prefix_append _ _))
      simp only [toList_convertName, mem_append, not_or] at hletters
      exact (letter_of_not_int hint ht).elim hletters.1.2.1 hletters.2.2.1
    · have hlist := congrArg String.toList h
      rw [toList_convertName] at hlist
      simp at hlist
  · rintro ⟨a, rfl⟩
    have htruth : Value.truthType.name = "unsigned_tiny" := by rw [IntType.name, NumberKind.word_eq]; rfl
    exact htruth ▸ provided_convertName a Value.truthType

/-- There is a format for everything but functions. -/
theorem provided_formatName_iff (ht : t ≠ .module) : Provided (formatName t) ↔ t ≠ .function := by
  constructor
  · rintro h rfl
    rcases provided_iff.1 h with h | h
    · exact h.letters.2 (by decide) (by decide)
    · exact absurd h (by decide)
  · intro hfunction
    cases t with
    | int a => exact provided_iff.2 (.inl (.number a (mem_of_getElem? (i := 1) rfl)))
    | matrix item index =>
      refine provided_iff.2 (.inl (.field item ?_))
      delta formatName
      simp [matrixType, ValueType.name, ← String.append_assoc]
    | module => exact absurd rfl ht
    | function => exact absurd rfl hfunction

end Sites

end Code

end Labyrinth
