import Labyrinth.Code.Operator

/-!
# Sections of the C program

Number types, fields, operators and conversions are written from texts with marks in them. Filling a text
replaces its marks one after another.
-/

namespace Labyrinth.Code

/-- Replaces marks in a text, one after another. -/
def fill (lines : List String) (marks : List (String × String)) : String :=
  marks.foldl (fun text mark => Text.replaceAll text mark.1 mark.2) (Text.joined "\n" lines)

/-- A piece of the C program with the names it defines. -/
structure Definition where
  names : List String
  text : String
deriving DecidableEq, Repr, Inhabited

/-- The signed and the unsigned type of a width, as they are named. -/
def signWords : List String := ["", "unsigned_"]

/-- The C type of a number type, its bounds, and assignment to it. -/
def intTypeLines : List String := [
  "",
  "typedef /*ctype*/ slabes_type_/*name*/;",
  "",
  "#define slabes_format_/*name*/ \"/*format*/\"",
  "#define slabes_max_value_/*name*/ /*max_value*/",
  "#define slabes_min_value_/*name*/ /*min_value*/",
  "",
  "void assign_slabes_type_/*name*/(slabes_type_/*name*/ *var, slabes_type_/*name*/ value) \x7b",
  "#ifdef SLABES_DEBUG_OP",
  "    printf(\"assign_slabes_type_/*name*/(%p, \" slabes_format_/*name*/ \")\\n\", var, value);",
  "#endif",
  "    *var = value;",
  "\x7d",
  ""]

/-- The names that the C type of a number type comes with. -/
def intTypeNames (name : String) : List String :=
  ["slabes_type_" ++ name, "slabes_format_" ++ name, "slabes_max_value_" ++ name, "slabes_min_value_" ++ name,
    "assign_slabes_type_" ++ name]

def intType (name ctype format : String) (range : Int × Int) : Except Fault Definition := do
  let least ← Radix.writeDecimal range.1
  let greatest ← Radix.writeDecimal range.2
  return ⟨intTypeNames name, fill intTypeLines
    [("/*ctype*/", ctype), ("/*name*/", name), ("/*format*/", format), ("/*max_value*/", greatest),
      ("/*min_value*/", least)]⟩

def intTypes (infos : List IntInfo) : Except Fault (List Definition) := do
  let pairs ← infos.mapM fun info => do
    let unsigned ← IntInfo.unsignedRange info.bits
    let signed := if info.canBeSigned then IntInfo.signedRange info.bits else unsigned
    return [← intType info.name info.ctype (info.format ++ "i") signed,
      ← intType ("unsigned_" ++ info.name) ("unsigned_" ++ info.ctype) (info.format ++ "u") unsigned]
  return pairs.flatten

/-- An arithmetic operator on numbers of one type. -/
def sameOperatorLines : List String := [
  "",
  "slabes_type_/*name*/ slabes_op_/*op_name*/__/*name1*/__/*name2*/(slabes_type_/*name1*/ lhs, slabes_type_/*name2*/ rhs) \x7b",
  "    slabes_type_/*name*/ result;",
  "    /*op*/;",
  "#ifdef SLABES_DEBUG_OP",
  "    printf(\"slabes_op_/*op_name*/__/*name1*/__/*name2*/(\" slabes_format_/*name1*/ \", \" slabes_format_/*name2*/ \")\", lhs, rhs);",
  "    printf(\" -> \" slabes_format_/*name*/ \"\\n\", result);",
  "#endif",
  "    return result;",
  "\x7d",
  ""]

/-- An arithmetic operator on numbers of two types. -/
def mixedOperatorLines : List String := [
  "",
  "#define slabes_op_/*op_name*/__/*name1*/__/*name2*/(lhs, rhs)     slabes_op_/*op_name*/__/*name*/__/*name*/(slabes_convert_/*name1*/_to_/*name*/(lhs), slabes_convert_/*name2*/_to_/*name*/(rhs))",
  ""]

def operatorName (op left right : String) : String :=
  s!"slabes_op_{op}__{left}__{right}"

def sameOperator (op : BinOp) (signed : Bool) (name : String) : Definition :=
  ⟨[operatorName op.word name name], fill sameOperatorLines
    [("/*op*/", (Operator.bodyOf op signed).text name), ("/*name*/", name), ("/*name1*/", name),
      ("/*name2*/", name), ("/*op_name*/", op.word)]⟩

/-- The operator for an operation on two types, which converts both operands to a common type. -/
def mixedOperator (op : BinOp) (common left right : String) : Definition :=
  ⟨[operatorName op.word left right], fill mixedOperatorLines
    [("/*name*/", common), ("/*name1*/", left), ("/*name2*/", right), ("/*op_name*/", op.word)]⟩

def sameOperators : List Definition :=
  NumberKind.all.flatMap fun kind =>
    [Signedness.signed, Signedness.unsigned].flatMap fun sign =>
      BinOp.all.map fun op => sameOperator op sign.isSigned (IntType.name ⟨kind, sign⟩)

def mixedOperators : List Definition :=
  NumberKind.all.flatMap fun left => NumberKind.all.flatMap fun right => BinOp.all.flatMap fun op =>
    [Signedness.signed, Signedness.unsigned].flatMap fun leftSign =>
      [Signedness.signed, Signedness.unsigned].filterMap fun rightSign =>
        let a : IntType := ⟨left, leftSign⟩
        let b : IntType := ⟨right, rightSign⟩
        if a = b then none else some (mixedOperator op (IntType.operatorType a b).name a.name b.name)

def arithmetic : List Definition := sameOperators ++ mixedOperators

def compareLines : List String := [
  "",
  "slabes_type_tiny slabes_op_/*op_name*/__/*name1*/__/*name2*/(slabes_type_/*name1*/ lhs, slabes_type_/*name2*/ rhs) \x7b",
  "#ifdef SLABES_DEBUG_OP",
  "    printf(\"slabes_op_/*op_name*/__/*name1*/__/*name2*/(\" slabes_format_/*name1*/ \", \" slabes_format_/*name2*/ \")\", lhs, rhs);",
  "#endif",
  "    if (lhs /*op*/ rhs) \x7b",
  "#ifdef SLABES_DEBUG_OP",
  "        printf(\" -> true\\n\");",
  "#endif",
  "        return slabes_max_value_unsigned_tiny;",
  "    \x7d else \x7b",
  "#ifdef SLABES_DEBUG_OP",
  "        printf(\" -> false\\n\");",
  "#endif",
  "        return slabes_min_value_unsigned_tiny;",
  "    \x7d",
  "\x7d",
  ""]

def comparison (op : CmpOp) (left right : String) : Definition :=
  ⟨[operatorName op.word left right], fill compareLines
    [("/*op*/", op.symbol), ("/*name1*/", left), ("/*name2*/", right), ("/*op_name*/", op.word)]⟩

def comparisons (infos : List IntInfo) : List Definition :=
  infos.flatMap fun left => infos.flatMap fun right => CmpOp.all.flatMap fun op =>
    signWords.flatMap fun leftWord => signWords.map fun rightWord =>
      comparison op (leftWord ++ left.name) (rightWord ++ right.name)

/-- A conversion between two widths. -/
def convertLines : List String := [
  "",
  "slabes_type_/*name2*/ slabes_convert_/*name1*/_to_/*name2*/(slabes_type_/*name1*/ value) \x7b",
  "#ifdef SLABES_DEBUG_OP",
  "    printf(\"slabes_convert_/*name1*/_to_/*name2*/(\" slabes_format_/*name1*/ \")\", value);",
  "#endif",
  "    if (value > slabes_max_value_/*name2*/) \x7b",
  "#ifdef SLABES_DEBUG_OP",
  "        printf(\" -> \" slabes_format_/*name2*/ \"\\n\", slabes_max_value_/*name2*/);",
  "#endif",
  "        return slabes_max_value_/*name2*/;",
  "    \x7d else if (value < slabes_min_value_/*name2*/) \x7b",
  "#ifdef SLABES_DEBUG_OP",
  "        printf(\" -> \" slabes_format_/*name2*/ \"\\n\", slabes_min_value_/*name2*/);",
  "#endif",
  "        return slabes_min_value_/*name2*/;",
  "    \x7d",
  "#ifdef SLABES_DEBUG_OP",
  "    else \x7b",
  "        printf(\" -> \" slabes_format_/*name2*/ \"\\n\", (slabes_type_/*name2*/)value);",
  "    \x7d",
  "#endif",
  "    return value;",
  "\x7d",
  ""]

/-- The conversion of a type to itself. -/
def convertSameLines : List String := [
  "",
  "#define slabes_convert_/*name1*/_to_/*name2*/(value) (value)",
  ""]

/-- The conversion of a width to unsigned. -/
def removeSignLines : List String := [
  "",
  "#define slabes_remove_sign_/*name*/ slabes_convert_/*name*/_to_unsigned_/*name*/",
  "slabes_type_unsigned_/*name*/ slabes_convert_/*name*/_to_unsigned_/*name*/(slabes_type_/*name*/ value) \x7b",
  "#ifdef SLABES_DEBUG_OP",
  "    printf(\"slabes_convert_/*name*/_to_unsigned_/*name*/(\" slabes_format_/*name*/ \")\", value);",
  "#endif",
  "    if (value < slabes_min_value_unsigned_/*name*/) \x7b",
  "#ifdef SLABES_DEBUG_OP",
  "        printf(\" -> \" slabes_format_/*name*/ \"\\n\", slabes_min_value_unsigned_/*name*/);",
  "#endif",
  "        return slabes_min_value_unsigned_/*name*/;",
  "    \x7d",
  "#ifdef SLABES_DEBUG_OP",
  "    else \x7b",
  "        printf(\" -> \" slabes_format_/*name*/ \"\\n\", (slabes_type_unsigned_/*name*/)value);",
  "    \x7d",
  "#endif",
  "    return value;",
  "\x7d",
  ""]

/-- The conversion of a width to signed. -/
def addSignLines : List String := [
  "",
  "#define slabes_add_sign_/*name*/ slabes_convert_unsigned_/*name*/_to_/*name*/",
  "slabes_type_/*name*/ slabes_convert_unsigned_/*name*/_to_/*name*/(slabes_type_unsigned_/*name*/ value) \x7b",
  "#ifdef SLABES_DEBUG_OP",
  "    printf(\"slabes_convert_unsigned_/*name*/_to_/*name*/(\" slabes_format_/*name*/ \")\", value);",
  "#endif",
  "    if (value > slabes_max_value_/*name*/) \x7b",
  "#ifdef SLABES_DEBUG_OP",
  "        printf(\" -> \" slabes_format_/*name*/ \"\\n\", slabes_max_value_/*name*/);",
  "#endif",
  "        return slabes_max_value_/*name*/;",
  "    \x7d",
  "#ifdef SLABES_DEBUG_OP",
  "    else \x7b",
  "        printf(\" -> \" slabes_format_/*name*/ \"\\n\", (slabes_type_/*name*/)value);",
  "    \x7d",
  "#endif",
  "    return value;",
  "\x7d",
  ""]

def convertName (source target : String) : String :=
  s!"slabes_convert_{source}_to_{target}"

def widthConversions (info : IntInfo) : List Definition :=
  let name := info.name
  [⟨["slabes_remove_sign_" ++ name, convertName name ("unsigned_" ++ name)],
      fill removeSignLines [("/*name*/", name)]⟩,
    ⟨["slabes_add_sign_" ++ name, convertName ("unsigned_" ++ name) name],
      fill addSignLines [("/*name*/", name)]⟩] ++
  signWords.map fun word =>
    ⟨[convertName (word ++ name) (word ++ name)],
      fill convertSameLines [("/*name1*/", word ++ name), ("/*name2*/", word ++ name)]⟩

def conversion (source target : String) : Definition :=
  ⟨[convertName source target], fill convertLines [("/*name1*/", source), ("/*name2*/", target)]⟩

/-- The conversions for some widths: first those within a width, then those between widths. -/
def conversions (infos : List IntInfo) : List Definition :=
  infos.flatMap widthConversions ++
  infos.zipIdx.flatMap fun (source, i) => infos.zipIdx.flatMap fun (target, k) =>
    if i = k then []
    else signWords.flatMap fun sourceWord => signWords.map fun targetWord =>
      conversion (sourceWord ++ source.name) (targetWord ++ target.name)

/-- The C type of a field, how it is set up, and assignment to it. -/
def matrixLines : List String := [
  "",
  "typedef slabes_type_/*name*/ *slabes_type_matrix_/*name*/;",
  "",
  "#define slabes_format_matrix_/*name*/ \"%p\"",
  "",
  "void init_slabes_type_matrix_/*name*/(slabes_type_matrix_/*name*/ *var, slabes_type_/*name*/ value, size_t size) \x7b",
  "#ifdef SLABES_DEBUG_OP",
  "    printf(\"assign_slabes_type_matrix_/*name*/(%p, \" slabes_format_/*name*/ \")\\n\", var, value);",
  "#endif",
  "    if (*var == NULL) \x7b",
  "        *var = malloc(size * size * sizeof(slabes_type_/*name*/));",
  "    \x7d",
  "    for (size_t i = 0; i < size * size; ++i) \x7b",
  "        (*var)[i] = value;",
  "    \x7d",
  "\x7d",
  "",
  "void assign_slabes_type_matrix_/*name*/(slabes_type_matrix_/*name*/ *var, slabes_type_matrix_/*name*/ value) \x7b",
  "#ifdef SLABES_DEBUG_OP",
  "    printf(\"assign_slabes_type_matrix_/*name*/(%p, \" slabes_format_matrix_/*name*/ \")\\n\", var, value);",
  "#endif",
  "    *var = value;",
  "\x7d",
  ""]

def matrixType (name : String) : Definition :=
  ⟨["slabes_type_matrix_" ++ name, "slabes_format_matrix_" ++ name, "init_slabes_type_matrix_" ++ name,
      "assign_slabes_type_matrix_" ++ name],
    fill matrixLines [("/*name*/", name)]⟩

def matrixTypes (infos : List IntInfo) : List Definition :=
  infos.flatMap fun info => [matrixType info.name, matrixType ("unsigned_" ++ info.name)]

/-- The definitions of the section with a given name; other names have none. -/
def definitionsOf (infos : List IntInfo) (name : String) : Except Fault (List Definition) :=
  match name with
  | "int_types" => intTypes infos
  | "int_bin_ops" => .ok arithmetic
  | "int_cmp_ops" => .ok (comparisons infos)
  | "int_conversions" => .ok (conversions infos)
  | "matrix_types" => .ok (matrixTypes infos)
  | _ => .ok []

def sectionText (definitions : List Definition) : String :=
  Text.joined "\n" (definitions.map Definition.text)

end Labyrinth.Code
