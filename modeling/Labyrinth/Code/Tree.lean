import Labyrinth.Code.Frame

/-!
# Emitted programs

The C program that a program is emitted to, as a tree of its own. Writing it out gives a list of parts,
which are joined by blanks; a doubled semicolon ends a line.
-/

namespace Labyrinth.Code

inductive CExpr where
  /-- A literal, kept within the bounds of its type. -/
  | literal (type : IntType) (value : Int)
  /-- A number as it is. -/
  | plain (value : Int)
  | variable (name : String)
  | apply (function : String) (args : List CExpr)
  /-- Printing, with the types of the arguments. -/
  | print (types : List ValueType) (args : List CExpr)
  /-- Assertions, each with the type of its argument and its message. -/
  | asserts (types : List ValueType) (args : List CExpr) (messages : List String)
  | binary (op : BinOp) (left right : ValueType) (lhs rhs : CExpr)
  /-- A chain of comparisons; the first operand, then the others, with the types of all operands. -/
  | compare (first : CExpr) (firstType : ValueType) (ops : List CmpOp) (types : List ValueType)
      (operands : List CExpr)
  /-- An element of a field, with the type of its indices. -/
  | element (field : CExpr) (index : IntType) (i j : CExpr)
  | convert (source target : IntType) (value : CExpr)
  /-- Nothing at all: what is left of a function where it is defined. -/
  | nothing
deriving Inhabited

/-- One effect of an assignment. -/
inductive CStore where
  | element (target value : CExpr)
  /-- Sets a field up, with the type of its elements and of its indices. -/
  | setUp (item : IntType) (name : String) (value : CExpr) (index : IntType)
  | variable (type : ValueType) (name : String) (value : CExpr)
  /-- The value alone, for what does not live in a variable. -/
  | bare (value : CExpr)
deriving Inhabited

inductive CStmt where
  | expr (e : CExpr)
  | assign (stores : List CStore)
  /-- Frees fields and hands a value back. -/
  | giveBack (frees : List String) (value : CExpr)
  | condition (test : CExpr) (body : List CStmt)
  | loop (test : CExpr) (body : List CStmt)
deriving Inhabited

/-- The content of a scope: locals, statements, and the fields that are freed at the end. -/
structure CBlock where
  locals : List (ValueType × String)
  body : List CStmt
  frees : List String
deriving Inhabited

structure CPrototype where
  returns : ValueType
  name : String
  params : List (ValueType × String)
deriving Inhabited

structure CFunction where
  head : CPrototype
  block : CBlock
deriving Inhabited

/-- An emitted program: its functions, innermost first, and what stands outside of functions. -/
structure CProgram where
  functions : List CFunction
  block : CBlock
deriving Inhabited

/-! ## Names -/

def typeName (t : ValueType) : String := "slabes_type_" ++ t.name
def maxName (t : ValueType) : String := "slabes_max_value_" ++ t.name
def minName (t : ValueType) : String := "slabes_min_value_" ++ t.name
def formatName (t : ValueType) : String := "slabes_format_" ++ t.name
def variableName (name : String) : String := "slabes_var_" ++ name
def functionName (name : String) : String := "slabes_func_" ++ name

def entryName : String := "main"

/-- The C name of a function where it is defined. -/
def definitionName (name : String) : String :=
  if name = entryName then "program_main" else functionName name

/-! ## Writing -/

/-- A literal kept within the bounds of its type. -/
def literalText (type : IntType) (value : Int) : String :=
  s!"max(min({value}, {maxName (.int type)}), {minName (.int type)})"

def printFormat (types : List ValueType) : String :=
  String.join (types.map fun t => formatName t ++ " \" \" ") ++ "\"\\n\""

mutual

def CExpr.parts : CExpr → List String
  | .literal type value => [literalText type value]
  | .plain value => [toString value]
  | .variable name => [variableName name]
  | .apply function args => [functionName function, "(", Text.joined " " (listParts true args), ")"]
  | .print types args =>
    ["printf(", Text.joined " " (printFormat types :: listParts false args), ")"]
  | .asserts types args messages => assertParts types messages args
  | .binary op left right lhs rhs =>
    operatorName op.word left.name right.name :: "(" :: lhs.parts ++ "," :: rhs.parts ++ [")"]
  | .compare first firstType ops types operands => compareParts true first.parts firstType ops types operands
  | .element field index i j =>
    field.parts ++ "[" :: i.parts ++ "+" :: j.parts ++ ["*", maxName (.int index), "]"]
  | .convert source target value =>
    convertName source.name target.name :: "(" :: value.parts ++ [")"]
  | .nothing => []

/-- The parts of arguments with commas between them, or in front of each of them. -/
def listParts (first : Bool) : List CExpr → List String
  | [] => []
  | e :: es => (if first then [] else [","]) ++ e.parts ++ listParts false es

def assertParts (types : List ValueType) (messages : List String) : List CExpr → List String
  | [] => []
  | e :: es => match types, messages with
    | type :: types, message :: messages =>
      ["slabes_assert(", s!"slabes_convert_{type.name}_to_unsigned_tiny", "("] ++ e.parts ++
        ["),", "\"" ++ message ++ "\"", ")"] ++ assertParts types messages es
    | _, _ => []

/-- The parts of a chain of comparisons that goes on from an operand. -/
def compareParts (first : Bool) (lhs : List String) (left : ValueType) (ops : List CmpOp)
    (types : List ValueType) : List CExpr → List String
  | [] => []
  | e :: es => match ops, types with
    | op :: ops, right :: types =>
      (if first then [] else ["&&"]) ++
        operatorName op.word left.name right.name :: "(" :: lhs ++ "," :: e.parts ++ ")" ::
          compareParts false e.parts right ops types es
    | _, _ => []

end

def CStore.parts : CStore → List String
  | .element target value => target.parts ++ "=" :: value.parts
  | .setUp item name value index =>
    s!"init_slabes_type_matrix_{item.name}(&{variableName name}," :: value.parts ++
      [",", maxName (.int index), ")"]
  | .variable type name value =>
    ["assign_" ++ typeName type, "(&", variableName name, ","] ++ value.parts ++ [");;"]
  | .bare value => value.parts

def freeParts (names : List String) : List String :=
  names.flatMap fun name => ["free(", variableName name, ");;"]

mutual

def CStmt.parts : CStmt → List String
  | .expr e => e.parts
  | .assign stores => stores.flatMap CStore.parts
  | .giveBack frees value => freeParts frees ++ "return " :: value.parts ++ [";"]
  | .condition test body => "if (" :: test.parts ++ ") \x7b\n" :: stmtParts body ++ ["\x7d\n"]
  | .loop test body => "while (!(" :: test.parts ++ ")) \x7b\n" :: stmtParts body ++ ["\x7d\n"]

/-- The parts of statements, each with the end of a line after it. -/
def stmtParts : List CStmt → List String
  | [] => []
  | s :: ss => s.parts ++ ";;" :: stmtParts ss

end

def CBlock.parts (b : CBlock) : List String :=
  (b.locals.flatMap fun (type, name) => [typeName type, variableName name, " = 0;;"]) ++
    stmtParts b.body ++ freeParts b.frees

def CPrototype.parts (p : CPrototype) : List String :=
  let params := p.params.map fun (type, name) => typeName type ++ " " ++ variableName name
  [typeName p.returns, definitionName p.name, "(",
    if params.isEmpty then "void" else Text.joined ", " params, ")"]

def CFunction.parts (f : CFunction) : List String :=
  f.head.parts ++ "\x7b\n" :: f.block.parts ++ ["\x7d\n"]

/-- Parts put together: blanks between them, and a line ends where a semicolon is doubled. -/
def mergeParts (parts : List String) : String :=
  Text.replaceAll (Text.joined " " parts) ";;" ";\n"

def CProgram.prototypes (p : CProgram) : String :=
  mergeParts (p.functions.flatMap fun f => f.head.parts ++ [";\n"])

def CProgram.definitions (p : CProgram) : String :=
  mergeParts (p.functions.flatMap CFunction.parts ++ p.block.parts)

def CProgram.text (p : CProgram) (file : String) : String :=
  framed file p.prototypes p.definitions

end Labyrinth.Code
