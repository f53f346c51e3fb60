import Labyrinth.Grammar.Parser

/-!
# Building the tree

Each builder makes one kind of node. Where the parts do not fit, it reports that and makes a node that stands
in for what was meant, so that parsing can go on.
-/

namespace Labyrinth.Parser

/-- A name. A keyword in its place is reported and kept; anything but a token gives an invalid name. -/
def makeName (part : Parsed) (span : Span) : Task Parser NameNode := do
  match part with
  | .token t =>
    if t.kind ≠ .name then
      let kind ← ofExcept t.kind.nameOf
      reportSpan s!"expected name, got keyword {kind}" (Span.ofToken t)
    return ⟨span, t.text⟩
  | _ => return ⟨span.asRecovered, "<invalid>"⟩

def digitsOf (t : Token) : String := String.ofList (t.text.toList.filter (· ≠ '_'))

/-- Whether a literal has more than three digits, which is reported. -/
def reportLength (t : Token) : Task Parser Bool := do
  let tooLarge := (digitsOf t).length > 3
  if tooLarge then
    reportSpan "number literal too large to be represented by any integral type" (Span.ofToken t)
  return tooLarge

/-- A literal, written in base 32 with up to three digits besides underscores. -/
def literalOf (t : Token) (tooLarge : Bool) (sign : Option Token) (span : Span) :
    Task Parser (NumberNode SignRef) := do
  let some value := Text.readInt? 32 (digitsOf t) | fail (.badNumeral 32 (digitsOf t))
  let span := if tooLarge then span.asRecovered else span
  match sign with
  | none => return ⟨span, value, ← newSign .unsigned⟩
  | some s =>
    if s.text = "-" then return ⟨span, -value, ← newSign .negative⟩
    else return ⟨span, value, ← newSign .positive⟩

/-- A literal without a sign. -/
def makeNumber (t : Token) (span : Span) : Task Parser (NumberNode SignRef) := do
  literalOf t (← reportLength t) none span

/-- The width that a kind of token names. -/
def kindOf? : TokenKind → Option NumberKind
  | .keyword .tiny => some .tiny
  | .keyword .small => some .small
  | .keyword .normal => some .normal
  | .keyword .big => some .big
  | _ => none

/-- A number type, by the kind of what stands at a place. Any other kind is reported and taken for the normal
width. -/
def typeOfKind (kind : TokenKind) (place span : Span) : Task Parser TypeNode := do
  match kindOf? kind with
  | some kind => return ⟨span, kind⟩
  | none =>
    let name ← ofExcept kind.nameOf
    reportSpan s!"expected number type, got {name}" place
    return ⟨span.asRecovered, .normal⟩

def makeNumberType (t : Token) (span : Span) : Task Parser TypeNode :=
  typeOfKind t.kind (Span.ofToken t) span

/-- The literal that a declaration starts with. Anything else is reported and taken for zero. -/
def makeInitial (what : String) : Expr SignRef → Task Parser (NumberNode SignRef)
  | .number n => return n
  | value => do
    reportSpan s!"{what} can be initialized only with a constant number" value.span
    return ⟨value.span.asRecovered, 0, ← newSign .unsigned⟩

def makeNumberDeclaration (type : TypeNode) (names : List NameNode) (value : Expr SignRef) (span : Span) :
    Task Parser (Stmt SignRef) := do
  return .declareNumber span type names (← makeInitial "number" value)

def makeFieldDeclaration (element size : TypeNode) (names : List NameNode) (value : Expr SignRef)
    (span : Span) : Task Parser (Stmt SignRef) := do
  return .declareField span element size names (← makeInitial "array" value)

/-- An element of a field: a name and two indices. -/
def makeSubscript (name : Parsed) (indices : List (Expr SignRef)) (span : Span) :
    Task Parser (Expr SignRef) := do
  match name, indices with
  | .expr (.name n), [i, j] => return .subscript span n i j
  | .expr (.name n), indices =>
    let place := ((indices.map Expr.span).getLast?).getD n.span
    reportSpan s!"subscript requires exactly two indices, got {indices.length}" place
    return .hole span.asRecovered
  | other, _ =>
    reportSpan "subscript requires a name" (← ofExcept other.spanOf)
    return .hole span.asRecovered

def makeCall (name : Parsed) (args : List (Expr SignRef)) (span : Span) : Task Parser (Expr SignRef) := do
  match name with
  | .expr (.name n) => return .call span n args
  | other =>
    reportSpan "function call requires a name" (← ofExcept other.spanOf)
    return .hole span.asRecovered

/-- Reports operands that nothing can be assigned to. -/
def reportTargets : List Parsed → Task Parser Unit
  | [] => pure ()
  | bad :: rest => do
    reportSpan s!"assignment to expression {bad.className} not allowed" (← ofExcept bad.spanOf)
    reportTargets rest

/-- A chain of assignments, without the parts that assign to something that cannot take a value. -/
def makeAssignment (first : Expr SignRef) (rest : List (Flow × Expr SignRef)) (span : Span) :
    Task Parser (Expr SignRef) := do
  let (parts, bads) := Chain.assemble first rest
  reportTargets (bads.map .expr)
  return .assign (if bads.isEmpty then span else span.asRecovered)
    (parts.map fun part => .mk part.span part.targets part.value)

/-- The command that a kind of token names. -/
def robotOpOf? : TokenKind → Option RobotOp
  | .keyword .go => some .move
  | .keyword .rl => some .rotateLeft
  | .keyword .rr => some .rotateRight
  | .keyword .sonar => some .sonar
  | .keyword .compass => some .compass
  | _ => none

/-- A command to the robot, by the kind of what stands at a place; any other kind ends the run. -/
def robotOpOfKind (kind : TokenKind) (place span : Span) : Task Parser (Expr SignRef) := do
  match robotOpOf? kind with
  | some op => return .robot span op
  | none =>
    let name ← ofExcept kind.nameOf
    reportSpan s!"expected robot operation, got {name}" place true
    fail (.assertion "unreachable")

/-- A command to the robot from a token. -/
def makeRobotOp (t : Token) (span : Span) : Task Parser (Expr SignRef) :=
  robotOpOfKind t.kind (Span.ofToken t) span

/-- A sign in front of an operand. A literal that has no sign yet takes it over and stays a literal. -/
def makeUnary (op : UnaryOp) (operand : Expr SignRef) (span : Span) : Task Parser (Expr SignRef) := do
  match operand with
  | .number n =>
    if (← get).signOf n.sign = .unsigned then
      setSign n.sign (match op with
        | .neg => .negative
        | .pos => .positive)
      return operand
    else return .unary span op operand
  | _ => return .unary span op operand

def exprsOf (p : Parsed) : List (Expr SignRef) :=
  p.items.filterMap fun
    | .expr e => some e
    | _ => none

/-- The statements of the list that a group of statements consists of. -/
def stmtsOf (p : Parsed) : List (Stmt SignRef) :=
  match p with
  | .tuple [.list items] => items.filterMap fun
    | .stmt s => some s
    | _ => none
  | _ => []

def namesOf (p : Parsed) : List NameNode :=
  p.items.filterMap fun
    | .expr (.name n) => some n
    | _ => none

def paramsOf (p : Parsed) : List ParamNode :=
  p.items.filterMap fun
    | .param q => some q
    | _ => none

/-- The arrows of a chain with their operands. -/
def tailsOf (p : Parsed) : List (Flow × Expr SignRef) :=
  p.items.filterMap fun
    | .list [.token t, .expr e] => some (if t.text = "<<" then .left else .right, e)
    | _ => none

/-- The comparisons of a chain with their operands. -/
def comparesOf (p : Parsed) : List (CmpOp × Expr SignRef) :=
  p.items.filterMap fun
    | .tuple [.cmpOp op, .expr e] => some (op, e)
    | _ => none

/-- A name from a token, with the span of the token. -/
def makeTokenName (t : Token) : Task Parser NameNode :=
  makeName (.token t) (Span.ofToken t)

/-- A number type from a token, with the span of the token. -/
def makeTokenType (t : Token) : Task Parser TypeNode :=
  makeNumberType t (Span.ofToken t)

def makeTokenNames : List Parsed → Task Parser (List NameNode)
  | [] => return []
  | .token t :: rest => do return (← makeTokenName t) :: (← makeTokenNames rest)
  | _ :: rest => makeTokenNames rest

/-- A name as a callee or as the name of a field, from a token. -/
def nameResult (t : Token) : Task Parser Parsed := do
  return .expr (.name (← makeTokenName t))

/-- The token that a builder needs. -/
def tokenPart (part : Parsed) (needed : String) : Task Parser Token :=
  match part with
  | .token t => return t
  | other => fail (.noPart s!"'{other.className}' object has no attribute '{needed}'")

/-- The builders of nodes that can be called one at a time. -/
inductive Builder where
  | name | number | numberType | robotOp | subscript | call | numberDeclaration | fieldDeclaration
  | assignment | unary
deriving DecidableEq, Repr, Inhabited

namespace Builder

def all : List Builder :=
  [name, number, numberType, robotOp, subscript, call, numberDeclaration, fieldDeclaration, assignment, unary]

/-- The name by which a builder is called. -/
def word : Builder → String
  | name => "make_name"
  | number => "make_number"
  | numberType => "make_number_type"
  | robotOp => "make_robot_op"
  | subscript => "make_subscript"
  | call => "make_call"
  | numberDeclaration => "make_number_declaration"
  | fieldDeclaration => "make_array_declaration"
  | assignment => "make_assignment"
  | unary => "make_unary_op"

/-- The names of the parts that a builder needs. -/
def params : Builder → List String
  | name => ["name"]
  | number => ["tok", "sign"]
  | numberType => ["tok"]
  | robotOp => ["tok"]
  | subscript => ["name", "indices"]
  | call => ["name", "args"]
  | numberDeclaration => ["type", "names", "value"]
  | fieldDeclaration => ["elem_t", "size_t", "names", "value"]
  | assignment => ["prev_value", "pairs"]
  | unary => ["op", "operand"]

/-- Names in a sentence. -/
def enumerated : List String → String
  | [a] => a
  | [a, b] => a ++ " and " ++ b
  | names => Text.joined ", " names.dropLast ++ ", and " ++ names.getLast?.getD ""

def countComplaint? (b : Builder) (count : Nat) : Option String :=
  let wanted := b.params.length
  if count < wanted then
    let missing := (b.params.drop count).map fun p => s!"'{p}'"
    let plural := if missing.length = 1 then "" else "s"
    some (s!"ParserBase.{b.word}() missing {missing.length} required positional argument{plural}: " ++
      enumerated missing)
  else if wanted < count then
    some s!"ParserBase.{b.word}() takes {wanted + 1} positional arguments but {count + 1} were given"
  else none

end Builder

/-- The kind that a part has: that of a token, or the number of the width of a number type. A part whose type is
a node has no kind that could be looked up. -/
def kindOfPart (part : Parsed) : Task Parser TokenKind :=
  match part with
  | .token t => return t.kind
  | .type t => return TokenKind.ofCode t.kind.rank
  | .param _ | .stmt (.declareNumber _ _ _ _) => fail (.wrongKind "unhashable type: 'NumberTypeRef'")
  | other => fail (.noPart s!"'{other.className}' object has no attribute 'type'")

/-- The items of a part that has a length; a token has its five fields, none of which has a place. -/
def itemsOfPart (part : Parsed) : Task Parser (List Parsed) :=
  match part with
  | .list items | .tuple items => return items
  | .token _ => fail (.noPart "'str' object has no attribute 'lineno'")
  | other => fail (.wrongKind s!"object of type '{other.className}' has no len()")

/-- The expressions that results are, if they are nothing else. -/
def allExprs? : List Parsed → Option (List (Expr SignRef))
  | [] => some []
  | .expr e :: rest => (allExprs? rest).map (e :: ·)
  | _ :: _ => none

/-- The names that results are, if they are nothing else. -/
def allNames? : List Parsed → Option (List NameNode)
  | [] => some []
  | .expr (.name n) :: rest => (allNames? rest).map (n :: ·)
  | _ :: _ => none

/-- An element of a field with indices of any kind. -/
def subscriptOf (name indices : Parsed) (span : Span) : Task Parser Parsed := do
  match name with
  | .expr (.name n) =>
    match ← itemsOfPart indices with
    | [.expr i, .expr j] => return .expr (.subscript span n i j)
    | [i, j] => return .node "Subscript" span ["value", "index1", "index2"] [name, i, j]
    | items =>
      let place ← ofExcept (items.getLast?.getD name).spanOf
      reportSpan s!"subscript requires exactly two indices, got {items.length}" place
      return .expr (.hole span.asRecovered)
  | other => return .expr (← makeSubscript other [] span)

/-- A call with arguments of any kind. -/
def callOf (name args : Parsed) (span : Span) : Task Parser Parsed := do
  match name, args with
  | .expr (.name n), .list items =>
    match allExprs? items with
    | some exprs => return .expr (.call span n exprs)
    | none => return .node "Call" span ["name", "args"] [name, args]
  | .expr (.name _), _ => return .node "Call" span ["name", "args"] [name, args]
  | other, _ => return .expr (← makeCall other [] span)

/-- The literal that a part is. Anything else with a place is reported and taken for zero. -/
def initialOf (what : String) (part : Parsed) : Task Parser (NumberNode SignRef) := do
  match part with
  | .expr (.number n) => return n
  | other =>
    let place ← ofExcept other.spanOf
    reportSpan s!"{what} can be initialized only with a constant number" place
    return ⟨place.asRecovered, 0, ← newSign .unsigned⟩

/-- A declaration of numbers with parts of any kind. -/
def numberDeclarationOf (type names value : Parsed) (span : Span) : Task Parser Parsed := do
  let value ← initialOf "number" value
  match type, names with
  | .type t, .list items =>
    if let some ns := allNames? items then return .stmt (.declareNumber span t ns value)
  | _, _ => pure ()
  return .node "NumberDeclaration" span ["type", "names", "value"] [type, names, .expr (.number value)]

/-- A declaration of fields with parts of any kind. -/
def fieldDeclarationOf (element size names value : Parsed) (span : Span) : Task Parser Parsed := do
  let value ← initialOf "array" value
  match element, size, names with
  | .type e, .type s, .list items =>
    if let some ns := allNames? items then return .stmt (.declareField span e s ns value)
  | _, _, _ => pure ()
  return .node "ArrayDeclaration" span ["element_type", "size_type", "names", "value"]
    [element, size, names, .expr (.number value)]

/-- The item at the start of a part. -/
def firstOfPart (part : Parsed) : Task Parser Parsed :=
  match part with
  | .list (item :: _) | .tuple (item :: _) => return item
  | .list [] | .tuple [] => fail .indexOutOfRange
  | other => fail (.wrongKind s!"'{other.className}' object is not subscriptable")

/-- The kind of the first field of a token, which is a number if the token has a kind. -/
def fieldKind (t : Token) : String := if t.kind.code?.isSome then "int" else "NoneType"

/-- Checks that the first pair of a chain starts with a token. -/
def checkPairs (pairs : Parsed) : Task Parser Unit := do
  unless pairs.succeeds do fail (.assertion "cannot assign to/from nothing, pairs is empty")
  if let .token t := pairs then fail (.wrongKind s!"'{fieldKind t}' object is not subscriptable")
  let first ← firstOfPart pairs
  if let .token t := first then fail (.noPart s!"'{fieldKind t}' object has no attribute 'string'")
  let _ ← tokenPart (← firstOfPart first) "string"

/-- A chain of assignments that starts with any result. A token has no place of its own in the tree, so it cannot
give a value. -/
def assignmentOf (first : Parsed) (rest : List (Flow × Expr SignRef)) (span : Span) : Task Parser Parsed := do
  if let .expr e := first then return .expr (← makeAssignment e rest span)
  let (parts, bads) := Chain.assemble first (rest.map fun (flow, e) => (flow, Parsed.expr e))
  if let some ⟨_, _, .token _⟩ := parts.head? then
    fail (.noPart s!"'{first.className}' object has no attribute 'lineno'")
  reportTargets bads
  return .node "Assignment" (if bads.isEmpty then span else span.asRecovered) ["parts"]
    [.list (parts.map fun part =>
      .node "BasicAssignment" part.span ["targets", "value"] [.list part.targets, part.value])]

/-- A sign in front of an operand, with any result in place of the sign: it counts as a plus. -/
def unaryOf (op operand : Parsed) (span : Span) : Task Parser Parsed := do
  if let .expr (.number n) := operand then
    if (← get).signOf n.sign = .unsigned then
      setSign n.sign .positive
      return operand
  return .node "UnaryOperation" span ["op", "operand"] [op, operand]

/-- Calls a builder with results of rules as its parts. -/
def make (builder : Builder) (parts : List Parsed) (span : Span) : Task Parser Parsed := do
  match builder, parts with
  | .name, [part] => return .expr (.name (← makeName part span))
  | .number, [part, sign] =>
    let t ← tokenPart part "string"
    let tooLarge ← reportLength t
    let sign ← match sign with
      | .nothing => pure none
      | other => some <$> tokenPart other "string"
    return .expr (.number (← literalOf t tooLarge sign span))
  | .numberType, [part] => return .type (← typeOfKind (← kindOfPart part) span span)
  | .robotOp, [part] => return .expr (← robotOpOfKind (← kindOfPart part) span span)
  | .subscript, [name, indices] => subscriptOf name indices span
  | .call, [name, args] => callOf name args span
  | .numberDeclaration, [type, names, value] => numberDeclarationOf type names value span
  | .fieldDeclaration, [element, size, names, value] => fieldDeclarationOf element size names value span
  | .assignment, [first, rest] =>
    checkPairs rest
    assignmentOf first (tailsOf rest) span
  | .unary, [op, operand] => unaryOf op operand span
  | _, _ => fail (.wrongKind "the parts do not fit the builder")

/-- The complaint about a name that belongs to neither a rule nor a builder. -/
def unknownName (name : String) : Fault :=
  .noPart s!"'SlabesParser' object has no attribute '{name}'"

/-- Calls the builder of a name with results of rules as its parts; the node spans the first of them. -/
def makeNamed (name : String) (parts : List Parsed) : Task Parser Parsed := do
  let span ← ofExcept (parts.headD .nothing).spanOf
  match Builder.all.find? fun b => b.word == name with
  | none => fail (unknownName name)
  | some builder =>
    if let some complaint := builder.countComplaint? parts.length then fail (.wrongKind complaint)
    make builder parts span

open Grammar

/-- Carries an action out on what the steps of an alternative kept. -/
def perform (action : Action) (span : Span) (kept : List Parsed) : Task Parser Parsed := do
  match action, kept with
  | .pass, [result] => return result
  | .list, results => return .list results
  | .program, [body] => return .program ⟨span, stmtsOf body⟩
  | .flatten, [groups] =>
    return .tuple [.list (groups.items.flatMap fun
      | .tuple [.list items] => items
      | _ => [])]
  | .group, [.list stmts] => return .tuple [.list stmts]
  | .group, _ => return .tuple [.list []]
  | .single, [.expr e] => return .stmt (.expr span e)
  | .function, [.type returns, .expr (.name name), params, body] =>
    return .stmt (.function span returns name.value (paramsOf params) (stmtsOf body))
  | .recoverFunction, [.token returns, .token name, params, body] =>
    let returns ← makeTokenType returns
    let name ← makeTokenName name
    return .stmt (.function span returns name.value (paramsOf params) (stmtsOf body))
  | .unclosedBegin, [.token t] =>
    reportSpan "'BEGIN' was never matched with 'END'" (Span.ofToken t) true
    return .nothing
  | .param, [.type type, .expr (.name name)] => return .param ⟨span, type, name⟩
  | .recoverParam, [.token type, .token name] =>
    let type ← makeTokenType type
    let name ← makeTokenName name
    return .param ⟨span, type, name⟩
  | .giveBack, [.expr e] => return .stmt (.giveBack span e)
  | .emptyReturn, [.token t] =>
    reportSpan "cannot return nothing" (Span.ofToken t) true
    return .nothing
  | .loop, [.expr test, body] => return .stmt (.loop span test (stmtsOf body))
  | .openUntil, [.token t] =>
    reportSpan "'UNTIL' was never matched with 'DO'" (Span.ofToken t) true
    return .nothing
  | .check, [.expr test, body] => return .stmt (.check span test (stmtsOf body))
  | .openCheck, [.token t] =>
    reportSpan "'CHECK' was never matched with 'DO'" (Span.ofToken t) true
    return .nothing
  | .field, [.type element, .type size, names, .expr value] =>
    return .stmt (← makeFieldDeclaration element size (namesOf names) value span)
  | .recoverField, [.token element, .token size, names, .expr value] =>
    let element ← makeTokenType element
    let size ← makeTokenType size
    let names ← makeTokenNames names.items
    return .stmt (← makeFieldDeclaration element size names value span)
  | .number, [.type type, names, .expr value] =>
    return .stmt (← makeNumberDeclaration type (namesOf names) value span)
  | .recoverNumber, [.token type, names, .expr value] =>
    let type ← makeTokenType type
    let names ← makeTokenNames names.items
    return .stmt (← makeNumberDeclaration type names value span)
  | .assign, [.expr first, rest] => return .expr (← makeAssignment first (tailsOf rest) span)
  | .compare, [.expr first, rest] =>
    let tails := comparesOf rest
    return .expr (.compare span first (tails.map Prod.fst) (tails.map Prod.snd))
  | .compareBit op, [result] => return .tuple [.cmpOp op, result]
  | .binary op, [.expr lhs, .expr rhs] => return .expr (.binary span lhs op rhs)
  | .unary op, [.expr operand] => return .expr (← makeUnary op operand span)
  | .subscript, [name, indices] => return .expr (← makeSubscript name (exprsOf indices) span)
  | .recoverSubscript, [.token name, indices] =>
    let name ← nameResult name
    return .expr (← makeSubscript name (exprsOf indices) span)
  | .unclosedBracket, [.token t] =>
    reportSpan "'[' was never closed" (Span.ofToken t) true
    return .nothing
  | .call, [name, args] => return .expr (← makeCall name (exprsOf args) span)
  | .recoverCall, [.token name, args] =>
    let name ← nameResult name
    return .expr (← makeCall name (exprsOf args) span)
  | .unclosedParen, [.token t] =>
    reportSpan "'(' was never closed" (Span.ofToken t) true
    return .nothing
  | .literal, [.token t] => return .expr (.number (← makeNumber t span))
  | .name, [part] => return .expr (.name (← makeName part span))
  | .robot, [.token t] => return .expr (← makeRobotOp t span)
  | .numberType, [.token t] => return .type (← makeNumberType t span)
  | _, _ => return .nothing

end Labyrinth.Parser
