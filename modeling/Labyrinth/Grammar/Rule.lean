import Labyrinth.Tree.Basic

/-!
# The grammar

The grammar is a table: every rule has a body, and a body is a choice between alternatives, a repetition, or a
list with separators. An alternative is a sequence of steps followed by an action that builds the result from
what the steps kept. The first alternative that succeeds wins. Some alternatives only take over in order to
complain: those that recover something readable from a mistake, and those, tried only on a second reading,
that find no way on.
-/

namespace Labyrinth.Grammar

inductive Rule where
  | start | statements | statementGroup | statement
  | functionDefinition | recoverFunctionDefinition | invalidFunctionDefinition
  | argument | recoverArgument
  | returnStmt | invalidReturnStmt
  | untilStmt | invalidUntilStmt
  | checkStmt | invalidCheckStmt
  | declaration | arrayDeclaration | recoverArrayDeclaration | numberDeclaration | recoverNumberDeclaration
  | expr | assignment | comparison | comparisonBits | sum | term | factor | primary
  | subscript | recoverSubscript | invalidSubscript
  | call | recoverCall | invalidCall
  | atom | recoverAtom | group | invalidGroup
  | robotOperation | robotKeyword | numberType | numberTypeRaw | identifier
  | word | wordNotBegin | keyword | keywordNotBegin
  | groups | statementList | moreStatements | commas
  | paramList | moreParams | recoverParamList | moreRecoverParams | invalidParamList | moreInvalidParams
  | fieldNames | recoverFieldNames | numberNames | recoverNumberNames
  | assignTails | compareTails
  | indices | recoverIndices | invalidIndices | args | recoverArgs | invalidArgs
  | separators | assignTail | assignOp
deriving DecidableEq, Hashable, Repr, Inhabited

namespace Rule

/-- All rules with their printed names. -/
def table : List (Rule × String) := [
  (start, "start"), (statements, "statements"), (statementGroup, "statement_group"),
  (statement, "statement"), (functionDefinition, "function_definition"),
  (recoverFunctionDefinition, "recover_function_definition"),
  (invalidFunctionDefinition, "invalid_function_definition"), (argument, "argument"),
  (recoverArgument, "recover_argument"), (returnStmt, "return_stmt"),
  (invalidReturnStmt, "invalid_return_stmt"), (untilStmt, "until_stmt"),
  (invalidUntilStmt, "invalid_until_stmt"), (checkStmt, "check_stmt"),
  (invalidCheckStmt, "invalid_check_stmt"), (declaration, "declaration"),
  (arrayDeclaration, "array_declaration"), (recoverArrayDeclaration, "recover_array_declaration"),
  (numberDeclaration, "number_declaration"), (recoverNumberDeclaration, "recover_number_declaration"),
  (expr, "expr"), (assignment, "assignment"), (comparison, "comparison"),
  (comparisonBits, "comparison_bits"), (sum, "sum"), (term, "term"), (factor, "factor"),
  (primary, "primary"), (subscript, "subscript"), (recoverSubscript, "recover_subscript"),
  (invalidSubscript, "invalid_subscript"), (call, "call"), (recoverCall, "recover_call"),
  (invalidCall, "invalid_call"), (atom, "atom"), (recoverAtom, "recover_atom"), (group, "group"),
  (invalidGroup, "invalid_group"), (robotOperation, "robot_operation"), (robotKeyword, "robot_keyword"),
  (numberType, "number_type"), (numberTypeRaw, "number_type_raw"), (identifier, "identifier"),
  (word, "word"), (wordNotBegin, "word_not_begin"), (keyword, "keyword"),
  (keywordNotBegin, "keyword_not_begin"), (groups, "_loop1_1"), (statementList, "_gather_2"),
  (moreStatements, "_loop0_3"), (commas, "_loop0_4"), (paramList, "_gather_5"), (moreParams, "_loop0_6"),
  (recoverParamList, "_gather_7"), (moreRecoverParams, "_loop0_8"), (invalidParamList, "_gather_9"),
  (moreInvalidParams, "_loop0_10"), (fieldNames, "_loop1_11"), (recoverFieldNames, "_loop1_12"),
  (numberNames, "_loop1_13"), (recoverNumberNames, "_loop1_14"), (assignTails, "_loop1_15"),
  (compareTails, "_loop1_16"), (indices, "_loop0_17"), (recoverIndices, "_loop0_18"),
  (invalidIndices, "_loop0_19"), (args, "_loop0_20"), (recoverArgs, "_loop0_21"),
  (invalidArgs, "_loop0_22"), (separators, "_loop1_23"), (assignTail, "_tmp_24"), (assignOp, "_tmp_25")]

def name (r : Rule) : String :=
  (table.lookup r).getD ""

end Rule

/-- Rules that accept one token by its kind. -/
inductive TokenRule where
  | name | number | string | fstringStart | fstringMiddle | fstringEnd | op | typeComment | softKeyword
deriving DecidableEq, Hashable, Repr, Inhabited

namespace TokenRule

/-- All token rules with their printed names. -/
def table : List (TokenRule × String) := [
  (name, "name"), (number, "number"), (string, "string"), (fstringStart, "fstring_start"),
  (fstringMiddle, "fstring_middle"), (fstringEnd, "fstring_end"), (op, "op"),
  (typeComment, "type_comment"), (softKeyword, "soft_keyword")]

end TokenRule

/-- What a step of an alternative calls. -/
inductive Call where
  | rule (r : Rule)
  | token (r : TokenRule)
  | keyword (k : Keyword)
  /-- The token with a text, or of the kind that the text names. -/
  | expect (text : String)
deriving DecidableEq, Hashable, Repr, Inhabited

namespace Call

/-- The printed name of a call, and what it is called with. -/
def label : Call → String × String
  | rule r => (r.name, "")
  | token r => ((TokenRule.table.lookup r).getD "", "")
  | keyword k => (k.name, "")
  | expect text => ("expect", Text.quoted text)

/-- The call with a printed name, if there is one. -/
def ofName? (name : String) : Option Call :=
  match Rule.table.find? fun entry => entry.2 == name with
  | some (r, _) => some (rule r)
  | none => match TokenRule.table.find? fun entry => entry.2 == name with
    | some (r, _) => some (token r)
    | none => (Keyword.all.find? fun k => k.name == name).map keyword

end Call

/-- How the result of an alternative is made from what its steps kept. -/
inductive Action where
  /-- The one kept result itself. -/
  | pass
  /-- The kept results as a list. -/
  | list
  | program | flatten | group | single
  | function | recoverFunction | unclosedBegin
  | param | recoverParam
  | giveBack | emptyReturn
  | loop | openUntil
  | check | openCheck
  | field | recoverField | number | recoverNumber
  | assign | compare | compareBit (op : CmpOp) | binary (op : BinOp) | unary (op : UnaryOp)
  | subscript | recoverSubscript | unclosedBracket
  | call | recoverCall | unclosedParen
  | literal | name | robot | numberType
deriving DecidableEq, Repr, Inhabited

/-- Whether the result of an action has a span of its own, from the start of the rule to the last token read. -/
def Action.located : Action → Bool
  | program | single | function | recoverFunction | param | recoverParam | giveBack | loop | check => true
  | field | recoverField | number | recoverNumber | assign | compare | binary _ | unary _ => true
  | subscript | recoverSubscript | call | recoverCall | literal | name | robot | numberType => true
  | _ => false

inductive Step where
  /-- Has to succeed. -/
  | need (c : Call)
  /-- Has to succeed, and its result is kept. -/
  | keep (c : Call)
  /-- May fail. -/
  | opt (c : Call)
  /-- May fail; its result, or nothing, is kept. -/
  | keepOpt (c : Call)
  /-- Has to succeed, but reads nothing. -/
  | ahead (c : Call)
  /-- From here on no other alternative is tried. -/
  | cut
deriving DecidableEq, Repr, Inhabited

/-- A sequence of steps and what to do with their results. -/
structure Alternative where
  steps : List Step
  action : Action
  /-- Whether it is tried only on a second reading, and then never yields a result. -/
  invalid : Bool := false
deriving DecidableEq, Repr, Inhabited

inductive Body where
  | choice (alternatives : List Alternative)
  /-- The kept results of as many rounds as succeed, as a list. -/
  | rounds (steps : List Step)
  /-- A first item and the list of the others. -/
  | gather (first : Rule) (others : Rule)
deriving DecidableEq, Repr, Inhabited

/-- How the results of a rule are remembered. -/
inductive Memory where
  | remembered
  /-- Remembered, and grown from a seed, because the rule calls itself before reading anything. -/
  | grown
  | forgotten
deriving DecidableEq, Repr, Inhabited

def Rule.memory : Rule → Memory
  | sum | term | primary => .grown
  | subscript | call => .forgotten
  | _ => .remembered

/-- One alternative that passes on the result of another rule. -/
def only (r : Rule) : Alternative := ⟨[.keep (.rule r)], .pass, false⟩

/-- One alternative that accepts a keyword. -/
def onlyKeyword (k : Keyword) : Alternative := ⟨[.keep (.keyword k)], .pass, false⟩

/-- One alternative that only complains. -/
def onlyInvalid (r : Rule) : Alternative := ⟨[.need (.rule r)], .pass, true⟩

/-- The steps of a function up to its body, with the rules for its type, its name and its parameters. -/
def functionHead (type name : Rule) (params : Rule) : List Step :=
  [.keep (.rule type), .keep (.rule name), .keepOpt (.rule params), .opt (.expect ",")]

open Keyword in
def Rule.body : Rule → Body
  | start => .choice [⟨[.keep (.rule statements), .need (.expect "ENDMARKER")], .program, false⟩]
  | statements => .choice [⟨[.keep (.rule groups)], .flatten, false⟩]
  | statementGroup => .choice
      [⟨[.keepOpt (.rule statementList), .opt (.rule commas), .need (.expect ".")], .group, false⟩]
  | statement => .choice
      [⟨[.ahead (.keyword untilWord), .cut, .keep (.rule untilStmt)], .pass, false⟩,
       ⟨[.ahead (.keyword check), .cut, .keep (.rule checkStmt)], .pass, false⟩,
       ⟨[.ahead (.keyword returnWord), .cut, .keep (.rule returnStmt)], .pass, false⟩,
       only functionDefinition, only declaration,
       ⟨[.keep (.rule expr)], .single, false⟩]
  | functionDefinition => .choice
      [⟨functionHead numberType identifier paramList ++
          [.need (.keyword begin), .keep (.rule statementGroup), .need (.keyword endWord)], .function, false⟩,
       only recoverFunctionDefinition, onlyInvalid invalidFunctionDefinition]
  | recoverFunctionDefinition => .choice
      [⟨functionHead word word recoverParamList ++
          [.need (.keyword begin), .keep (.rule statementGroup), .need (.keyword endWord)],
        .recoverFunction, false⟩]
  | invalidFunctionDefinition => .choice
      [⟨[.need (.rule word), .need (.rule word), .opt (.rule invalidParamList), .opt (.expect ","),
          .keep (.keyword begin), .opt (.rule statementGroup)], .unclosedBegin, false⟩]
  | argument => .choice
      [⟨[.keep (.rule numberType), .keep (.rule identifier)], .param, false⟩, only recoverArgument]
  | recoverArgument => .choice
      [⟨[.keep (.rule wordNotBegin), .keep (.rule wordNotBegin)], .recoverParam, false⟩]
  | returnStmt => .choice
      [⟨[.need (.keyword returnWord), .keep (.rule expr)], .giveBack, false⟩, onlyInvalid invalidReturnStmt]
  | invalidReturnStmt => .choice [⟨[.keep (.keyword returnWord)], .emptyReturn, false⟩]
  | untilStmt => .choice
      [⟨[.need (.keyword untilWord), .keep (.rule expr), .need (.keyword doWord),
          .keep (.rule statementGroup)], .loop, false⟩, onlyInvalid invalidUntilStmt]
  | invalidUntilStmt => .choice [⟨[.keep (.keyword untilWord), .opt (.rule expr)], .openUntil, false⟩]
  | checkStmt => .choice
      [⟨[.need (.keyword check), .keep (.rule expr), .need (.keyword doWord),
          .keep (.rule statementGroup)], .check, false⟩, onlyInvalid invalidCheckStmt]
  | invalidCheckStmt => .choice [⟨[.keep (.keyword check), .opt (.rule expr)], .openCheck, false⟩]
  | declaration => .choice
      [⟨[.ahead (.keyword field), .cut, .keep (.rule arrayDeclaration)], .pass, false⟩, only numberDeclaration]
  | arrayDeclaration => .choice
      [⟨[.need (.keyword field), .keep (.rule numberType), .keep (.rule numberType),
          .keep (.rule fieldNames), .need (.expect "<<"), .keep (.rule expr)], .field, false⟩,
       only recoverArrayDeclaration]
  | recoverArrayDeclaration => .choice
      [⟨[.need (.keyword field), .keep (.rule word), .keep (.rule word), .keep (.rule recoverFieldNames),
          .need (.expect "<<"), .keep (.rule expr)], .recoverField, false⟩]
  | numberDeclaration => .choice
      [⟨[.keep (.rule numberType), .keep (.rule numberNames), .need (.expect "<<"), .keep (.rule expr)],
        .number, false⟩, only recoverNumberDeclaration]
  | recoverNumberDeclaration => .choice
      [⟨[.keep (.rule word), .keep (.rule recoverNumberNames), .need (.expect "<<"), .keep (.rule expr)],
        .recoverNumber, false⟩]
  | expr => .choice [only assignment]
  | assignment => .choice
      [⟨[.keep (.rule comparison), .keep (.rule assignTails)], .assign, false⟩, only comparison]
  | comparison => .choice [⟨[.keep (.rule sum), .keep (.rule compareTails)], .compare, false⟩, only sum]
  | comparisonBits => .choice
      [⟨[.need (.expect "=="), .keep (.rule sum)], .compareBit .eq, false⟩,
       ⟨[.need (.expect "<>"), .keep (.rule sum)], .compareBit .ne, false⟩,
       ⟨[.need (.expect "<="), .keep (.rule sum)], .compareBit .le, false⟩,
       ⟨[.need (.expect "=>"), .keep (.rule sum)], .compareBit .ge, false⟩]
  | sum => .choice
      [⟨[.keep (.rule sum), .need (.expect "+"), .keep (.rule term)], .binary .add, false⟩,
       ⟨[.keep (.rule sum), .need (.expect "-"), .keep (.rule term)], .binary .sub, false⟩, only term]
  | term => .choice
      [⟨[.keep (.rule term), .need (.expect "\\"), .keep (.rule factor)], .binary .mul, false⟩,
       ⟨[.keep (.rule term), .need (.expect "/"), .keep (.rule factor)], .binary .div, false⟩, only factor]
  | factor => .choice
      [⟨[.need (.expect "+"), .keep (.rule factor)], .unary .pos, false⟩,
       ⟨[.need (.expect "-"), .keep (.rule factor)], .unary .neg, false⟩, only primary]
  | primary => .choice [only subscript, only call, only atom]
  | subscript => .choice
      [⟨[.keep (.rule primary), .need (.expect "["), .keepOpt (.rule indices), .need (.expect "]")],
        .subscript, false⟩, only recoverSubscript, onlyInvalid invalidSubscript]
  | recoverSubscript => .choice
      [⟨[.keep (.rule word), .need (.expect "["), .keepOpt (.rule recoverIndices), .need (.expect "]")],
        .recoverSubscript, false⟩]
  | invalidSubscript => .choice
      [⟨[.need (.rule word), .keep (.expect "["), .opt (.rule invalidIndices)], .unclosedBracket, false⟩]
  | call => .choice
      [⟨[.keep (.rule primary), .need (.expect "("), .keepOpt (.rule args), .need (.expect ")")],
        .call, false⟩, only recoverCall, onlyInvalid invalidCall]
  | recoverCall => .choice
      [⟨[.keep (.rule word), .need (.expect "("), .keepOpt (.rule recoverArgs), .need (.expect ")")],
        .recoverCall, false⟩]
  | invalidCall => .choice
      [⟨[.need (.rule word), .keep (.expect "("), .opt (.rule invalidArgs)], .unclosedParen, false⟩]
  | atom => .choice
      [only identifier, ⟨[.keep (.token .number)], .literal, false⟩, only robotOperation,
       ⟨[.ahead (.expect "("), .keep (.rule group)], .pass, false⟩, only recoverAtom]
  | recoverAtom => .choice [⟨[.keep (.rule word)], .name, false⟩]
  | group => .choice
      [⟨[.need (.expect "("), .keep (.rule comparison), .need (.expect ")")], .pass, false⟩,
       onlyInvalid invalidGroup]
  | invalidGroup => .choice [⟨[.keep (.expect "("), .need (.rule comparison)], .unclosedParen, false⟩]
  | robotOperation => .choice [⟨[.keep (.rule robotKeyword)], .robot, false⟩]
  | robotKeyword => .choice
      [onlyKeyword go, onlyKeyword rl, onlyKeyword rr, onlyKeyword sonar, onlyKeyword compass]
  | numberType => .choice [⟨[.keep (.rule numberTypeRaw)], .numberType, false⟩]
  | numberTypeRaw => .choice [onlyKeyword tiny, onlyKeyword small, onlyKeyword normal, onlyKeyword big]
  | identifier => .choice [⟨[.keep (.token .name)], .name, false⟩]
  | word => .choice [⟨[.keep (.token .name)], .pass, false⟩, only keyword]
  | wordNotBegin => .choice [⟨[.keep (.token .name)], .pass, false⟩, only keywordNotBegin]
  | keyword => .choice
      [only numberTypeRaw, onlyKeyword field, onlyKeyword begin, onlyKeyword endWord, onlyKeyword untilWord,
       onlyKeyword doWord, onlyKeyword check, only robotKeyword]
  | keywordNotBegin => .choice
      [only numberTypeRaw, onlyKeyword field, onlyKeyword endWord, onlyKeyword untilWord,
       onlyKeyword doWord, onlyKeyword check, only robotKeyword]
  | groups => .rounds [.keep (.rule statementGroup)]
  | statementList => .gather statement moreStatements
  | moreStatements => .rounds [.need (.rule separators), .keep (.rule statement)]
  | commas | separators => .rounds [.keep (.expect ",")]
  | paramList => .gather argument moreParams
  | recoverParamList => .gather argument moreRecoverParams
  | invalidParamList => .gather argument moreInvalidParams
  | moreParams | moreRecoverParams | moreInvalidParams => .rounds [.need (.expect ","), .keep (.rule argument)]
  | fieldNames | numberNames => .rounds [.keep (.rule identifier)]
  | recoverFieldNames | recoverNumberNames => .rounds [.keep (.rule word)]
  | assignTails => .rounds [.keep (.rule assignTail)]
  | compareTails => .rounds [.keep (.rule comparisonBits)]
  | indices | recoverIndices | invalidIndices | args | recoverArgs | invalidArgs =>
    .rounds [.keep (.rule expr)]
  | assignTail => .choice [⟨[.keep (.rule assignOp), .keep (.rule comparison)], .list, false⟩]
  | assignOp => .choice [⟨[.keep (.expect "<<")], .pass, false⟩, ⟨[.keep (.expect ">>")], .pass, false⟩]

/-- Whether some alternative of a rule builds a result with a span of its own. -/
def Body.located : Body → Bool
  | .choice alternatives => alternatives.any fun alternative => alternative.action.located
  | _ => false

end Labyrinth.Grammar
