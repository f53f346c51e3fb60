import Labyrinth.Grammar.Reading

/-!
# Categories of results

Every rule yields results of one category: tokens, expressions, statements, lists of these, and so on. What an
action makes of kept results depends on their categories, so a table of categories can be checked against the
grammar once and for all.
-/

namespace Labyrinth.Grammar

/-- The kind of result that a rule yields. -/
inductive Category where
  | token
  /-- A token that is a number. -/
  | number
  | name | expr | type | param | stmt
  /-- The statements of a group. -/
  | block
  | program
  /-- An arrow with its operand. -/
  | arrow
  /-- A comparison with its operand. -/
  | test
  | many (c : Category)
  /-- No result at all. -/
  | never
deriving DecidableEq

namespace Category

/-- Whether every result of one category is a result of another. -/
def fits (c d : Category) : Bool :=
  c == d || (c == name && d == expr) || (c == number && d == token)

end Category

def Rule.category : Rule → Category
  | start => .program
  | statements | statementGroup => .block
  | statement | functionDefinition | recoverFunctionDefinition | returnStmt | untilStmt | checkStmt => .stmt
  | declaration | arrayDeclaration | recoverArrayDeclaration | numberDeclaration | recoverNumberDeclaration => .stmt
  | invalidFunctionDefinition | invalidReturnStmt | invalidUntilStmt | invalidCheckStmt => .never
  | invalidSubscript | invalidCall | invalidGroup => .never
  | argument | recoverArgument => .param
  | expr | assignment | comparison | sum | term | factor | primary => .expr
  | subscript | recoverSubscript | call | recoverCall | atom | group | robotOperation => .expr
  | recoverAtom | identifier => .name
  | comparisonBits => .test
  | numberType => .type
  | robotKeyword | numberTypeRaw | word | wordNotBegin | keyword | keywordNotBegin | assignOp => .token
  | groups => .many .block
  | statementList | moreStatements => .many .stmt
  | commas | separators | recoverFieldNames | recoverNumberNames => .many .token
  | paramList | moreParams | recoverParamList | moreRecoverParams | invalidParamList | moreInvalidParams =>
    .many .param
  | fieldNames | numberNames => .many .name
  | assignTails => .many .arrow
  | compareTails => .many .test
  | indices | recoverIndices | invalidIndices | args | recoverArgs | invalidArgs => .many .expr
  | assignTail => .arrow

def Call.category : Call → Category
  | .rule r => r.category
  | .token .number => .number
  | _ => .token

/-- A result that an alternative keeps: its category, and whether it may be missing. -/
structure Slot where
  category : Category
  optional : Bool
deriving DecidableEq

@[match_pattern] abbrev Slot.must (c : Category) : Slot := ⟨c, false⟩

@[match_pattern] abbrev Slot.may (c : Category) : Slot := ⟨c, true⟩

def Step.slot? : Step → Option Slot
  | .keep c => some (.must c.category)
  | .keepOpt c => some (.may c.category)
  | _ => none

/-- The results that an action is made for, and the category of what it makes of them. -/
def Action.signature (c : Category) : Action → List Slot × Category
  | .pass => ([.must c], c)
  | .list => ([.must .token, .must .expr], .arrow)
  | .program => ([.must .block], .program)
  | .flatten => ([.must (.many .block)], .block)
  | .group => ([.may (.many .stmt)], .block)
  | .single => ([.must .expr], .stmt)
  | .function => ([.must .type, .must .name, .may (.many .param), .must .block], .stmt)
  | .recoverFunction => ([.must .token, .must .token, .may (.many .param), .must .block], .stmt)
  | .param => ([.must .type, .must .name], .param)
  | .recoverParam => ([.must .token, .must .token], .param)
  | .giveBack => ([.must .expr], .stmt)
  | .loop => ([.must .expr, .must .block], .stmt)
  | .check => ([.must .expr, .must .block], .stmt)
  | .field => ([.must .type, .must .type, .must (.many .name), .must .expr], .stmt)
  | .recoverField => ([.must .token, .must .token, .must (.many .token), .must .expr], .stmt)
  | .number => ([.must .type, .must (.many .name), .must .expr], .stmt)
  | .recoverNumber => ([.must .token, .must (.many .token), .must .expr], .stmt)
  | .assign => ([.must .expr, .must (.many .arrow)], .expr)
  | .compare => ([.must .expr, .must (.many .test)], .expr)
  | .compareBit _ => ([.must .expr], .test)
  | .binary _ => ([.must .expr, .must .expr], .expr)
  | .unary _ => ([.must .expr], .expr)
  | .subscript => ([.must .expr, .may (.many .expr)], .expr)
  | .recoverSubscript => ([.must .token, .may (.many .expr)], .expr)
  | .call => ([.must .expr, .may (.many .expr)], .expr)
  | .recoverCall => ([.must .token, .may (.many .expr)], .expr)
  | .literal => ([.must .number], .expr)
  | .name => ([.must .token], .name)
  | .robot => ([.must .token], .expr)
  | .numberType => ([.must .token], .type)
  | .unclosedBegin => ([.must .token], .never)
  | .emptyReturn => ([.must .token], .never)
  | .openUntil => ([.must .token], .never)
  | .openCheck => ([.must .token], .never)
  | .unclosedBracket => ([.must .token], .never)
  | .unclosedParen => ([.must .token], .never)

/-- The category of what an action makes of kept results. -/
def Action.category? (a : Action) (slots : List Slot) : Option Category :=
  slots.head?.bind fun s => if (a.signature s.category).1 = slots then some (a.signature s.category).2 else none

theorem Action.exists_signature {a : Action} {slots : List Slot} {k : Category} (h : a.category? slots = some k) :
    ∃ c, a.signature c = (slots, k) := by
  obtain ⟨s, -, hs⟩ := Option.bind_eq_some_iff.1 h
  split at hs <;> cases hs
  next hslots => exact ⟨s.category, Prod.ext hslots rfl⟩

def Alternative.makes (a : Alternative) (c : Category) : Bool :=
  a.invalid || (a.action.category? (a.steps.filterMap Step.slot?)).any fun d => d.fits c

def Body.makes : Body → Category → Bool
  | .choice alternatives, c => alternatives.all fun a => a.makes c
  | .rounds steps, .many c => steps.filterMap Step.slot? == [.must c]
  | .gather first others, .many c => first.category.fits c && others.category.fits (.many c)
  | _, _ => false

/-- The bodies of all rules make results of the categories of the rules. -/
theorem Rule.makes_body (r : Rule) : r.body.makes r.category = true := by
  cases r <;> rfl

end Labyrinth.Grammar
