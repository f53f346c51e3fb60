import Labyrinth.Grammar.Reading

/-!
# Plain reading

What the alternatives of the grammar come to if nothing is remembered: the result of a call depends on the tokens
and on the place alone. A rule that begins with itself is grown from a seed that is handed down to where the
rule is called again. Plain reading says nothing about calls that complain, and results carry no spans.

A literal with a sign in front is settled only when the sign is read. Until then its result is marked with the
place of the literal.
-/

namespace Labyrinth

def UnaryOp.sign : UnaryOp → Sign
  | pos => .positive
  | neg => .negative

/-- How plain reading marks a literal whose sign is settled. -/
def Sign.mark : Sign → SignRef
  | unsigned => 0
  | positive => 1
  | negative => 2

/-- How plain reading marks a literal at a place as long as the sign in front of it was not read. -/
def pendingMark (place : Nat) : SignRef := place + 3

namespace Grammar

/-- What is read: tokens, and which of them are literals with a sign of their own in front. -/
structure Source where
  tokens : List Token
  led : Nat → Bool

/-- The rule whose seed a rule begins with. -/
def Rule.seed? : Rule → Option Rule
  | sum => some sum
  | term => some term
  | primary | subscript | call => some primary
  | _ => none

/-- The result of a rule that begins with itself so far: the rule, its place, and the result with its end. -/
structure Seed where
  rule : Rule
  place : Nat
  result : Parsed × Nat

@[simp] def Step.call? : Step → Option Call
  | .need c | .keep c | .opt c | .keepOpt c | .ahead c => some c
  | .cut => none

/-- Whether a step lets its alternative go on, by what its call came to. -/
@[simp] def Step.passes : Step → Parsed → Bool
  | .opt _, _ | .keepOpt _, _ => true
  | _, x => x.succeeds

@[simp] def Step.kept : Step → Parsed → List Parsed → List Parsed
  | .keep _, x, kept | .keepOpt _, x, kept => x :: kept
  | _, _, kept => kept

/-- Where the step after a step begins: where its call ended, unless it only looked ahead. -/
@[simp] def Step.stop : Step → Nat → Nat → Nat
  | .ahead _, i, _ => i
  | _, _, j => j

namespace Source

/-- The operand of a sign at a place, with the sign. -/
def signed (op : UnaryOp) (place : Nat) : Expr SignRef → Option (Expr SignRef)
  | .number n =>
    if n.sign = pendingMark (place + 1) then some (.number ⟨n.span, n.value, op.sign.mark⟩)
    else if n.sign = Sign.positive.mark ∨ n.sign = Sign.negative.mark then some (.unary default op (.number n))
    else none
  | operand => some (.unary default op operand)

/-- A literal at a place, if it has a value and is not too long. -/
def literal (src : Source) (place : Nat) (t : Token) : Option (Expr SignRef) :=
  if (Parser.digitsOf t).length ≤ 3 then
    (Text.readInt? 32 (Parser.digitsOf t)).map fun value =>
      .number ⟨default, value, if src.led place then pendingMark place else Sign.unsigned.mark⟩
  else none

/-- A chain of assignments in which every target can take a value. -/
def assignment (first : Expr SignRef) (rest : List (Flow × Expr SignRef)) : Option (Expr SignRef) :=
  match Chain.assemble first rest with
  | (parts, []) => some (.assign default (parts.map fun part => .mk part.span part.targets part.value))
  | _ => none

def initial : Expr SignRef → Option (NumberNode SignRef)
  | .number n => some n
  | _ => none

def element (name : NameNode) : List (Expr SignRef) → Option (Expr SignRef)
  | [i, j] => some (.subscript default name i j)
  | _ => none

/-- What an action makes of the results kept by an alternative that began at a place. -/
def build (src : Source) (place : Nat) : Action → List Parsed → Option Parsed
  | .pass, [result] => some result
  | .list, results => some (.list results)
  | .program, [body] => some (.program ⟨default, Parser.stmtsOf body⟩)
  | .flatten, [groups] =>
    some (.tuple [.list (groups.items.flatMap fun
      | .tuple [.list items] => items
      | _ => [])])
  | .group, [.list stmts] => some (.tuple [.list stmts])
  | .group, [.nothing] => some (.tuple [.list []])
  | .single, [.expr e] => some (.stmt (.expr default e))
  | .function, [.type returns, .expr (.name name), params, body] =>
    some (.stmt (.function default returns name.value (Parser.paramsOf params) (Parser.stmtsOf body)))
  | .param, [.type type, .expr (.name name)] => some (.param ⟨default, type, name⟩)
  | .recoverParam, [.token type, .token name] =>
    if type ∈ src.tokens ∧ type.kind = .name ∧ name.kind = .name then
      some (.param ⟨default, ⟨Span.asRecovered default, .normal⟩, ⟨default, name.text⟩⟩)
    else none
  | .giveBack, [.expr e] => some (.stmt (.giveBack default e))
  | .loop, [.expr test, body] => some (.stmt (.loop default test (Parser.stmtsOf body)))
  | .check, [.expr test, body] => some (.stmt (.check default test (Parser.stmtsOf body)))
  | .field, [.type element, .type size, names, .expr value] =>
    (initial value).map fun n => .stmt (.declareField default element size (Parser.namesOf names) n)
  | .number, [.type type, names, .expr value] =>
    (initial value).map fun n => .stmt (.declareNumber default type (Parser.namesOf names) n)
  | .assign, [.expr first, rest] => (assignment first (Parser.tailsOf rest)).map .expr
  | .compare, [.expr first, rest] =>
    let tails := Parser.comparesOf rest
    some (.expr (.compare default first (tails.map Prod.fst) (tails.map Prod.snd)))
  | .compareBit op, [result] => some (.tuple [.cmpOp op, result])
  | .binary op, [.expr lhs, .expr rhs] => some (.expr (.binary default lhs op rhs))
  | .unary op, [.expr operand] => (signed op place operand).map .expr
  | .subscript, [.expr (.name n), indices] => (element n (Parser.exprsOf indices)).map .expr
  | .recoverSubscript, [.token t, indices] =>
    if t.kind = .name then (element ⟨default, t.text⟩ (Parser.exprsOf indices)).map .expr else none
  | .call, [.expr (.name n), args] => some (.expr (.call default n (Parser.exprsOf args)))
  | .recoverCall, [.token t, args] =>
    if t.kind = .name then some (.expr (.call default ⟨default, t.text⟩ (Parser.exprsOf args))) else none
  | .literal, [.token t] => (src.literal place t).map .expr
  | .name, [.token t] => if t.kind = .name then some (.expr (.name ⟨default, t.text⟩)) else none
  | .robot, [.token t] => (Parser.robotOpOf? t.kind).map fun op => .expr (.robot default op)
  | .numberType, [.token t] => (Parser.kindOf? t.kind).map fun kind => .type ⟨default, kind⟩
  | _, _ => none

@[simp] theorem build_pass (src : Source) (place : Nat) (x : Parsed) : src.build place .pass [x] = some x := by
  rw [build]

/-- Whether a token passes a token rule, where no name is reserved. -/
def passes (r : TokenRule) (t : Token) : Bool :=
  match r with
  | .name => t.kind == .name
  | .number => t.kind == .number
  | .string => t.kind == .foreign 3
  | .fstringStart | .fstringMiddle | .fstringEnd => t.kind == .unknown
  | .op => t.kind == .op
  | .typeComment => t.kind == .foreign 58
  | .softKeyword => false

/-- Carries the steps of an alternative out from a place on. Yields what they kept and where they end, unless
one fails, and whether the alternative was settled on. -/
def steps (again : Call → Nat → Option (Parsed × Nat)) (kept : List Parsed) (settled : Bool) (i : Nat) :
    List Step → Option (Option (List Parsed × Nat) × Bool)
  | [] => some (some (kept.reverse, i), settled)
  | step :: rest =>
    match step.call? with
    | none => steps again kept true i rest
    | some c =>
      match again c i with
      | some (r, j) =>
        if step.passes r then steps again (step.kept r kept) settled (step.stop i j) rest else some (none, settled)
      | none => none

/-- Tries alternatives in their order, without those that only complain. -/
def choice (src : Source) (again : Call → Nat → Option (Parsed × Nat)) (i : Nat) :
    List Alternative → Option (Parsed × Nat)
  | [] => some (.nothing, i)
  | alternative :: rest =>
    if alternative.invalid then choice src again i rest
    else match steps again [] false i alternative.steps with
      | some (some (kept, j), _) => (src.build i alternative.action kept).map fun r => (r, j)
      | some (none, settled) => if settled then some (.nothing, i) else choice src again i rest
      | none => none

end Source

end Grammar

end Labyrinth
