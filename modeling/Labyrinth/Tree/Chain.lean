import Labyrinth.Tree.Basic

/-!
# Chains of assignments

A chain such as `a << b >> c` is split into runs of arrows that point the same way. A value flows along a run
to all its other operands. Between a run to the right and a run to the left the operand belongs to the first
of them alone; between a run to the left and a run to the right it is the value of both, and the two runs
become one part.
-/

namespace Labyrinth

/-- Where the value of an arrow flows. -/
inductive Flow where
  | left | right
deriving DecidableEq, Repr, Inhabited

/-- Operands joined by arrows that point the same way, in the order of the text. -/
structure FlowRun (α : Type) where
  flow : Flow
  operands : List α
deriving DecidableEq, Repr, Inhabited

namespace FlowRun

variable {α : Type}

/-- The operands that get the value of a run, in the order in which they get it. -/
def targets (r : FlowRun α) : List α :=
  match r.flow with
  | .left => r.operands.dropLast.reverse
  | .right => r.operands.tail

/-- The operand that gives the value of a run. -/
def value? (r : FlowRun α) : Option α :=
  match r.flow with
  | .left => r.operands.getLast?
  | .right => r.operands.head?

end FlowRun

/-- What a chain has to know about its operands. -/
class ChainOperand (α : Type) where
  span : α → Span
  isTarget : α → Bool

instance {ς : Type} : ChainOperand (Expr ς) := ⟨Expr.span, Expr.isTarget⟩

/-- A part of a chain: where it stands, what gets a value, and the operand that gives it. -/
structure ChainPart (α : Type) where
  span : Span
  targets : List α
  value : α
deriving Inhabited

namespace Chain

variable {α : Type}

/-- The runs of a chain whose current run has the operands `done`, last first, and goes on with `current`. -/
def runsFrom (flow : Flow) (done : List α) (current : α) : List (Flow × α) → List (FlowRun α)
  | [] => [⟨flow, (current :: done).reverse⟩]
  | (next, operand) :: rest =>
    if next = flow then runsFrom flow (current :: done) operand rest
    else ⟨flow, (current :: done).reverse⟩ ::
      runsFrom next (if flow = .left then [current] else []) operand rest

/-- The runs of a chain that assign something. -/
def runs (first : α) (rest : List (Flow × α)) : List (FlowRun α) :=
  match rest with
  | [] => []
  | (flow, _) :: _ => (runsFrom flow [] first rest).filter fun r => r.operands.length ≥ 2

/-- The part that a run becomes, or the first operand that nothing can be assigned to. -/
def partOf [Inhabited α] [ChainOperand α] (r : FlowRun α) : Except α (ChainPart α) :=
  match r.targets.find? fun e => !ChainOperand.isTarget e with
  | some bad => .error bad
  | none =>
    let first := ChainOperand.span (r.operands.head?.getD default)
    let last := ChainOperand.span (r.operands.getLast?.getD default)
    .ok ⟨⟨first.start, last.stop, false⟩, r.targets, r.value?.getD default⟩

/-- Two parts with one value as one part. -/
def join (left right : ChainPart α) : ChainPart α :=
  { left with targets := left.targets ++ right.targets }

/-- The parts that runs become, and the operands that stand in the way. The part of a run to the left is held
back, because a run to the right directly after it has the same value and is joined with it. -/
def assembleFrom [Inhabited α] [ChainOperand α] (held : Option (ChainPart α)) :
    List (FlowRun α) → List (ChainPart α) × List α
  | [] => (held.toList, [])
  | r :: rest =>
    match partOf r, r.flow, held with
    | .error bad, _, _ =>
      let (parts, bads) := assembleFrom none rest
      (held.toList ++ parts, bad :: bads)
    | .ok part, .left, _ =>
      let (parts, bads) := assembleFrom (some part) rest
      (held.toList ++ parts, bads)
    | .ok part, .right, some left =>
      let (parts, bads) := assembleFrom none rest
      (join left part :: parts, bads)
    | .ok part, .right, none =>
      let (parts, bads) := assembleFrom none rest
      (part :: parts, bads)

/-- The parts of a chain, and the operands that nothing can be assigned to. -/
def assemble [Inhabited α] [ChainOperand α] (first : α) (rest : List (Flow × α)) :
    List (ChainPart α) × List α :=
  assembleFrom none (runs first rest)

end Chain

end Labyrinth
