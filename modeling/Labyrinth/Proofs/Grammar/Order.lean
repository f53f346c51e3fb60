import Labyrinth.Proofs.Grammar.Plain

/-!
# The order of calls

Every rule has a rank, and a rule calls only rules of lower rank before it has read a token, itself as its own
seed apart. A call that succeeds reads at least one token. So calls nest no deeper than the ranks and the
tokens left allow.
-/

namespace Labyrinth.Grammar

/-- The rank of a rule among those that can be called at one place. -/
def Rule.rank : Rule → Nat
  | start => 18
  | statements => 17
  | groups => 16
  | statementGroup => 15
  | statementList => 14
  | statement | args | recoverArgs | invalidArgs | indices | recoverIndices | invalidIndices => 13
  | expr => 12
  | assignment => 11
  | comparison => 10
  | sum => 9
  | term => 8
  | factor | declaration | paramList | recoverParamList | invalidParamList => 7
  | primary => 6
  | subscript | call | atom | numberDeclaration | argument | functionDefinition => 5
  | recoverSubscript | invalidSubscript | recoverCall | invalidCall | recoverAtom | recoverNumberDeclaration
  | recoverNumberNames | recoverFieldNames | recoverArgument | recoverFunctionDefinition
  | invalidFunctionDefinition => 4
  | word | wordNotBegin | assignTails => 3
  | numberType | robotOperation | keyword | keywordNotBegin | compareTails | assignTail | numberNames
  | fieldNames | arrayDeclaration | moreStatements | returnStmt | untilStmt | checkStmt | group => 2
  | _ => 1

def Call.rank : Call → Nat
  | .rule r => r.rank
  | _ => 0

/-- Whether a step reads a token wherever it succeeds. -/
def Step.advances : Step → Bool
  | .need _ | .keep _ => true
  | _ => false

/-- Whether a call may be made at the place where a rule began. -/
def Rule.mayCall (r : Rule) (c : Call) : Bool :=
  c.rank < r.rank || r.seed?.map Call.rule == some c

/-- Whether the steps of a rule call only what they may; `moved` tells whether a token was read. -/
def Rule.orderedFrom (r : Rule) (moved : Bool) : List Step → Bool
  | [] => true
  | step :: rest =>
    (step.call?.all fun c => moved || r.mayCall c) && r.orderedFrom (moved || step.advances) rest

/-- Whether steps of a rule are in order and read a token. -/
def Rule.ordered (r : Rule) (steps : List Step) : Bool :=
  r.orderedFrom false steps && steps.any Step.advances

def Rule.orderedBody (r : Rule) : Body → Bool
  | .choice alternatives => alternatives.all fun a => r.ordered a.steps
  | .rounds steps => r.ordered steps
  | .gather first _ => r.mayCall (.rule first)

theorem Rule.rank_lt (r : Rule) : r.rank < 64 := by
  cases r <;> decide

theorem Call.rank_lt (c : Call) : c.rank < 64 := by
  cases c with
  | rule r => exact r.rank_lt
  | token _ => exact Nat.zero_lt_succ _
  | keyword _ => exact Nat.zero_lt_succ _
  | expect _ => exact Nat.zero_lt_succ _

/-- The whole grammar is in order. -/
theorem Rule.orderedBody_body (r : Rule) : r.orderedBody r.body = true := by
  cases r <;> decide

theorem Rule.seed?_of_grown {r : Rule} (h : r.memory = .grown) : r.seed? = some r := by
  cases r <;> first | rfl | cases h

theorem Rule.seed?_eq_none {r : Rule} (h : r.memory = .remembered) : r.seed? = none := by
  cases r <;> first | rfl | cases h

namespace Source

variable {src : Source}

/-- How deep the calls of a call at a place can nest. -/
def depth (src : Source) (c : Call) (i : Nat) : Nat :=
  64 * (src.tokens.length - i) + c.rank + 2

/-- What is enough fuel for a call is enough for as many rounds as there are tokens left. -/
theorem rounds_lt {c : Call} {k fuel : Nat} (h : src.depth c k < fuel + 1) : src.tokens.length - k < fuel := by
  rw [depth] at h
  omega

theorem Rule.ordered_advances {r : Rule} {list : List Step} (h : r.ordered list = true) :
    list.any Step.advances = true := by
  rw [Rule.ordered, Bool.and_eq_true] at h
  exact h.2

/-! ### What a rule calls -/

/-- A call that nests less deep than the rule that makes it, or that asks for the seed of the rule. -/
def Allowed (src : Source) (r : Rule) (i : Nat) (c : Call) (k : Nat) : Prop :=
  k ≤ src.tokens.length ∧
    (src.depth c k < src.depth (.rule r) i ∨ r.seed?.map Call.rule = some c ∧ k = i)

theorem allowed_of_ordered {r : Rule} (moved : Bool) {c : Call} {i k : Nat}
    (h : (moved || r.mayCall c) = true) (hle : i ≤ k) (hk : k ≤ src.tokens.length)
    (hm : moved = true → i < k) : src.Allowed r i c k := by
  refine ⟨hk, ?_⟩
  have hc := c.rank_lt
  by_cases hik : i < k
  · left
    unfold depth
    omega
  · have hki : k = i := by omega
    have hmoved : moved = false := by
      cases moved with
      | false => rfl
      | true => exact absurd (hm rfl) hik
    rw [hmoved, Bool.false_or, Rule.mayCall, Bool.or_eq_true, decide_eq_true_eq, beq_iff_eq] at h
    rcases h with h | h
    · left
      subst hki
      unfold depth
      change _ < _ + r.rank + 2
      omega
    · exact .inr ⟨h, hki⟩

end Source

end Labyrinth.Grammar
