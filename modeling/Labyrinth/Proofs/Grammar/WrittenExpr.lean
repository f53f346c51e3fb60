import Labyrinth.Proofs.Grammar.Expressions

/-!
# Written expressions are read

An expression that was written is read as the same expression, up to a lexeme that cannot carry it on. The
induction is on the expression; each case gives the closest level of precedence at which the expression is read,
and the other levels follow.
-/

namespace Labyrinth

open List

variable (span : Span) (flow : Flow) (count : Nat) (n : NameNode)

/-! ### Expressions as plain reading yields them -/

def NameNode.bare : NameNode := ⟨default, n.value⟩

def NumberNode.bare (n : NumberNode Sign) : NumberNode SignRef := ⟨default, n.value, n.sign.mark⟩

mutual

/-- An expression without places, and with marks for signs. -/
def Expr.bare : Expr Sign → Expr SignRef
  | .name n => .name n.bare
  | .number n => .number n.bare
  | .robot _ op => .robot default op
  | .subscript _ n i j => .subscript default n.bare i.bare j.bare
  | .call _ n args => .call default n.bare (exprsBare args)
  | .unary _ op e => .unary default op e.bare
  | .binary _ l op r => .binary default l.bare op r.bare
  | .compare _ e ops es => .compare default e.bare ops (exprsBare es)
  | .assign _ parts => .assign default (partsBare parts)
  | .hole _ => .hole default

def exprsBare : List (Expr Sign) → List (Expr SignRef)
  | [] => []
  | e :: es => e.bare :: exprsBare es

def partsBare : List (AssignPart Sign) → List (AssignPart SignRef)
  | [] => []
  | .mk _ targets value :: rest => .mk default (exprsBare targets) value.bare :: partsBare rest

end

theorem exprsBare_eq_map (es : List (Expr Sign)) : exprsBare es = es.map Expr.bare := by
  induction es with
  | nil => rfl
  | cons e es ih => rw [exprsBare, ih, map_cons]

theorem operandsWritten_eq_map (left : Span → Nat) (level : Nat) (es : List (Expr Sign)) :
    operandsWritten left level es = es.map fun e => bracketed (e.level < level) (e.written left) := by
  induction es with
  | nil => rfl
  | cons e es ih => rw [operandsWritten, ih, map_cons]

@[simp] theorem Expr.span_bare (e : Expr Sign) : e.bare.span = default := by
  cases e <;> rfl

@[simp] theorem Expr.isTarget_bare (e : Expr Sign) : e.bare.isTarget = e.isTarget := by
  cases e <;> rfl

/-! ### Chains -/

namespace Chain

variable {α β : Type}

theorem laid_map (f : α → β) (count : Nat) (targets : List α) (value : α) :
    laid count (targets.map f) (f value) =
      (f (laid count targets value).1, (laid count targets value).2.map fun operand => (operand.1, f operand.2)) := by
  rw [laid, laid, ← map_take, ← map_drop, ← map_reverse]
  cases (targets.take count).reverse with
  | nil => simp only [map_nil, map_map, Function.comp_def]
  | cons first others =>
    simp only [map_cons, map_append, map_map, Function.comp_def, map_nil]

variable {targets : List α} {value : α}

/-- A chain is laid out from its value and its targets. -/
theorem mem_laid {count : Nat} {e : α}
    (h : e = (laid count targets value).1 ∨ e ∈ (laid count targets value).2.map Prod.snd) :
    e ∈ value :: targets := by
  have hsplit := take_append_drop count targets
  rw [laid] at h
  rw [← hsplit, ← List.reverse_reverse (targets.take count)]
  cases hbefore : (targets.take count).reverse with
  | nil =>
    rw [hbefore] at h
    simpa [Function.comp_def] using h
  | cons first others =>
    rw [hbefore] at h
    simp only [map_append, map_map, Function.comp_def, map_id_fun', id_eq, mem_append,
      mem_singleton] at h
    simp only [mem_cons, mem_append, mem_reverse]
    tauto

theorem laid_ne_nil (value : α) (h : targets ≠ []) : (laid count targets value).2 ≠ [] := by
  have hsplit := take_append_drop count targets
  rw [laid]
  cases hbefore : (targets.take count).reverse with
  | nil =>
    rw [reverse_eq_nil_iff.1 hbefore, nil_append] at hsplit
    simpa [hsplit] using h
  | cons first others => simp

/-- Arrows that point the same way make one run. -/
theorem runsFrom_same (others : List α) (done : List α) (current value : α) (rest : List (Flow × α)) :
    runsFrom flow done current ((others ++ [value]).map (flow, ·) ++ rest) =
      runsFrom flow (others.reverse ++ current :: done) value rest := by
  induction others generalizing done current with
  | nil => simp [runsFrom]
  | cons other others ih =>
    rw [cons_append, map_cons, cons_append, runsFrom, if_pos rfl, ih, reverse_cons,
      append_assoc, singleton_append]

theorem runsFrom_end (operands : List α) (done : List α) (current : α) :
    runsFrom flow done current (operands.map (flow, ·)) = [⟨flow, done.reverse ++ current :: operands⟩] := by
  induction operands generalizing done current with
  | nil => simp [runsFrom]
  | cons operand operands ih =>
    rw [map_cons, runsFrom, if_pos rfl, ih, reverse_cons, append_assoc, singleton_append]

theorem runs_right (value target : α) (targets : List α) :
    runs value ((target :: targets).map (.right, ·)) = [⟨.right, value :: target :: targets⟩] := by
  change (runsFrom .right [] value ((target :: targets).map (.right, ·))).filter _ = _
  rw [runsFrom_end]
  rfl

theorem runs_left (first : α) (others : List α) (value : α) (after : List α) :
    runs first ((others ++ [value]).map (.left, ·) ++ after.map (.right, ·)) =
      ⟨.left, first :: (others ++ [value])⟩ :: (match after with
        | [] => []
        | _ => [⟨.right, value :: after⟩]) := by
  have hruns : ∀ rest, runs first ((others ++ [value]).map (.left, ·) ++ rest) =
      (runsFrom .left [] first ((others ++ [value]).map (.left, ·) ++ rest)).filter (·.operands.length ≥ 2) := by
    intro rest
    cases others <;> rfl
  rw [hruns, runsFrom_same]
  cases after with
  | nil => simp [runsFrom]
  | cons target after => simp [runsFrom, runsFrom_end]

variable [Inhabited α] [ChainOperand α]

theorem partOf_eq {r : FlowRun α} (htargets : ∀ e ∈ r.targets, ChainOperand.isTarget e = true)
    (hspan : ∀ e ∈ r.operands, ChainOperand.span e = default) (hne : r.operands ≠ []) (hvalue : r.value? = some value) :
    partOf r = .ok ⟨default, r.targets, value⟩ := by
  have hnone : r.targets.find? (fun e => !ChainOperand.isTarget e) = none := by
    rw [find?_eq_none]
    intro e he
    simp [htargets e he]
  have hfirst : ChainOperand.span (r.operands.head?.getD default) = default := by
    rw [head?_eq_some_head hne]
    exact hspan _ (head_mem hne)
  have hlast : ChainOperand.span (r.operands.getLast?.getD default) = default := by
    rw [getLast?_eq_some_getLast hne]
    exact hspan _ (getLast_mem hne)
  rw [partOf, hnone]
  simp only [hfirst, hlast, hvalue]
  rfl

theorem partOf_left {first : α} {others : List α}
    (htargets : ∀ e ∈ (first :: others).reverse, ChainOperand.isTarget e = true)
    (hspan : ∀ e ∈ (first :: others) ++ [value], ChainOperand.span e = default) :
    partOf ⟨.left, first :: (others ++ [value])⟩ = .ok ⟨default, (first :: others).reverse, value⟩ := by
  have heq : (⟨.left, first :: (others ++ [value])⟩ : FlowRun α).targets = (first :: others).reverse := by
    rw [FlowRun.targets, ← cons_append, dropLast_concat]
  have hvalue : (⟨.left, first :: (others ++ [value])⟩ : FlowRun α).value? = some value := by
    rw [FlowRun.value?, ← cons_append, getLast?_concat]
  rw [partOf_eq (by rw [heq]; exact htargets) hspan (by simp) hvalue, heq]

theorem partOf_right {after : List α} (htargets : ∀ e ∈ after, ChainOperand.isTarget e = true)
    (hspan : ∀ e ∈ value :: after, ChainOperand.span e = default) :
    partOf ⟨.right, value :: after⟩ = .ok ⟨default, after, value⟩ :=
  partOf_eq htargets hspan (by simp) rfl

/-- A chain that was laid out from one value and its targets is assembled again. -/
theorem assemble_laid (targets : List α) (value : α) (hne : targets ≠ [])
    (htargets : ∀ e ∈ targets, ChainOperand.isTarget e = true)
    (hspan : ∀ e ∈ value :: targets, ChainOperand.span e = default) :
    assemble (laid count targets value).1 (laid count targets value).2 = ([⟨default, targets, value⟩], []) := by
  have hsplit := take_append_drop count targets
  rw [laid]
  generalize targets.take count = before at hsplit
  generalize targets.drop count = after at hsplit
  subst hsplit
  have hafter : ∀ e ∈ after, ChainOperand.isTarget e = true := fun e he => htargets e (mem_append_right _ he)
  have hafterSpan : ∀ e ∈ value :: after, ChainOperand.span e = default := by
    intro e he
    refine hspan e ?_
    rcases mem_cons.1 he with rfl | he
    · exact mem_cons_self
    · exact mem_cons_of_mem _ (mem_append_right _ he)
  cases hbefore : before.reverse with
  | nil =>
    have hnil : before = [] := reverse_eq_nil_iff.1 hbefore
    subst hnil
    cases after with
    | nil => exact absurd rfl hne
    | cons target after =>
      simp only [assemble, runs_right, assembleFrom, partOf_right hafter hafterSpan]
      rfl
  | cons first others =>
    have heq : before = (first :: others).reverse := by rw [← hbefore, List.reverse_reverse]
    have hleft : partOf ⟨.left, first :: (others ++ [value])⟩ = .ok ⟨default, before, value⟩ := by
      rw [heq]
      refine partOf_left (fun e he => htargets e (heq ▸ mem_append_left _ he)) fun e he => ?_
      rcases mem_append.1 he with he | he
      · exact hspan e (mem_cons_of_mem _ (mem_append_left _ (heq ▸ mem_reverse.2 he)))
      · exact hafterSpan e (mem_singleton.1 he ▸ mem_cons_self)
    simp only [assemble, runs_left]
    cases after with
    | nil =>
      simp only [assembleFrom, hleft, append_nil]
      rfl
    | cons target after =>
      simp only [assembleFrom, hleft, partOf_right hafter hafterSpan]
      rfl

end Chain

namespace Grammar.Source

variable {src : Source} {left : Span → Nat} {i j : Nat} {l : Lexeme} {e : Expr SignRef}

/-! ### Levels -/

/-- An expression of a level is read between two places, the second of which holds a lexeme, by the rules of its
level and of all lower ones. -/
structure Readable (src : Source) (e : Expr SignRef) (level i j : Nat) (l : Lexeme) : Prop where
  primary : 5 ≤ level → l.Stops 5 → src.read none (.rule .primary) i = some (.expr e, j)
  factor : 4 ≤ level → l.Stops 4 → src.read none (.rule .factor) i = some (.expr e, j)
  term : 3 ≤ level → l.Stops 4 → src.Spine .term .factor i j e
  sum : 2 ≤ level → l.Stops 3 → src.Spine .sum .term i j e
  comparison : 1 ≤ level → l.Stops 1 → src.read none (.rule .comparison) i = some (.expr e, j)
  expr : l.Stops 0 → src.read none (.rule .expr) i = some (.expr e, j)

namespace Readable

theorem of_assignment (h : l.Stops 0 → src.read none (.rule .assignment) i = some (.expr e, j)) : src.Readable e 0 i j l where
  primary := nofun
  factor := nofun
  term := nofun
  sum := nofun
  comparison := nofun
  expr hstop := expr_of_assignment (h hstop) nofun

theorem of_comparison (hl : src.Holds j l)
    (h : l.Stops 1 → src.read none (.rule .comparison) i = some (.expr e, j)) : src.Readable e 1 i j l := by
  have hassignment (hstop : l.Stops 0) : src.read none (.rule .assignment) i = some (.expr e, j) :=
    read_without_tails (h (hstop.mono (by decide))) nofun (fun _ => assignTail_miss hl hstop) rfl rfl rfl rfl
  have hlower := of_assignment hassignment
  exact ⟨by omega, by omega, by omega, by omega, fun _ => h, hlower.expr⟩

theorem of_sum (hl : src.Holds j l) (h : l.Stops 3 → src.Spine .sum .term i j e) :
    src.Readable e 2 i j l := by
  have hcomparison (hstop : l.Stops 1) : src.read none (.rule .comparison) i = some (.expr e, j) := by
    have hread := sum_leftRule.read (h (hstop.mono (by decide))) hl (hstop (2, "+") (by decide) (by decide))
      (hstop (2, "-") (by decide) (by decide))
    exact read_without_tails hread nofun (fun _ => comparisonBits_miss hl hstop) rfl rfl rfl rfl
  have hlower := of_comparison hl hcomparison
  exact ⟨by omega, by omega, by omega, fun _ => h, fun _ => hcomparison, hlower.expr⟩

theorem of_term (hl : src.Holds j l) (h : l.Stops 4 → src.Spine .term .factor i j e) :
    src.Readable e 3 i j l := by
  have hsum (hstop : l.Stops 3) : src.Spine .sum .term i j e := by
    have hread := term_leftRule.read (h (hstop.mono (by decide))) hl (hstop (3, "\\") (by decide) (by decide))
      (hstop (3, "/") (by decide) (by decide))
    exact sum_leftRule.single hread
  have hlower := of_sum hl hsum
  exact ⟨by omega, by omega, fun _ => h, fun _ => hsum, fun _ => hlower.comparison (by decide), hlower.expr⟩

theorem of_factor (hl : src.Holds j l)
    (h : l.Stops 4 → src.read none (.rule .factor) i = some (.expr e, j)) : src.Readable e 4 i j l := by
  have hterm (hstop : l.Stops 4) : src.Spine .term .factor i j e := term_leftRule.single (h hstop)
  have hlower := of_term hl hterm
  exact ⟨by omega, fun _ => h, fun _ => hterm, fun _ => hlower.sum (by decide),
    fun _ => hlower.comparison (by decide), hlower.expr⟩

theorem of_primary {first : Lexeme} (hfirst : src.Holds i first) (hplus : first.isOp "+" = false)
    (hminus : first.isOp "-" = false) (hl : src.Holds j l)
    (h : l.Stops 5 → src.read none (.rule .primary) i = some (.expr e, j)) : src.Readable e 5 i j l := by
  have hfactor (hstop : l.Stops 4) : src.read none (.rule .factor) i = some (.expr e, j) :=
    factor_of_primary hfirst hplus hminus (h (hstop.mono (by decide))) nofun
  have hlower := of_factor hl hfactor
  exact ⟨fun _ => h, fun _ => hfactor, fun _ => hlower.term (by decide), fun _ => hlower.sum (by decide),
    fun _ => hlower.comparison (by decide), hlower.expr⟩

end Readable

/-- A written expression is read wherever it stands before another lexeme. -/
def Reads (src : Source) (left : Span → Nat) (e : Expr Sign) : Prop :=
  ∀ {i j l}, src.At i (e.written left) → src.Holds j l → i + (e.written left).length = j →
    src.Readable e.bare e.level i j l

section Cases

variable {e e' : Expr Sign}
variable {level : Nat} {ops : List CmpOp} {es targets : List (Expr Sign)} {s : String}

/-- In parentheses, an expression of any level but the lowest is read at the closest level. -/
theorem Reads.bracketed (h : src.Reads left e) (hlevel : 1 ≤ e.level)
    (hat : src.At i (bracketed (e.level < level) (e.written left))) (hl : src.Holds j l) (hle : level ≤ 5)
    (hj : i + (Labyrinth.bracketed (e.level < level) (e.written left)).length = j) :
    ∃ level' ≥ level, src.Readable e.bare level' i j l := by
  by_cases hlt : e.level < level
  · simp only [Labyrinth.bracketed, hlt, decide_true, if_true, at_cons, at_append, at_nil, and_true,
      length_cons, length_append, length_nil] at hat hj
    obtain ⟨hopen, hinner, hclose⟩ := hat
    obtain rfl : i + 1 + (e.written left).length + 1 = j := by omega
    have hread := (h hinner hclose rfl).comparison hlevel (by decide)
    refine ⟨5, hle, .of_primary hopen rfl rfl hl fun hstop => ?_⟩
    exact primary_of_atom hopen (fun _ => atom_bracketed hopen hread hclose) (fun h => by cases h) hl hstop
  · simp only [Labyrinth.bracketed, hlt, decide_false] at hat hj
    exact ⟨e.level, Nat.le_of_not_lt hlt, h hat hl hj⟩

theorem reads_name : src.Reads left (.name n) := by
  intro i j l hat hl hj
  obtain ⟨hname, _⟩ := hat
  subst hj
  refine .of_primary hname rfl rfl hl fun hstop => ?_
  exact primary_of_atom hname (fun _ => atom_name hname) (fun _ => rfl) hl hstop

theorem reads_robot (op : RobotOp) : src.Reads left (.robot span op) := by
  intro i j l hat hl hj
  obtain ⟨hword, _⟩ := hat
  subst hj
  refine .of_primary hword rfl rfl hl fun hstop => ?_
  exact primary_of_atom hword (fun _ => atom_command hword) (fun _ => rfl) hl hstop

/-- A sign in front of a literal belongs to it. -/
theorem factor_literal {v : Int} (op : UnaryOp) (hop : src.Holds i (.op op.spelling))
    (hnumber : src.Holds (i + 1) (.number v true)) (hlow : 0 ≤ v) (hhigh : v ≤ 32767) (hl : src.Holds (i + 2) l)
    (hstop : l.Stops 4) :
    src.read none (.rule .factor) i = some (.expr (.number ⟨default, v, op.sign.mark⟩), i + 2) := by
  have hprimary := primary_of_atom hnumber (fun _ => atom_number hnumber hlow hhigh) nofun hl (hstop.mono (by decide))
  have hfactor : src.read none (.rule .factor) (i + 1) = _ := factor_of_primary hnumber rfl rfl hprimary nofun
  refine factor_signed hop hfactor ?_
  simp [signed]

theorem reads_number {n : NumberNode Sign} (hw : n.Writable) : src.Reads left (.number n) := by
  obtain ⟨span, v, sign⟩ := n
  obtain ⟨_, hlow, hhigh⟩ := hw
  intro i j l hat hl hj
  cases sign with
  | unsigned =>
    obtain ⟨hnumber, _⟩ := hat
    subst hj
    refine .of_primary hnumber rfl rfl hl fun hstop => ?_
    exact primary_of_atom hnumber (fun _ => atom_number hnumber hlow hhigh) nofun hl hstop
  | positive =>
    obtain ⟨hop, hnumber, _⟩ := hat
    subst hj
    exact .of_factor hl fun hstop => factor_literal .pos hop hnumber hlow hhigh hl hstop
  | negative =>
    obtain ⟨hop, hnumber, _⟩ := hat
    subst hj
    exact .of_factor hl fun hstop => factor_literal .neg hop hnumber hlow hhigh hl hstop

/-- A sign in front of anything but a literal without a sign is an operation. -/
theorem signed_bare (op : UnaryOp) (place : Nat) (h : e.isUnsigned = false) :
    signed op place e.bare = some (.unary default op e.bare) := by
  cases e with
  | number n =>
    obtain ⟨span, v, sign⟩ := n
    cases sign with
    | unsigned => cases h
    | positive | negative => simp [Expr.bare, NumberNode.bare, signed, Sign.mark, pendingMark]
  | _ => rfl

theorem reads_unary (op : UnaryOp) (h : src.Reads left e) (hlevel : 1 ≤ e.level)
    (hsign : e.isUnsigned = false) : src.Reads left (.unary span op e) := by
  intro i j l hat hl hj
  simp only [Expr.written, at_cons, length_cons] at hat hj
  obtain ⟨hop, hinner⟩ := hat
  obtain ⟨level, hle, hread⟩ := h.bracketed hlevel hinner hl (by decide) (by omega)
  exact .of_factor hl fun hstop => factor_signed hop (hread.factor hle hstop) (signed_bare op i hsign)

theorem reads_binary (op : BinOp) (h : src.Reads left e) (hlevel : 1 ≤ e.level)
    (h' : src.Reads left e') (hlevel' : 1 ≤ e'.level) : src.Reads left (.binary span e op e') := by
  intro i j l hat hl hj
  simp only [Expr.written, at_append, at_cons, length_append, length_cons] at hat hj
  obtain ⟨hlhs, hop, hrhs⟩ := hat
  have hlow : op.level ≤ 3 := by cases op <;> decide
  obtain ⟨level, hle, hread⟩ := h.bracketed hlevel hlhs hop (by omega) rfl
  obtain ⟨level', hle', hread'⟩ := h'.bracketed hlevel' hrhs hl (by omega) (by omega)
  have hops : op.level = 3 ∧ (op = .mul ∨ op = .div) ∨ op.level = 2 ∧ (op = .add ∨ op = .sub) := by
    cases op <;> decide
  rcases hops with ⟨heq, hcase⟩ | ⟨heq, hcase⟩
  · have hstops : (Lexeme.op op.spelling).Stops 4 := by rcases hcase with rfl | rfl <;> decide
    rw [Expr.level, heq]
    refine .of_term hl fun hstop => ?_
    exact term_leftRule.step (hread.term (by omega) hstops) hcase hop (hread'.factor (by omega) hstop)
  · have hstops : (Lexeme.op op.spelling).Stops 3 := by rcases hcase with rfl | rfl <;> decide
    rw [Expr.level, heq]
    refine .of_sum hl fun hstop => ?_
    have hterm := term_leftRule.read (hread'.term (by omega) (hstop.mono (by decide))) hl
      (hstop (3, "\\") (by decide) (by decide)) (hstop (3, "/") (by decide) (by decide))
    exact sum_leftRule.step (hread.sum (by omega) hstops) hcase hop hterm

/-- The sum at the head of a comparison or in its tail. -/
theorem Readable.read_sum {e : Expr SignRef} (h : src.Readable e level i j l) (hle : 2 ≤ level) (hl : src.Holds j l)
    (hstop : l.Stops 2) : src.read none (.rule .sum) i = some (.expr e, j) :=
  sum_leftRule.read (h.sum hle (hstop.mono (by decide))) hl (hstop (2, "+") (by decide) (by decide))
    (hstop (2, "-") (by decide) (by decide))

/-- The comparisons after the first operand of a chain. -/
def comparesWritten (left : Span → Nat) (ops : List CmpOp) (es : List (Expr Sign)) : List Lexeme :=
  (zipWith (fun op e => .op op.spelling :: e) ops (operandsWritten left 2 es)).flatten

theorem comparesWritten_cons (op : CmpOp) (ops : List CmpOp) (e : Expr Sign) (es : List (Expr Sign)) :
    comparesWritten left (op :: ops) (e :: es) =
      .op op.spelling :: (Labyrinth.bracketed (e.level < 2) (e.written left) ++ comparesWritten left ops es) := by
  rw [comparesWritten, operandsWritten]
  rfl

theorem cmpOp_stops (op : CmpOp) : (Lexeme.op op.spelling).Stops 2 := by
  cases op <;> decide

theorem stops_compares (ops : List CmpOp) (es : List (Expr Sign)) (hstop : l.Stops 2) :
    ((comparesWritten left ops es).head?.getD l).Stops 2 := by
  cases ops with
  | nil => exact hstop
  | cons op ops =>
    cases es with
    | nil => exact hstop
    | cons e es =>
      rw [comparesWritten_cons]
      exact cmpOp_stops op

theorem rounds_compare (hes : ∀ e ∈ es, src.Reads left e ∧ 1 ≤ e.level) (hlen : ops.length = es.length)
    (hl : src.Holds j l) (hstop : l.Stops 2) (hat : src.At i (comparesWritten left ops es))
    (hj : i + (comparesWritten left ops es).length = j) : Rounds (src.read none) [.keep (.rule .comparisonBits)] i
      ((ops.zip (es.map Expr.bare)).map fun tail => .tuple [.cmpOp tail.1, .expr tail.2]) j := by
  induction es generalizing ops i with
  | nil =>
    cases ops with
    | nil =>
      obtain rfl : i = j := hj
      exact .nil
    | cons op ops => cases hlen
  | cons e es ih =>
    cases ops with
    | nil => cases hlen
    | cons op ops =>
      simp only [comparesWritten_cons, at_cons, at_append, length_cons, length_append] at hat hj
      obtain ⟨hop, hoperand, hrest⟩ := hat
      obtain ⟨hread, hlevel⟩ := hes e mem_cons_self
      have hnext := hrest.next hl (by omega)
      obtain ⟨level, hle, hreadable⟩ := hread.bracketed hlevel hoperand hnext (by decide) rfl
      have hsum := hreadable.read_sum hle hnext (stops_compares ops es hstop)
      refine .cons (steps_keep_one (comparisonBits_hit hop hsum) rfl) ?_
      exact ih (fun e he => hes e (mem_cons_of_mem _ he)) (Nat.succ.inj hlen) hrest (by omega)

theorem reads_compare (h : src.Reads left e) (hlevel : 1 ≤ e.level)
    (hes : ∀ e ∈ es, src.Reads left e ∧ 1 ≤ e.level) (hlen : ops.length = es.length) (hne : es ≠ []) :
    src.Reads left (.compare span e ops es) := by
  intro i j l hat hl hj
  rw [Expr.written, ← comparesWritten] at hat hj
  rw [at_append] at hat
  rw [length_append] at hj
  obtain ⟨hfirst, hrest⟩ := hat
  have hnext := hrest.next hl (by omega)
  obtain ⟨level, hle, hreadable⟩ := h.bracketed hlevel hfirst hnext (by decide) rfl
  refine .of_comparison hl fun hstop => ?_
  have hstop' := hstop.mono (by decide : 1 ≤ 2)
  have hsum := hreadable.read_sum hle hnext (stops_compares ops es hstop')
  have hrounds := rounds_compare hes hlen hl hstop' hrest (by omega)
  have hzip : ops.zip (es.map Expr.bare) ≠ [] := by
    cases es with
    | nil => exact absurd rfl hne
    | cons e es =>
      cases ops with
      | nil => cases hlen
      | cons op ops => simp
  rw [comparison_chain hsum hrounds hzip hl hstop, map_fst_zip, map_snd_zip, Expr.bare, exprsBare_eq_map]
  · simp [hlen]
  · simp [hlen]

/-- Expressions side by side. -/
theorem rounds_exprs (hes : ∀ e ∈ es, src.Reads left e) (hjux : Juxtaposed left es) (hl : src.Holds j l)
    (hstop : l.Stops 0) (hat : src.At i (operandsWritten left 0 es).flatten)
    (hj : i + (operandsWritten left 0 es).flatten.length = j) :
    Rounds (src.read none) [.keep (.rule .expr)] i ((es.map Expr.bare).map .expr) j := by
  induction es generalizing i with
  | nil =>
    obtain rfl : i = j := hj
    exact .nil
  | cons e es ih =>
    have hwhole : Labyrinth.bracketed (e.level < 0) (e.written left) = e.written left := by
      simp [Labyrinth.bracketed]
    simp only [operandsWritten, flatten_cons, hwhole, at_append, length_append] at hat hj
    obtain ⟨hfirst, hrest⟩ := hat
    have hnext := hrest.next hl (by omega)
    have hnextStop : ((operandsWritten left 0 es).flatten.head?.getD l).Stops 0 := by
      cases es with
      | nil => exact hstop
      | cons e' es =>
        obtain ⟨l', rest, heq, hkind⟩ := hjux e' mem_cons_self
        simp only [operandsWritten, Labyrinth.bracketed, Nat.not_lt_zero, decide_false, flatten_cons, heq]
        exact Lexeme.stops_of_ne hkind 0
    have hread := (hes e mem_cons_self hfirst hnext rfl).expr hnextStop
    refine .cons (steps_keep_one hread rfl) (ih (fun e he => hes e (mem_cons_of_mem _ he)) ?_ hrest (by omega))
    intro e' he'
    exact hjux e' (mem_of_mem_tail he')

theorem noExpr_close (hs : s ∈ [")", "]"]) : (Lexeme.op s).NoExpr := by
  simp only [mem_cons, not_mem_nil, or_false] at hs
  rcases hs with rfl | rfl
  · exact ⟨rfl, nofun, by decide⟩
  · exact ⟨rfl, nofun, by decide⟩

/-- Expressions side by side in brackets. -/
theorem read_exprs {r : Rule} (hes : ∀ e ∈ es, src.Reads left e) (hjux : Juxtaposed left es)
    (hl : src.Holds j (.op s)) (hs : s ∈ [")", "]"])
    (hat : src.At i (operandsWritten left 0 es).flatten) (hj : i + (operandsWritten left 0 es).flatten.length = j)
    (hb : r.body = .rounds [.keep (.rule .expr)]) (hm : r.memory = .remembered) :
    src.read none (.rule r) i = some (.list ((exprsBare es).map .expr), j) := by
  have hstop : (Lexeme.op s).Stops 0 := by
    simp only [mem_cons, not_mem_nil, or_false] at hs
    rcases hs with rfl | rfl <;> decide
  rw [exprsBare_eq_map]
  exact read_rounds (rounds_exprs hes hjux hl hstop hat hj) (steps_keep_none (expr_miss hl (noExpr_close hs))) hb hm

theorem reads_subscript (h : src.Reads left e) (h' : src.Reads left e')
    (hjux : Juxtaposed left [e, e']) : src.Reads left (.subscript span n e e') := by
  intro i j l hat hl hj
  have hwritten : e.written left ++ (e'.written left ++ [.op "]"]) =
      (operandsWritten left 0 [e, e']).flatten ++ [.op "]"] := by
    simp [operandsWritten, Labyrinth.bracketed]
  rw [Expr.written, hwritten] at hat hj
  simp only [at_cons, at_append, at_nil, and_true, length_cons, length_append, length_nil] at hat hj
  obtain ⟨hname, hopen, hindices, hclose⟩ := hat
  obtain rfl : i + 1 + 1 + (operandsWritten left 0 [e, e']).flatten.length + 1 = j := by omega
  refine .of_primary hname rfl rfl hl fun hstop => primary_subscript hname hopen ?_ hclose hl hstop
  exact read_exprs (by simpa using ⟨h, h'⟩) hjux hclose (by decide) hindices rfl rfl rfl

theorem reads_call {args : List (Expr Sign)} (hargs : ∀ e ∈ args, src.Reads left e)
    (hjux : Juxtaposed left args) : src.Reads left (.call span n args) := by
  intro i j l hat hl hj
  simp only [Expr.written, at_cons, at_append, at_nil, and_true, length_cons, length_append,
    length_nil] at hat hj
  obtain ⟨hname, hopen, hlist, hclose⟩ := hat
  obtain rfl : i + 1 + 1 + (operandsWritten left 0 args).flatten.length + 1 = j := by omega
  refine .of_primary hname rfl rfl hl fun hstop => primary_call hname hopen ?_ hclose hl hstop
  exact read_exprs hargs hjux hclose (by decide) hlist rfl rfl rfl

/-- The arrows of a chain with their operands. -/
def arrowsWritten (left : Span → Nat) (tails : List (Flow × Expr Sign)) : List Lexeme :=
  (tails.map fun tail => .op tail.1.spelling :: tail.2.written left).flatten

theorem arrowsWritten_cons (e : Expr Sign) (tails : List (Flow × Expr Sign)) :
    arrowsWritten left ((flow, e) :: tails) = .op flow.spelling :: (e.written left ++ arrowsWritten left tails) :=
  rfl

theorem stops_arrows (tails : List (Flow × Expr Sign)) (hstop : l.Stops 1) :
    ((arrowsWritten left tails).head?.getD l).Stops 1 := by
  cases tails with
  | nil => exact hstop
  | cons tail tails =>
    obtain ⟨flow, e⟩ := tail
    have harrow : (Lexeme.op flow.spelling).Stops 1 := by cases flow <;> decide
    exact harrow

theorem arrows_of_written {tails : List (Flow × Expr Sign)}
    (htails : ∀ e ∈ tails.map Prod.snd, src.Reads left e ∧ 1 ≤ e.level) (hl : src.Holds j l) (hstop : l.Stops 1)
    (hat : src.At i (arrowsWritten left tails)) (hj : i + (arrowsWritten left tails).length = j) :
    src.Arrows i (tails.map fun tail => (tail.1, tail.2.bare)) j := by
  induction tails generalizing i with
  | nil =>
    obtain rfl : i = j := hj
    exact .nil
  | cons tail tails ih =>
    obtain ⟨flow, e⟩ := tail
    simp only [arrowsWritten_cons, at_cons, at_append, length_cons, length_append] at hat hj
    obtain ⟨harrow, hfirst, hrest⟩ := hat
    obtain ⟨hread, hlevel⟩ := htails e mem_cons_self
    have hnext := hrest.next hl (by omega)
    have hcomparison := (hread hfirst hnext rfl).comparison hlevel (stops_arrows tails hstop)
    exact .cons harrow hcomparison (ih (fun e he => htails e (mem_cons_of_mem _ he)) hrest (by omega))

/-- One value and its targets are read as the assignment that they were laid out from. -/
theorem assignment_laid (value : Expr Sign) (hne : targets ≠ [])
    (htargets : ∀ e ∈ targets, e.isTarget = true) : assignment (Chain.laid count targets value).1.bare
      ((Chain.laid count targets value).2.map fun tail => (tail.1, tail.2.bare)) =
      some (.assign default [.mk default (targets.map Expr.bare) value.bare]) := by
  have hmap := Chain.laid_map Expr.bare count targets value
  have hassemble := Chain.assemble_laid count (targets.map Expr.bare) value.bare (by simpa using hne) (by simpa [ChainOperand.isTarget] using htargets) (by simp [ChainOperand.span])
  rw [hmap] at hassemble
  rw [assignment, hassemble]
  rfl

theorem partsWritten_eq (targets : List (Expr Sign)) (value : Expr Sign) :
    partsWritten left [.mk span targets value] = (Chain.laid (left span) targets value).1.written left ++
      arrowsWritten left (Chain.laid (left span) targets value).2 := by
  have hmap := Chain.laid_map (Expr.written left) (left span) targets value
  have htargets : operandsWritten left 0 targets = targets.map (Expr.written left) := by
    simp [operandsWritten_eq_map, Labyrinth.bracketed]
  simp [partsWritten, htargets, hmap, chained, arrowsWritten, Function.comp_def]

theorem reads_assign (span partSpan : Span) {value : Expr Sign}
    (hes : ∀ e ∈ value :: targets, src.Reads left e ∧ 1 ≤ e.level) (hne : targets ≠ [])
    (htargets : ∀ e ∈ targets, e.isTarget = true) : src.Reads left (.assign span [.mk partSpan targets value]) := by
  intro i j l hat hl hj
  rw [Expr.written, partsWritten_eq, at_append] at hat
  rw [Expr.written, partsWritten_eq, length_append] at hj
  obtain ⟨hfirst, hrest⟩ := hat
  obtain ⟨hread, hlevel⟩ := hes _ (Chain.mem_laid (.inl rfl))
  have hnext := hrest.next hl (by omega)
  refine .of_assignment fun hstop => ?_
  have hcomparison := (hread hfirst hnext rfl).comparison hlevel (stops_arrows _ (hstop.mono (by decide)))
  have harrows := arrows_of_written (fun e he => hes e (Chain.mem_laid (.inr he))) hl (hstop.mono (by decide)) hrest
    (by omega)
  have htails := Chain.laid_ne_nil (left partSpan) value hne
  rw [assignment_chain hcomparison harrows (by simpa using htails) hl hstop (assignment_laid _ value hne htargets),
    Expr.bare, partsBare, exprsBare_eq_map]
  rfl

end Cases

/-! ### All expressions -/

theorem level_of_isTarget {e : Expr Sign} (h : e.isTarget = true) : 1 ≤ e.level := by
  cases e with
  | name => exact Nat.le_add_left 1 4
  | subscript => exact Nat.le_add_left 1 4
  | _ => cases h

mutual

/-- Every expression that can be written is read as it was. -/
theorem reads (src : Source) (left : Span → Nat) : (e : Expr Sign) → e.Writable left → src.Reads left e
  | .name n, _ => reads_name n
  | .number _, hw => reads_number hw
  | .robot span op, _ => reads_robot span op
  | .subscript span n i j, ⟨_, _, hi, hj, hjux⟩ =>
    reads_subscript span n (reads src left i hi) (reads src left j hj) hjux
  | .call span n args, ⟨_, _, hargs, hjux⟩ =>
    reads_call span n (fun e he => (reads_all src left 0 args hargs e he).1) hjux
  | .unary span op e, ⟨_, he, hlevel, hsign⟩ => reads_unary span op (reads src left e he) hlevel hsign
  | .binary span l op r, ⟨_, ⟨hl, hlevel⟩, hr, hlevel'⟩ =>
    reads_binary span op (reads src left l hl) hlevel (reads src left r hr) hlevel'
  | .compare span e _ es, ⟨_, ⟨he, hlevel⟩, hes, hlen, hne⟩ =>
    reads_compare span (reads src left e he) hlevel (reads_all src left 1 es hes) hlen hne
  | .assign span parts, ⟨_, hparts⟩ => reads_parts src left span parts hparts
  | .hole _, hw => hw.elim

theorem reads_all (src : Source) (left : Span → Nat) (level : Nat) : (es : List (Expr Sign)) →
    ExprsWritable left level es → ∀ e ∈ es, src.Reads left e ∧ level ≤ e.level
  | [], _, _, he => nomatch he
  | e :: es, ⟨⟨hw, hlevel⟩, hes⟩, e', he => by
    have hfirst : src.Reads left e := reads src left e hw
    have hrest := reads_all src left level es hes
    rcases mem_cons.1 he with rfl | he
    · exact ⟨hfirst, hlevel⟩
    · exact hrest e' he

theorem reads_parts (src : Source) (left : Span → Nat) (span : Span) : (parts : List (AssignPart Sign)) →
    PartsWritable left parts → src.Reads left (.assign span parts)
  | [.mk partSpan targets value], ⟨_, ⟨htargets, hne, hall⟩, hvalue, hlevel⟩ => by
    have hread : src.Reads left value := reads src left value hvalue
    have hreads := reads_all src left 0 targets htargets
    refine reads_assign span partSpan (fun e he => ?_) hne hall
    rcases mem_cons.1 he with rfl | he
    · exact ⟨hread, hlevel⟩
    · exact ⟨(hreads e he).1, level_of_isTarget (hall e he)⟩
  | [], hw => False.elim hw
  | .mk _ _ _ :: _ :: _, hw => False.elim hw

end

end Grammar.Source

end Labyrinth
