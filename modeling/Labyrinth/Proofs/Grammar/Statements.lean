import Labyrinth.Proofs.Grammar.WrittenExpr

/-!
# Reading written statements

Every statement that was written is read as the same statement. An expression is told from a definition and from
a declaration by its second lexeme: no two words follow one another at its start.
-/

namespace Labyrinth

open List

/-! ### Statements as plain reading yields them -/

def TypeNode.bare (t : TypeNode) : TypeNode := ⟨default, t.kind⟩

def ParamNode.bare (p : ParamNode) : ParamNode := ⟨default, p.type.bare, p.name.bare⟩

mutual

/-- A statement without places, and with marks for signs. -/
def Stmt.bare : Stmt Sign → Stmt SignRef
  | .expr _ e => .expr default e.bare
  | .declareNumber _ t names n => .declareNumber default t.bare (names.map NameNode.bare) n.bare
  | .declareField _ t u names n => .declareField default t.bare u.bare (names.map NameNode.bare) n.bare
  | .loop _ test body => .loop default test.bare (stmtsBare body)
  | .check _ test body => .check default test.bare (stmtsBare body)
  | .function _ t name params body => .function default t.bare name (params.map ParamNode.bare) (stmtsBare body)
  | .giveBack _ value => .giveBack default value.bare

def stmtsBare : List (Stmt Sign) → List (Stmt SignRef)
  | [] => []
  | s :: ss => s.bare :: stmtsBare ss

end

/-! ### How expressions begin -/

/-- Lexemes that begin like an expression: with a number, a sign or a parenthesis, or with a word before an
operator. -/
def Opening (lexemes : List Lexeme) : Prop :=
  ∃ first, lexemes.head? = some first ∧ (first.kind = .number ∨ (∃ s ∈ ["(", "+", "-"], first = .op s) ∨
    (first.kind = .name ∨ ∃ op : RobotOp, first.kind = .keyword op.keyword) ∧ ∃ next, lexemes[1]? = some next ∧ next.kind = .op)

theorem opening_op {s : String} (hs : s ∈ ["(", "+", "-"]) (rest : List Lexeme) : Opening (.op s :: rest) :=
  ⟨.op s, rfl, .inr (.inl ⟨s, hs, rfl⟩)⟩

theorem opening_word {first next : Lexeme}
    (h : first.kind = .name ∨ ∃ op : RobotOp, first.kind = .keyword op.keyword) (hnext : next.kind = .op) (rest : List Lexeme) : Opening (first :: next :: rest) :=
  ⟨first, rfl, .inr (.inr ⟨h, next, rfl, hnext⟩)⟩

/-- What an expression begins with begins no other statement, and a word is followed by an operator. -/
structure Opening.First (lexemes : List Lexeme) (first : Lexeme) : Prop where
  head : lexemes[0]? = some first
  notType : first.kind.isNumberType = false
  notKeyword : ∀ k ∈ [Keyword.untilWord, .check, .returnWord, .field], first.kind ≠ .keyword k
  notComma : first.isOp "," = false
  next : first.kind.isWord = true → ∃ next, lexemes[1]? = some next ∧ next.kind = .op

theorem Opening.first {lexemes : List Lexeme} (h : Opening lexemes) : ∃ first, Opening.First lexemes first := by
  obtain ⟨first, hhead, hcases⟩ := h
  rw [head?_eq_getElem?] at hhead
  rcases hcases with hkind | ⟨s, hs, rfl⟩ | ⟨hkind, hnext⟩
  · refine ⟨first, hhead, by rw [hkind]; rfl, by simp [hkind], Lexeme.isOp_of_ne (by simp [hkind]) _, ?_⟩
    intro hword
    rw [hkind] at hword
    cases hword
  · refine ⟨.op s, hhead, rfl, by simp [Lexeme.op], ?_, nofun⟩
    simp only [mem_cons, not_mem_nil, or_false] at hs
    rcases hs with rfl | rfl | rfl <;> rfl
  · rcases hkind with hk | ⟨op, hk⟩
    · exact ⟨first, hhead, by rw [hk]; rfl, by simp [hk], Lexeme.isOp_of_ne (by simp [hk]) _, fun _ => hnext⟩
    · refine ⟨first, hhead, ?_, ?_, Lexeme.isOp_of_ne (by simp [hk]) _, fun _ => hnext⟩
      · rw [hk]
        cases op <;> rfl
      · rw [hk]
        cases op <;> decide

/-- However an expression is bracketed, it begins like one. -/
theorem opening_bracketed {needed : Bool} {lexemes rest : List Lexeme} (h : Opening (lexemes ++ rest)) :
    Opening (bracketed needed lexemes ++ rest) := by
  cases needed with
  | true => exact opening_op (by decide) _
  | false => exact h

mutual

theorem Expr.opening (left : Span → Nat) {l : Lexeme} (hl : l.kind = .op) :
    (e : Expr Sign) → e.Writable left → ∀ rest, Opening (e.written left ++ l :: rest)
  | .name _, _, rest => opening_word (.inl rfl) hl rest
  | .number ⟨_, _, .unsigned⟩, _, _ => ⟨_, rfl, .inl rfl⟩
  | .number ⟨_, _, .positive⟩, _, _ => opening_op (by decide) _
  | .number ⟨_, _, .negative⟩, _, _ => opening_op (by decide) _
  | .robot _ op, _, rest => opening_word (.inr ⟨op, rfl⟩) hl rest
  | .subscript _ _ _ _, _, _ => opening_word (.inl rfl) rfl _
  | .call _ _ _, _, _ => opening_word (.inl rfl) rfl _
  | .unary _ op _, _, _ => opening_op (by cases op <;> decide) _
  | .binary _ lhs op rhs, ⟨_, ⟨hw, _⟩, _⟩, rest => by
    rw [Expr.written, append_assoc]
    exact opening_bracketed (Expr.opening left rfl lhs hw _)
  | .compare _ e ops es, ⟨_, ⟨hw, _⟩, _, hlen, hne⟩, rest => by
    cases es with
    | nil => exact absurd rfl hne
    | cons e' es =>
      cases ops with
      | nil => cases hlen
      | cons op ops =>
        rw [Expr.written, append_assoc]
        exact opening_bracketed (Expr.opening left rfl e hw _)
  | .assign _ parts, ⟨_, hw⟩, rest => partsOpening left parts hw _
  | .hole _, hw, _ => hw.elim

theorem exprsOpening (left : Span → Nat) {l : Lexeme} (hl : l.kind = .op) (level : Nat) : (es : List (Expr Sign)) →
    ExprsWritable left level es → ∀ e ∈ es, ∀ rest, Opening (e.written left ++ l :: rest)
  | [], _, _, he => nomatch he
  | e :: es, ⟨⟨hw, _⟩, hes⟩, e', he => by
    have hfirst := Expr.opening left hl e hw
    have hrest := exprsOpening left hl level es hes
    rcases mem_cons.1 he with rfl | he
    · exact hfirst
    · exact hrest e' he

theorem partsOpening (left : Span → Nat) : (parts : List (AssignPart Sign)) → PartsWritable left parts →
    ∀ rest, Opening (partsWritten left parts ++ rest)
  | [.mk span targets value], ⟨_, ⟨htargets, hne, _⟩, hvalue, _⟩, rest => by
    have hfirst (l : Lexeme) (hl : l.kind = .op) := Expr.opening left hl value hvalue
    have hrest (l : Lexeme) (hl : l.kind = .op) := exprsOpening left hl 0 targets htargets
    rw [Grammar.Source.partsWritten_eq, append_assoc]
    cases htails : (Chain.laid (left span) targets value).2 with
    | nil => exact absurd htails (Chain.laid_ne_nil _ _ hne)
    | cons tail tails =>
      rcases mem_cons.1 (Chain.mem_laid (e := (Chain.laid (left span) targets value).1) (.inl rfl)) with heq | hmem
      · rw [heq]
        exact hfirst _ rfl _
      · exact hrest _ rfl _ hmem _
  | [], hw, _ => False.elim hw
  | .mk _ _ _ :: _ :: _, hw, _ => False.elim hw

end

namespace Grammar.Source

variable {src : Source} {left : Span → Nat} {own : Option Seed} {i j k : Nat} {l : Lexeme}

/-! ### Parameters -/

theorem gather_miss {r first others : Rule} (hread : src.read none (.rule first) i = some (.nothing, i))
    (hb : r.body = .gather first others)
    (hm : r.memory = .remembered) : src.read own (.rule r) i = some (.nothing, i) := by
  refine read_eq_some_iff.2 (.of_leads (.anew hm ?_))
  rw [hb]
  exact .missing (read_eq_some_iff.1 hread) rfl

theorem gather_hit {r first others : Rule} {item : Parsed} {items : List Parsed}
    (hread : src.read none (.rule first) i = some (item, k)) (hitem : item.succeeds = true)
    (hothers : src.read none (.rule others) k = some (.list items, j))
    (hb : r.body = .gather first others) (hm : r.memory = .remembered) :
    src.read own (.rule r) i = some (.list (item :: items), j) := by
  have hsome : item.isNothing = false := by
    cases item <;> first | rfl | cases hitem
  refine read_eq_some_iff.2 (.of_leads (.anew hm ?_))
  rw [hb]
  exact .both (read_eq_some_iff.1 hread) hsome (read_eq_some_iff.1 hothers) rfl

theorem argument_hit {p : ParamNode} (htype : src.Holds i p.type.written) (hname : src.Holds (i + 1) p.name.written) :
    src.read own (.rule .argument) i = some (.param p.bare, i + 2) := by
  refine read_choice ?_ rfl rfl
  simp [choice, steps, numberType_hit htype, identifier_hit hname, Parsed.succeeds, build, ParamNode.bare,
    TypeNode.bare, NameNode.bare]

/-- Two names are mistaken for a parameter with an unknown type. -/
theorem argument_names {s s' : String} (h : src.Holds i (.name s)) (h' : src.Holds (i + 1) (.name s')) :
    src.read none (.rule .argument) i =
      some (.param ⟨default, ⟨Span.asRecovered default, .normal⟩, ⟨default, s'⟩⟩, i + 2) := by
  obtain ⟨t, hmem, hshows, ht⟩ := accepts_wordNotBegin.hit h rfl
  obtain ⟨t', _, hshows', ht'⟩ := accepts_wordNotBegin.hit h' rfl
  have hkind : t.kind = .name := hshows.kind
  have hkind' : t'.kind = .name := hshows'.kind
  have htext : t'.text = s' := hshows'.text
  have hrecover : src.read none (.rule .recoverArgument) i =
      some (.param ⟨default, ⟨Span.asRecovered default, .normal⟩, ⟨default, s'⟩⟩, i + 2) := by
    refine read_choice ?_ rfl rfl
    simp [choice, steps, ht, ht', Parsed.succeeds, build, hmem, hkind, hkind', htext]
  refine read_choice ?_ rfl rfl
  simp [choice, only, steps, numberType_miss h rfl, hrecover, Parsed.succeeds, build]

theorem argument_miss (h : src.Holds i l) (hl : l.kind.isNumberType = false)
    (hnext : (l.kind.isWord && l.kind != .keyword .begin) = true →
      ∃ l', src.Holds (i + 1) l' ∧ l'.kind.isWord = false) :
    src.read none (.rule .argument) i = some (.nothing, i) := by
  have hrecover : src.read none (.rule .recoverArgument) i = some (.nothing, i) := by
    refine read_choice ?_ rfl rfl
    cases hword : l.kind.isWord && l.kind != .keyword .begin with
    | true =>
      obtain ⟨t, _, _, ht⟩ := accepts_wordNotBegin.hit h hword
      obtain ⟨l', hl', hword'⟩ := hnext hword
      have hmiss : src.read none (.rule .wordNotBegin) (i + 1) = some (.nothing, i + 1) :=
        accepts_wordNotBegin.miss hl' (by simp [hword'])
      simp [choice, steps, ht, hmiss, Parsed.succeeds]
    | false => simp [choice, steps, accepts_wordNotBegin.miss h hword, Parsed.succeeds]
  refine read_choice ?_ rfl rfl
  simp [choice, only, steps, numberType_miss h hl, hrecover, Parsed.succeeds]

/-- A rule for parameters with commas between them. -/
structure ParamRule (params others : Rule) : Prop where
  body : params.body = .gather .argument others
  memory : params.memory = .remembered
  othersBody : others.body = .rounds [.need (.expect ","), .keep (.rule .argument)]
  othersMemory : others.memory = .remembered

theorem paramList_rule : ParamRule .paramList .moreParams := ⟨rfl, rfl, rfl, rfl⟩

theorem recoverParamList_rule : ParamRule .recoverParamList .moreRecoverParams := ⟨rfl, rfl, rfl, rfl⟩

theorem steps_no_comma {c : Call} (h : src.Holds i l) (hl : l.isOp "," = false) :
    steps (src.read none) [] false i [.need (.expect ","), .keep c] = some (none, false) := by
  simp [steps, expect_miss h hl (by decide), Parsed.succeeds]

/-- Parameters after commas. -/
theorem rounds_params {ps : List ParamNode} (hat : src.At i ((ps.map ParamNode.written).map (.op "," :: ·)).flatten)
    (hj : i + ((ps.map ParamNode.written).map (.op "," :: ·)).flatten.length = j) :
    Rounds (src.read none) [.need (.expect ","), .keep (.rule .argument)] i (ps.map fun p => .param p.bare) j := by
  induction ps generalizing i with
  | nil =>
    obtain rfl : i = j := hj
    exact .nil
  | cons p ps ih =>
    simp only [map_cons, flatten_cons, ParamNode.written, cons_append, nil_append, at_cons,
      length_cons] at hat hj
    obtain ⟨hcomma, htype, hname, hrest⟩ := hat
    obtain ⟨t, _, ht⟩ := expect_hit hcomma (by decide)
    have hargument : src.read none (.rule .argument) (i + 1) = some (.param p.bare, i + 1 + 2) :=
      argument_hit htype hname
    have hstep : steps (src.read none) [] false i [.need (.expect ","), .keep (.rule .argument)] =
        some (some ([.param p.bare], i + 1 + 2), false) := by
      simp [steps, ht, hargument, Parsed.succeeds]
    exact .cons hstep (ih hrest (by omega))

namespace ParamRule

variable {params others : Rule}

theorem read_params (h : ParamRule params others) {p : ParamNode} {ps : List ParamNode} (hl : src.Holds j l)
    (hcomma : l.isOp "," = false) (hat : src.At i (separated ((p :: ps).map ParamNode.written)))
    (hj : i + (separated ((p :: ps).map ParamNode.written)).length = j) :
    src.read none (.rule params) i = some (.list ((p :: ps).map fun p => .param p.bare), j) := by
  simp only [map_cons, separated, at_append, length_append] at hat hj
  obtain ⟨⟨htype, hname, _⟩, hrest⟩ := hat
  have hothers : src.read none (.rule others) (i + 2) = some (.list (ps.map fun p => .param p.bare), j) :=
    read_rounds (rounds_params hrest (by rw [← hj]; exact Nat.add_assoc i 2 _)) (steps_no_comma hl hcomma) h.othersBody h.othersMemory
  exact gather_hit (argument_hit htype hname) rfl hothers h.body h.memory

/-- After what may be parameters no body begins. -/
def NoBody (src : Source) (params : Rule) (i : Nat) : Prop :=
  ∃ x k l, src.read none (.rule params) i = some (x, k) ∧ src.Holds k l ∧ l.isOp "," = false ∧
    l.kind ≠ .keyword .begin

theorem noBody_of_miss (h : ParamRule params others) (hl : src.Holds i l) (hcomma : l.isOp "," = false)
    (hbegin : l.kind ≠ .keyword .begin) (hread : src.read none (.rule .argument) i = some (.nothing, i)) :
    NoBody src params i :=
  ⟨.nothing, i, l, gather_miss hread h.body h.memory, hl, hcomma, hbegin⟩

theorem noBody_of_hit (h : ParamRule params others) {p : ParamNode} (hl : src.Holds (i + 2) l)
    (hcomma : l.isOp "," = false) (hbegin : l.kind ≠ .keyword .begin)
    (hread : src.read none (.rule .argument) i = some (.param p, i + 2)) : NoBody src params i := by
  have hothers : src.read none (.rule others) (i + 2) = some (.list [], i + 2) :=
    read_rounds .nil (steps_no_comma hl hcomma) h.othersBody h.othersMemory
  exact ⟨_, _, l, gather_hit hread rfl hothers h.body h.memory, hl, hcomma, hbegin⟩

/-- The names of a declaration are no parameters before a body, although two of them are read as one. -/
theorem noBody_names (h : ParamRule params others) {names : List NameNode} (hat : src.At i (names.map NameNode.written))
    (harrow : src.Holds (i + names.length) (.op "<<")) : NoBody src params i := by
  match names with
  | [] => exact h.noBody_of_miss harrow rfl nofun (argument_miss harrow rfl nofun)
  | [n] =>
    exact h.noBody_of_miss hat.1 rfl nofun (argument_miss hat.1 rfl fun _ => ⟨_, harrow, rfl⟩)
  | [n, m] => exact h.noBody_of_hit harrow rfl nofun (argument_names hat.1 hat.2.1)
  | n :: m :: n' :: _ => exact h.noBody_of_hit hat.2.2.1 rfl nofun (argument_names hat.1 hat.2.1)

/-- Nor are the size and the names of a field. -/
theorem noBody_field (h : ParamRule params others) {t : TypeNode} {names : List NameNode} (ht : src.Holds i t.written)
    (hat : src.At (i + 1) (names.map NameNode.written)) (hne : names ≠ [])
    (harrow : src.Holds (i + 1 + names.length) (.op "<<")) : NoBody src params i := by
  match names with
  | [] => exact absurd rfl hne
  | [n] =>
    have hread : src.read none (.rule .argument) i = _ := argument_hit (p := ⟨default, t, n⟩) ht hat.1
    exact h.noBody_of_hit harrow rfl nofun hread
  | n :: m :: _ =>
    have hread : src.read none (.rule .argument) i = _ := argument_hit (p := ⟨default, t, n⟩) ht hat.1
    exact h.noBody_of_hit hat.2.1 rfl nofun hread

/-- Without a body there is no function. -/
theorem steps_head {type name : Rule} {x y : Parsed} (rest : List Step)
    (htype : src.read none (.rule type) i = some (x, i + 1))
    (hname : src.read none (.rule name) (i + 1) = some (y, i + 2)) (hbody : NoBody src params (i + 2)) :
    steps (src.read none) [] false i (functionHead type name params ++ .need (.keyword .begin) :: rest) =
      some (none, false) := by
  obtain ⟨z, k, l, hparams, hl, hcomma, hbegin⟩ := hbody
  have hmiss : src.read none (.keyword .begin) k = some (.nothing, k) :=
    (accepts_keyword .begin).miss hl (beq_eq_false_iff_ne.2 hbegin)
  simp [functionHead, steps, htype, hname, hparams, expect_miss hl hcomma (by decide), hmiss, Parsed.succeeds]

end ParamRule

/-! ### Telling statements apart -/

theorem functionDefinition_miss
    (hsteps : ∀ rest, steps (src.read none) [] false i
      (functionHead .numberType .identifier .paramList ++ .need (.keyword .begin) :: rest) = some (none, false))
    (hrecover : ∀ rest, steps (src.read none) [] false i
      (functionHead .word .word .recoverParamList ++ .need (.keyword .begin) :: rest) = some (none, false)) :
    src.read none (.rule .functionDefinition) i = some (.nothing, i) := by
  have hread : src.read none (.rule .recoverFunctionDefinition) i = some (.nothing, i) := by
    refine read_choice ?_ rfl rfl
    rw [choice, hrecover]
    simp [choice]
  refine read_choice ?_ rfl rfl
  rw [choice, hsteps]
  simp [choice, only, onlyInvalid, steps, hread, Parsed.succeeds]

theorem declaration_miss (h : src.Holds i l) (hfield : l.kind ≠ .keyword .field)
    (hread : src.read none (.rule .numberDeclaration) i = some (.nothing, i)) :
    src.read none (.rule .declaration) i = some (.nothing, i) := by
  have hmiss : src.read none (.keyword .field) i = some (.nothing, i) :=
    (accepts_keyword .field).miss h (beq_eq_false_iff_ne.2 hfield)
  refine read_choice ?_ rfl rfl
  simp [choice, only, steps, hmiss, hread, Parsed.succeeds]

/-- What is no type, and is no word before another word, begins neither a function nor a declaration. -/
theorem miss_of_notType (h : src.Holds i l) (htype : l.kind.isNumberType = false) (hfield : l.kind ≠ .keyword .field)
    (hnext : l.kind.isWord = true → ∃ l', src.Holds (i + 1) l' ∧ l'.kind.isWord = false) :
    src.read none (.rule .functionDefinition) i = some (.nothing, i) ∧
      src.read none (.rule .declaration) i = some (.nothing, i) := by
  have hmiss : src.read none (.rule .numberType) i = some (.nothing, i) := numberType_miss h htype
  cases hword : l.kind.isWord with
  | false =>
    have hno : src.read none (.rule .word) i = some (.nothing, i) := accepts_word.miss h hword
    have hrecover : src.read none (.rule .recoverNumberDeclaration) i = some (.nothing, i) := by
      refine read_choice ?_ rfl rfl
      simp [choice, steps, hno, Parsed.succeeds]
    refine ⟨functionDefinition_miss ?_ ?_, declaration_miss h hfield (read_choice ?_ rfl rfl)⟩
    · simp [functionHead, steps, hmiss, Parsed.succeeds]
    · simp [functionHead, steps, hno, Parsed.succeeds]
    · simp [choice, only, steps, hmiss, hrecover, Parsed.succeeds]
  | true =>
    obtain ⟨t, _, _, ht⟩ := accepts_word.hit h hword
    obtain ⟨l', hl', hword'⟩ := hnext hword
    have hno : src.read none (.rule .word) (i + 1) = some (.nothing, i + 1) := accepts_word.miss hl' hword'
    have hnames : src.read none (.rule .recoverNumberNames) (i + 1) = some (.list [], i + 1) :=
      read_rounds .nil (steps_keep_none hno) rfl rfl
    have hrecover : src.read none (.rule .recoverNumberDeclaration) i = some (.nothing, i) := by
      refine read_choice ?_ rfl rfl
      simp [choice, steps, ht, hnames, Parsed.succeeds]
    refine ⟨functionDefinition_miss ?_ ?_, declaration_miss h hfield (read_choice ?_ rfl rfl)⟩
    · simp [functionHead, steps, hmiss, Parsed.succeeds]
    · simp [functionHead, steps, ht, hno, Parsed.succeeds]
    · simp [choice, only, steps, hmiss, hrecover, Parsed.succeeds]

/-- A statement that begins with none of the keywords of statements is a function, a declaration or an
expression. -/
theorem statement_of (h : src.Holds i l)
    (hkeyword : ∀ k ∈ [Keyword.untilWord, .check, .returnWord], l.kind ≠ .keyword k) {x : Parsed × Nat}
    (hread : src.choice (src.read none) i
      [only .functionDefinition, only .declaration, ⟨[.keep (.rule .expr)], .single, false⟩] = some x) :
    src.read none (.rule .statement) i = some x := by
  have hmiss : ∀ k ∈ [Keyword.untilWord, .check, .returnWord], src.read none (.keyword k) i = some (.nothing, i) :=
    fun k hk => (accepts_keyword k).miss h (beq_eq_false_iff_ne.2 (hkeyword k hk))
  refine read_choice ?_ rfl rfl
  rw [choice, choice, choice, hread]
  simp [steps, hmiss, Parsed.succeeds]

/-- Nothing is read where no statement begins. -/
theorem statement_miss (h : src.Holds i l) (hl : l.NoExpr) (hreturn : l.kind ≠ .keyword .returnWord) :
    src.read none (.rule .statement) i = some (.nothing, i) := by
  have hword := hl.word
  have hkeyword : ∀ k ∈ [Keyword.untilWord, .check, .returnWord, .field], l.kind ≠ .keyword k := by
    intro k hk hkind
    rw [hkind] at hword hreturn
    cases k <;> first | exact hreturn rfl | cases hword
  have htype : l.kind.isNumberType = false := by
    cases hk : l.kind with
    | keyword k =>
      rw [hk] at hword
      cases k <;> first | rfl | cases hword
    | _ => rfl
  obtain ⟨hfunction, hdeclaration⟩ := miss_of_notType h htype (hkeyword .field (by decide)) fun hw => by
    rw [hword] at hw
    cases hw
  refine statement_of h (fun k hk => hkeyword k (by revert k; decide)) ?_
  have hexpr : src.read none (.rule .expr) i = some (.nothing, i) := expr_miss h hl
  simp [choice, only, steps, hfunction, hdeclaration, hexpr, Parsed.succeeds]

/-- A written expression is read as a statement. -/
theorem statement_expr {e : Expr Sign} (span : Span) (hw : e.Writable left) (hat : src.At i (e.written left))
    (hl : src.Holds j l) (hj : i + (e.written left).length = j) (hkind : l.kind = .op) (hstop : l.Stops 0) :
    src.read none (.rule .statement) i = some (.stmt (Stmt.expr span e).bare, j) := by
  obtain ⟨first, hfirst⟩ := (e.opening left hkind hw []).first
  have hwhole : src.At i (e.written left ++ [l]) := at_append.2 ⟨hat, hj ▸ ⟨hl, trivial⟩⟩
  have hholds : src.Holds i first := hwhole.get hfirst.head
  obtain ⟨hfunction, hdeclaration⟩ := miss_of_notType hholds hfirst.notType (hfirst.notKeyword .field (by decide))
    fun hword => by
      obtain ⟨next, hnext, hop⟩ := hfirst.next hword
      exact ⟨next, hwhole.get hnext, by rw [hop]; rfl⟩
  have hexpr := (reads src left e hw hat hl hj).expr hstop
  refine statement_of hholds (fun k hk => hfirst.notKeyword k (by revert k; decide)) ?_
  simp [choice, only, steps, hfunction, hdeclaration, hexpr, Parsed.succeeds, build, Stmt.bare]

end Grammar.Source

end Labyrinth
