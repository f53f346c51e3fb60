import Labyrinth.Proofs.Grammar.Statements

/-!
# Written programs are read

Every statement that was written is read as it was, by induction on the statement, and so is a program that was
written group by group.
-/

namespace Labyrinth

open List

@[simp] theorem Parser.stmtsOf_map (ss : List (Stmt SignRef)) :
    Parser.stmtsOf (.tuple [.list (ss.map .stmt)]) = ss := by
  simp [Parser.stmtsOf, filterMap_map]

@[simp] theorem Parser.paramsOf_map (ps : List ParamNode) :
    Parser.paramsOf (.list (ps.map fun p => .param p.bare)) = ps.map ParamNode.bare := by
  simp [Parser.paramsOf, Parsed.items, filterMap_map]

@[simp] theorem Parser.namesOf_map (names : List NameNode) :
    Parser.namesOf (.list (names.map fun n => .expr (.name n.bare))) = names.map NameNode.bare := by
  simp [Parser.namesOf, Parsed.items, filterMap_map]

theorem stmtsBare_eq_map (ss : List (Stmt Sign)) : stmtsBare ss = ss.map Stmt.bare := by
  induction ss with
  | nil => rfl
  | cons s ss ih => rw [stmtsBare, ih, map_cons]

namespace Grammar.Source

variable {src : Source} {left : Span → Nat} {own : Option Seed} {i j k : Nat} {l : Lexeme}
variable {names : List NameNode} {r : Rule} {n : NumberNode Sign} {e : Expr Sign} {body : List (Stmt Sign)}

/-! ### Declarations -/

theorem rounds_names (hat : src.At i (names.map NameNode.written)) :
    Rounds (src.read none) [.keep (.rule .identifier)] i (names.map fun n => .expr (.name n.bare))
      (i + names.length) := by
  induction names generalizing i with
  | nil => exact .nil
  | cons n names ih =>
    obtain ⟨hname, hrest⟩ := hat
    have hread : src.read none (.rule .identifier) i = some (.expr (.name n.bare), i + 1) := identifier_hit hname
    have hlen : i + 1 + names.length = i + (n :: names).length := by
      rw [length_cons]
      omega
    exact .cons (steps_keep_one hread rfl) (hlen ▸ ih hrest)

/-- Names up to an arrow. -/
theorem read_names (hat : src.At i (names.map NameNode.written))
    (harrow : src.Holds (i + names.length) (.op "<<")) (hb : r.body = .rounds [.keep (.rule .identifier)])
    (hm : r.memory = .remembered) :
    src.read none (.rule r) i = some (.list (names.map fun n => .expr (.name n.bare)), i + names.length) :=
  read_rounds (rounds_names hat) (steps_keep_none (identifier_miss harrow nofun)) hb hm

theorem keyword_hit {k : Keyword} (h : src.Holds i (.keyword k)) :
    ∃ t, ∀ own, src.read own (.keyword k) i = some (.token t, i + 1) := by
  obtain ⟨t, _, _, ht⟩ := (accepts_keyword k).hit h (beq_self_eq_true _)
  exact ⟨t, ht⟩

theorem isWord_type (t : TypeNode) : t.written.kind.isWord = true := by
  obtain ⟨span, kind⟩ := t
  cases kind <;> rfl

theorem notKeyword_type (t : TypeNode) :
    ∀ k ∈ [Keyword.untilWord, .check, .returnWord, .field], t.written.kind ≠ .keyword k := by
  have hkind : ∀ kind : NumberKind, ∀ k ∈ [Keyword.untilWord, .check, .returnWord, .field],
      TokenKind.keyword kind.keyword ≠ .keyword k := by
    intro kind
    cases kind <;> decide
  exact hkind t.kind

theorem expr_number (hw : n.Writable) (hat : src.At i n.written) (hl : src.Holds j l)
    (hj : i + n.written.length = j) (hstop : l.Stops 0) :
    src.read none (.rule .expr) i = some (.expr (.number n.bare), j) :=
  have hreads : src.Reads (fun _ => 0) (.number n) := reads_number hw
  (hreads hat hl hj).expr hstop

theorem statement_declareNumber (span : Span) (t : TypeNode)
    (hne : names ≠ []) (hw : n.Writable)
    (hat : src.At i (t.written :: (names.map NameNode.written ++ .op "<<" :: n.written))) (hl : src.Holds j l)
    (hj : i + (t.written :: (names.map NameNode.written ++ .op "<<" :: n.written)).length = j) (hstop : l.Stops 0) :
    src.read none (.rule .statement) i = some (.stmt (Stmt.declareNumber span t names n).bare, j) := by
  simp only [at_cons, at_append, length_cons, length_append, length_map] at hat hj
  obtain ⟨ht, hnames, harrow, hvalue⟩ := hat
  obtain ⟨u, _, hu⟩ := expect_hit harrow (by decide)
  have htype : src.read none (.rule .numberType) i = some (.type t.bare, i + 1) := numberType_hit ht
  have hexpr := expr_number hw hvalue hl (by omega) hstop
  have hread : src.read none (.rule .numberNames) (i + 1) = _ := read_names hnames harrow rfl rfl
  -- The head of a function is found, but no body follows it.
  have hfunction : src.read none (.rule .functionDefinition) i = some (.nothing, i) := by
    obtain ⟨first, others, rfl⟩ := exists_cons_of_ne_nil hne
    obtain ⟨hfirst, hothers⟩ := hnames
    obtain ⟨w, _, _, hword⟩ := accepts_word.hit ht (isWord_type t)
    obtain ⟨v, _, _, hv⟩ := accepts_word.hit hfirst rfl
    rw [length_cons, ← Nat.succ_add_eq_add_succ] at harrow
    refine functionDefinition_miss (fun rest => ?_) (fun rest => ?_)
    · exact ParamRule.steps_head rest htype (identifier_hit hfirst) (paramList_rule.noBody_names hothers harrow)
    · exact ParamRule.steps_head rest (hword _) (hv _) (recoverParamList_rule.noBody_names hothers harrow)
  have hdeclare : src.read none (.rule .numberDeclaration) i =
      some (.stmt (Stmt.declareNumber span t names n).bare, j) := by
    refine read_choice ?_ rfl rfl
    simp [choice, steps, htype, hread, hu, hexpr, hne, Parsed.succeeds, build, initial, Stmt.bare]
  have hdeclaration : src.read none (.rule .declaration) i =
      some (.stmt (Stmt.declareNumber span t names n).bare, j) := by
    have hmiss : src.read none (.keyword .field) i = some (.nothing, i) :=
      (accepts_keyword .field).miss ht (beq_eq_false_iff_ne.2 (notKeyword_type t .field (by decide)))
    refine read_choice ?_ rfl rfl
    simp [choice, only, steps, hmiss, hdeclare, Parsed.succeeds, build]
  refine statement_of ht (fun k hk => notKeyword_type t k (by revert k; decide)) ?_
  simp [choice, only, steps, hfunction, hdeclaration, Parsed.succeeds, build]

theorem statement_declareField (span : Span) (t u : TypeNode)
    (hne : names ≠ []) (hw : n.Writable)
    (hat : src.At i (.keyword .field :: t.written :: u.written ::
      (names.map NameNode.written ++ .op "<<" :: n.written))) (hl : src.Holds j l)
    (hj : i + (.keyword .field :: t.written :: u.written ::
      (names.map NameNode.written ++ .op "<<" :: n.written)).length = j) (hstop : l.Stops 0) :
    src.read none (.rule .statement) i = some (.stmt (Stmt.declareField span t u names n).bare, j) := by
  simp only [at_cons, at_append, length_cons, length_append, length_map] at hat hj
  obtain ⟨hfield, ht, hu, hnames, harrow, hvalue⟩ := hat
  obtain ⟨a, _, ha⟩ := expect_hit harrow (by decide)
  obtain ⟨f, hf⟩ := keyword_hit hfield
  have htype : src.read none (.rule .numberType) (i + 1) = some (.type t.bare, i + 1 + 1) := numberType_hit ht
  have hsize : src.read none (.rule .numberType) (i + 1 + 1) = some (.type u.bare, i + 1 + 1 + 1) := numberType_hit hu
  have hexpr := expr_number hw hvalue hl (by omega) hstop
  have hread : src.read none (.rule .fieldNames) (i + 1 + 1 + 1) = _ := read_names hnames harrow rfl rfl
  have hfunction : src.read none (.rule .functionDefinition) i = some (.nothing, i) := by
    obtain ⟨v, _, _, hv⟩ := accepts_word.hit hfield rfl
    obtain ⟨w, _, _, hword⟩ := accepts_word.hit ht (isWord_type t)
    refine functionDefinition_miss (fun rest => ?_) (fun rest => ?_)
    · simp [functionHead, steps, numberType_miss hfield rfl, Parsed.succeeds]
    · exact ParamRule.steps_head rest (hv _) (hword _) (recoverParamList_rule.noBody_field hu hnames hne harrow)
  have hdeclare : src.read none (.rule .arrayDeclaration) i =
      some (.stmt (Stmt.declareField span t u names n).bare, j) := by
    refine read_choice ?_ rfl rfl
    simp [choice, steps, hf, htype, hsize, hread, ha, hexpr, hne, Parsed.succeeds, build, initial, Stmt.bare]
  have hdeclaration : src.read none (.rule .declaration) i =
      some (.stmt (Stmt.declareField span t u names n).bare, j) := by
    refine read_choice ?_ rfl rfl
    simp [choice, steps, hf, hdeclare, Parsed.succeeds, build]
  refine statement_of hfield (by decide) ?_
  simp [choice, only, steps, hfunction, hdeclaration, Parsed.succeeds, build]

/-! ### Groups of statements -/

/-- A written statement is read wherever it stands before a comma or a full stop. -/
def ReadsStmt (src : Source) (left : Span → Nat) (s : Stmt Sign) : Prop :=
  ∀ {i j d}, src.At i (s.written left) → src.Holds j (.op d) → i + (s.written left).length = j → d ∈ [",", "."] →
    src.read none (.rule .statement) i = some (.stmt s.bare, j)

theorem stops_of_end {d : String} (h : d ∈ [",", "."]) : (Lexeme.op d).Stops 0 := by
  simp only [mem_cons, not_mem_nil, or_false] at h
  rcases h with rfl | rfl <;> decide

/-- No statement begins with a comma. -/
theorem stmt_head (left : Span → Nat) {s : Stmt Sign} (hw : s.Writable left) (hl : l.kind = .op) :
    ∃ first : Lexeme, (s.written left ++ [l])[0]? = some first ∧ first.isOp "," = false := by
  cases s with
  | expr span e =>
    obtain ⟨first, hfirst⟩ := (e.opening left hl hw.2 []).first
    exact ⟨first, hfirst.head, hfirst.notComma⟩
  | _ => exact ⟨_, rfl, rfl⟩

/-- Statements after commas. -/
def moreWritten (left : Span → Nat) (ss : List (Stmt Sign)) : List Lexeme :=
  ((stmtsWritten left ss).map (.op "," :: ·)).flatten

theorem moreWritten_cons (s : Stmt Sign) (ss : List (Stmt Sign)) :
    moreWritten left (s :: ss) = .op "," :: (s.written left ++ moreWritten left ss) :=
  rfl

theorem moreWritten_head (left : Span → Nat) (ss : List (Stmt Sign)) :
    ∃ d ∈ [",", "."], (moreWritten left ss).head?.getD (.op ".") = .op d := by
  cases ss with
  | nil => exact ⟨".", by decide, rfl⟩
  | cons s ss => exact ⟨",", by decide, rfl⟩

/-- A comma before something else. -/
theorem separators_hit (h : src.Holds i (.op ",")) (hl : src.Holds (i + 1) l) (hcomma : l.isOp "," = false) :
    ∃ t, src.read none (.rule .separators) i = some (.list [.token t], i + 1) := by
  obtain ⟨t, _, ht⟩ := expect_hit h (by decide)
  have hend : steps (src.read none) [] false (i + 1) [.keep (.expect ",")] = some (none, false) :=
    steps_keep_none (expect_miss hl hcomma (by decide))
  exact ⟨t, read_rounds (.cons (steps_keep_one (ht none) rfl) .nil) hend rfl rfl⟩

theorem read_no_commas (h : src.Holds i l) (hcomma : l.isOp "," = false)
    (hb : r.body = .rounds [.keep (.expect ",")]) (hm : r.memory = .remembered) :
    src.read none (.rule r) i = some (.list [], i) :=
  read_rounds .nil (steps_keep_none (expect_miss h hcomma (by decide))) hb hm

theorem rounds_stmts {ss : List (Stmt Sign)} (hss : ∀ s ∈ ss, s.Writable left ∧ src.ReadsStmt left s)
    (hdot : src.Holds j (.op ".")) (hat : src.At i (moreWritten left ss)) (hj : i + (moreWritten left ss).length = j) :
    Rounds (src.read none) [.need (.rule .separators), .keep (.rule .statement)] i (ss.map fun s => .stmt s.bare) j := by
  induction ss generalizing i with
  | nil =>
    obtain rfl : i = j := hj
    exact .nil
  | cons s ss ih =>
    simp only [moreWritten_cons, at_cons, at_append, length_cons, length_append] at hat hj
    obtain ⟨hcomma, hfirst, hrest⟩ := hat
    obtain ⟨hw, hread⟩ := hss s mem_cons_self
    obtain ⟨d, hd, hnext⟩ := moreWritten_head left ss
    have hholds := hrest.next hdot (by omega)
    rw [hnext] at hholds
    obtain ⟨first, hhead, hne⟩ := stmt_head left hw (l := .op d) rfl
    have hwhole : src.At (i + 1) (s.written left ++ [.op d]) := at_append.2 ⟨hfirst, hholds, trivial⟩
    have hstart : src.Holds (i + 1) first := hwhole.get hhead
    obtain ⟨t, hsep⟩ := separators_hit hcomma hstart hne
    have hstmt := hread hfirst hholds rfl hd
    have hstep : steps (src.read none) [] false i [.need (.rule .separators), .keep (.rule .statement)] =
        some (some ([.stmt s.bare], i + 1 + (s.written left).length), false) := by
      simp [steps, hsep, hstmt, Parsed.succeeds]
    exact .cons hstep (ih (fun s hs => hss s (mem_cons_of_mem _ hs)) hrest (by omega))

theorem noExpr_dot : (Lexeme.op ".").NoExpr := ⟨rfl, nofun, by decide⟩

/-- A written group of statements is read as it was. -/
theorem read_group {ss : List (Stmt Sign)} (hss : ∀ s ∈ ss, s.Writable left ∧ src.ReadsStmt left s)
    (hat : src.At i (groupWritten left ss)) (hj : i + (groupWritten left ss).length = j) :
    src.read none (.rule .statementGroup) i = some (.tuple [.list ((stmtsBare ss).map .stmt)], j) := by
  rw [groupWritten, at_append] at hat
  rw [groupWritten, length_append] at hj
  obtain ⟨hlist, hdot, _⟩ := hat
  obtain ⟨t, _, ht⟩ := expect_hit hdot (by decide)
  have hcommas : src.read none (.rule .commas) (i + (separated (stmtsWritten left ss)).length) = _ :=
    read_no_commas hdot rfl rfl rfl
  rw [stmtsBare_eq_map]
  cases ss with
  | nil =>
    have hnone : src.read none (.rule .statementList) i = some (.nothing, i) :=
      gather_miss (statement_miss hdot noExpr_dot nofun) rfl rfl
    obtain rfl : i + 1 = j := hj
    refine read_choice ?_ rfl rfl
    change ∀ own, src.read own (.expect ".") i = some (.token t, i + 1) at ht
    change src.read none (.rule .commas) i = some (.list [], i) at hcommas
    simp [choice, steps, hnone, hcommas, ht, Parsed.succeeds, build]
  | cons s ss =>
    have hwritten : separated (stmtsWritten left (s :: ss)) = s.written left ++ moreWritten left ss := rfl
    rw [hwritten, at_append] at hlist
    rw [hwritten, length_append] at hj hdot ht hcommas
    obtain ⟨hfirst, hrest⟩ := hlist
    rw [← Nat.add_assoc] at hdot ht hcommas
    obtain ⟨d, hd, hnext⟩ := moreWritten_head left ss
    have hholds := hrest.next hdot rfl
    rw [hnext] at hholds
    have hread := (hss s mem_cons_self).2 hfirst hholds rfl hd
    have hend : steps (src.read none) [] false (i + (s.written left).length + (moreWritten left ss).length)
        [.need (.rule .separators), .keep (.rule .statement)] = some (none, false) := by
      have hno : src.read none (.rule .separators) _ = _ := read_no_commas hdot rfl rfl rfl
      simp [steps, hno, Parsed.succeeds]
    have hmore : src.read none (.rule .moreStatements) (i + (s.written left).length) = _ :=
      read_rounds (rounds_stmts (fun s hs => hss s (mem_cons_of_mem _ hs)) hdot hrest rfl) hend rfl rfl
    have hgather : src.read none (.rule .statementList) i = _ := gather_hit hread rfl hmore rfl rfl
    obtain rfl : i + (s.written left).length + (moreWritten left ss).length + 1 = j := by
      rw [← hj, Nat.add_assoc i, Nat.add_assoc i]
      rfl
    refine read_choice ?_ rfl rfl
    simp [choice, steps, hgather, hcommas, ht, Parsed.succeeds, build]

/-! ### Statements -/

/-- A keyword, a condition and a group of statements. -/
theorem read_guarded {invalid : Rule} {word : Keyword} (action : Action)
    {x : Parsed} (hw : e.Writable left) (hbody : ∀ s ∈ body, s.Writable left ∧ src.ReadsStmt left s)
    (hat : src.At i (.keyword word :: (e.written left ++ .keyword .doWord :: groupWritten left body)))
    (hj : i + (.keyword word :: (e.written left ++ .keyword .doWord :: groupWritten left body)).length = j)
    (hx : src.build i action [.expr e.bare, .tuple [.list ((stmtsBare body).map .stmt)]] = some x)
    (hb : r.body = .choice [⟨[.need (.keyword word), .keep (.rule .expr), .need (.keyword .doWord),
      .keep (.rule .statementGroup)], action, false⟩, onlyInvalid invalid])
    (hm : r.memory = .remembered) : src.read none (.rule r) i = some (x, j) := by
  simp only [at_cons, at_append, length_cons, length_append] at hat hj
  obtain ⟨hword, htest, hdo, hgroup⟩ := hat
  obtain ⟨t, ht⟩ := keyword_hit hword
  obtain ⟨u, hu⟩ := keyword_hit hdo
  have hexpr := (reads src left e hw htest hdo rfl).expr (Lexeme.stops_of_ne (by decide) 0)
  have hread := read_group hbody hgroup (by omega : _ = j)
  refine read_choice ?_ hb hm
  simp [choice, steps, ht, hexpr, hu, hread, hx, Parsed.succeeds]

theorem readsStmt_loop (span : Span) (hw : e.Writable left)
    (hbody : ∀ s ∈ body, s.Writable left ∧ src.ReadsStmt left s) : src.ReadsStmt left (.loop span e body) := by
  intro i j d hat hl hj _
  have hread : src.read none (.rule .untilStmt) i = some (.stmt (Stmt.loop span e body).bare, j) :=
    read_guarded .loop hw hbody hat hj (by simp [build, Stmt.bare]) rfl rfl
  obtain ⟨t, ht⟩ := keyword_hit hat.1
  refine read_choice ?_ rfl rfl
  simp [choice, steps, ht, hread, Parsed.succeeds, build]

theorem readsStmt_check (span : Span) (hw : e.Writable left)
    (hbody : ∀ s ∈ body, s.Writable left ∧ src.ReadsStmt left s) : src.ReadsStmt left (.check span e body) := by
  intro i j d hat hl hj _
  have hread : src.read none (.rule .checkStmt) i = some (.stmt (Stmt.check span e body).bare, j) :=
    read_guarded .check hw hbody hat hj (by simp [build, Stmt.bare]) rfl rfl
  obtain ⟨t, ht⟩ := keyword_hit hat.1
  have hmiss : src.read none (.keyword .untilWord) i = some (.nothing, i) := (accepts_keyword _).miss hat.1 rfl
  refine read_choice ?_ rfl rfl
  simp [choice, steps, hmiss, ht, hread, Parsed.succeeds, build]

theorem readsStmt_giveBack (span : Span) (hw : e.Writable left) :
    src.ReadsStmt left (.giveBack span e) := by
  intro i j d hat hl hj hd
  obtain ⟨hword, hvalue⟩ := hat
  obtain ⟨t, ht⟩ := keyword_hit hword
  have hexpr := (reads src left e hw hvalue hl (by rw [← hj, Nat.succ_add_eq_add_succ]; rfl)).expr (stops_of_end hd)
  have hread : src.read none (.rule .returnStmt) i = some (.stmt (Stmt.giveBack span e).bare, j) := by
    refine read_choice ?_ rfl rfl
    simp [choice, steps, ht, hexpr, Parsed.succeeds, build, Stmt.bare]
  have hmiss : ∀ k, k ≠ .returnWord → src.read none (.keyword k) i = some (.nothing, i) :=
    fun k hk => (accepts_keyword k).miss hword (beq_eq_false_iff_ne.2 (by simpa [Lexeme.keyword] using hk.symm))
  refine read_choice ?_ rfl rfl
  simp [choice, steps, hmiss, ht, hread, Parsed.succeeds, build]

theorem readsStmt_function (span : Span) (t : TypeNode) (name : String) {params : List ParamNode}
    (hbody : ∀ s ∈ body, s.Writable left ∧ src.ReadsStmt left s) :
    src.ReadsStmt left (.function span t name params body) := by
  intro i j d hat hl hj _
  rw [Stmt.written, ← groupWritten] at hat hj
  simp only [at_cons, at_append, at_nil, and_true, length_cons, length_append, length_nil] at hat hj
  obtain ⟨htype, hname, hparams, hbegin, hgroup, hend⟩ := hat
  obtain ⟨u, hu⟩ := keyword_hit hbegin
  obtain ⟨v, hv⟩ : ∃ t, src.read none (.keyword .endWord) _ = some (.token t, _) :=
    (keyword_hit hend).imp fun _ h => h none
  have hread : src.read none (.rule .numberType) i = some (.type t.bare, i + 1) := numberType_hit htype
  have hread' : src.read none (.rule .identifier) (i + 1) = some (.expr (.name ⟨default, name⟩), i + 1 + 1) :=
    identifier_hit hname
  have hcomma : src.read none (.expect ",") (i + 1 + 1 + (separated (params.map ParamNode.written)).length) = _ :=
    expect_miss hbegin rfl (by decide)
  have hgroup := read_group hbody hgroup rfl
  have hlist : ∃ x, src.read none (.rule .paramList) (i + 1 + 1) =
      some (x, i + 1 + 1 + (separated (params.map ParamNode.written)).length) ∧
      Parser.paramsOf x = params.map ParamNode.bare := by
    cases params with
    | nil => exact ⟨.nothing, gather_miss (argument_miss hbegin rfl fun h => absurd h (by decide)) rfl rfl, rfl⟩
    | cons p ps =>
      exact ⟨_, paramList_rule.read_params hbegin rfl hparams rfl, Parser.paramsOf_map (p :: ps)⟩
  obtain ⟨x, hx, hparamsOf⟩ := hlist
  have hplace : i + 1 + 1 + (separated (params.map ParamNode.written)).length + 1 + (groupWritten left body).length + 1 =
      j := by omega
  rw [hplace] at hv
  have hfunction : src.read none (.rule .functionDefinition) i =
      some (.stmt (Stmt.function span t name params body).bare, j) := by
    refine read_choice ?_ rfl rfl
    simp [choice, functionHead, steps, hread, hread', hx, hcomma, hu, hgroup, hv, hparamsOf, Parsed.succeeds, build,
      Stmt.bare]
  refine statement_of htype (fun k hk => notKeyword_type t k (by revert k; decide)) ?_
  simp [choice, only, steps, hfunction, Parsed.succeeds, build]

mutual

/-- Every statement that can be written is read as it was. -/
theorem readsStmt (src : Source) (left : Span → Nat) : (s : Stmt Sign) → s.Writable left → src.ReadsStmt left s
  | .expr span _, ⟨_, hw⟩ => fun hat hl hj hd => statement_expr span hw hat hl hj rfl (stops_of_end hd)
  | .declareNumber span t _ _, ⟨_, _, hne, _, hw⟩ => fun hat hl hj hd =>
    statement_declareNumber span t hne hw hat hl hj (stops_of_end hd)
  | .declareField span t u _ _, ⟨_, _, _, hne, _, hw⟩ => fun hat hl hj hd =>
    statement_declareField span t u hne hw hat hl hj (stops_of_end hd)
  | .loop span _ body, ⟨_, hw, hbody⟩ => readsStmt_loop span hw (readsStmts src left body hbody)
  | .check span _ body, ⟨_, hw, hbody⟩ => readsStmt_check span hw (readsStmts src left body hbody)
  | .function span t name _ body, ⟨_, _, _, _, hbody⟩ =>
    readsStmt_function span t name (readsStmts src left body hbody)
  | .giveBack span _, ⟨_, hw⟩ => readsStmt_giveBack span hw

theorem readsStmts (src : Source) (left : Span → Nat) : (ss : List (Stmt Sign)) → StmtsWritable left ss →
    ∀ s ∈ ss, s.Writable left ∧ src.ReadsStmt left s
  | [], _, _, hs => nomatch hs
  | s :: ss, ⟨hw, hss⟩, s', hs => by
    have hfirst : src.ReadsStmt left s := readsStmt src left s hw
    have hrest := readsStmts src left ss hss
    rcases mem_cons.1 hs with rfl | hs
    · exact ⟨hw, hfirst⟩
    · exact hrest s' hs

end

/-! ### Programs -/

def finish : Lexeme := ⟨.endMarker, "", false⟩

theorem noExpr_finish : finish.NoExpr := ⟨rfl, nofun, by decide⟩

/-- No group of statements begins at the end of a text. -/
theorem statementGroup_miss (h : src.Holds i finish) :
    src.read none (.rule .statementGroup) i = some (.nothing, i) := by
  have hlist : src.read none (.rule .statementList) i = some (.nothing, i) :=
    gather_miss (statement_miss h noExpr_finish nofun) rfl rfl
  have hcommas : src.read none (.rule .commas) i = some (.list [], i) := read_no_commas h rfl rfl rfl
  have hdot : src.read none (.expect ".") i = some (.nothing, i) := expect_miss h rfl (by decide)
  refine read_choice ?_ rfl rfl
  simp [choice, steps, hlist, hcommas, hdot, Parsed.succeeds]

theorem rounds_groups {groups : List (List (Stmt Sign))} (hw : ∀ ss ∈ groups, StmtsWritable left ss)
    (hat : src.At i (groups.map (groupWritten left)).flatten)
    (hj : i + (groups.map (groupWritten left)).flatten.length = j) :
    Rounds (src.read none) [.keep (.rule .statementGroup)] i
      (groups.map fun ss => .tuple [.list ((stmtsBare ss).map .stmt)]) j := by
  induction groups generalizing i with
  | nil =>
    obtain rfl : i = j := hj
    exact .nil
  | cons ss groups ih =>
    simp only [map_cons, flatten_cons, at_append, length_append] at hat hj
    obtain ⟨hfirst, hrest⟩ := hat
    have hread := read_group (readsStmts src left ss (hw ss mem_cons_self)) hfirst rfl
    exact .cons (steps_keep_one hread rfl)
      (ih (fun ss hss => hw ss (mem_cons_of_mem _ hss)) hrest (by omega))

theorem build_flatten (place : Nat) (groups : List (List (Stmt Sign))) :
    src.build place .flatten [.list (groups.map fun ss => .tuple [.list ((stmtsBare ss).map .stmt)])] =
      some (.tuple [.list ((stmtsBare groups.flatten).map .stmt)]) := by
  simp only [build, Parsed.items, flatMap_map]
  change some (Parsed.tuple [.list (groups.flatMap fun ss => (stmtsBare ss).map .stmt)]) = _
  simp [stmtsBare_eq_map, map_flatten, flatMap_def]

theorem matchesText_finish {t : Token} (h : t.kind = .endMarker) : Parser.matchesText "ENDMARKER" t = true := by
  have hcode : TokenKind.codeNamed? "ENDMARKER" = some 0 := by decide
  rw [Parser.matchesText, hcode, h]
  exact Bool.or_true _

/-- A program that was written group by group is read as it was. -/
theorem read_program {groups : List (List (Stmt Sign))} (hne : groups ≠ [])
    (hw : ∀ ss ∈ groups, StmtsWritable left ss)
    (hat : src.At 0 ((groups.map (groupWritten left)).flatten ++ [finish])) :
    ∃ j, src.read none (.rule .start) 0 = some (.program ⟨default, stmtsBare groups.flatten⟩, j) := by
  obtain ⟨hgroups, hend, _⟩ := at_append.1 hat
  have hread : src.read none (.rule .groups) 0 = _ :=
    read_rounds (rounds_groups hw hgroups rfl) (steps_keep_none (statementGroup_miss hend)) rfl rfl
  generalize 0 + (groups.map (groupWritten left)).flatten.length = k at hread hend
  have hstatements : src.read none (.rule .statements) 0 =
      some (.tuple [.list ((stmtsBare groups.flatten).map .stmt)], k) := by
    refine read_choice ?_ rfl rfl
    simp [choice, steps, hread, hne, Parsed.succeeds, build_flatten]
  obtain ⟨⟨t, ht, hshows⟩, _⟩ := hend
  have hmarker : src.read none (.expect "ENDMARKER") k = some (.token t, k + 1) := by
    rw [read_single rfl ht, Call.accepts, matchesText_finish hshows.kind, if_pos rfl]
  refine ⟨k + 1, read_choice ?_ rfl rfl⟩
  simp [choice, steps, hstatements, hmarker, Parsed.succeeds, build]

end Grammar.Source

end Labyrinth
