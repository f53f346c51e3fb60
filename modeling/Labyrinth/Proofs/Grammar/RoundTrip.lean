import Labyrinth.Proofs.Grammar.Following
import Labyrinth.Proofs.Grammar.Literals
import Labyrinth.Proofs.Grammar.WrittenStmt

/-!
# Writing and reading a program

The text of a written program is read as the same program, up to the places of its nodes.
-/

namespace Labyrinth

open List

variable {left : Span → Nat}

/-! ### Written lexemes are scanned -/

/-- A lexeme that is scanned as one token: an operator, or a well-formed word of its kind. -/
def Lexeme.Scannable (l : Lexeme) : Prop :=
  (l.kind = .op ∧ l.text ∈ operators) ∨ Word.kind? l.text.toList = some l.kind

variable {s : String} {l : Lexeme} {rest lexemes : List Lexeme} {lists : List (List Lexeme)} {names : List NameNode}
  {params : List ParamNode} {groups : List (List (Stmt Sign))}

theorem scannable_op (h : s ∈ operators) : (Lexeme.op s).Scannable := .inl ⟨rfl, h⟩

theorem scannable_keyword (k : Keyword) : (Lexeme.keyword k).Scannable := by
  refine .inr ?_
  cases k <;> decide

theorem scannable_name (h : Word.kind? s.toList = some .name) : (Lexeme.name s).Scannable := .inr h

theorem scannable_number {v : Int} (hlow : 0 ≤ v) (led : Bool) : (Lexeme.number v led).Scannable := by
  obtain ⟨n, rfl⟩ := Int.eq_ofNat_of_zero_le hlow
  obtain ⟨ds, hne, _, _, hnumeral⟩ := Radix.exists_numeral n
  refine .inr ?_
  have htext : (Lexeme.number n led).text.toList = ds.map Radix.digit32 := by
    rw [Lexeme.number, hnumeral]
    exact String.toList_ofList
  have hkind := Word.kind?_eq_some_iff.2 ((Radix.grouped_digits ds).readAs hne)
  rwa [String.toList_ofList, ← htext] at hkind

/-- Lexemes that are all scanned as tokens. -/
def AllScannable (lexemes : List Lexeme) : Prop := ∀ l ∈ lexemes, l.Scannable

@[simp] theorem allScannable_nil : AllScannable [] := nofun

@[simp] theorem allScannable_cons : AllScannable (l :: rest) ↔ l.Scannable ∧ AllScannable rest :=
  forall_mem_cons

@[simp] theorem allScannable_append {first : List Lexeme} :
    AllScannable (first ++ rest) ↔ AllScannable first ∧ AllScannable rest :=
  forall_mem_append

theorem allScannable_flatten (h : ∀ list ∈ lists, AllScannable list) : AllScannable lists.flatten := by
  intro l hl
  obtain ⟨list, hlist, hl⟩ := mem_flatten.1 hl
  exact h list hlist l hl

theorem allScannable_bracketed {needed : Bool} (h : AllScannable lexemes) :
    AllScannable (bracketed needed lexemes) := by
  cases needed with
  | true => simp [bracketed, h, scannable_op (s := "(") (by decide), scannable_op (s := ")") (by decide)]
  | false => exact h

theorem allScannable_number {n : NumberNode Sign} (h : n.Writable) : AllScannable n.written := by
  obtain ⟨span, v, sign⟩ := n
  obtain ⟨_, hlow, hhigh⟩ := h
  cases sign <;>
    simp [NumberNode.written, Sign.lexemes, scannable_number hlow, scannable_op (s := "+") (by decide),
      scannable_op (s := "-") (by decide)]

theorem allScannable_zipWith {α : Type} (spelling : α → String) (hs : ∀ a, spelling a ∈ operators) (ops : List α)
    (h : ∀ list ∈ lists, AllScannable list) :
    AllScannable (zipWith (fun op list => .op (spelling op) :: list) ops lists).flatten := by
  induction ops generalizing lists with
  | nil => exact allScannable_nil
  | cons op ops ih =>
    cases lists with
    | nil => exact allScannable_nil
    | cons list lists =>
      rw [forall_mem_cons] at h
      simp only [zipWith_cons_cons, flatten_cons, cons_append, allScannable_cons, allScannable_append]
      exact ⟨scannable_op (hs op), h.1, ih h.2⟩

theorem allScannable_operands {es : List (Expr Sign)} (h : ∀ e ∈ es, AllScannable (e.written left)) (level : Nat) :
    ∀ list ∈ operandsWritten left level es, AllScannable list := by
  intro list hlist
  rw [operandsWritten_eq_map] at hlist
  obtain ⟨e, he, rfl⟩ := mem_map.1 hlist
  exact allScannable_bracketed (h e he)

theorem allScannable_part {span : Span} {targets : List (Expr Sign)} {value : Expr Sign}
    (h : ∀ e ∈ value :: targets, AllScannable (e.written left)) :
    AllScannable (partsWritten left [.mk span targets value]) := by
  rw [Grammar.Source.partsWritten_eq, allScannable_append]
  refine ⟨h _ (Chain.mem_laid (.inl rfl)), allScannable_flatten fun list hlist => ?_⟩
  obtain ⟨⟨flow, e⟩, hmem, rfl⟩ := mem_map.1 hlist
  have he := h e (Chain.mem_laid (.inr (mem_map.2 ⟨_, hmem, rfl⟩)))
  have hflow : flow.spelling ∈ operators := by cases flow <;> decide
  exact allScannable_cons.2 ⟨scannable_op hflow, he⟩

mutual

theorem Expr.scannable (left : Span → Nat) : (e : Expr Sign) → e.Writable left → AllScannable (e.written left)
  | .name _, hw => allScannable_cons.2 ⟨scannable_name hw.2, allScannable_nil⟩
  | .number _, hw => allScannable_number hw
  | .robot _ op, _ => allScannable_cons.2 ⟨scannable_keyword _, allScannable_nil⟩
  | .subscript _ n i j, ⟨_, hn, hi, hj, _⟩ => by
    have hi := Expr.scannable left i hi
    have hj := Expr.scannable left j hj
    simp [Expr.written, scannable_name hn.2, hi, hj, scannable_op (s := "[") (by decide),
      scannable_op (s := "]") (by decide)]
  | .call _ n args, ⟨_, hn, hargs, _⟩ => by
    have hargs := allScannable_flatten (allScannable_operands (exprsScannable left 0 args hargs) 0)
    simp [Expr.written, scannable_name hn.2, hargs, scannable_op (s := "(") (by decide),
      scannable_op (s := ")") (by decide)]
  | .unary _ op e, ⟨_, he, _⟩ =>
    allScannable_cons.2 ⟨scannable_op (by cases op <;> decide), allScannable_bracketed (Expr.scannable left e he)⟩
  | .binary _ l op r, ⟨_, ⟨hl, _⟩, hr, _⟩ =>
    allScannable_append.2 ⟨allScannable_bracketed (Expr.scannable left l hl), allScannable_cons.2
      ⟨scannable_op (by cases op <;> decide), allScannable_bracketed (Expr.scannable left r hr)⟩⟩
  | .compare _ e ops es, ⟨_, ⟨he, _⟩, hes, _⟩ =>
    allScannable_append.2 ⟨allScannable_bracketed (Expr.scannable left e he),
      allScannable_zipWith CmpOp.spelling (fun op => by cases op <;> decide) ops
        (allScannable_operands (exprsScannable left 1 es hes) 2)⟩
  | .assign _ parts, ⟨_, hparts⟩ => partsScannable left parts hparts
  | .hole _, hw => hw.elim

theorem exprsScannable (left : Span → Nat) (level : Nat) : (es : List (Expr Sign)) → ExprsWritable left level es →
    ∀ e ∈ es, AllScannable (e.written left)
  | [], _ => nofun
  | e :: es, ⟨⟨hw, _⟩, hes⟩ => by
    have hfirst := Expr.scannable left e hw
    have hrest := exprsScannable left level es hes
    rw [forall_mem_cons]
    exact ⟨hfirst, hrest⟩

theorem partsScannable (left : Span → Nat) : (parts : List (AssignPart Sign)) → PartsWritable left parts →
    AllScannable (partsWritten left parts)
  | [.mk span targets value], ⟨_, ⟨htargets, _⟩, hvalue, _⟩ => by
    have hfirst := Expr.scannable left value hvalue
    have hrest := exprsScannable left 0 targets htargets
    refine allScannable_part ?_
    rw [forall_mem_cons]
    exact ⟨hfirst, hrest⟩
  | [], hw => False.elim hw
  | .mk _ _ _ :: _ :: _, hw => False.elim hw

end

theorem allScannable_separated (h : ∀ list ∈ lists, AllScannable list) : AllScannable (separated lists) := by
  cases lists with
  | nil => exact allScannable_nil
  | cons first rest =>
    rw [forall_mem_cons] at h
    refine allScannable_append.2 ⟨h.1, allScannable_flatten fun list hlist => ?_⟩
    obtain ⟨list, hmem, rfl⟩ := mem_map.1 hlist
    exact allScannable_cons.2 ⟨scannable_op (by decide), h.2 list hmem⟩

theorem allScannable_names (h : ∀ n ∈ names, n.Writable) : AllScannable (names.map NameNode.written) := by
  intro l hl
  obtain ⟨n, hn, rfl⟩ := mem_map.1 hl
  exact scannable_name (h n hn).2

theorem allScannable_params (h : ∀ p ∈ params, p.Writable) :
    ∀ list ∈ params.map ParamNode.written, AllScannable list := by
  intro list hlist
  obtain ⟨p, hp, rfl⟩ := mem_map.1 hlist
  exact allScannable_cons.2 ⟨scannable_keyword _, allScannable_cons.2 ⟨scannable_name (h p hp).2.2.2, allScannable_nil⟩⟩

mutual

theorem Stmt.scannable (left : Span → Nat) : (s : Stmt Sign) → s.Writable left → AllScannable (s.written left)
  | .expr _ e, ⟨_, he⟩ => Expr.scannable left e he
  | .declareNumber _ t names n, ⟨_, _, _, hnames, hn⟩ => by
    simp [Stmt.written, TypeNode.written, scannable_keyword, allScannable_names hnames, allScannable_number hn,
      scannable_op (s := "<<") (by decide)]
  | .declareField _ t u names n, ⟨_, _, _, _, hnames, hn⟩ => by
    simp [Stmt.written, TypeNode.written, scannable_keyword, allScannable_names hnames, allScannable_number hn,
      scannable_op (s := "<<") (by decide)]
  | .loop _ test body, ⟨_, htest, hbody⟩ => by
    have hbody := allScannable_separated (stmtsScannable left body hbody)
    simp [Stmt.written, scannable_keyword, Expr.scannable left test htest, hbody, scannable_op (s := ".") (by decide)]
  | .check _ test body, ⟨_, htest, hbody⟩ => by
    have hbody := allScannable_separated (stmtsScannable left body hbody)
    simp [Stmt.written, scannable_keyword, Expr.scannable left test htest, hbody, scannable_op (s := ".") (by decide)]
  | .function _ t name params body, ⟨_, _, hname, hparams, hbody⟩ => by
    have hbody := allScannable_separated (stmtsScannable left body hbody)
    have hparams := allScannable_separated (allScannable_params hparams)
    simp [Stmt.written, TypeNode.written, scannable_keyword, scannable_name hname, hparams, hbody,
      scannable_op (s := ".") (by decide)]
  | .giveBack _ value, ⟨_, hvalue⟩ => allScannable_cons.2 ⟨scannable_keyword _, Expr.scannable left value hvalue⟩

theorem stmtsScannable (left : Span → Nat) : (ss : List (Stmt Sign)) → StmtsWritable left ss →
    ∀ list ∈ stmtsWritten left ss, AllScannable list
  | [], _ => nofun
  | s :: ss, ⟨hs, hss⟩ => by
    have hfirst := Stmt.scannable left s hs
    have hrest := stmtsScannable left ss hss
    rw [stmtsWritten, forall_mem_cons]
    exact ⟨hfirst, hrest⟩

end

/-! ### What is read is like what was written -/

/-- Literals that are the same up to their places. -/
def NumberNode.Same {ς : Type} (a b : NumberNode ς) : Prop :=
  a.value = b.value ∧ a.sign = b.sign ∧ a.span.recovered = b.span.recovered

/-- A literal as plain reading marks it. -/
def NumberNode.Marked (b : NumberNode SignRef) (a : NumberNode Sign) : Prop :=
  b = a.bare ∧ a.span.recovered = false

theorem NameNode.content_bare {n : NameNode} (h : n.Writable) : n.bare.content = n.content := by
  rw [NameNode.content, NameNode.content, h.1]
  rfl

mutual

theorem Expr.bare_like (left : Span → Nat) : (e : Expr Sign) → e.Writable left → Expr.Like NumberNode.Marked e.bare e
  | .name _, hw => .name (NameNode.content_bare hw)
  | .number _, hw => .number ⟨rfl, hw.1⟩
  | .robot _ op, hspan => .robot op (Eq.symm hspan)
  | .subscript _ _ i j, ⟨hspan, hn, hi, hj, _⟩ =>
    .subscript hspan.symm (NameNode.content_bare hn) (Expr.bare_like left i hi) (Expr.bare_like left j hj)
  | .call _ _ args, ⟨hspan, hn, hargs, _⟩ =>
    .call hspan.symm (NameNode.content_bare hn) (exprsBare_like left 0 args hargs)
  | .unary _ op e, ⟨hspan, he, _⟩ => .unary op hspan.symm (Expr.bare_like left e he)
  | .binary _ l op r, ⟨hspan, ⟨hl, _⟩, hr, _⟩ =>
    .binary op hspan.symm (Expr.bare_like left l hl) (Expr.bare_like left r hr)
  | .compare _ e ops es, ⟨hspan, ⟨he, _⟩, hes, _⟩ =>
    .compare ops hspan.symm (Expr.bare_like left e he) (exprsBare_like left 1 es hes)
  | .assign _ parts, ⟨hspan, hparts⟩ => .assign hspan.symm (partsBare_like left parts hparts)
  | .hole _, hw => hw.elim

theorem exprsBare_like (left : Span → Nat) (level : Nat) : (es : List (Expr Sign)) → ExprsWritable left level es →
    ExprsLike NumberNode.Marked (exprsBare es) es
  | [], _ => .nil
  | e :: es, ⟨⟨hw, _⟩, hes⟩ => .cons (Expr.bare_like left e hw) (exprsBare_like left level es hes)

theorem partsBare_like (left : Span → Nat) : (parts : List (AssignPart Sign)) → PartsWritable left parts →
    PartsLike NumberNode.Marked (partsBare parts) parts
  | [.mk _ targets value], ⟨hspan, ⟨htargets, _⟩, hvalue, _⟩ =>
    .cons hspan.symm (exprsBare_like left 0 targets htargets) (Expr.bare_like left value hvalue) .nil
  | [], hw => False.elim hw
  | .mk _ _ _ :: _ :: _, hw => False.elim hw

end

theorem TypeNode.content_bare {t : TypeNode} (h : t.Writable) : t.bare.content = t.content := by
  rw [TypeNode.content, TypeNode.content, show t.span.recovered = false from h]
  rfl

theorem ParamNode.content_bare {p : ParamNode} (h : p.Writable) : p.bare.content = p.content := by
  rw [ParamNode.content, ParamNode.content, ← TypeNode.content_bare h.2.1, ← NameNode.content_bare h.2.2, h.1]
  rfl

theorem names_content_bare (h : ∀ n ∈ names, n.Writable) :
    (names.map NameNode.bare).map NameNode.content = names.map NameNode.content := by
  rw [map_map]
  exact map_congr_left fun n hn => NameNode.content_bare (h n hn)

theorem params_content_bare (h : ∀ p ∈ params, p.Writable) :
    (params.map ParamNode.bare).map ParamNode.content = params.map ParamNode.content := by
  rw [map_map]
  exact map_congr_left fun p hp => ParamNode.content_bare (h p hp)

mutual

theorem Stmt.bare_like (left : Span → Nat) : (s : Stmt Sign) → s.Writable left → Stmt.Like NumberNode.Marked s.bare s
  | .expr _ e, ⟨hspan, he⟩ => .expr hspan.symm (Expr.bare_like left e he)
  | .declareNumber _ _ _ _, ⟨hspan, ht, _, hnames, hn⟩ =>
    .declareNumber hspan.symm (TypeNode.content_bare ht) (names_content_bare hnames) ⟨rfl, hn.1⟩
  | .declareField _ _ _ _ _, ⟨hspan, ht, hu, _, hnames, hn⟩ =>
    .declareField hspan.symm (TypeNode.content_bare ht) (TypeNode.content_bare hu) (names_content_bare hnames)
      ⟨rfl, hn.1⟩
  | .loop _ test body, ⟨hspan, htest, hbody⟩ =>
    .loop hspan.symm (Expr.bare_like left test htest) (stmtsBare_like left body hbody)
  | .check _ test body, ⟨hspan, htest, hbody⟩ =>
    .check hspan.symm (Expr.bare_like left test htest) (stmtsBare_like left body hbody)
  | .function _ _ name _ body, ⟨hspan, ht, _, hparams, hbody⟩ =>
    .function name hspan.symm (TypeNode.content_bare ht) (params_content_bare hparams) (stmtsBare_like left body hbody)
  | .giveBack _ value, ⟨hspan, hvalue⟩ => .giveBack hspan.symm (Expr.bare_like left value hvalue)

theorem stmtsBare_like (left : Span → Nat) : (ss : List (Stmt Sign)) → StmtsWritable left ss →
    StmtsLike NumberNode.Marked (stmtsBare ss) ss
  | [], _ => .nil
  | s :: ss, ⟨hs, hss⟩ => .cons (Stmt.bare_like left s hs) (stmtsBare_like left ss hss)

end

theorem StmtsLike.append {R : NumberNode SignRef → NumberNode Sign → Prop} {ss ts : List (Stmt SignRef)}
    {ss' ts' : List (Stmt Sign)} (h : StmtsLike R ss ss') (h' : StmtsLike R ts ts') :
    StmtsLike R (ss ++ ts) (ss' ++ ts') := by
  match ss, ss', h with
  | [], [], .nil => exact h'
  | s :: ss, s' :: ss', .cons hs hss => exact .cons hs (hss.append h')

theorem groupsBare_like (h : ∀ ss ∈ groups, StmtsWritable left ss) :
    StmtsLike NumberNode.Marked (stmtsBare groups.flatten) groups.flatten := by
  induction groups with
  | nil => exact .nil
  | cons ss groups ih =>
    rw [forall_mem_cons] at h
    rw [flatten_cons, stmtsBare_eq_map, map_append, ← stmtsBare_eq_map, ← stmtsBare_eq_map]
    exact (stmtsBare_like left ss h.1).append (ih h.2)

/-! ### Programs -/

theorem operators_kind? : ∀ s ∈ operators, Word.kind? s.toList = none ∧ '\r' ∉ s.toList := by
  decide

/-- A lexeme is a piece of a text wherever no word goes on, and the piece is scanned as the lexeme. -/
theorem Lexeme.Scannable.exists_piece (h : l.Scannable) : ∃ p : Piece, p.chars = l.text.toList ∧
    '\r' ∉ p.chars ∧ (∀ after, (∀ c ∈ after.head?, Text.isWordChar c = false) → p.Fits after) ∧
      ∀ table before, ∃ t, Scan.step? table before p = some ⟨t, none⟩ ∧ l.Shows t := by
  rcases h with ⟨hkind, hop⟩ | hword
  · exact ⟨.operator l.text, rfl, (operators_kind? _ hop).2, fun _ _ => hop, fun table before =>
      ⟨_, rfl, hkind.symm, String.ofList_toList, by rw [hkind]; rfl, fun _ => hkind⟩⟩
  · refine ⟨.word l.text.toList l.kind false, rfl, fun hmem => ?_, fun _ ha => ⟨Word.kind?_eq_some_iff.1 hword, ha⟩,
      fun table before => ⟨_, rfl, rfl, String.ofList_toList, (Scan.regular_of_kind? hword).1, fun hop => ?_⟩⟩
    · exact notBreak_of_isWordChar (isWordChar_of_kind? hword _ hmem) (by decide)
    · rw [(operators_kind? _ hop).1] at hword
      cases hword

/-- A text of lexemes is cut into these lexemes. -/
theorem exists_cut_textOf (h : AllScannable (l :: rest)) :
    '\r' ∉ (textOf (l :: rest)).toList ∧ ∃ pieces, Cut (textOf (l :: rest)).toList pieces [] ∧ ∀ table before,
      Forall₂ Lexeme.Shows (l :: rest) ((Scan.stepsOf table before pieces).map ScanStep.token) := by
  induction rest generalizing l with
  | nil =>
    obtain ⟨p, hchars, hreturn, hfits, hstep⟩ := (allScannable_cons.1 h).1.exists_piece
    have hnone : Cut [] [] [] := .stop fun p after htext hp => by
      obtain ⟨c, chars, hchars, -⟩ := hp.head
      rw [hchars] at htext
      cases htext
    have htext : (textOf [l]).toList = p.chars ++ [] := by simp [textOf, Text.joined, hchars]
    rw [htext]
    refine ⟨by simpa using hreturn, [p], .piece (hfits [] nofun) hnone, fun table before => ?_⟩
    obtain ⟨t, ht, hshows⟩ := hstep table before
    simpa [Scan.stepsOf, ht] using hshows
  | cons l' rest ih =>
    obtain ⟨hl, hrest⟩ := allScannable_cons.1 h
    obtain ⟨p, hchars, hreturn, hfits, hstep⟩ := hl.exists_piece
    obtain ⟨hno, pieces, hcut, hall⟩ := ih hrest
    have hblank : (Piece.blank ' ').chars = [' '] := rfl
    have htext : (textOf (l :: l' :: rest)).toList =
        p.chars ++ ((Piece.blank ' ').chars ++ (textOf (l' :: rest)).toList) := by
      simp [textOf, Text.joined, hchars, hblank]
    rw [htext]
    refine ⟨by simp [hreturn, hno, hblank], p :: .blank ' ' :: pieces,
      .piece (hfits _ (by rintro _ ⟨rfl⟩; rfl)) (.piece (by simp [Piece.Fits]) hcut), fun table before => ?_⟩
    obtain ⟨t, ht, hshows⟩ := hstep table before
    rw [Scan.stepsOf, ht]
    exact .cons hshows (hall _ _)

/-- A text of lexemes has the tokens of these lexemes, and then it ends. -/
theorem scan_textOf (h : AllScannable (l :: rest)) : Text.normalizeBreaks (textOf (l :: rest)) = textOf (l :: rest) ∧
      (Scan.ofNormalized (textOf (l :: rest))).finish = .complete ∧
      Forall₂ Lexeme.Shows (l :: rest) (Scan.ofNormalized (textOf (l :: rest))).significant := by
  obtain ⟨hno, pieces, hcut, hall⟩ := exists_cut_textOf h
  have hscan := Scan.ofNormalized_cut hcut
  rw [String.ofList_toList] at hscan
  refine ⟨by rw [Text.normalizeBreaks, Text.normalizeChars_eq_self hno, String.ofList_toList], by rw [hscan]; rfl, ?_⟩
  have hall := hall (.ofText (textOf (l :: rest))) []
  have hregular := (forall₂_and_left _ _).1 (Forall₂.flip (hall.imp
    fun l t h => show t.kind.isRegular = true ∧ l.Shows t from ⟨h.kind ▸ h.regular, h⟩))
  rw [Scan.significant, hscan, filter_eq_self.2 fun t ht => ?_]
  · exact hall
  · have hkind := hregular.1 t ht
    rw [decide_eq_true_eq]
    intro hcomment
    rw [hcomment] at hkind
    cases hkind

/-- A source holds the lexemes whose tokens it consists of. -/
theorem Grammar.Source.at_of_shows {src : Source} {tokens : List Token} (h : Forall₂ Lexeme.Shows lexemes tokens)
    {before after : List Token} (htokens : src.tokens = before ++ (tokens ++ after))
    (hled : ∀ i, src.led (before.length + i) = (lexemes[i]?.map Lexeme.led).getD false) :
    src.At before.length lexemes := by
  induction h generalizing before with
  | nil => exact at_nil
  | @cons l t lexemes tokens hshows _ ih =>
    refine ⟨⟨⟨t, by simp [htokens], hshows⟩, fun _ => hled 0⟩, ?_⟩
    have hlen : (before ++ [t]).length = before.length + 1 := length_append
    rw [← hlen]
    refine ih (by simp [htokens]) fun i => ?_
    rw [hlen, Nat.add_assoc, Nat.add_comm 1, hled]
    rfl

theorem allScannable_groups (h : ∀ ss ∈ groups, StmtsWritable left ss) :
    AllScannable (groups.map (groupWritten left)).flatten := by
  refine allScannable_flatten fun list hlist => ?_
  obtain ⟨ss, hss, rfl⟩ := mem_map.1 hlist
  refine allScannable_append.2 ⟨allScannable_separated (stmtsScannable left ss (h ss hss)), ?_⟩
  exact allScannable_cons.2 ⟨scannable_op (by decide), allScannable_nil⟩

open Labyrinth.Task Grammar

/-- The text of a written program is read without failure. -/
theorem parse_bare (session : Session) (file : String) (hne : groups ≠ []) (hw : ∀ ss ∈ groups, StmtsWritable left ss)
    :
    ∃ p parser, Yields (Parser.parse (.rule .start)) (Parser.ofText session (writeProgram left groups) file)
        (.program p) parser ∧
      Program.Like Settles (p.mapSign parser.signOf) ⟨default, stmtsBare groups.flatten⟩ := by
  have hscan := allScannable_groups hw
  obtain ⟨l, rest, hlexemes⟩ : ∃ l rest, (groups.map (groupWritten left)).flatten = l :: rest := by
    obtain ⟨ss, groups, rfl⟩ := exists_cons_of_ne_nil hne
    refine exists_cons_of_ne_nil ?_
    simp [groupWritten]
  rw [hlexemes] at hscan
  obtain ⟨hnormal, hcomplete, hall⟩ := scan_textOf hscan
  generalize htokens : (Scan.ofNormalized (textOf (l :: rest))).significant = tokens at hall
  let last := Scan.endToken (Text.splitLines (textOf (l :: rest)))
  let src : Source := ⟨tokens ++ [last], fun i => ((l :: rest)[i]?.map Lexeme.led).getD false⟩
  have hoffers := Cursor.offers_unopened session (textOf (l :: rest)) file file
  rw [hnormal, hcomplete, htokens] at hoffers
  have hwhole : src.At 0 ((groups.map (groupWritten left)).flatten ++ [Source.finish]) := by
    have hat : src.At ([] : List Token).length (l :: rest) := Source.at_of_shows hall rfl fun i => by simp [src]
    rw [hlexemes]
    refine Source.at_append.2 ⟨hat, ⟨⟨last, ?_, rfl, rfl, rfl, by decide⟩, TokenKind.noConfusion⟩, trivial⟩
    simp [src, ← hall.length_eq]
  obtain ⟨j, hread⟩ := Source.read_program hne hw hwhole
  have htoken : ∀ t ∈ tokens ++ [last], t = last ∨ t ∈ (Scan.ofNormalized (textOf (l :: rest))).significant := by
    intro t ht
    rw [htokens]
    simpa [or_comm] using ht
  rw [writeProgram, hlexemes]
  refine @parse_follows src _ _ _ _ _ hoffers (Source.whole_of_scan (by rw [htokens])).last (fun t ht => ?_)
    (fun t ht hname => ?_) (by simp [src]) (Source.read_eq_some_iff.1 hread)
  · rcases htoken t ht with rfl | ht
    · rfl
    · exact (Scan.isSome_item?_of_significant ht).1
  · rcases htoken t ht with rfl | ht
    · cases hname
    · rw [hnormal]
      exact (Scan.isSome_item?_of_significant ht).2

/-- A program that was written is read as the same program, up to places. -/
theorem parse_writeProgram (left : Span → Nat) (groups : List (List (Stmt Sign))) (session : Session) (file : String)
    (hne : groups ≠ []) (hw : ∀ ss ∈ groups, StmtsWritable left ss) :
    ∃ p parser, Yields (Parser.parse (.rule .start)) (Parser.ofText session (writeProgram left groups) file)
        (.program p) parser ∧
      Program.Like NumberNode.Same (p.mapSign parser.signOf) ⟨default, groups.flatten⟩ := by
  obtain ⟨p, parser, hparse, hspan, hbody⟩ := parse_bare session file hne hw
  refine ⟨p, parser, hparse, hspan, (hbody.trans (groupsBare_like hw)).mono ?_⟩
  rintro a b ⟨_, ⟨hvalue, hrecovered, hsign⟩, rfl, hspan⟩
  exact ⟨hvalue, hsign b.sign rfl, hrecovered.trans hspan.symm⟩

/-- A function with declarations, a chain of assignments, a loop and a result. -/
def sampleProgram : List (List (Stmt Sign)) :=
  let name (s : String) : NameNode := ⟨default, s⟩
  let var (s : String) : Expr Sign := .name (name s)
  let number (value : Int) (sign : Sign) : NumberNode Sign := ⟨default, value, sign⟩
  let type (kind : NumberKind) : TypeNode := ⟨default, kind⟩
  let element : Expr Sign :=
    .subscript default (name "m") (var "a")
      (.call default (name "area") [.unary default .neg (var "x"), .robot default .move])
  let value : Expr Sign :=
    .binary default (.binary default (.binary default (var "a") .add (var "b")) .mul (.number (number 32 .negative)))
      .sub (.binary default (var "y") .sub (.number (number 1000 .unsigned)))
  let test : Expr Sign :=
    .compare default (var "x") [.le, .ne]
      [.binary default (var "y") .add (var "z"), .compare default (var "a") [.eq] [var "b"]]
  [[.function default (type .tiny) "main"
      [⟨default, type .small, name "a"⟩, ⟨default, type .normal, name "b"⟩]
      [.declareNumber default (type .normal) [name "x", name "y", name "z"] (number 5 .negative),
       .declareField default (type .tiny) (type .small) [name "m"] (number 1 .unsigned),
       .expr default (.assign default [.mk default [var "x", element] value]),
       .loop default test [.check default (var "x") [], .expr default (.robot default .sonar)],
       .giveBack default (var "x")]],
   [], [.expr default (var "x")]]

theorem parse_writeProgram_sample :
    writeProgram (fun _ => 1) sampleProgram = "tiny main small a , normal b begin normal x y z << - 5 , " ++
      "field tiny small m << 1 , x << ( a + b ) \\ - 10 - ( y - V8 ) >> m [ a area ( - x go ) ] , " ++
      "until x <= y + z <> ( a == b ) do check x do . , sonar . , return x . end . . x ." ∧
    ∃ p parser, Yields (Parser.parse (.rule .start))
        (Parser.ofText {} (writeProgram (fun _ => 1) sampleProgram) "maze.slb") (.program p) parser ∧
      Program.Like NumberNode.Same (p.mapSign parser.signOf) ⟨default, sampleProgram.flatten⟩ := by
  refine ⟨by decide +kernel, parse_writeProgram _ _ _ _ nofun ?_⟩
  simp +decide [sampleProgram, StmtsWritable, Stmt.Writable, Expr.Writable, ExprsWritable, PartsWritable,
    NameNode.Writable, NumberNode.Writable, TypeNode.Writable, ParamNode.Writable, Juxtaposed, Expr.written]

end Labyrinth
