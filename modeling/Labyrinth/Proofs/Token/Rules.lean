import Labyrinth.Proofs.Lexing.Matching
import Labyrinth.Proofs.Task
import Labyrinth.Proofs.Token.Segmentation

/-!
# The tokens of the rules

The lexer of the language finds the pieces of a text, one by one, and makes the tokens of them that the scanner makes:
where a word has to be mended, it goes back to the beginning of the word in another state, and it is in the regular
state again before the next token.
-/

namespace Labyrinth.Rules

open List Labyrinth.Lexing Labyrinth.Lexing.MatchPoint Labyrinth.Task Labyrinth.Scan

/-! ### Keywords -/

theorem spellings_spec : (∀ w ∈ Keyword.all.flatMap fun k => k.word.toList.inits,
      spellings.lookup (String.ofList w) = (Keyword.ofChars? w).map Keyword.name) ∧
    ∀ entry ∈ spellings, entry.1.toList ∈ Keyword.all.flatMap fun k => k.word.toList.inits := by
  decide +kernel

/-- The table of spellings has the words that stand for a keyword. -/
theorem lookup_spellings (w : List Char) :
    spellings.lookup (String.ofList w) = (Keyword.ofChars? w).map Keyword.name := by
  by_cases hw : w ∈ Keyword.all.flatMap fun k => k.word.toList.inits
  · exact spellings_spec.1 w hw
  · have hnone : Keyword.beginningWith w = [] := by
      rw [Keyword.beginningWith, filter_eq_nil_iff]
      intro k hk hstart
      have hinit := isPrefixOf_iff_prefix.1 hstart
      exact hw (mem_flatMap.2 ⟨k, hk, (mem_inits _ _).2 hinit⟩)
    rw [Keyword.ofChars?, hnone, lookup_eq_none_iff.2]
    · rfl
    · intro entry hentry
      rw [bne_iff_ne]
      rintro hentry'
      refine hw ?_
      simpa [← hentry'] using spellings_spec.2 entry hentry

theorem kindOf_name (k : Keyword) : kindOf k.name = .keyword k := by
  cases k <;> decide +kernel

theorem kindOf_plain : kindOf "NAME" = .name ∧ kindOf "NUMBER" = .number ∧ kindOf "OP" = .op ∧
    kindOf "COMMENT" = .comment := by
  decide +kernel

/-- A name is a keyword if the table says so. -/
theorem kindOf_spelling {w : List Char} {kind : TokenKind} (hname : Word.isName w = true)
    (h : Word.kind? w = some kind) : kindOf ((spellings.lookup (String.ofList w)).getD "NAME") = kind := by
  rw [Word.kind?, if_pos hname, Option.some.injEq] at h
  rw [lookup_spellings, ← h]
  cases Keyword.ofChars? w with
  | none => exact kindOf_plain.1
  | some k => exact kindOf_name k

theorem kindOf_mend (w : List Char) : kindOf ((Word.mend w).1.name?.getD "") = (Word.mend w).1 := by
  rw [Word.mend_fst]
  split
  · exact kindOf_plain.2.1
  · exact kindOf_plain.1

/-! ### Matches -/

def closing (i : Nat) : Then := fun q => some { q with lastGroup := some i }

theorem closing_ne_none (i : Nat) (q : MatchPoint) : closing i q ≠ none :=
  Option.some_ne_none _

section Matches

variable {before rest w after : List Char} {c : Char}

theorem regular_match {p : MatchPoint} : regularRules.pattern.matchFrom? p =
    (namePattern.matchThen p (closing 1)).orElse fun _ => (feedPattern.matchThen p (closing 2)).orElse fun _ =>
      (operatorPattern.matchThen p (closing 3)).orElse fun _ => (numberPattern.matchThen p (closing 4)).orElse fun _ =>
        commentPattern.matchThen p (closing 5) :=
  rfl

theorem mending_match {p : MatchPoint} : mendingRules.pattern.matchFrom? p =
    (mendablePattern.matchThen p (closing 1)).orElse fun _ => (feedPattern.matchThen p (closing 2)).orElse fun _ =>
      (operatorPattern.matchThen p (closing 3)).orElse fun _ => commentPattern.matchThen p (closing 4) :=
  rfl

theorem regular_feed (hw : ∀ c ∈ w, c = '\n') (hafter : after.head? ≠ some '\n') :
    regularRules.pattern.matchFrom? (between before ('\n' :: (w ++ after))) =
      closing 2 (between (before ++ '\n' :: w) after) := by
  rw [regular_match, (word_none (by rintro _ ⟨rfl⟩; rfl)).1, matchThen_feed (closing_ne_none 2) hw hafter]
  rfl

theorem regular_comment (hw : '\n' ∉ w) (hafter : ∀ c ∈ after.head?, c = '\n') :
    regularRules.pattern.matchFrom? (between before ('#' :: (w ++ after))) =
      closing 5 (between (before ++ '#' :: w) after) := by
  have hword : ∀ c ∈ ('#' :: (w ++ after)).head?, Text.isWordChar c = false := by
    rintro _ ⟨rfl⟩
    rfl
  rw [regular_match, (word_none hword).1, (word_none hword).2.1, feed_none (by simp),
    matchThen_operator (closing_ne_none 3), operator?_eq_none (.inr rfl), matchThen_comment (closing_ne_none 5) hw hafter]
  rfl

theorem regular_operator {op : String} (hop : op ∈ operators) :
    regularRules.pattern.matchFrom? (between before (op.toList ++ after)) =
      closing 3 (between (before ++ op.toList) after) := by
  obtain ⟨hne, hchars⟩ := operators_chars op hop
  obtain ⟨c, w, hw⟩ := exists_cons_of_ne_nil hne
  obtain ⟨hword, hbreak⟩ := hchars c (by simp [hw])
  simp only [mem_cons, not_mem_nil, or_false, not_or] at hbreak
  rw [regular_match, (word_none (by rw [hw]; rintro _ ⟨rfl⟩; exact hword)).1, feed_none (by simp [hw, hbreak]),
    matchThen_operator (closing_ne_none 3), operator?_append hop, Option.bind_some, drop_left]
  rfl

/-- Where neither a line feed nor a comment nor an operator begins, words are left. -/
theorem matches_words (hfeed : c ≠ '\n') (hcomment : c ≠ '#') (hoperator : operator? (c :: rest) = none) :
    regularRules.pattern.matchFrom? (between before (c :: rest)) =
      (namePattern.matchThen (between before (c :: rest)) (closing 1)).or
        (numberPattern.matchThen (between before (c :: rest)) (closing 4)) ∧
    mendingRules.pattern.matchFrom? (between before (c :: rest)) =
      mendablePattern.matchThen (between before (c :: rest)) (closing 1) := by
  have hnone : ∀ i j, feedPattern.matchThen (between before (c :: rest)) (closing 2) = none ∧
      operatorPattern.matchThen (between before (c :: rest)) (closing i) = none ∧
      commentPattern.matchThen (between before (c :: rest)) (closing j) = none := by
    intro i j
    rw [feed_none (by simpa using hfeed), matchThen_operator (closing_ne_none i), hoperator,
      comment_none (by simpa using hcomment)]
    exact ⟨rfl, rfl, rfl⟩
  rw [regular_match, mending_match, (hnone 3 5).1, (hnone 3 5).2.1, (hnone 3 5).2.2, (hnone 3 4).2.2]
  constructor
  · cases namePattern.matchThen (between before (c :: rest)) (closing 1) <;>
      cases numberPattern.matchThen (between before (c :: rest)) (closing 4) <;> rfl
  · cases mendablePattern.matchThen (between before (c :: rest)) (closing 1) <;> rfl

/-- A word is taken whole if it is a name or a number, and in the other state if it can be mended. -/
theorem matches_word (hw : ∀ d ∈ c :: w, Text.isWordChar d = true)
    (hafter : ∀ c ∈ after.head?, Text.isWordChar c = false) (hbefore : endsWord before = false) :
    (regularRules.pattern.matchFrom? (between before (c :: (w ++ after))) =
      if Word.isName (c :: w) then closing 1 (between (before ++ c :: w) after)
      else if Word.isNumber (c :: w) then closing 4 (between (before ++ c :: w) after) else none) ∧
    mendingRules.pattern.matchFrom? (between before (c :: (w ++ after))) =
      if (c :: w).all Word.isMendable then closing 1 (between (before ++ c :: w) after) else none := by
  have hc := hw c mem_cons_self
  have hbreak := notBreak_of_isWordChar hc
  simp only [mem_cons, not_mem_nil, or_false, not_or] at hbreak
  rw [(matches_words hbreak.2.2.1 hbreak.2.2.2.2 (operator?_eq_none (.inl hc) _)).1,
    (matches_words hbreak.2.2.1 hbreak.2.2.2.2 (operator?_eq_none (.inl hc) _)).2, matchThen_name hw hafter hbefore,
    matchThen_number hw hafter hbefore, matchThen_mendable hw hafter hbefore]
  refine ⟨?_, rfl⟩
  cases Word.isName (c :: w) <;> cases Word.isNumber (c :: w) <;> rfl

end Matches

/-! ### One place -/

/-- A place in a text where a word may begin, if there are word characters after it. -/
structure At (text : String) (before rest : List Char) : Prop where
  split : text.toList = before ++ rest
  edge : beginsWord rest = true → endsWord before = false

section Scan

variable {text : String} {before rest w after : List Char} {c : Char} {again : Task Scanning (Option LexToken)}
  {fuel : Nat} {ignore : String} {s s' : Scanning} {p : Piece} {place : Int}

/-- A place after a piece is one where a word may begin. -/
theorem At.step (h : At text before (p.chars ++ after)) (hp : p.Fits after) : At text (before ++ p.chars) after := by
  refine ⟨by rw [h.split, append_assoc], fun hbegins => ?_⟩
  have hends : (∀ c ∈ p.chars, Text.isWordChar c = false) → endsWord (before ++ p.chars) = false := by
    intro hall
    obtain ⟨c, rest, hchars, -⟩ := hp.head
    have hne : p.chars ≠ [] := by simp [hchars]
    rw [endsWord, getLast?_append_of_ne_nil _ hne, getLast?_eq_some_getLast hne]
    exact hall _ (getLast_mem hne)
  cases p with
  | blank c =>
    refine hends (forall_mem_singleton.2 ?_)
    simp only [Piece.Fits, mem_cons, not_mem_nil, or_false] at hp
    rcases hp with rfl | rfl | rfl <;> rfl
  | comment body =>
    rw [beginsWord_eq_false fun c hc => by rw [hp.2 c hc]; rfl] at hbegins
    cases hbegins
  | operator op => exact hends fun c hc => ((operators_chars op hp).2 c hc).1
  | word w kind flawed =>
    rw [beginsWord_eq_false hp.2] at hbegins
    cases hbegins

theorem At.point (h : At text before rest) :
    Lexer.pointAt text.toList.toArray before.length = between before rest := by
  rw [Lexer.pointAt, between, h.split]
  simp only [Int.toNat_natCast, drop_left]
  congr 1
  cases before using reverseRecOn with
  | nil => rfl
  | append_singleton l c => simp

theorem At.item? (h : At text before (c :: rest)) : (before.length : Int) < text.toList.toArray.size ∧
    Text.item? text.toList.toArray before.length = some c := by
  have hlt : before.length < text.toList.toArray.size := by simp [h.split]
  refine ⟨Int.ofNat_lt.2 hlt, ?_⟩
  rw [Text.item?, Text.place?_natCast hlt]
  simp [h.split]

/-- A blank is passed over. -/
theorem At.scan_skip (h : At text before (c :: rest)) (hc : c ∈ ignore.toList) :
    Lexer.scan again text.toList.toArray (fuel + 1) ignore before.length =
      Lexer.scan again text.toList.toArray fuel ignore (before ++ [c]).length := by
  rw [Lexer.scan, if_pos h.item?.1, h.item?.2]
  simp [hc]

theorem At.scan_end (h : At text before []) : Lexer.scan again text.toList.toArray (fuel + 1) ignore before.length =
    Lexer.handleEnd again before.length := by
  rw [Lexer.scan, if_neg (by simp [h.split])]

/-- What is done with what came of one place. -/
def goOn (again : Task Scanning (Option LexToken)) (text : String) (fuel : Nat) :
    Lexer.Progress → Task Scanning (Option LexToken)
  | .found token => pure (some token)
  | .onward position ignore => Lexer.scan again text.toList.toArray fuel ignore position

/-- Elsewhere the rule that applies in the present state decides, or the lack of one. -/
theorem At.scan_run (h : At text before (c :: rest)) (hc : c ∉ ignore.toList) {rule : MasterRule}
    (hrule : s.lexer.current.rules = [rule]) {found : Option MatchPoint}
    (hfound : rule.pattern.matchFrom? (between before (c :: rest)) = found) :
    (Lexer.scan again text.toList.toArray (fuel + 1) ignore before.length).run s =
      ((found.elim (Lexer.handleMismatch again ignore before.length c)
        (Lexer.handleMatch again text.toList.toArray ignore before.length rule)) >>= goOn again text fuel).run s := by
  have hno : ignore.toList.contains c = false := by simpa using hc
  have hfirst : (Lexer.progressAt again text.toList.toArray ignore before.length c).run s =
      (found.elim (Lexer.handleMismatch again ignore before.length c)
        (Lexer.handleMatch again text.toList.toArray ignore before.length rule)).run s := by
    rw [Lexer.progressAt, run_bind, show (get : Task Scanning Scanning).run s = (.ok s, s) from rfl]
    simp only [hrule, h.point, Lexer.firstMatch?, hfound]
    cases found <;> rfl
  rw [Lexer.scan, if_pos h.item?.1, h.item?.2]
  simp only [hno, Bool.false_eq_true, if_false]
  rw [run_bind, run_bind, hfirst]
  split
  · next progress _ _ => cases progress <;> rfl
  · rfl

section Handling

variable (again text ignore) (position place line : Int) (b : Option Char)

/-- The type of the token that a regular match makes. -/
def typeOf : Nat → String → String
  | 1, text => (spellings.lookup text).getD "NAME"
  | 3, _ => "OP"
  | 4, _ => "NUMBER"
  | _, _ => "COMMENT"

variable (chars : Array Char) (after : List Char)

/-- The characters that a match takes. -/
def taken (chars : Array Char) (position : Int) (after : List Char) : String :=
  String.ofList (chars.extract position.toNat (chars.size - after.length)).toList

theorem handle_found {i : Nat} (hi : i ∈ [1, 3, 4, 5]) :
    Yields (Lexer.handleMatch again chars ignore position regularRules ⟨b, after, some i⟩)
      (standing regular text place line)
      (.found ⟨typeOf i (taken chars position after), .text (taken chars position after), line, position, none⟩)
      (standing regular text (chars.size - after.length : Nat) line) := by
  simp only [mem_cons, not_mem_nil, or_false] at hi
  rcases hi with rfl | rfl | rfl | rfl <;> rfl

theorem handle_feed : Yields (Lexer.handleMatch again chars ignore position regularRules ⟨b, after, some 2⟩)
    (standing regular text place line) (.onward (chars.size - after.length : Nat) " \t")
    (standing regular text (chars.size - after.length : Nat)
      (line + ((taken chars position after).toList.filter (· == '\n')).length)) :=
  rfl

/-- Mending leads back to the regular state. -/
theorem handle_mendable : Yields (Lexer.handleMatch again chars ignore position mendingRules ⟨b, after, some 1⟩)
    (standing mending text place line)
    (.found ⟨(Word.mend (taken chars position after).toList).1.name?.getD "", .text (taken chars position after), line,
      position, some (Word.mend (taken chars position after).toList).2⟩)
    (standing regular text (chars.size - after.length : Nat) line) :=
  rfl

theorem handle_illegal (c : Char) :
    (Lexer.handleMismatch again ignore position c).run (standing mending text place line) =
      (.error (.exit 1), standing mending text position line) :=
  rfl

/-- Where nothing regular begins, the text is read again up to there, and words are mended. -/
theorem handle_misfit (c : Char) :
    (Lexer.handleMismatch again ignore position c).run (standing regular text place line) =
      (again >>= fun token => do
        let after := (← get).lexer.position
        if after = position then fail (.scanning s!"Scanning error. Illegal character '{c}'")
        match token with
        | some token => return Lexer.Progress.found token
        | none => return .onward after ignore).run
        (standing mending text position (1 + ((text.toList.take position.toNat).count '\n' : Nat))) :=
  rfl

end Handling

/-- A match up to some place takes the characters before it. -/
theorem At.taken (h : At text before (w ++ after)) :
    taken text.toList.toArray before.length after = String.ofList w ∧
    text.toList.toArray.size - after.length = (before ++ w).length := by
  have hlength : before.length + (w.length + after.length) - after.length - before.length = w.length := by omega
  rw [Rules.taken, h.split]
  constructor
  · congr 1
    simp [hlength]
  · simp
    omega

/-! ### One token -/

/-- Looks for the next token at a place, in the regular state. -/
def search (text : String) (before : List Char) (fuel : Nat) (place : Int) :
    Except Stop (Option LexToken) × Scanning :=
  (Lexer.scan (Lexer.scanText (return none)) text.toList.toArray fuel " \t" before.length).run
    (standing regular text place (lineAfter before))

/-- A regular match is one token. -/
theorem At.found (h : At text before (w ++ after)) (hc : c ∈ w.head?) (hblank : c ∉ " \t".toList) {i : Nat}
    (hi : i ∈ [1, 3, 4, 5])
    (hmatch : regularRules.pattern.matchFrom? (between before (w ++ after)) = closing i (between (before ++ w) after)) :
    search text before (fuel + 1) place =
      (.ok (some ⟨typeOf i (String.ofList w), .text (String.ofList w), lineAfter before, before.length, none⟩),
        standing regular text (before ++ w).length (lineAfter before)) := by
  have hy := handle_found text (Lexer.scanText (return none)) " \t" before.length place (lineAfter before)
    (before ++ w).getLast? text.toList.toArray after hi
  rw [h.taken.1, h.taken.2] at hy
  obtain ⟨w, rfl⟩ := head?_eq_some_iff.1 hc
  rw [search, h.scan_run hblank rfl hmatch]
  exact hy.bind rfl

/-- Where nothing regular begins, the outcome is that of reading on in the other state. -/
theorem At.misfit (h : At text before (c :: rest)) (hblank : c ∉ " \t".toList)
    (hmatch : regularRules.pattern.matchFrom? (between before (c :: rest)) = none)
    {outcome : Except Stop (Option LexToken) × Scanning}
    (hagain : (Lexer.scanText (return none)).run (standing mending text before.length (lineAfter before)) = outcome)
    (hmoves : ∀ t s, outcome = (.ok t, s) → t ≠ none ∧ s.lexer.position ≠ before.length) :
    search text before (fuel + 1) place = outcome := by
  have hline : (1 : Int) + ((text.toList.take (before.length : Int).toNat).count '\n' : Nat) = lineAfter before := by
    rw [h.split, Int.toNat_natCast, take_left, lineAfter, Int.natCast_add, Int.add_comm]
    rfl
  rw [search, h.scan_run hblank rfl hmatch, run_bind, Option.elim_none, handle_misfit, hline, run_bind, hagain]
  rcases outcome with ⟨stop | t, s⟩
  · rfl
  · obtain ⟨hsome, hposition⟩ := hmoves t s rfl
    obtain ⟨t, rfl⟩ := Option.ne_none_iff_exists'.1 hsome
    dsimp only
    rw [run_bind, show (get : Task Scanning Scanning).run s = (.ok s, s) from rfl]
    simp only [if_neg hposition]
    rfl

theorem At.mending_run (h : At text before (c :: rest)) (hblank : c ∉ " \t".toList) {line : Int}
    {found : Option MatchPoint} (hfound : mendingRules.pattern.matchFrom? (between before (c :: rest)) = found) :
    ∃ fuel, (Lexer.scanText (return none)).run (standing mending text before.length line) =
      ((found.elim (Lexer.handleMismatch (return none) " \t" before.length c)
        (Lexer.handleMatch (return none) text.toList.toArray " \t" before.length mendingRules)) >>=
          goOn (return none) text fuel).run (standing mending text before.length line) := by
  obtain ⟨fuel, hfuel⟩ : ∃ fuel, 1000 * (text.toList.toArray.size + 8) = fuel + 1 :=
    Nat.exists_eq_add_one.2 (by omega)
  refine ⟨fuel, ?_⟩
  rw [← h.scan_run hblank rfl hfound, ← hfuel]
  rfl

/-- A word that is mended is one token, with a complaint. -/
theorem At.mended (h : At text before (c :: (w ++ after))) (hblank : c ∉ " \t".toList)
    (hmatch : regularRules.pattern.matchFrom? (between before (c :: (w ++ after))) = none)
    (hmend : mendingRules.pattern.matchFrom? (between before (c :: (w ++ after))) =
      closing 1 (between (before ++ c :: w) after)) :
    search text before (fuel + 1) place =
      (.ok (some ⟨(Word.mend (c :: w)).1.name?.getD "", .text (String.ofList (c :: w)), lineAfter before,
        before.length, some (Word.mend (c :: w)).2⟩), standing regular text (before ++ c :: w).length (lineAfter before)) := by
  obtain ⟨htaken, hsize⟩ := At.taken (w := c :: w) h
  have hy := handle_mendable text (return none) " \t" before.length before.length (lineAfter before)
    (before ++ c :: w).getLast? text.toList.toArray after
  rw [htaken, String.toList_ofList, hsize] at hy
  refine h.misfit hblank hmatch ?_ ?_
  · obtain ⟨fuel, hrun⟩ := h.mending_run hblank hmend
    rw [hrun]
    exact hy.bind rfl
  · rintro t s ⟨rfl⟩
    refine ⟨Option.some_ne_none _, fun hposition => ?_⟩
    have hlength : ((before ++ c :: w).length : Int) = before.length := hposition
    simp only [length_append, length_cons] at hlength
    omega

variable (table : LineTable)

/-- A token of the lexer becomes what the scanner makes of its characters. -/
theorem stepOf_eq {type : String} {kind : TokenKind} (hw : '\n' ∉ w) (hkind : kindOf type = kind)
    (complaint : Option String) :
    stepOf table ⟨type, .text (String.ofList w), lineAfter before, before.length, complaint⟩ =
      ⟨tokenAt table kind w (lineAfter before) before.length, complaint⟩ := by
  have hline : ((lineAfter before : Int) - 1).toNat = lineAfter before - 1 := by omega
  have hcount : (String.ofList w).toList.count '\n' = 0 := by simpa using count_eq_zero_of_not_mem hw
  simp only [stepOf, tokenAt, Plain.printed, hcount, hkind, hline, LineTable.column, LineTable.text]
  simp

/-- The lexer finds a piece that becomes a token. -/
theorem At.piece (h : At text before (p.chars ++ after)) (hp : p.Fits after) {kind : TokenKind}
    {complaint : Option String} (htoken : token? p = some (kind, complaint)) :
    ∃ t, stepOf table t = ⟨tokenAt table kind p.chars (lineAfter before) before.length, complaint⟩ ∧
      search text before (fuel + 1) place =
        (.ok (some t), standing regular text (before ++ p.chars).length (lineAfter before)) := by
  have hfeed := no_feed_of_token? hp htoken
  cases p with
  | blank => cases htoken
  | comment body =>
    cases htoken
    exact ⟨_, stepOf_eq table hfeed kindOf_plain.2.2.2 none,
      h.found rfl (by decide) (i := 5) (by decide) (regular_comment hp.1 hp.2)⟩
  | operator op =>
    cases htoken
    obtain ⟨hne, hchars⟩ := operators_chars op hp
    obtain ⟨c, w, hw⟩ := exists_cons_of_ne_nil hne
    have hbreak := (hchars c (by simp [hw])).2
    simp only [mem_cons, not_mem_nil, or_false, not_or] at hbreak
    exact ⟨_, stepOf_eq table hfeed kindOf_plain.2.2.1 none,
      h.found (show c ∈ op.toList.head? by simp [hw]) (by simp [hbreak]) (i := 3) (by decide) (regular_operator hp)⟩
  | word w kind flawed =>
    obtain ⟨c, w, rfl⟩ := exists_cons_of_ne_nil hp.1.ne_nil
    have hc := hp.1.isWordChar c mem_cons_self
    have hbreak := notBreak_of_isWordChar hc
    simp only [mem_cons, not_mem_nil, or_false, not_or] at hbreak
    have hblank : c ∉ " \t".toList := by simp [hbreak]
    obtain ⟨hregular, hmending⟩ := matches_word hp.1.isWordChar hp.2 (h.edge hc)
    cases flawed with
    | false =>
      cases htoken
      have hkind := Word.kind?_eq_some_iff.2 hp.1
      by_cases hname : Word.isName (c :: w) = true
      · rw [if_pos hname] at hregular
        exact ⟨_, stepOf_eq table hfeed (kindOf_spelling hname hkind) none,
          h.found rfl hblank (i := 1) (by decide) hregular⟩
      · rw [Word.kind?, if_neg hname] at hkind
        split at hkind
        · next hnumber =>
          cases hkind
          rw [if_neg hname, if_pos hnumber] at hregular
          exact ⟨_, stepOf_eq table hfeed kindOf_plain.2.1 none, h.found rfl hblank (i := 4) (by decide) hregular⟩
        · cases hkind
    | true =>
      obtain ⟨hkind, hall, hmend⟩ := (Word.readAs_true_iff hp.1.ne_nil).1 hp.1
      cases htoken
      rw [if_pos hall] at hmending
      rw [Word.kind?] at hkind
      split at hkind
      · cases hkind
      · next hname =>
        split at hkind
        · cases hkind
        · next hnumber =>
          rw [if_neg hname, if_neg hnumber] at hregular
          exact ⟨_, stepOf_eq table hfeed ((kindOf_mend _).trans hmend) _, h.mended hblank hregular hmending⟩

/-- Where no piece begins, the run is ended. -/
theorem At.refused (h : At text before (c :: rest))
    (hnone : ∀ (p : Piece) (after : List Char), c :: rest = p.chars ++ after → ¬p.Fits after) :
    search text before (fuel + 1) place =
      (.error (.exit 1), standing mending text before.length (lineAfter before)) := by
  obtain ⟨hbreak, hcomment, hoperator⟩ := stop_cons hnone rfl
  simp only [mem_cons, not_mem_nil, or_false, not_or] at hbreak
  have hblank : c ∉ " \t".toList := by simp [hbreak]
  have hmatch : regularRules.pattern.matchFrom? (between before (c :: rest)) = none ∧
      mendingRules.pattern.matchFrom? (between before (c :: rest)) = none := by
    by_cases hc : Text.isWordChar c = true
    · obtain ⟨w, after, rfl, hw, hafter⟩ := exists_run Text.isWordChar rest
      obtain ⟨hkind, hmend⟩ := stop_word hnone (w := c :: w) rfl (cons_ne_nil _ _) hafter
      obtain ⟨hregular, hmending⟩ := matches_word (forall_mem_cons.2 ⟨hc, hw⟩) hafter (h.edge hc)
      rw [hregular, hmending, hmend]
      rw [Word.kind?] at hkind
      split at hkind
      · cases hkind
      · split at hkind
        · cases hkind
        · simp [*]
    · have hword : ∀ d ∈ (c :: rest).head?, Text.isWordChar d = false := by
        rintro _ ⟨rfl⟩
        exact Bool.eq_false_iff.2 hc
      rw [(matches_words hbreak.2.2 hcomment hoperator).1, (matches_words hbreak.2.2 hcomment hoperator).2,
        (word_none hword).1, (word_none hword).2.1, (word_none hword).2.2]
      exact ⟨rfl, rfl⟩
  refine h.misfit hblank hmatch.1 ?_ ?_
  · obtain ⟨fuel, hrun⟩ := h.mending_run hblank hmatch.2
    rw [hrun, Option.elim_none, run_bind, handle_illegal]
  · rintro t s ⟨⟩

/-- Line feeds are passed over all at once. -/
theorem At.search_feed (h : At text before ('\n' :: (w ++ after))) (hw : ∀ c ∈ w, c = '\n')
    (hafter : after.head? ≠ some '\n') : search text before (fuel + 1) place =
      search text (before ++ '\n' :: w) fuel (before ++ '\n' :: w).length := by
  obtain ⟨htaken, hsize⟩ := At.taken (w := '\n' :: w) h
  have hy := handle_feed text (Lexer.scanText (return none)) " \t" before.length place (lineAfter before)
    (before ++ '\n' :: w).getLast? text.toList.toArray after
  have hlines : (lineAfter before : Int) + (('\n' :: w).filter (· == '\n')).length = lineAfter (before ++ '\n' :: w) := by
    rw [lineAfter, lineAfter, count_append, ← count_eq_length_filter]
    omega
  rw [htaken, String.toList_ofList, hlines, hsize] at hy
  unfold Yields at hy
  rw [search, h.scan_run (by decide) rfl (regular_feed hw hafter), closing, Option.elim_some, run_bind, between, hy]
  rfl

/-! ### All tokens -/

/-- The outcome of a search agrees with a scan: both are at an end, or both go on after the same token. -/
inductive Agrees (text : String) (size : Nat) : Except Stop (Option LexToken) × Scanning → Scan → Prop
  | finished {s : Scanning} : Agrees text size (.ok none, s) ⟨[], .complete⟩
  | token {t : LexToken} {before rest tail : List Char} {pieces : List Piece} (hcut : Cut rest pieces tail)
      (h : At text before rest) (hsize : rest.length < size) :
      Agrees text size (.ok (some t), standing regular text before.length (lineAfter before))
        (push (stepOf table t) (ofPieces table before pieces tail))
  | illegal {before tail : List Char} (hne : tail ≠ []) :
      Agrees text size (.error (.exit 1), standing mending text before.length (lineAfter before))
        ⟨[], endOf table before tail⟩

theorem Agrees.mono {size size' : Nat} {outcome : Except Stop (Option LexToken) × Scanning} {scan : Scan}
    (h : Agrees table text size outcome scan) (hsize : size ≤ size') : Agrees table text size' outcome scan := by
  cases h with
  | finished => exact .finished
  | token hcut h hlt => exact .token hcut h (Nat.lt_of_lt_of_le hlt hsize)
  | illegal hne => exact .illegal hne

variable {pieces : List Piece} {tail : List Char}

theorem ofPieces_blank (h : token? p = none) : ofPieces table before (p :: pieces) tail =
    ofPieces table (before ++ p.chars) pieces tail := by
  simp [ofPieces, stepsOf, step?, h]

theorem ofPieces_token {step : ScanStep} (h : step? table before p = some step) :
    ofPieces table before (p :: pieces) tail = push step (ofPieces table (before ++ p.chars) pieces tail) := by
  simp [ofPieces, stepsOf, h, push]

/-- A search agrees with the pieces. The induction is on them: blanks are passed over, line feeds together with all that
follow, and the first piece that is no blank decides. -/
theorem At.search_agrees (hcut : Cut rest pieces tail) (h : At text before rest) (hfuel : rest.length < fuel) :
    Agrees table text rest.length (search text before fuel place) (ofPieces table before pieces tail) := by
  induction hcut generalizing before fuel place with
  | @stop tail hnone =>
    obtain ⟨fuel, rfl⟩ := Nat.exists_eq_add_one.2 (Nat.zero_lt_of_lt hfuel)
    rw [ofPieces, flatMap_nil, append_nil, stepsOf]
    cases tail with
    | nil =>
      rw [search, h.scan_end]
      exact .finished
    | cons c rest =>
      rw [h.refused hnone]
      exact .illegal (cons_ne_nil _ _)
  | @piece p after pieces tail hp hcut ih =>
    obtain ⟨fuel, rfl⟩ := Nat.exists_eq_add_one.2 (Nat.zero_lt_of_lt hfuel)
    have hon := h.step hp
    obtain ⟨c, w, hchars, -⟩ := hp.head
    have hshorter : after.length < (p.chars ++ after).length := by
      rw [hchars, cons_append, length_cons, length_append]
      omega
    cases htoken : token? p with
    | some token =>
      obtain ⟨t, ht, hsearch⟩ := @At.piece _ _ _ fuel p place table h hp _ _ htoken
      have hstep : step? table before p = some (stepOf table t) := by
        rw [step?, htoken, ht]
        rfl
      rw [hsearch, ofPieces_token table hstep, ← lineAfter_append before (no_feed_of_token? hp htoken)]
      exact .token hcut hon hshorter
    | none =>
      rw [ofPieces_blank table htoken]
      refine Agrees.mono table ?_ (Nat.le_of_lt hshorter)
      cases p with
      | comment => cases htoken
      | operator => cases htoken
      | word => cases htoken
      | blank c =>
        by_cases hfeed : c = '\n'
        · subst hfeed
          obtain ⟨run, left, rfl, hrun, hleft⟩ := exists_run (· == '\n') after
          have hfeeds : ∀ c ∈ run, c = '\n' := fun c hc => beq_iff_eq.1 (hrun c hc)
          have hstop : left.head? ≠ some '\n' := fun he => by cases hleft _ he
          rw [At.search_feed (w := run) h hfeeds hstop]
          cases run with
          | nil => exact ih hon (by simpa [Piece.chars] using hfuel)
          | cons d run =>
            -- The search that begins behind the first line feed passes over the others in the same way.
            obtain ⟨rfl, hothers⟩ := forall_mem_cons.1 hfeeds
            have hrest := @ih _ (fuel + 1) place hon (by simp [Piece.chars] at hfuel ⊢; omega)
            rw [At.search_feed (w := run) hon hothers hstop, append_assoc] at hrest
            exact hrest
        · have hblank : c ∈ " \t".toList := by
            simp only [Piece.Fits, mem_cons, not_mem_nil, or_false] at hp
            simpa [hfeed] using hp
          have hline := lineAfter_append before (w := [c]) (by simpa using Ne.symm hfeed)
          have hrest := @ih _ fuel place hon (by simpa [Piece.chars] using hfuel)
          rw [search, Piece.chars, hline] at hrest
          rwa [search, At.scan_skip h hblank]

/-- If every search agrees with the pieces, then so do all of them together. -/
theorem At.scanning_eq (hcut : Cut rest pieces tail) (h : At text before rest) (hfuel : rest.length < fuel) :
    scanning table fuel (standing regular text before.length (lineAfter before)) =
      some (ofPieces table before pieces tail) := by
  induction fuel generalizing before rest pieces tail with
  | zero => omega
  | succ fuel ih =>
    have hlimit : rest.length < 1000 * (text.toList.toArray.size + 8) := by
      simp [h.split]
      omega
    have hagrees := @At.search_agrees _ _ _ _ before.length table _ _ hcut h hlimit
    rw [scanning, show Lexer.token.run (standing regular text before.length (lineAfter before)) =
      search text before (1000 * (text.toList.toArray.size + 8)) before.length from rfl]
    generalize search text before (1000 * (text.toList.toArray.size + 8)) before.length = outcome at hagrees
    generalize ofPieces table before pieces tail = scan at hagrees
    cases hagrees with
    | finished => rfl
    | token hcut h hsize => simp only [ih hcut h (by omega), Option.map_some]
    | illegal hne =>
      rw [endOf, if_neg hne]
      rfl

end Scan

/-- The tokens that the lexer of the language gives for a text are those of its pieces. -/
theorem scanned_cut {text tail : List Char} {pieces : List Piece} (hcut : Cut text pieces tail) :
    scanned (String.ofList text) = some (ofPieces (.ofText (String.ofList text)) [] pieces tail) := by
  have hat : At (String.ofList text) [] text := ⟨String.toList_ofList, fun _ => rfl⟩
  exact At.scanning_eq _ hcut hat (by simp)

/-- The lexer of the language gives what the scanner gives. -/
theorem scanned_eq (text : String) : scanned text = some (Scan.ofNormalized text) := by
  obtain ⟨pieces, tail, hcut⟩ := Cut.exists_of_text text.toList
  rw [← String.ofList_toList (s := text), scanned_cut hcut, ofNormalized_cut hcut]
  rfl

end Labyrinth.Rules

namespace Labyrinth

/-- A text is cut into pieces in one way only, and the lexer of the language finds them. All of the text is scanned if it
has nothing but pieces: each piece but the blanks becomes one token, and the words that are nearly names or numbers are
reported. Otherwise the scan stops where nothing begins. -/
theorem Cursor.takeAll_eq_pieces (session : Session) (text file : String) :
    ∃ (pieces : List Piece) (tail : List Char),
      let chars := Text.normalizeChars text.toList
      let scanned := pieces.flatMap Piece.chars
      let table := Scan.LineTable.ofText (String.ofList chars)
      let steps := Scan.stepsOf table [] pieces
      let opened := { session with
        lines := table.lines
        pending := session.pending ++ (reportsOf file steps).toArray }
      Cut chars pieces tail ∧ (∀ pieces' tail', Cut chars pieces' tail' → pieces' = pieces ∧ tail' = tail) ∧
      chars = scanned ++ tail ∧
      Rules.scanned (String.ofList chars) = some ⟨steps, Scan.endOf table scanned tail⟩ ∧
      steps.flatMap (fun step => step.token.text.toList) = (pieces.filter fun p => p.sort ≠ 0).flatMap Piece.chars ∧
      takeAll.run { session, feed := .unopened text file } =
        if tail = [] then
          (.ok (), {
            session := opened
            feed := .items []
            tokens := (steps.map ScanStep.token ++ [Scan.endToken table.lines]).toArray })
        else
          let line := Scan.lineAfter scanned
          let report := illegalReport file line (table.column line scanned.length) (table.text line)
          (.error (.exit 1), {
            session := { opened with out := session.out ++ (report.text ++ "\n") }
            feed := .items []
            tokens := (steps.map ScanStep.token).toArray }) := by
  obtain ⟨pieces, tail, hcut⟩ := Cut.exists_of_text (Text.normalizeChars text.toList)
  exact ⟨pieces, tail, hcut, fun _ _ h => h.unique hcut, hcut.append_eq.symm, Rules.scanned_cut hcut, Scan.stepsOf_text _ _ _,
    takeAll_cut hcut session file ""⟩

end Labyrinth
