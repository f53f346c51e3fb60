import Labyrinth.Proofs.Token.Words
import Labyrinth.Token.Rules

/-!
# Matches of the rules

Where the patterns of the language match. A repetition takes as long a run as it can, and gives characters back only
if what follows does not match; inside a word no edge of a word does, so that a pattern for words takes a whole word
or nothing.
-/

namespace Labyrinth.Lexing

open List

/-- The place between some characters and the rest of a text. -/
def MatchPoint.between (before rest : List Char) : MatchPoint :=
  ⟨before.getLast?, rest, none⟩

open MatchPoint

/-- A body takes one character that passes a test. -/
structure Takes (test : Char → Bool) (body : MatchPoint → Then → Option MatchPoint) : Prop where
  stop : ∀ before next, body (between before []) next = none
  char : ∀ before c rest next, body (between before (c :: rest)) next =
    if test c then next (between (before ++ [c]) rest) else none

variable {before rest w after : List Char} {next : Then} {test : Char → Bool}

theorem takes_set {items : List SetItem} (h : ∀ c, items.any (·.covers c) = test c) :
    Takes test (Pattern.set false items).matchThen := by
  constructor
  · intro before next
    rfl
  · intro before c rest next
    simp [Pattern.matchThen, between, h]

theorem takes_any : Takes Scan.staysInLine Pattern.any.matchThen := by
  constructor
  · intro before next
    rfl
  · intro before c rest next
    by_cases hc : c = '\n' <;> simp [Pattern.matchThen, between, Scan.staysInLine, hc]

section Rounds

variable {body : MatchPoint → Then → Option MatchPoint} (hbody : Takes test body) {least fuel done : Nat}

include hbody

theorem Takes.none (h : ∀ c ∈ rest.head?, test c = false) : body (between before rest) next = Option.none := by
  cases rest with
  | nil => exact hbody.stop before next
  | cons c rest => rw [hbody.char, h c rfl, if_neg Bool.false_ne_true]

/-- A repetition that takes as much as it can takes a run of characters, unless only a part of the run leaves a rest
that matches. -/
theorem tryRounds_run {run : List Char} (hrun : ∀ c ∈ run, test c = true) (hafter : ∀ c ∈ after.head?, test c = false)
    (hfuel : run.length < fuel) (hdone : least ≤ done)
    (hback : next (between (before ++ run) after) = none →
      ∀ u v, run = u ++ v → v ≠ [] → next (between (before ++ u) (v ++ after)) = none) :
    tryRounds .most least none body fuel done (between before (run ++ after)) next =
      next (between (before ++ run) after) := by
  induction run generalizing before fuel done with
  | nil =>
    obtain ⟨fuel, rfl⟩ := Nat.exists_eq_add_one.2 hfuel
    rw [tryRounds, if_neg (Nat.not_lt.2 hdone)]
    simp [hbody.none hafter]
  | cons c run ih =>
    obtain ⟨fuel, rfl⟩ := Nat.exists_eq_add_one.2 (Nat.zero_lt_of_lt hfuel)
    obtain ⟨hc, hrun⟩ := forall_mem_cons.1 hrun
    rw [append_cons] at hback
    have hlonger := @ih (before ++ [c]) fuel (done + 1) hrun (by simpa using hfuel) (by omega) fun hnone u v huv hv => by
      have hshort := hback hnone (c :: u) v (by rw [huv, cons_append]) hv
      rwa [append_cons] at hshort
    rw [tryRounds, if_neg (Nat.not_lt.2 hdone), append_cons]
    simp only [cons_append, hbody.char, hc, hlonger]
    cases hend : next (between (before ++ [c] ++ run) after) with
    | some q => simp [between]
    | none => simpa [between, hend] using hback hend [] (c :: run) rfl (cons_ne_nil _ _)

end Rounds

end Labyrinth.Lexing

namespace Labyrinth.Rules

open List Labyrinth.Lexing Labyrinth.Lexing.MatchPoint

/-! ### Words -/

/-- Some characters end inside a word or at its end. -/
def endsWord (before : List Char) : Bool :=
  before.getLast?.any Text.isWordChar

/-- A character of a word comes first. -/
def beginsWord (rest : List Char) : Bool :=
  rest.head?.any Text.isWordChar

variable {before rest w after : List Char} {next : Then} {c : Char}

theorem matchThen_many {least : Nat} {body : Pattern} {p : MatchPoint} : (many least body).matchThen p next =
    tryRounds .most least none body.matchThen (p.rest.length + least + 1) 0 p next :=
  rfl

theorem matchThen_seq {a b : Pattern} {p : MatchPoint} :
    (Pattern.seq a b).matchThen p next = a.matchThen p fun q => b.matchThen q next :=
  rfl

theorem matchThen_anchor {a : Anchor} {p : MatchPoint} :
    (Pattern.anchor a).matchThen p next = if a.holds p then next p else none :=
  rfl

theorem matchThen_edge : edge.matchThen (between before rest) next =
    if endsWord before = beginsWord rest then none else next (between before rest) := by
  have hholds : (Anchor.wordEdge false).holds (between before rest) = (endsWord before != beginsWord rest) :=
    Bool.bne_false _
  rw [edge, matchThen_anchor, hholds]
  cases endsWord before <;> cases beginsWord rest <;> rfl

theorem edge_inside (h : endsWord before = true) (h' : beginsWord rest = true) :
    edge.matchThen (between before rest) next = none := by
  rw [matchThen_edge, h, h', if_pos rfl]

theorem endsWord_append (hw : ∀ c ∈ w, Text.isWordChar c = true) (hbefore : w = [] → endsWord before = true) :
    endsWord (before ++ w) = true := by
  cases w using reverseRecOn with
  | nil => rw [append_nil, hbefore rfl]
  | append_singleton w c => simpa [endsWord] using hw c (by simp)

section Word

variable (hw : ∀ c ∈ w, Text.isWordChar c = true) (hafter : ∀ c ∈ after.head?, Text.isWordChar c = false)

include hafter in
theorem beginsWord_eq_false : beginsWord after = false := by
  cases after with
  | nil => rfl
  | cons c rest => exact hafter c rfl

include hw hafter

/-- A repetition takes the rest of a word, or it ends inside of the word. -/
theorem tryRounds_word {test : Char → Bool} {body : MatchPoint → Then → Option MatchPoint} (hbody : Takes test body)
    (htest : ∀ c, test c = true → Text.isWordChar c = true) {least fuel done : Nat} (hfuel : w.length < fuel)
    (hdone : least ≤ done) (hbefore : endsWord before = true)
    (hnext : ∀ before rest, endsWord before = true → beginsWord rest = true → next (between before rest) = none) :
    tryRounds .most least none body fuel done (between before (w ++ after)) next =
      if w.all test then next (between (before ++ w) after) else none := by
  obtain ⟨run, left, rfl, hrun, hleft⟩ := exists_run test w
  have hinside : ∀ u v, run = u ++ v → v ++ left ≠ [] → next (between (before ++ u) (v ++ (left ++ after))) = none := by
    rintro u v rfl hne
    obtain ⟨c, rest, hrest⟩ := exists_cons_of_ne_nil hne
    rw [append_assoc, hrest] at hw
    rw [← append_assoc, hrest]
    exact hnext _ _ (endsWord_append (fun d hd => hw d (mem_append_left _ hd)) fun _ => hbefore)
      (hw c (mem_append_right _ mem_cons_self))
  have hstop : ∀ c ∈ (left ++ after).head?, test c = false := by
    cases left with
    | nil => exact fun c hc => Bool.eq_false_iff.2 fun h => Bool.eq_false_iff.1 (hafter c hc) (htest c h)
    | cons c left => exact hleft
  rw [append_assoc, tryRounds_run hbody hrun hstop (by rw [length_append] at hfuel; omega) hdone
    fun _ u v huv hv => hinside u v huv (by simp [hv])]
  cases left with
  | nil => simp [all_eq_true.2 hrun]
  | cons c left =>
    have hc : test c = false := hleft c rfl
    rw [if_neg (by simp [hc])]
    exact hinside run [] (append_nil _).symm (cons_ne_nil _ _)

end Word

/-! ### Sets of characters -/

section Sets

variable (c d : Char)

theorem covers_lower : (SetItem.range 'a' 'z').covers c = c.isLower := rfl
theorem covers_small : (SetItem.range 'a' 'w').covers c = ('a' ≤ c && c ≤ 'w') := rfl
theorem covers_capital : (SetItem.range 'A' 'W').covers c = ('A' ≤ c && c ≤ 'W') := rfl
theorem covers_digit : (SetItem.range '0' '9').covers c = c.isDigit := rfl
theorem covers_char : (SetItem.char d).covers c = (c == d) := rfl

attribute [local simp] covers_lower covers_small covers_capital covers_digit covers_char Bool.or_assoc

theorem takes_nameFirst : Takes (fun c => c.isLower || c == '_') (Pattern.set false nameFirst).matchThen :=
  takes_set fun c => by simp [nameFirst]

theorem takes_nameRest : Takes Word.isNameChar (Pattern.set false nameRest).matchThen :=
  takes_set fun c => by simp [nameRest, Word.isNameChar]

theorem takes_numberItems : Takes Word.isNumberChar (Pattern.set false numberItems).matchThen :=
  takes_set fun c => by simp [numberItems, Word.isNumberChar]

theorem takes_mendable : Takes Word.isMendable (Pattern.set false mendable).matchThen :=
  takes_set fun c => by simp [mendable, Word.isMendable, Word.isNumberChar]

theorem takes_char : Takes (· == d) (Pattern.char d).matchThen :=
  takes_set fun c => by simp

end Sets

/-! ### Patterns of words -/

/-- The first round of a repetition that needs one. -/
theorem matchThen_many_one {test : Char → Bool} {body : Pattern} (hbody : Takes test body.matchThen) :
    (many 1 body).matchThen (between before (c :: rest)) next = if test c then
      tryRounds .most 1 none body.matchThen (rest.length + 2) 1 (between (before ++ [c]) rest) next else none := by
  rw [matchThen_many, tryRounds, if_pos Nat.zero_lt_one, hbody.char]
  rfl

section Words

variable (hw : ∀ d ∈ c :: w, Text.isWordChar d = true) (hafter : ∀ c ∈ after.head?, Text.isWordChar c = false)
  (hbefore : endsWord before = false)

include hw

theorem edge_word (hbefore : endsWord before = false) :
    edge.matchThen (between before (c :: rest)) next = next (between before (c :: rest)) := by
  rw [matchThen_edge, if_neg]
  simpa [hbefore, beginsWord] using hw c mem_cons_self

include hafter

theorem edge_past :
    edge.matchThen (between (before ++ c :: w) after) next = next (between (before ++ c :: w) after) := by
  rw [matchThen_edge, if_neg]
  simp [endsWord_append hw (by simp), beginsWord_eq_false hafter]

/-- A repetition after the first character of a word, in front of something that does not match inside a word. -/
theorem tryRounds_tail {test : Char → Bool} {body : MatchPoint → Then → Option MatchPoint} (hbody : Takes test body)
    (htest : ∀ c, test c = true → Text.isWordChar c = true) {least fuel done : Nat}
    (hfuel : (w ++ after).length < fuel) (hdone : least ≤ done)
    (hnext : ∀ before rest, endsWord before = true → beginsWord rest = true → next (between before rest) = none) :
    tryRounds .most least none body fuel done (between (before ++ [c]) (w ++ after)) next =
      if w.all test then next (between (before ++ c :: w) after) else none := by
  obtain ⟨hc, hrest⟩ := forall_mem_cons.1 hw
  rw [length_append] at hfuel
  rw [tryRounds_word hrest hafter hbody htest (by omega) hdone (by simpa [endsWord] using hc) hnext,
    ← append_cons]

include hbefore

/-- The pattern of names takes a whole word if it is a name. -/
theorem matchThen_name : namePattern.matchThen (between before (c :: (w ++ after))) next =
    if Word.isName (c :: w) then next (between (before ++ c :: w) after) else none := by
  have hname : Word.isName (c :: w) = ((c.isLower || c == '_') && w.all Word.isNameChar) := by
    have hlower : c.isLower = true → c.isDigit = false := Word.isDigit_eq_false_of_isLower
    have hunder : c = '_' → c.isDigit = false := by rintro rfl; rfl
    simp only [Word.isName, all_cons, head?_cons, Option.any_some, Word.isNameChar]
    grind
  rw [namePattern, matchThen_seq, edge_word hw hbefore, matchThen_seq, takes_nameFirst.char]
  simp only [matchThen_seq, matchThen_many]
  rw [tryRounds_tail hw hafter takes_nameRest (fun c => isWordChar_of_isNameChar) (by simp [between])
    (Nat.le_refl _) (fun _ _ => edge_inside), edge_past hw hafter, hname]
  cases c.isLower || c == '_' <;> rfl

/-- The pattern of numbers takes a whole word if it is a number. -/
theorem matchThen_number : numberPattern.matchThen (between before (c :: (w ++ after))) next =
    if Word.isNumber (c :: w) then next (between (before ++ c :: w) after) else none := by
  have hinside : ∀ before rest, endsWord before = true → beginsWord rest = true →
      (Pattern.anchor (.notAfter '_')).matchThen (between before rest) (fun q => edge.matchThen q next) = none := by
    intro before rest h h'
    rw [matchThen_anchor, edge_inside h h', ite_self]
  rw [numberPattern, matchThen_seq, edge_word hw hbefore, matchThen_seq, matchThen_anchor, matchThen_seq,
    matchThen_many_one takes_numberItems]
  simp only [matchThen_seq]
  rw [tryRounds_tail hw hafter takes_numberItems (fun c => isWordChar_of_isNumberChar) (by simp) (Nat.le_refl _)
    hinside, matchThen_anchor, edge_past hw hafter]
  simp only [Anchor.holds, between, Word.isNumber, all_cons, head?_cons, Option.any_some, bne,
    Option.some_beq_some, getLast?_append, getLast?_cons, Option.some_or]
  cases Word.isNumberChar c <;> cases w.all Word.isNumberChar <;> cases c == '_' <;> simp

/-- The pattern of words that are mended takes a whole word or nothing. -/
theorem matchThen_mendable : mendablePattern.matchThen (between before (c :: (w ++ after))) next =
    if (c :: w).all Word.isMendable then next (between (before ++ c :: w) after) else none := by
  rw [mendablePattern, matchThen_seq, edge_word hw hbefore, matchThen_seq, matchThen_many_one takes_mendable,
    tryRounds_tail hw hafter takes_mendable (fun c => Word.isWordChar_of_isMendable) (by simp) (Nat.le_refl _)
      (fun _ _ => edge_inside), edge_past hw hafter, all_cons]
  cases Word.isMendable c <;> rfl

end Words

theorem many_one_none {test : Char → Bool} {body : Pattern} (hbody : Takes test body.matchThen)
    (h : ∀ c ∈ rest.head?, test c = false) : (many 1 body).matchThen (between before rest) next = none := by
  rw [matchThen_many, tryRounds, if_pos Nat.zero_lt_one, hbody.none h]

/-- Where no word begins, no pattern of words matches. -/
theorem word_none (h : ∀ c ∈ rest.head?, Text.isWordChar c = false) :
    namePattern.matchThen (between before rest) next = none ∧
    numberPattern.matchThen (between before rest) next = none ∧
    mendablePattern.matchThen (between before rest) next = none := by
  have hno : ∀ {test : Char → Bool}, (∀ c, test c = true → Text.isWordChar c = true) →
      ∀ c ∈ rest.head?, test c = false := by
    intro test htest c hc
    exact Bool.eq_false_iff.2 fun hpass => Bool.eq_false_iff.1 (h c hc) (htest c hpass)
  simp only [namePattern, numberPattern, mendablePattern, matchThen_seq, matchThen_edge, matchThen_anchor]
  rw [takes_nameFirst.none, many_one_none takes_numberItems, many_one_none takes_mendable]
  · simp
  · exact hno fun c => Word.isWordChar_of_isMendable
  · exact hno fun c => isWordChar_of_isNumberChar
  · exact hno fun c hc => isWordChar_of_isNameChar (by rw [Word.isNameChar, Bool.or_right_comm, hc, Bool.true_or])

/-! ### Other patterns -/

theorem test_char_none {d : Char} (h : rest.head? ≠ some d) : ∀ c ∈ rest.head?, (c == d) = false := by
  intro c hc
  rw [beq_eq_false_iff_ne]
  rintro rfl
  exact h hc

theorem feed_none (h : rest.head? ≠ some '\n') : feedPattern.matchThen (between before rest) next = none := by
  rw [feedPattern, many_one_none (takes_char _) (test_char_none h)]

theorem comment_none (h : rest.head? ≠ some '#') : commentPattern.matchThen (between before rest) next = none := by
  rw [commentPattern, matchThen_seq, (takes_char _).none (test_char_none h)]

section Closed

variable (hnext : ∀ q, next q ≠ none)

include hnext

/-- Line feeds are taken all at once. -/
theorem matchThen_feed (hw : ∀ c ∈ w, c = '\n') (hafter : after.head? ≠ some '\n') :
    feedPattern.matchThen (between before ('\n' :: (w ++ after))) next = next (between (before ++ '\n' :: w) after) := by
  rw [feedPattern, matchThen_many_one (takes_char '\n'), if_pos (beq_self_eq_true _),
    tryRounds_run (takes_char '\n') (fun c hc => beq_iff_eq.2 (hw c hc)) (test_char_none hafter)
      (by rw [length_append]; omega) (Nat.le_refl _) (fun h => absurd h (hnext _)), ← append_cons]

/-- A comment reaches to the end of its line. -/
theorem matchThen_comment (hw : '\n' ∉ w) (hafter : ∀ c ∈ after.head?, c = '\n') :
    commentPattern.matchThen (between before ('#' :: (w ++ after))) next = next (between (before ++ '#' :: w) after) := by
  rw [commentPattern, matchThen_seq, (takes_char '#').char, if_pos (beq_self_eq_true _), matchThen_many,
    tryRounds_run takes_any (fun c hc => bne_iff_ne.2 fun e => hw (e ▸ hc)) (fun c hc => by rw [hafter c hc]; rfl)
      (by simp only [between, length_append]; omega) (Nat.le_refl _) (fun h => absurd h (hnext _)),
    ← append_cons]

omit hnext in
theorem matchThen_spelled (chars : List Char) : (spelled chars).matchThen (between before rest) next =
    if chars.isPrefixOf rest then next (between (before ++ chars) (rest.drop chars.length)) else none := by
  induction chars generalizing before rest with
  | nil => simp [spelled, Pattern.matchThen]
  | cons c chars ih =>
    rw [spelled, matchThen_seq]
    cases rest with
    | nil => exact (takes_char c).stop _ _
    | cons d rest =>
      rw [(takes_char c).char, ih, ← append_cons]
      by_cases hd : d = c
      · simp [hd]
      · simp [hd, Ne.symm hd]

omit hnext in
theorem ofAlternatives_reverse_cons (a : Pattern) {ps : List Pattern} (h : ps ≠ []) :
    Pattern.ofAlternatives (a :: ps).reverse = .alt a (.ofAlternatives ps.reverse) := by
  obtain ⟨last, rest, hps⟩ := exists_cons_of_ne_nil (l := ps.reverse) (by simpa using h)
  rw [reverse_cons, hps]
  simp [Pattern.ofAlternatives]

/-- One of some spellings matches if it comes first. -/
theorem matchThen_spellings {ops : List String} (hne : ops ≠ []) :
    (Pattern.ofAlternatives (ops.map fun op => spelled op.toList).reverse).matchThen (between before rest) next =
      (ops.find? fun op => op.toList.isPrefixOf rest).bind fun op =>
        next (between (before ++ op.toList) (rest.drop op.toList.length)) := by
  induction ops with
  | nil => exact absurd rfl hne
  | cons op ops ih =>
    have hhead := @matchThen_spelled before rest next op.toList
    by_cases hops : ops = []
    · subst hops
      cases hstart : op.toList.isPrefixOf rest <;> simp [Pattern.ofAlternatives, hhead, hstart]
    · rw [map_cons, ofAlternatives_reverse_cons _ (by simpa using hops), Pattern.matchThen, ih hops, hhead]
      cases hstart : op.toList.isPrefixOf rest with
      | false => simp [hstart]
      | true =>
        obtain ⟨q, hq⟩ := Option.ne_none_iff_exists'.1 (hnext (between (before ++ op.toList) (rest.drop op.toList.length)))
        simp [hstart, hq]

end Closed

theorem matchThen_operator (hnext : ∀ q, next q ≠ none) : operatorPattern.matchThen (between before rest) next =
    (operator? rest).bind fun op => next (between (before ++ op.toList) (rest.drop op.toList.length)) :=
  matchThen_spellings hnext (cons_ne_nil _ _)

end Labyrinth.Rules
