import Labyrinth.Proofs.Token.Words
import Labyrinth.Token.Cursor

/-!
# The pieces of a text

There is one way to cut a text into blanks, comments, operators and words from left to right, up to its end or to
a place where none of them begins. The scanner makes one token of each piece that is no blank, and collects one
report for each word that is nearly a name or a number.
-/

namespace Labyrinth

open List

/-! ### Pieces -/

/-- A piece of a text; a word comes with the kind of its token and whether there is something wrong with it. -/
inductive Piece where
  | blank (c : Char)
  | comment (body : List Char)
  | operator (op : String)
  | word (w : List Char) (kind : TokenKind) (flawed : Bool)

namespace Piece

def chars : Piece → List Char
  | blank c => [c]
  | comment body => '#' :: body
  | operator op => op.toList
  | word w _ _ => w

/-- A piece may stand where the text goes on with `after`: comments reach to the end of the line, and words as far as
there are word characters. -/
def Fits (after : List Char) : Piece → Prop
  | blank c => c ∈ [' ', '\t', '\n']
  | comment body => '\n' ∉ body ∧ ∀ c ∈ after.head?, c = '\n'
  | operator op => op ∈ operators
  | word w kind flawed => Word.ReadAs w kind flawed ∧ ∀ c ∈ after.head?, Text.isWordChar c = false

/-- The first character says which sort of piece begins with it. -/
def sortOf (c : Char) : Nat :=
  if c ∈ [' ', '\t', '\n'] then 0 else if c = '#' then 1 else if Text.isWordChar c then 3 else 2

def sort : Piece → Nat
  | blank _ => 0
  | comment _ => 1
  | operator _ => 2
  | word _ _ _ => 3

variable {p q : Piece} {after : List Char}

theorem Fits.head (h : p.Fits after) : ∃ c rest, p.chars = c :: rest ∧ sortOf c = p.sort := by
  cases p with
  | blank c => exact ⟨c, [], rfl, if_pos h⟩
  | comment body => exact ⟨'#', body, rfl, rfl⟩
  | operator op =>
    obtain ⟨hne, hchars⟩ := operators_chars op h
    obtain ⟨c, rest, hrest⟩ := exists_cons_of_ne_nil hne
    obtain ⟨hword, hbreak⟩ := hchars c (by simp [hrest])
    refine ⟨c, rest, hrest, ?_⟩
    simp only [mem_cons, not_mem_nil, or_false, not_or] at hbreak
    simp [sortOf, sort, hbreak, hword]
  | word w kind flawed =>
    obtain ⟨c, rest, rfl⟩ := exists_cons_of_ne_nil h.1.ne_nil
    have hc := h.1.isWordChar c mem_cons_self
    have hbreak := notBreak_of_isWordChar hc
    simp only [mem_cons, not_mem_nil, or_false, not_or] at hbreak
    exact ⟨c, rest, rfl, by simp [sortOf, sort, hbreak, hc]⟩

theorem comment_run {body : List Char} (h : (comment body).Fits after) :
    (body ++ after).takeWhile Scan.staysInLine = body ∧ (body ++ after).dropWhile Scan.staysInLine = after :=
  takeWhile_run (fun c hc => bne_iff_ne.2 fun e => h.1 (e ▸ hc)) fun c hc => by rw [h.2 c hc]; rfl

theorem word_run {w : List Char} {kind : TokenKind} {flawed : Bool} (h : (word w kind flawed).Fits after) :
    (w ++ after).takeWhile Text.isWordChar = w ∧ (w ++ after).dropWhile Text.isWordChar = after :=
  takeWhile_run h.1.isWordChar h.2

/-- At most one piece begins at a place of a text. -/
theorem Fits.unique {after' : List Char} (hp : p.Fits after) (hq : q.Fits after')
    (h : p.chars ++ after = q.chars ++ after') : p = q ∧ after = after' := by
  suffices hpq : p = q by
    subst hpq
    exact ⟨rfl, append_cancel_left h⟩
  have hsort : p.sort = q.sort := by
    obtain ⟨c, rest, hc, hpsort⟩ := hp.head
    obtain ⟨d, rest', hd, hqsort⟩ := hq.head
    rw [hc, hd, cons_append, cons_append, List.cons.injEq] at h
    rw [← hpsort, ← hqsort, h.1]
  cases p <;> cases q <;> try cases hsort
  case blank.blank c d => rw [(List.cons.inj h).1]
  case comment.comment body body' =>
    rw [← (comment_run hp).1, ← (comment_run hq).1, show body ++ after = body' ++ after' from (List.cons.inj h).2]
  case operator.operator op op' =>
    have hop := operator?_append hp after
    rw [show op.toList ++ after = op'.toList ++ after' from h, operator?_append hq] at hop
    rw [Option.some.inj hop]
  case word.word w kind flawed w' kind' flawed' =>
    have hw : w = w' := by
      rw [← (word_run hp).1, ← (word_run hq).1, show w ++ after = w' ++ after' from h]
    subst hw
    obtain ⟨rfl, rfl⟩ := hp.1.unique hq.1
    rfl

end Piece

/-- Some characters are cut into pieces, up to a place where nothing else begins. -/
inductive Cut : List Char → List Piece → List Char → Prop where
  | stop {tail : List Char} : (∀ (p : Piece) (after : List Char), tail = p.chars ++ after → ¬p.Fits after) →
      Cut tail [] tail
  | piece {p : Piece} {after : List Char} {pieces : List Piece} {tail : List Char} :
      p.Fits after → Cut after pieces tail → Cut (p.chars ++ after) (p :: pieces) tail

namespace Cut

variable {text tail tail' : List Char} {pieces pieces' : List Piece}

theorem append_eq (h : Cut text pieces tail) : pieces.flatMap Piece.chars ++ tail = text := by
  induction h with
  | stop => rfl
  | piece _ _ ih => rw [flatMap_cons, append_assoc, ih]

theorem unique (h : Cut text pieces tail) (h' : Cut text pieces' tail') : pieces = pieces' ∧ tail = tail' := by
  induction h generalizing pieces' with
  | @stop tail hnone =>
    generalize htext : tail = text at h'
    cases h' with
    | stop => exact ⟨rfl, htext.symm ▸ rfl⟩
    | piece hp _ => exact absurd hp (hnone _ _ htext)
  | @piece p after pieces tail hp _ ih =>
    generalize htext : p.chars ++ after = text at h'
    cases h' with
    | stop hnone => exact absurd hp (hnone _ _ htext.symm)
    | piece hq hrest =>
      obtain ⟨rfl, rfl⟩ := hp.unique hq htext
      obtain ⟨rfl, rfl⟩ := ih hrest
      exact ⟨rfl, rfl⟩

/-- Every text can be cut. -/
theorem exists_of_text (text : List Char) : ∃ pieces tail, Cut text pieces tail := by
  by_cases h : ∃ (p : Piece) (after : List Char), text = p.chars ++ after ∧ p.Fits after
  · obtain ⟨p, after, rfl, hp⟩ := h
    have : after.length < (p.chars ++ after).length := by
      obtain ⟨c, rest, hc, _⟩ := hp.head
      rw [hc, length_append, length_cons]
      omega
    obtain ⟨pieces, tail, hcut⟩ := exists_of_text after
    exact ⟨_, _, .piece hp hcut⟩
  · exact ⟨[], text, .stop fun p after htext hp => h ⟨p, after, htext, hp⟩⟩
termination_by text.length

end Cut

/-! ### Scanning pieces -/

namespace Scan

variable {tail : List Char}

/-- The number of the line that is open after some characters. -/
def lineAfter (before : List Char) : Nat :=
  before.count '\n' + 1

/-- The kind of the token that a piece becomes, and the complaint about it. -/
def token? : Piece → Option (TokenKind × Option String)
  | .blank _ => none
  | .comment _ => some (.comment, none)
  | .operator _ => some (.op, none)
  | .word w kind flawed => some (kind, if flawed then some (Word.mend w).2 else none)

/-- The step of the scanner at a piece that stands after `before`; there is none at a blank. -/
def step? (table : LineTable) (before : List Char) (p : Piece) : Option ScanStep :=
  (token? p).map fun (kind, complaint) =>
    ⟨tokenAt table kind p.chars (lineAfter before) before.length, complaint⟩

/-- The steps of the scanner over pieces that stand after `before`. -/
def stepsOf (table : LineTable) : (before : List Char) → List Piece → List ScanStep
  | _, [] => []
  | before, p :: rest => (step? table before p).toList ++ stepsOf table (before ++ p.chars) rest

/-- The end of a scan that has come past `before` and finds nothing in `tail`. -/
def endOf (table : LineTable) (before tail : List Char) : ScanEnd :=
  if tail = [] then .complete
  else .illegal (lineAfter before) (table.column (lineAfter before) before.length) (table.text (lineAfter before))

variable (table : LineTable) {p : Piece} {after : List Char}

theorem lineAfter_append (before : List Char) {w : List Char} (h : '\n' ∉ w) :
    lineAfter (before ++ w) = lineAfter before := by
  rw [lineAfter, count_append, count_eq_zero_of_not_mem h]
  rfl

/-- A piece that becomes a token has no line feed. -/
theorem no_feed_of_token? (hp : p.Fits after) {kind : TokenKind × Option String} (hkind : token? p = some kind) :
    '\n' ∉ p.chars := by
  cases p with
  | blank => cases hkind
  | comment body => exact not_mem_cons_of_ne_of_not_mem (by decide) hp.1
  | operator op => exact fun hmem => ((operators_chars op hp).2 _ hmem).2 (by decide)
  | word w => exact fun hmem => absurd (hp.1.isWordChar _ hmem) (by decide)

/-- The scanner makes one step over each piece. -/
theorem scanFrom_piece (hp : p.Fits after) (before : List Char) :
    scanFrom table .regular (lineAfter before) before.length (p.chars ++ after) =
      let onward := scanFrom table .regular (lineAfter (before ++ p.chars)) (before ++ p.chars).length after
      ⟨(step? table before p).toList ++ onward.steps, onward.finish⟩ := by
  cases p with
  | blank c =>
    rw [Piece.chars, singleton_append, scanFrom]
    simp only [Piece.Fits, mem_cons, not_mem_nil, or_false] at hp
    rcases hp with rfl | rfl | rfl <;>
      simp [step?, token?, lineAfter, Piece.chars]
  | comment body =>
    obtain ⟨htake, hdrop⟩ := Piece.comment_run hp
    have hline := lineAfter_append before (no_feed_of_token? hp rfl)
    rw [hline, Piece.chars, cons_append, scanFrom]
    simp [htake, hdrop, step?, token?, push, Piece.chars]
  | operator op =>
    obtain ⟨c, rest, hop, -⟩ := hp.head
    have hbreak := ((operators_chars op hp).2 c (by simp [show op.toList = _ from hop])).2
    simp only [mem_cons, not_mem_nil, or_false, not_or] at hbreak
    have hoperator := operator?_append hp after
    have hline := lineAfter_append before (no_feed_of_token? hp rfl)
    rw [Piece.chars] at hop
    have hlength : op.length = rest.length + 1 := by
      rw [← String.length_toList, hop, length_cons]
    rw [hline, Piece.chars, hop, cons_append, scanFrom]
    rw [hop, cons_append] at hoperator
    simp [hbreak, hoperator, hlength, step?, token?, push, Piece.chars, hop]
  | word w kind flawed =>
    obtain ⟨htake, hdrop⟩ := Piece.word_run hp
    obtain ⟨c, rest, rfl⟩ := exists_cons_of_ne_nil hp.1.ne_nil
    have hc := hp.1.isWordChar c mem_cons_self
    have hbreak := notBreak_of_isWordChar hc
    have hline := lineAfter_append before (no_feed_of_token? hp rfl)
    simp only [mem_cons, not_mem_nil, or_false, not_or] at hbreak
    simp only [cons_append, takeWhile_cons, dropWhile_cons, hc, if_true, List.cons.injEq,
      true_and] at htake hdrop
    rw [hline, Piece.chars, cons_append, scanFrom]
    cases flawed with
    | false =>
      have hkind := Word.kind?_eq_some_iff.2 hp.1
      simp [hbreak, operator?_eq_none (.inl hc), hc, htake, hdrop, hkind, step?, token?, push, Piece.chars]
    | true =>
      obtain ⟨hkind, hall, hmend⟩ := (Word.readAs_true_iff hp.1.ne_nil).1 hp.1
      simp only [hbreak, operator?_eq_none (.inl hc), hc, htake, hdrop, hkind, hall]
      simp [step?, token?, push, Piece.chars, hmend]

section Stop

variable (h : ∀ (p : Piece) (after : List Char), tail = p.chars ++ after → ¬p.Fits after)

include h

/-- Where no piece begins there is neither a blank nor a comment nor an operator. -/
theorem stop_cons {c : Char} {rest : List Char} (htail : tail = c :: rest) :
    c ∉ [' ', '\t', '\n'] ∧ c ≠ '#' ∧ operator? (c :: rest) = none := by
  subst htail
  refine ⟨h (.blank c) rest rfl, ?_, ?_⟩
  · rintro rfl
    obtain ⟨body, after, rfl, hbody, hafter⟩ := exists_run staysInLine rest
    exact h (.comment body) after rfl
      ⟨fun hmem => bne_iff_ne.1 (hbody _ hmem) rfl, fun c hc => bne_eq_false_iff_eq.1 (hafter c hc)⟩
  · rw [Option.eq_none_iff_forall_ne_some]
    intro op hop
    have hstart : op.toList.isPrefixOf (c :: rest) = true := by
      rw [operator?] at hop
      simpa using find?_some hop
    obtain ⟨after, hafter⟩ := isPrefixOf_iff_prefix.1 hstart
    exact h (.operator op) after hafter.symm (mem_of_find?_eq_some hop)

/-- A word where no piece begins is neither read nor mended. -/
theorem stop_word {w : List Char} (htail : tail = w ++ after) (hne : w ≠ [])
    (hafter : ∀ c ∈ after.head?, Text.isWordChar c = false) : Word.kind? w = none ∧ w.all Word.isMendable = false := by
  have hread : ∀ kind flawed, ¬Word.ReadAs w kind flawed :=
    fun kind flawed hread => h (.word w kind flawed) after htail ⟨hread, hafter⟩
  have hkind : Word.kind? w = none :=
    Option.eq_none_iff_forall_ne_some.2 fun kind hkind => hread kind false (Word.kind?_eq_some_iff.1 hkind)
  exact ⟨hkind, Bool.eq_false_iff.2 fun hall => hread _ true ((Word.readAs_true_iff hne).2 ⟨hkind, hall, rfl⟩)⟩

/-- Where nothing begins, the scan ends. -/
theorem scanFrom_stop (before : List Char) :
    scanFrom table .regular (lineAfter before) before.length tail = ⟨[], endOf table before tail⟩ := by
  cases tail with
  | nil => rw [scanFrom]; rfl
  | cons c rest =>
    obtain ⟨hblank, hcomment, hoperator⟩ := stop_cons h rfl
    simp only [mem_cons, not_mem_nil, or_false, not_or] at hblank
    rw [scanFrom]
    simp only [hblank, hcomment, hoperator, or_self, if_false]
    split
    · rfl
    · obtain ⟨w, after, rfl, hw, hafter⟩ := exists_run Text.isWordChar rest
      obtain ⟨hkind, hmend⟩ := stop_word h (w := c :: w) rfl (cons_ne_nil _ _) hafter
      simp only [(takeWhile_run hw hafter).1, hkind, hmend]
      rfl

end Stop

variable {text : List Char} {pieces : List Piece}

/-- What a scan of the pieces behind some characters comes to. -/
def ofPieces (table : LineTable) (before : List Char) (pieces : List Piece) (tail : List Char) : Scan :=
  ⟨stepsOf table before pieces, endOf table (before ++ pieces.flatMap Piece.chars) tail⟩

/-- The whole scan follows the pieces. -/
theorem scanFrom_cut (h : Cut text pieces tail) (before : List Char) :
    scanFrom table .regular (lineAfter before) before.length text = ofPieces table before pieces tail := by
  unfold ofPieces
  induction h generalizing before with
  | stop hnone =>
    rw [scanFrom_stop table hnone, flatMap_nil, append_nil]
    rfl
  | piece hp _ ih =>
    rw [scanFrom_piece table hp, ih, flatMap_cons, append_assoc]
    rfl

theorem ofNormalized_cut (h : Cut text pieces tail) : let table := LineTable.ofText (String.ofList text)
    ofNormalized (String.ofList text) = ⟨stepsOf table [] pieces, endOf table (pieces.flatMap Piece.chars) tail⟩ := by
  rw [ofNormalized, String.toList_ofList]
  exact scanFrom_cut _ h []

end Scan

/-! ### Taking all tokens -/

namespace Cursor

/-- The reports about the words that had to be mended. -/
def reportsOf (file : String) (steps : List ScanStep) : List Diagnostic :=
  steps.filterMap fun step => step.complaint.map fun message =>
    ⟨step.token.loc file, Diagnostic.syntaxKind, message, some step.token.line⟩

/-- The report about a place where nothing begins. -/
def illegalReport (file : String) (line column : Int) (text : String) : Diagnostic :=
  ⟨⟨file, line, column, none, none⟩, Diagnostic.syntaxKind, "illegal combination of characters", some text⟩

theorem drain_token (t : Token) (file : String) (complaint : Option String) (rest : List FeedItem) (c : Cursor) :
    (drain (.token t (complaint.map fun m => (m, file)) :: rest)).run c =
      (drain rest).run { c with
        tokens := c.tokens.push t
        session := { c.session with pending := c.session.pending ++ (reportsOf file [⟨t, complaint⟩]).toArray } } := by
  cases complaint with
  | none => simp [reportsOf]; rfl
  | some message => rw [reportsOf, filterMap_cons]; simp; rfl

theorem takeAll_unopened (session : Session) (text file path : String) :
    takeAll.run { session, feed := .unopened text file, path } =
      let lines := Text.splitLines (Text.normalizeBreaks text)
      let items := Feed.itemsOfScan file (Scan.ofNormalized (Text.normalizeBreaks text)) [Scan.endToken lines]
      (drain items).run { session := { session with lines }, feed := .items items, path } :=
  rfl

theorem drain_last (t : Token) (c : Cursor) :
    (drain [.token t none]).run c = (.ok (), { c with tokens := c.tokens.push t, feed := .items [] }) :=
  rfl

theorem drain_illegal (file : String) (line column : Int) (text : String) (c : Cursor) :
    (drain [.illegal ⟨file, line, column, none, none⟩ text]).run c = (.error (.exit 1), { c with
      session := { c.session with out := c.session.out ++ ((illegalReport file line column text).text ++ "\n") }
      feed := .items [] }) :=
  rfl

/-- Taking tokens takes them all, in order, and collects the reports about them. -/
theorem drain_steps (file : String) (steps : List ScanStep) (rest : List FeedItem) (c : Cursor) :
    (drain (steps.map (fun step => FeedItem.token step.token (step.complaint.map fun m => (m, file))) ++ rest)).run c =
      (drain rest).run { c with
        tokens := c.tokens ++ (steps.map ScanStep.token).toArray
        session := { c.session with pending := c.session.pending ++ (reportsOf file steps).toArray } } := by
  induction steps generalizing c with
  | nil => simp [reportsOf]
  | cons step steps ih =>
    have hreports : reportsOf file (step :: steps) = reportsOf file [step] ++ reportsOf file steps := by
      rw [reportsOf, reportsOf, reportsOf, ← filterMap_append, singleton_append]
    rw [map_cons, cons_append, drain_token, ih, hreports]
    simp [Array.append_assoc]

/-- What taking all tokens of a text comes to, by the pieces of the text. -/
theorem takeAll_cut {text : String} {pieces : List Piece} {tail : List Char}
    (hcut : Cut (Text.normalizeChars text.toList) pieces tail) (session : Session) (file path : String) :
    let table := Scan.LineTable.ofText (String.ofList (Text.normalizeChars text.toList))
    let steps := Scan.stepsOf table [] pieces
    let opened := { session with
      lines := table.lines
      pending := session.pending ++ (reportsOf file steps).toArray }
    takeAll.run { session, feed := .unopened text file, path } =
      if tail = [] then
        (.ok (), {
          session := opened
          feed := .items []
          tokens := (steps.map ScanStep.token ++ [Scan.endToken table.lines]).toArray
          path })
      else
        let scanned := pieces.flatMap Piece.chars
        let line := Scan.lineAfter scanned
        let report := illegalReport file line (table.column line scanned.length) (table.text line)
        (.error (.exit 1), {
          session := { opened with out := session.out ++ (report.text ++ "\n") }
          feed := .items []
          tokens := (steps.map ScanStep.token).toArray
          path }) := by
  simp only [takeAll_unopened, Text.normalizeBreaks, Scan.ofNormalized_cut hcut, Feed.itemsOfScan, drain_steps]
  by_cases htail : tail = []
  · simp only [htail, Scan.endOf, if_true, map_cons, map_nil, drain_last, Scan.LineTable.ofText]
    simp
  · simp only [htail, Scan.endOf, if_false, drain_illegal, Scan.LineTable.ofText]
    simp

end Cursor

/-- The tokens spell what is left of a text without its blanks. -/
theorem Scan.stepsOf_text (table : LineTable) (before : List Char) (pieces : List Piece) :
    (stepsOf table before pieces).flatMap (fun step => step.token.text.toList) =
      (pieces.filter fun p => p.sort ≠ 0).flatMap Piece.chars := by
  induction pieces generalizing before with
  | nil => rfl
  | cons p rest ih =>
    rw [stepsOf, flatMap_append, ih]
    cases p <;> simp [step?, token?, tokenAt, Piece.sort, Piece.chars]

end Labyrinth
