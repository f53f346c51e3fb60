import Mathlib
import Labyrinth.Proofs.Token.Segmentation
import Labyrinth.Proofs.Token.Steady

/-!
# Where tokens stand

Tokens come in the order of the text and do not overlap. Where line feeds are the only breaks of a text, a token stands
on the line that is open before it, right behind the characters of that line that come before it.
-/

namespace Labyrinth

open List

/-! ### Lines -/

namespace Text

/-- Cutting at a character that is not the first of two that end a line together. -/
theorem splitLinesFrom_cons (current : List Char) (c : Char) (rest : List Char)
    (h : ∀ rest', c = '\r' → rest ≠ '\n' :: rest') : splitLinesFrom current (c :: rest) =
      if isLineBreak c then current.reverse :: splitLinesFrom [] rest else splitLinesFrom (c :: current) rest := by
  rw [splitLinesFrom.eq_def]
  split
  · next heq => cases heq
  · next heq =>
    cases heq
    exact absurd rfl (h _ rfl)
  · next heq =>
    cases heq
    rfl

theorem splitLinesFrom_feed (current rest : List Char) :
    splitLinesFrom current ('\n' :: rest) = current.reverse :: splitLinesFrom [] rest := rfl

theorem splitLinesFrom_pair (current rest : List Char) :
    splitLinesFrom current ('\r' :: '\n' :: rest) = current.reverse :: splitLinesFrom [] rest := rfl

/-- Breaks that are written in another way end the same lines. -/
theorem splitLinesFrom_normalizeChars (current chars : List Char) :
    splitLinesFrom current (normalizeChars chars) = splitLinesFrom current chars := by
  fun_induction normalizeChars chars generalizing current with
  | case1 => rfl
  | case2 rest ih => rw [splitLinesFrom_feed, splitLinesFrom_pair, ih]
  | case3 c rest hpair ih =>
    by_cases hc : c = '\r'
    · subst hc
      rw [if_pos rfl, splitLinesFrom_feed, splitLinesFrom_cons current '\r' rest hpair, if_pos (by decide), ih]
    · rw [if_neg hc, splitLinesFrom_cons _ _ _ fun _ h => absurd h hc, splitLinesFrom_cons _ _ _ fun _ h => absurd h hc,
        ih, ih]

theorem splitLines_normalizeBreaks (text : String) : splitLines (normalizeBreaks text) = splitLines text := by
  rw [splitLines, splitLines, normalizeBreaks, String.toList_ofList, splitLinesFrom_normalizeChars]

/-- An open line goes on in the text behind it. -/
theorem splitLinesFrom_open (current chars : List Char) (h : current ≠ []) :
    ∃ onward others, splitLinesFrom current chars = (current.reverse ++ onward) :: others := by
  fun_induction splitLinesFrom current chars with
  | case1 current hempty => simp_all
  | case2 current hempty => exact ⟨[], [], by simp⟩
  | case3 current rest => exact ⟨[], _, by rw [append_nil]⟩
  | case4 current c rest hbreak => exact ⟨[], _, by rw [append_nil]⟩
  | case5 current c rest _ _ ih =>
    obtain ⟨onward, others, heq⟩ := ih (cons_ne_nil c current)
    exact ⟨c :: onward, others, by simpa using heq⟩

/-- The characters of the line that is open after some text, last first. -/
def openLine (before : List Char) : List Char :=
  before.reverse.takeWhile Scan.staysInLine

theorem openLine_append (before : List Char) {w : List Char} (h : '\n' ∉ w) :
    openLine (before ++ w) = w.reverse ++ openLine before := by
  rw [openLine, reverse_append, takeWhile_append_of_pos, openLine]
  intro c hc
  exact bne_iff_ne.2 fun hfeed => h (hfeed ▸ mem_reverse.1 hc)

/-- Line feeds are the only breaks among some characters. -/
def BreaksByFeed (chars : List Char) : Prop :=
  ∀ c ∈ chars, isLineBreak c = true → c = '\n'

instance (chars : List Char) : Decidable (BreaksByFeed chars) :=
  decidableBAll (fun c => isLineBreak c = true → c = '\n') chars

/-- The lines that are closed before a place of a text come first, and the open line goes on there. -/
theorem splitLinesFrom_append {before : List Char} (hbreaks : BreaksByFeed before) (after : List Char) :
    ∃ closed, splitLinesFrom [] (before ++ after) = closed ++ splitLinesFrom (openLine before) after ∧
      closed.length = before.count '\n' ∧
      (closed.map fun line => line.length + 1).sum + (openLine before).length = before.length := by
  induction before using reverseRecOn generalizing after with
  | nil => exact ⟨[], rfl, rfl, rfl⟩
  | append_singleton before c ih =>
    obtain ⟨closed, hsplit, hlength, hsum⟩ := ih (fun d hd => hbreaks d (mem_append_left _ hd)) (c :: after)
    have hc := hbreaks c (mem_append_right _ mem_cons_self)
    have hnoReturn : ∀ rest, c = '\r' → after ≠ '\n' :: rest := by
      rintro _ rfl
      cases hc rfl
    rw [append_assoc, singleton_append, hsplit, splitLinesFrom_cons _ _ _ hnoReturn]
    by_cases hfeed : c = '\n'
    · subst hfeed
      have hopen : openLine (before ++ ['\n']) = [] := by simp [openLine, Scan.staysInLine]
      refine ⟨closed ++ [(openLine before).reverse], ?_, by simp [hlength], ?_⟩
      · rw [if_pos (by decide), hopen, append_assoc, singleton_append]
      · simp only [hopen, map_append, map_cons, map_nil, sum_append, sum_singleton,
          length_reverse, length_nil, length_append, length_singleton]
        omega
    · have hopen : openLine (before ++ [c]) = c :: openLine before := openLine_append before (by simp [Ne.symm hfeed])
      refine ⟨closed, by rw [if_neg (mt hc hfeed), hopen], by simp [hlength, hfeed], ?_⟩
      rw [hopen, length_cons, length_append, length_singleton]
      omega

/-- A token of characters without a break stands on the line that is open before it, right behind the characters of that
line that come before. -/
theorem splitLinesFrom_token {before w : List Char} (hbreaks : BreaksByFeed (before ++ w)) (hne : w ≠ [])
    (hw : '\n' ∉ w) (after : List Char) : ∃ closed onward others,
      splitLinesFrom [] (before ++ w ++ after) = closed ++ ((openLine before).reverse ++ w ++ onward) :: others ∧
        closed.length = before.count '\n' ∧
        (closed.map fun line => line.length + 1).sum + (openLine before).length = before.length := by
  obtain ⟨closed, hsplit, hlength, hsum⟩ := splitLinesFrom_append hbreaks after
  obtain ⟨onward, others, hopen⟩ := splitLinesFrom_open (openLine (before ++ w)) after
    (by rw [openLine_append before hw]; simp [hne])
  refine ⟨closed, onward, others, ?_, ?_, ?_⟩
  · rw [hsplit, hopen, openLine_append before hw, reverse_append, List.reverse_reverse]
  · rw [hlength, count_append, count_eq_zero.2 hw, Nat.add_zero]
  · rw [openLine_append before hw, length_append, length_append, length_reverse] at hsum
    omega

/-- A line feed ends a line. -/
theorem length_splitLinesFrom_cons (current : List Char) (c : Char) (rest : List Char) :
    ∃ current', [c].count '\n' + (splitLinesFrom current' rest).length ≤ (splitLinesFrom current (c :: rest)).length := by
  by_cases hpair : ∃ rest', c = '\r' ∧ rest = '\n' :: rest'
  · obtain ⟨rest', rfl, rfl⟩ := hpair
    refine ⟨[], ?_⟩
    rw [splitLinesFrom_pair, splitLinesFrom_feed, length_cons, length_cons]
    simp
  · rw [splitLinesFrom_cons current c rest fun rest' hc hrest => hpair ⟨rest', hc, hrest⟩]
    by_cases hbreak : isLineBreak c = true
    · rw [if_pos hbreak, length_cons]
      have hle : [c].count '\n' ≤ 1 := count_le_length
      exact ⟨[], by omega⟩
    · rw [if_neg hbreak]
      have hne : c ≠ '\n' := by
        rintro rfl
        exact hbreak rfl
      exact ⟨c :: current, by simp [hne]⟩

/-- A text has at least one line unless it is empty. -/
theorem splitLinesFrom_ne_nil (current : List Char) (chars : List Char) (h : current ≠ [] ∨ chars ≠ []) :
    splitLinesFrom current chars ≠ [] := by
  fun_induction splitLinesFrom current chars with
  | case1 current hempty => simp_all
  | case2 => exact cons_ne_nil _ _
  | case3 => exact cons_ne_nil _ _
  | case4 => exact cons_ne_nil _ _
  | case5 current c rest _ _ ih => exact ih (.inl (cons_ne_nil _ _))

/-- Something that comes after some line feeds is not on an earlier line. -/
theorem count_lt_length_splitLinesFrom (current before after : List Char) (hafter : after ≠ []) :
    before.count '\n' < (splitLinesFrom current (before ++ after)).length := by
  induction before generalizing current with
  | nil => exact length_pos_iff.2 (splitLinesFrom_ne_nil current after (.inr hafter))
  | cons c before ih =>
    obtain ⟨current', hle⟩ := length_splitLinesFrom_cons current c (before ++ after)
    have hcount : (c :: before).count '\n' = [c].count '\n' + before.count '\n' := @count_append _ _ '\n' [c] before
    have hrest := ih current'
    rw [cons_append, hcount]
    omega

/-- A line of a text, by its number. -/
def HasLine (text : String) (line : Int) : Prop :=
  1 ≤ line ∧ line ≤ (splitLines text).size

end Text

/-! ### The starts of lines -/

namespace Scan

/-- The starts of lines, each one past the end of the line before. -/
def startsFrom (starts : Array Nat) (lines : List String) : Array Nat :=
  lines.foldl (fun starts line => starts.push (starts.back?.getD 0 + line.length + 1)) starts

theorem startsFrom_getD (lines : List String) (starts : Array Nat) {k : Nat} (hk : k < starts.size) :
    (startsFrom starts lines).getD k 0 = starts.getD k 0 := by
  induction lines generalizing starts with
  | nil => rfl
  | cons line lines ih =>
    rw [startsFrom, foldl_cons, ← startsFrom, ih _ (by rw [Array.size_push]; omega)]
    simp [Array.getD_eq_getD_getElem?, Array.getElem?_push_lt, hk]

theorem starts_ofText (text : String) :
    (LineTable.ofText text).starts = startsFrom #[0] (Text.splitLines text).toList := by
  rw [LineTable.ofText, startsFrom, Array.foldl_toList]

/-- A line starts behind all lines before it and their ends. -/
theorem startsFrom_append (closed others : List String) (starts : Array Nat) (last : Nat) :
    (startsFrom (starts.push last) (closed ++ others)).getD (starts.size + closed.length) 0 =
      last + (closed.map fun line => line.length + 1).sum := by
  induction closed generalizing starts last with
  | nil =>
    rw [nil_append, length_nil, Nat.add_zero, startsFrom_getD _ _ (by simp)]
    simp
  | cons line closed ih =>
    rw [cons_append, startsFrom, foldl_cons, ← startsFrom, Array.back?_push, Option.getD_some, length_cons,
      show starts.size + (closed.length + 1) = (starts.push last).size + closed.length by rw [Array.size_push]; omega,
      ih, map_cons, sum_cons]
    omega

end Scan

/-! ### Order -/

namespace Scan

variable {table : LineTable} {before text tail : List Char} {pieces : List Piece}

/-- The place that the scanner gives to what stands after some characters. -/
def placeAfter (table : LineTable) (before : List Char) : Int × Int :=
  (lineAfter before, table.column (lineAfter before) before.length)

/-- Places come in the order of the text. -/
theorem placeAfter_le (table : LineTable) (before more : List Char) :
    toLex (placeAfter table before) ≤ toLex (placeAfter table (before ++ more)) := by
  rw [Prod.Lex.le_iff]
  simp only [placeAfter, lineAfter, count_append, ofLex_toLex]
  by_cases hfeed : more.count '\n' = 0
  · refine .inr ⟨by rw [hfeed, Nat.add_zero], ?_⟩
    simp only [hfeed, Nat.add_zero, LineTable.column, length_append]
    omega
  · exact .inl (by omega)

/-- Characters without a line feed end as far behind their place as there are characters. -/
theorem placeAfter_append (table : LineTable) (before : List Char) {w : List Char} (h : '\n' ∉ w) :
    placeAfter table (before ++ w) = ((placeAfter table before).1, (placeAfter table before).2 + w.length) := by
  rw [placeAfter, lineAfter_append before h, LineTable.column, length_append, placeAfter, LineTable.column]
  simp only [Prod.mk.injEq, true_and]
  omega

/-- A step of the scanner at characters of the text, and at the place where they stand. -/
structure Finds (table : LineTable) (before w : List Char) (t : Token) : Prop where
  text : t.text = String.ofList w
  ne_nil : w ≠ []
  no_feed : '\n' ∉ w
  start : t.start = placeAfter table before
  stop : t.stop = placeAfter table (before ++ w)
  line : t.line = table.text (lineAfter before)

theorem Finds.start_lt_stop {w : List Char} {t : Token} (h : Finds table before w t) : toLex t.start < toLex t.stop := by
  rw [h.start, h.stop, placeAfter_append table before h.no_feed, Prod.Lex.lt_iff]
  have hpos : 0 < w.length := length_pos_iff.2 h.ne_nil
  exact .inr ⟨rfl, by simp only [ofLex_toLex]; omega⟩

/-- Every step of the scanner finds characters of the text, all behind those of the steps before. -/
theorem stepsOf_finds (table : LineTable) (h : Cut text pieces tail) (before : List Char) :
    (∀ step ∈ stepsOf table before pieces, ∃ skipped w after, text = skipped ++ w ++ after ∧
      Finds table (before ++ skipped) w step.token) ∧
    (stepsOf table before pieces).Pairwise fun step later => toLex step.token.stop ≤ toLex later.token.start := by
  induction h generalizing before with
  | stop => exact ⟨fun _ hstep => absurd hstep not_mem_nil, .nil⟩
  | @piece p after pieces tail hp _ ih =>
    obtain ⟨hfinds, hordered⟩ := ih (before ++ p.chars)
    have hlater : ∀ step ∈ stepsOf table (before ++ p.chars) pieces, ∃ skipped w rest,
        p.chars ++ after = skipped ++ w ++ rest ∧ Finds table (before ++ skipped) w step.token ∧
          toLex (placeAfter table (before ++ p.chars)) ≤ toLex step.token.start := by
      intro step hstep
      obtain ⟨skipped, w, rest, htext, hfind⟩ := hfinds step hstep
      refine ⟨p.chars ++ skipped, w, rest, by rw [htext]; simp, by rw [← append_assoc]; exact hfind, ?_⟩
      rw [hfind.start]
      exact placeAfter_le _ _ _
    rw [stepsOf]
    cases hkind : token? p with
    | none =>
      simp only [step?, hkind, Option.map_none, Option.toList_none, nil_append]
      refine ⟨fun step hstep => ?_, hordered⟩
      obtain ⟨skipped, w, rest, htext, hfind, -⟩ := hlater step hstep
      exact ⟨skipped, w, rest, htext, hfind⟩
    | some kind =>
      have hfeed := no_feed_of_token? hp hkind
      have hfind : Finds table before p.chars (tokenAt table kind.1 p.chars (lineAfter before) before.length) := by
        obtain ⟨c, rest, hc, -⟩ := hp.head
        refine ⟨rfl, by simp [hc], hfeed, rfl, ?_, rfl⟩
        rw [placeAfter_append table before hfeed]
        rfl
      simp only [step?, hkind, Option.map_some, Option.toList_some, singleton_append]
      refine ⟨forall_mem_cons.2 ⟨⟨[], p.chars, after, rfl, by simpa using hfind⟩, fun step hstep => ?_⟩,
        pairwise_cons.2 ⟨fun step hstep => ?_, hordered⟩⟩
      · obtain ⟨skipped, w, rest, htext, hfind, -⟩ := hlater step hstep
        exact ⟨skipped, w, rest, htext, hfind⟩
      · obtain ⟨_, _, _, _, _, hle⟩ := hlater step hstep
        rw [hfind.stop]
        exact hle

end Scan

/-! ### Tokens on lines -/

namespace Scan

variable {chars before w after : List Char} {t : Token}

/-- Where a token stands in a text: behind some of its characters, on the line that these characters leave open. -/
structure Stands (chars : List Char) (t : Token) (before left right after : List Char) : Prop where
  text : chars = before ++ t.text.toList ++ after
  open_left : left <:+ before
  line : t.line.toList = left ++ t.text.toList ++ right
  line_number : (Text.splitLines (String.ofList chars))[before.count '\n']? = some t.line
  start_line : t.start.1 = before.count '\n' + 1
  start_column : t.start.2 = left.length
  stop_line : t.stop.1 = t.start.1
  stop_column : t.stop.2 = t.start.2 + t.text.length

theorem Finds.stands (hbreaks : Text.BreaksByFeed (before ++ w ++ after))
    (h : Finds (LineTable.ofText (String.ofList (before ++ w ++ after))) before w t) :
    ∃ left right, Stands (before ++ w ++ after) t before left right after := by
  obtain ⟨closed, onward, others, hsplit, hlength, hsum⟩ :=
    Text.splitLinesFrom_token (fun c hc => hbreaks c (mem_append_left _ hc)) h.ne_nil h.no_feed after
  have hlines : Text.splitLines (String.ofList (before ++ w ++ after)) = (closed.map String.ofList ++
      String.ofList ((Text.openLine before).reverse ++ w ++ onward) :: others.map String.ofList).toArray := by
    rw [Text.splitLines, String.toList_ofList, hsplit, map_append, map_cons]
  have hline : (Text.splitLines (String.ofList (before ++ w ++ after)))[before.count '\n']? =
      some (String.ofList ((Text.openLine before).reverse ++ w ++ onward)) := by
    rw [hlines, ← hlength]
    simp
  have htext : t.line = String.ofList ((Text.openLine before).reverse ++ w ++ onward) := by
    rw [h.line, LineTable.text, lineAfter, Array.getD_eq_getD_getElem?, Nat.add_sub_cancel, LineTable.ofText, hline,
      Option.getD_some]
  have hcolumn : t.start.2 = (Text.openLine before).reverse.length := by
    have hstarts := startsFrom_append (closed.map String.ofList)
      (String.ofList ((Text.openLine before).reverse ++ w ++ onward) :: others.map String.ofList) #[] 0
    have hlengths : ((closed.map String.ofList).map fun line => line.length + 1).sum +
        (Text.openLine before).reverse.length = before.length := by
      rw [← hsum, map_map, length_reverse]
      simp [Function.comp_def]
    rw [length_map, Array.size_empty, Nat.zero_add, Nat.zero_add] at hstarts
    rw [h.start, placeAfter, LineTable.column, starts_ofText, hlines, lineAfter, ← hlength, Nat.add_sub_cancel]
    simp only [show #[0] = (#[] : Array Nat).push 0 from rfl, hstarts]
    omega
  have hstop : t.stop = (t.start.1, t.start.2 + w.length) := by
    rw [h.stop, placeAfter_append _ _ h.no_feed, h.start]
  have hw : t.text.toList = w := by rw [h.text, String.toList_ofList]
  refine ⟨(Text.openLine before).reverse, onward, by rw [hw], ?_, ?_, ?_, ?_, hcolumn, ?_, ?_⟩
  · rw [← List.reverse_reverse before, reverse_suffix, Text.openLine, List.reverse_reverse]
    exact takeWhile_prefix _
  · rw [htext, hw, String.toList_ofList]
  · rw [htext, hline]
  · rw [h.start]
    simp [placeAfter, lineAfter]
  · rw [hstop]
  · rw [hstop, ← hw, String.length_toList]

end Scan

/-- Every token that a scan finds stands on a line of the text. -/
theorem Scan.hasLine_of_significant {text : String} {t : Token} (ht : t ∈ (ofNormalized text).significant) :
    Text.HasLine text t.start.1 := by
  obtain ⟨step, hstep, rfl⟩ := mem_map.1 (mem_of_mem_filter ht)
  obtain ⟨pieces, tail, hcut⟩ := Cut.exists_of_text text.toList
  have hscan := ofNormalized_cut hcut
  rw [String.ofList_toList] at hscan
  rw [hscan] at hstep
  obtain ⟨before, w, after, htext, hfind⟩ := (stepsOf_finds _ hcut []).1 step hstep
  have hlt := Text.count_lt_length_splitLinesFrom [] before (w ++ after) (by simp [hfind.ne_nil])
  rw [← append_assoc, ← htext] at hlt
  rw [hfind.start, Text.HasLine, Text.splitLines, placeAfter, lineAfter]
  simp only [size_toArray, length_map, nil_append]
  omega

/-- So reports on it can be made. -/
theorem Scan.isSome_item?_of_significant {text : String} {t : Token} (ht : t ∈ (ofNormalized text).significant) :
    t.kind.isRegular = true ∧ (Text.item? (Text.splitLines text) (t.start.1 - 1)).isSome = true := by
  obtain ⟨hfirst, hlast⟩ := hasLine_of_significant ht
  obtain ⟨line, hline⟩ := Text.exists_item? hfirst hlast
  obtain ⟨step, hstep, rfl⟩ := mem_map.1 (mem_of_mem_filter ht)
  have hkind := (scanFrom_ordinary _ _ _ _ _ step hstep).resolve_right (by simpa using of_mem_filter ht)
  exact ⟨hkind.1, by rw [hline]; rfl⟩

/-- Every token of a text stands behind the characters that come before it, tokens come one after the other, and the end
of a text that is scanned to its end is a token on a line of its own. -/
theorem Cursor.takeAll_places (session : Session) (text file : String)
    (hbreaks : Text.BreaksByFeed (Text.normalizeChars text.toList)) :
    let chars := Text.normalizeChars text.toList
    let lines := Text.splitLines (String.ofList chars)
    let ending := takeAll.run { session, feed := .unopened text file }
    ∃ found, ending.2.tokens.toList = found ++
        (if ending.1 = .ok () then [⟨.endMarker, "", (lines.size + 1, 0), (lines.size + 1, 0), ""⟩] else []) ∧
      (∀ t ∈ found, ∃ before left right after, Scan.Stands chars t before left right after) ∧
      (∀ t ∈ found, toLex t.start < toLex t.stop) ∧
      found.Pairwise (fun t later => toLex t.stop ≤ toLex later.start) := by
  obtain ⟨pieces, tail, hcut⟩ := Cut.exists_of_text (Text.normalizeChars text.toList)
  obtain ⟨hfinds, hordered⟩ := Scan.stepsOf_finds
    (Scan.LineTable.ofText (String.ofList (Text.normalizeChars text.toList))) hcut []
  have htokens : (takeAll.run { session, feed := .unopened text file }).2.tokens.toList =
      ((Scan.stepsOf (Scan.LineTable.ofText (String.ofList (Text.normalizeChars text.toList))) [] pieces).map
        ScanStep.token) ++ (if (takeAll.run { session, feed := .unopened text file }).1 = .ok () then
          [Scan.endToken (Text.splitLines (String.ofList (Text.normalizeChars text.toList)))] else []) := by
    rw [takeAll_cut hcut session file ""]
    by_cases htail : tail = []
    · simp [htail, Scan.LineTable.ofText]
    · simp [htail]
  refine ⟨_, htokens, ?_, ?_, pairwise_map.2 hordered⟩
  · intro t ht
    obtain ⟨step, hstep, rfl⟩ := mem_map.1 ht
    obtain ⟨before, w, after, hchars, hfind⟩ := hfinds step hstep
    rw [nil_append] at hfind
    rw [hchars] at hbreaks hfind ⊢
    obtain ⟨left, right, hstands⟩ := hfind.stands hbreaks
    exact ⟨before, left, right, after, hstands⟩
  · intro t ht
    obtain ⟨step, hstep, rfl⟩ := mem_map.1 ht
    obtain ⟨_, _, _, _, hfind⟩ := hfinds step hstep
    exact hfind.start_lt_stop

theorem Cursor.takeAll_places_mended :
    Text.BreaksByFeed (Text.normalizeChars "tiny a_B # c\r\n  << 0x.\r".toList) ∧
      ∀ t ∈ (takeAll.run { feed := .unopened "tiny a_B # c\r\n  << 0x.\r" "" }).2.tokens.toList,
        t.kind = .endMarker ∨ ∃ before left right after,
          Scan.Stands (Text.normalizeChars "tiny a_B # c\r\n  << 0x.\r".toList) t before left right after := by
  have hbreaks : Text.BreaksByFeed (Text.normalizeChars "tiny a_B # c\r\n  << 0x.\r".toList) := by decide
  obtain ⟨found, htokens, hstands, -⟩ := takeAll_places {} "tiny a_B # c\r\n  << 0x.\r" "" hbreaks
  refine ⟨hbreaks, fun t ht => ?_⟩
  rw [htokens] at ht
  rcases mem_append.1 ht with ht | ht
  · exact .inr (hstands t ht)
  · split at ht
    · exact .inl (by rw [mem_singleton.1 ht])
    · cases ht

end Labyrinth
