import Labyrinth.Proofs.Endings
import Labyrinth.Proofs.Token.Offers

/-!
# Cursors that do not get stuck

A cursor finds the token at its place as long as there is one, can go back to every place it has been at, and reports
with the lines of the text it was opened on.
-/

namespace Labyrinth

open List Labyrinth.Task

/-- What never stops early comes to a result. -/
theorem Task.Ends.exists_yields {σ α : Type} {act : Task σ α} {s : σ} {Q : α → σ → Prop}
    (h : Ends act s Q fun _ _ => False) : ∃ a s', Yields act s a s' ∧ Q a s' := by
  rcases hrun : act.run s with ⟨stop | a, s'⟩
  · exact (h.of_stops hrun).elim
  · exact ⟨a, s', hrun, h.of_yields hrun⟩

namespace Cursor

variable {tokens : List Token} {c c' : Cursor} {lines : Array String}

/-! ### Finding tokens -/

/-- A complaint can always be made, as its line comes along. -/
theorem ends_reportComplaint (t : Token) (complaint : Option (String × String)) {session : Session}
    {Q : Unit → Session → Prop} {E : Stop → Session → Prop} (h : ∀ session', Q () session') :
    Ends (reportComplaint t complaint) session Q E := by
  cases complaint with
  | none => exact ends_pure.2 (h session)
  | some entry =>
    simp only [reportComplaint, Session.report, ends_bind, ends_get, ends_ofExcept, ends_modify]
    exact ⟨fun _ _ => h _, nofun⟩

theorem ends_takeFrom {items : List FeedItem} (hne : offered items ≠ []) (ho : Ordinary items) (c : Cursor) :
    Ends (takeFrom items) c (fun _ _ => True) fun _ _ => False := by
  induction items generalizing c with
  | nil => exact absurd rfl hne
  | cons item rest ih =>
    cases item with
    | illegal loc line => exact absurd rfl hne
    | token u complaint =>
      have hu : u.kind.isRegular = true ∨ u.kind = .comment := ho u complaint mem_cons_self
      simp only [takeFrom, ends_bind, ends_modify, ends_inSession, ends_get]
      refine ends_reportComplaint u complaint fun session => ?_
      split
      · next hskip =>
        rw [offered, if_pos ((skips_iff hu).1 hskip)] at hne
        exact ih hne (fun t complaint ht => ho t complaint (mem_cons_of_mem _ ht)) _
      · simp only [ends_bind, ends_modify, ends_pure]

/-- There is a token at the cursor before the end. -/
theorem Offers.exists_peek (h : Offers tokens c) (hi : c.index < tokens.length) :
    ∃ t c', Yields Cursor.peek c t c' := by
  simp only [Cursor.peek, yields_bind, yields_get]
  cases hget : c.tokens[c.index]? with
  | some t => exact ⟨t, c, c, c, ⟨rfl, rfl⟩, by rw [hget]; exact yields_pure.2 ⟨rfl, rfl⟩⟩
  | none =>
    have hend : c.index = c.tokens.size := by
      have := Array.getElem?_eq_none_iff.1 hget
      have := h.index_le
      omega
    have hne : offered c.upcoming ≠ [] := by
      intro hnil
      have hall := congrArg length h.all
      rw [hnil, append_nil, Array.length_toList] at hall
      omega
    obtain ⟨c₁, hopen, hfeed, -⟩ := openFeed_yields c
    obtain ⟨t, c₂, htake, -⟩ := (ends_takeFrom hne h.ordinary c₁).exists_yields
    refine ⟨t, c₂, c, c, ⟨rfl, rfl⟩, ?_⟩
    rw [hget]
    simp only [yields_bind, yields_get]
    refine ⟨(), c₁, hopen, c₁, c₁, ⟨rfl, rfl⟩, ?_⟩
    rw [hfeed]
    exact htake

theorem Offers.exists_next (h : Offers tokens c) (hi : c.index < tokens.length) :
    ∃ t c', Yields Cursor.next c t c' := by
  obtain ⟨t, c₁, hpeek⟩ := h.exists_peek hi
  obtain ⟨-, ho, -⟩ := h.peek hpeek
  refine ⟨t, { c₁ with index := c₁.index + 1 }, ?_⟩
  simp only [Cursor.next, yields_bind, yields_get, yields_modify]
  refine ⟨_, _, ⟨rfl, rfl⟩, _, _, ⟨rfl, rfl⟩, t, c₁, hpeek, (), _, rfl, _, _, ⟨rfl, rfl⟩, ?_⟩
  simp [ho.quiet]

/-- The cursor can go to any place up to the tokens taken. -/
theorem Offers.reset_yields (h : Offers tokens c) {i : Nat} (hi : i ≤ c.tokens.size) :
    Yields (Cursor.reset i) c () { c with index := i } := by
  by_cases heq : i = c.index
  · simp [Cursor.reset, heq]
  · simp [Cursor.reset, heq, hi, h.quiet]

/-- Past the start there is a last token of weight. -/
theorem Offers.exists_lastPassed (h : Offers tokens c) (hregular : ∀ t ∈ tokens, t.kind.isRegular = true)
    (hi : 0 < c.index) : ∃ t, Yields Cursor.lastPassed c t c := by
  have hall : ∀ i < c.index, ∃ t, c.tokens[i]? = some t ∧ t.kind.isRegular = true := by
    intro i hlt
    have hlt' : i < c.tokens.size := Nat.lt_of_lt_of_le hlt h.index_le
    have hget := h.getElem?_eq hlt'
    rw [Array.getElem?_eq_getElem hlt'] at hget ⊢
    exact ⟨_, rfl, hregular _ (mem_of_getElem? hget)⟩
  obtain ⟨t, ht⟩ := lastOfWeight_ok none hall (.inl hi)
  refine ⟨t, ?_⟩
  simp only [Cursor.lastPassed, yields_bind, yields_get, yields_ofExcept]
  exact ⟨c, c, ⟨rfl, rfl⟩, some t, c, ⟨ht, rfl⟩, by simp⟩

/-! ### The lines of reports -/

/-- The cursor reports with given lines as soon as it took a token. -/
structure Steady (lines : Array String) (c : Cursor) : Prop where
  lines : c.reportLines = lines
  opened : 0 < c.tokens.size → ∃ rest, c.feed = .items rest

theorem Steady.session_lines (h : Steady lines c) (hsize : 0 < c.tokens.size) : c.session.lines = lines := by
  obtain ⟨rest, hrest⟩ := h.opened hsize
  have hlines := h.lines
  rwa [reportLines, hrest] at hlines

theorem Steady.goTo (h : Steady lines c) (i : Nat) : Steady lines { c with index := i } :=
  ⟨h.lines, h.opened⟩

/-- A new session with the same lines makes no difference. -/
theorem Steady.withSession (h : Steady lines c) {session : Session} (hs : session.lines = c.session.lines) :
    Steady lines { c with session } := by
  refine ⟨?_, h.opened⟩
  have hlines := h.lines
  unfold reportLines at hlines ⊢
  dsimp only
  split at hlines
  · exact hlines
  · exact hs.trans hlines

theorem Steady.peek (h : Steady lines c) (ho : Offers tokens c) {t : Token} (hy : Yields Cursor.peek c t c') :
    Steady lines c' := by
  simp only [Cursor.peek, yields_bind, yields_get] at hy
  obtain ⟨_, _, ⟨rfl, rfl⟩, hy⟩ := hy
  split at hy
  · obtain ⟨rfl, rfl⟩ := yields_pure.1 hy
    exact h
  · simp only [yields_bind, yields_get] at hy
    obtain ⟨_, c₁, hopen, _, _, ⟨rfl, rfl⟩, hy⟩ := hy
    obtain ⟨c₂, hy₂, hfeed, -, -, -, hlines⟩ := openFeed_yields c
    obtain ⟨_, rfl⟩ := hy₂.unique hopen
    rw [hfeed] at hy
    obtain ⟨-, -, -, ⟨rest, hrest⟩, hsession⟩ := takeFrom_offered ho.ordinary hy
    refine ⟨?_, fun _ => ⟨rest, hrest⟩⟩
    rw [reportLines, hrest, hsession, hlines, h.lines]

theorem Steady.next (h : Steady lines c) (ho : Offers tokens c) {t : Token} (hy : Yields Cursor.next c t c') :
    Steady lines c' := by
  simp only [Cursor.next, yields_bind, yields_get, yields_modify] at hy
  obtain ⟨_, _, ⟨rfl, rfl⟩, _, _, ⟨rfl, rfl⟩, u, c₁, hpeek, _, c₂, rfl, _, _, ⟨rfl, rfl⟩, hy⟩ := hy
  have hquiet : ¬c₁.verbose = true := by simp [(ho.peek hpeek).2.1.quiet]
  rw [if_neg hquiet] at hy
  obtain ⟨rfl, rfl⟩ := yields_pure.1 hy
  exact (h.peek ho hpeek).goTo _

end Cursor

/-! ### How many tokens there are -/

/-- A scan finds at most as many tokens as there are characters. -/
theorem Scan.length_scanFrom_le (table : LineTable) (mode : Mode) (line offset : Nat) (chars : List Char) :
    (scanFrom table mode line offset chars).steps.length ≤ chars.length := by
  fun_induction scanFrom table mode line offset chars with
  | case1 => exact Nat.le_refl 0
  | case2 | case3 =>
    rw [length_cons]
    omega
  | case4 _ _ _ _ _ _ _ _ ih => exact Nat.succ_le_succ (Nat.le_trans ih (dropWhile_sublist _).length_le)
  | case5 _ _ _ _ _ _ _ _ _ _ _ ih => exact Nat.succ_le_succ (Nat.le_trans ih (by rw [length_drop]; exact Nat.sub_le _ _))
  | case7 _ _ _ _ _ _ _ _ _ _ _ _ _ _ ih => exact Nat.succ_le_succ (Nat.le_trans ih (dropWhile_sublist _).length_le)
  | case8 _ _ _ _ _ _ _ _ _ _ _ _ _ _ _ _ _ _ ih =>
    exact Nat.succ_le_succ (Nat.le_trans ih (dropWhile_sublist _).length_le)
  | case6 | case9 => exact Nat.zero_le _

theorem Text.length_normalizeChars_le (chars : List Char) : (normalizeChars chars).length ≤ chars.length := by
  fun_induction normalizeChars chars with
  | case1 => exact Nat.le_refl 0
  | case2 | case3 =>
    simp only [length_cons]
    omega

/-- A text has at most as many tokens as characters. -/
theorem Scan.length_steps_le (text : String) :
    (ofNormalized (Text.normalizeBreaks text)).steps.length ≤ text.length := by
  refine Nat.le_trans (length_scanFrom_le _ _ _ _ _) ?_
  rw [Text.normalizeBreaks, String.toList_ofList, ← String.length_toList]
  exact Text.length_normalizeChars_le _

namespace Cursor

theorem length_offered_le (items : List FeedItem) : (offered items).length ≤ items.length := by
  induction items with
  | nil => exact Nat.le_refl 0
  | cons item rest ih =>
    cases item with
    | illegal => exact Nat.zero_le _
    | token t complaint =>
      rw [offered, length_cons]
      split
      · omega
      · rw [length_cons]
        omega

theorem length_itemsOfScan_le (file : String) (scan : Scan) (last : Token) :
    (Feed.itemsOfScan file scan [last]).length ≤ scan.steps.length + 1 := by
  rw [Feed.itemsOfScan, length_append, length_map]
  split <;> exact Nat.le_refl _

theorem Offers.length_le {tokens : List Token} {c : Cursor} (h : Offers tokens c) :
    tokens.length ≤ c.tokens.size + c.upcoming.length := by
  rw [← h.all, length_append, Array.length_toList]
  exact Nat.add_le_add_left (length_offered_le _) _

/-- A text that nobody has begun to scan yields at most one token for each character, and the end. -/
theorem length_upcoming_le {c : Cursor} {text file : String} (h : c.feed = .unopened text file) :
    c.upcoming.length ≤ text.length + 1 := by
  simp only [upcoming, h]
  exact Nat.le_trans (length_itemsOfScan_le _ _ _) (Nat.add_le_add_right (Scan.length_steps_le text) 1)

end Cursor

end Labyrinth
