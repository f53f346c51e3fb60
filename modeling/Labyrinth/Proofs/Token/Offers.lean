import Mathlib.Tactic.SplitIfs
import Labyrinth.Proofs.Token.Unreported

/-!
# What a cursor has to offer

A cursor hands out the tokens of its source that are no comments, up to the first place where no token begins,
whatever is reported about them. However it is moved, the token at a place is always the same.
-/

namespace Labyrinth

open List Labyrinth.Task

namespace Cursor

/-- The tokens among what a source yields that a cursor hands out. -/
def offered : List FeedItem → List Token
  | [] => []
  | .illegal _ _ :: _ => []
  | .token t _ :: rest => if t.kind = .comment then offered rest else t :: offered rest

/-- Every token that a source yields is a comment or of a kind that scans find. -/
def Ordinary (items : List FeedItem) : Prop :=
  ∀ t complaint, .token t complaint ∈ items → t.kind.isRegular = true ∨ t.kind = .comment

/-- The cursor hands out given tokens, as far as it comes. -/
structure Offers (tokens : List Token) (c : Cursor) : Prop where
  quiet : c.verbose = false
  all : c.tokens.toList ++ offered c.upcoming = tokens
  ordinary : Ordinary c.upcoming
  index_le : c.index ≤ c.tokens.size

/-- The source of a cursor is open, and reports are made with given lines. -/
def HasLines (lines : Array String) (c : Cursor) : Prop :=
  (∃ rest, c.feed = .items rest) ∧ c.session.lines = lines

/-- What moving a cursor keeps: reports that were made, the lines that reports are made with, and that tokens are
well formed as long as nothing is reported. -/
structure Moves (c c' : Cursor) : Prop where
  unreported : Unreported c' → Unreported c
  lines : ∀ lines, c.HasLines lines → c'.HasLines lines
  sound : Unreported c' → c.Sound → c'.Sound

theorem Moves.refl (c : Cursor) : Moves c c :=
  ⟨id, fun _ h => h, fun _ h => h⟩

variable {tokens : List Token} {c c' : Cursor}

theorem Offers.size_le (h : Offers tokens c) : c.tokens.size ≤ tokens.length := by
  rw [← h.all, length_append, Array.length_toList]
  omega

theorem Offers.index_le_length (h : Offers tokens c) : c.index ≤ tokens.length :=
  Nat.le_trans h.index_le h.size_le

theorem Offers.getElem?_eq (h : Offers tokens c) {i : Nat} (hi : i < c.tokens.size) : tokens[i]? = c.tokens[i]? := by
  rw [← h.all, getElem?_append_left (by simpa using hi), Array.getElem?_toList]

/-- Moving within the tokens that were taken changes nothing else. -/
theorem Offers.goTo (h : Offers tokens c) {i : Nat} (hi : i ≤ c.tokens.size) : Offers tokens { c with index := i } :=
  ⟨h.quiet, h.all, h.ordinary, hi⟩

theorem skips_iff {taken : Array Token} {t : Token} (h : t.kind.isRegular = true ∨ t.kind = .comment) :
    skips taken t = true ↔ t.kind = .comment := by
  rcases h with h | h
  · rw [not_skips h]
    refine ⟨nofun, fun he => ?_⟩
    rw [he] at h
    cases h
  · simp [skips, h]

/-- The token that is taken is the first that is offered. -/
theorem takeFrom_offered {items : List FeedItem} {t : Token} (hi : Ordinary items)
    (h : Yields (takeFrom items) c t c') :
    offered items = t :: offered c'.upcoming ∧ Ordinary c'.upcoming ∧ c'.verbose = c.verbose ∧
      c'.HasLines c.session.lines := by
  induction items generalizing c with
  | nil => simp [takeFrom] at h
  | cons item rest ih =>
    cases item with
    | illegal loc line => simp [takeFrom, reportIllegal, Session.reportFatal] at h
    | token u complaint =>
      have hu : u.kind.isRegular = true ∨ u.kind = .comment := hi u complaint mem_cons_self
      have hrest : Ordinary rest := fun t complaint ht => hi t complaint (mem_cons_of_mem _ ht)
      simp only [takeFrom, yields_bind, yields_modify, yields_get, yields_inSession] at h
      obtain ⟨_, c₁, rfl, _, c₂, ⟨session, hreport, rfl⟩, _, _, ⟨rfl, rfl⟩, h⟩ := h
      -- A complaint adds a report, and changes nothing else.
      have hsession : session.lines = c.session.lines := by
        cases complaint with
        | none =>
          obtain ⟨_, rfl⟩ := yields_pure.1 hreport
          rfl
        | some entry =>
          simp only [reportComplaint, Session.report, yields_bind, yields_get, yields_ofExcept,
            yields_modify] at hreport
          obtain ⟨_, _, ⟨rfl, rfl⟩, _, _, ⟨_, rfl⟩, rfl⟩ := hreport
          rfl
      split at h
      · next hskip =>
        obtain ⟨hoff, hord, hverbose, hlines⟩ := ih hrest h
        refine ⟨?_, hord, hverbose, ?_⟩
        · rw [offered, if_pos ((skips_iff hu).1 hskip), hoff]
        · rw [← hsession]
          exact hlines
      · next hskip =>
        simp only [yields_bind, yields_modify, yields_pure] at h
        obtain ⟨_, _, rfl, rfl, rfl⟩ := h
        refine ⟨?_, hrest, rfl, ⟨rest, rfl⟩, hsession⟩
        rw [offered, if_neg fun he => hskip ((skips_iff hu).2 he)]
        rfl

/-- The token at the cursor is the token at its place. -/
theorem Offers.peek (h : Offers tokens c) {t : Token} (hy : Yields peek c t c') :
    tokens[c.index]? = some t ∧ Offers tokens c' ∧ c'.index = c.index ∧ c.tokens.size ≤ c'.tokens.size ∧
      c'.tokens[c'.index]? = some t ∧ Moves c c' := by
  simp only [Cursor.peek, yields_bind, yields_get] at hy
  obtain ⟨_, _, ⟨rfl, rfl⟩, hy⟩ := hy
  split at hy
  · next u hu =>
    obtain ⟨rfl, rfl⟩ := yields_pure.1 hy
    refine ⟨?_, h, rfl, Nat.le_refl _, hu, .refl c⟩
    rw [h.getElem?_eq (Array.getElem?_eq_some_iff.1 hu).1, hu]
  · next hnone =>
    have hend : c.index = c.tokens.size := by
      have := Array.getElem?_eq_none_iff.1 hnone
      have := h.index_le
      omega
    simp only [yields_bind, yields_get] at hy
    obtain ⟨_, c₁, hopen, _, _, ⟨rfl, rfl⟩, hy⟩ := hy
    obtain ⟨c₂, hy₂, hfeed, htokens, hindex, hverbose, -⟩ := openFeed_yields c
    obtain ⟨_, rfl⟩ := hy₂.unique hopen
    have hopened : c₂.session.pending = c.session.pending ∧ ∀ lines, c.HasLines lines → c₂.HasLines lines := by
      simp only [openFeed, yields_bind, yields_get] at hopen
      obtain ⟨_, _, ⟨rfl, rfl⟩, hopen⟩ := hopen
      split at hopen
      · obtain ⟨_, rfl⟩ := yields_pure.1 hopen
        exact ⟨rfl, fun _ hl => hl⟩
      · next hunopened =>
        rw [yields_modify] at hopen
        subst hopen
        refine ⟨rfl, ?_⟩
        rintro lines ⟨⟨rest, hrest⟩, -⟩
        cases hunopened.symm.trans hrest
    rw [hfeed] at hy
    obtain ⟨hoff, hord, hverbose', hlines⟩ := takeFrom_offered h.ordinary hy
    obtain ⟨hpush, hsame⟩ := takeFrom_push hy
    have hget : c'.tokens[c'.index]? = some t := by
      rw [hpush, hsame, hindex, hend, ← htokens, Array.getElem?_push_size]
    have hoffers : Offers tokens c' := by
      refine ⟨by rw [hverbose', hverbose, h.quiet], ?_, hord, ?_⟩
      · rw [hpush, Array.toList_push, htokens, append_assoc, singleton_append, ← hoff, h.all]
      · have hlt := (Array.getElem?_eq_some_iff.1 hget).1
        omega
    refine ⟨?_, hoffers, hsame.trans hindex, ?_, hget, ⟨fun hu => ?_, fun lines hl => ?_, fun hu hs => ?_⟩⟩
    · rw [← hindex, ← hsame, hoffers.getElem?_eq (Array.getElem?_eq_some_iff.1 hget).1, hget]
    · rw [hpush, Array.size_push, htokens]
      omega
    · exact hopened.1.symm.trans (takeFrom_sound hy hu).1
    · obtain ⟨-, rfl⟩ := hopened.2 lines hl
      exact hlines
    · obtain ⟨ht, hupcoming⟩ := (takeFrom_sound hy hu).2 hs.upcoming
      refine ⟨fun w hw => ?_, hupcoming⟩
      rw [hpush, htokens] at hw
      rcases Array.mem_push.1 hw with hw | rfl
      · exact hs.taken w hw
      · exact ht

theorem Offers.next (h : Offers tokens c) {t : Token} (hy : Yields next c t c') :
    tokens[c.index]? = some t ∧ Offers tokens c' ∧ c'.index = c.index + 1 ∧ c.tokens.size ≤ c'.tokens.size ∧
      Moves c c' := by
  simp only [Cursor.next, yields_bind, yields_get, yields_modify] at hy
  obtain ⟨_, _, ⟨rfl, rfl⟩, _, _, ⟨rfl, rfl⟩, u, c₁, hpeek, _, c₂, rfl, _, _, ⟨rfl, rfl⟩, hy⟩ := hy
  obtain ⟨ht, hoffers, hindex, hsize, hget, hmoves⟩ := h.peek hpeek
  have hquiet : ¬c₁.verbose = true := by simp [hoffers.quiet]
  rw [if_neg hquiet] at hy
  obtain ⟨rfl, rfl⟩ := yields_pure.1 hy
  have hlt := (Array.getElem?_eq_some_iff.1 hget).1
  refine ⟨ht, hoffers.goTo hlt, congrArg (· + 1) hindex, hsize, ⟨hmoves.unreported, hmoves.lines, fun hu hs => ?_⟩⟩
  exact ⟨(hmoves.sound hu hs).taken, (hmoves.sound hu hs).upcoming⟩

theorem Offers.reset (h : Offers tokens c) {i : Nat} {u : Unit} (hy : Yields (reset i) c u c') :
    Offers tokens c' ∧ c' = { c with index := i } := by
  simp only [Cursor.reset, yields_bind, yields_get] at hy
  obtain ⟨_, _, ⟨rfl, rfl⟩, hy⟩ := hy
  split at hy
  · next he =>
    obtain ⟨_, rfl⟩ := yields_pure.1 hy
    exact ⟨h, by rw [Int.ofNat.inj he]⟩
  · split at hy
    · next hbounds =>
      have hquiet : ¬c.verbose = true := by simp [h.quiet]
      simp only [if_neg hquiet, yields_bind, yields_set, yields_pure] at hy
      obtain ⟨_, c₁, rfl, _, rfl⟩ := hy
      exact ⟨h.goTo (by omega), rfl⟩
    · simp at hy

/-- The last token of weight is looked for among the tokens that were taken. -/
theorem Offers.lastOfWeight_eq (h : Offers tokens c) (found : Option Token) {count : Nat}
    (hc : count ≤ c.tokens.size) : lastOfWeight c.tokens found count = lastOfWeight tokens.toArray found count := by
  induction count generalizing found with
  | zero => rfl
  | succ i ih =>
    have hget : c.tokens.getD i default = tokens.toArray.getD i default := by
      have hi : i < c.tokens.size := hc
      rw [Array.getD_eq_getD_getElem?, Array.getD_eq_getD_getElem?, ← h.getElem?_eq hi, getElem?_toArray]
    rw [lastOfWeight, lastOfWeight, hget]
    congr 1
    funext weighty
    split
    · rfl
    · exact ih _ (by omega)

end Cursor

/-! ### The tokens of a text -/

/-- The tokens that end the lines of a text: a scan that broke off gives none. -/
def ScanEnd.tokens (lines : Array String) : ScanEnd → List Token
  | .complete => [Scan.endToken lines]
  | .illegal _ _ _ => []

namespace Scan

/-- The tokens of a scan that are no comments. -/
def significant (scan : Scan) : List Token :=
  (scan.steps.map ScanStep.token).filter fun t => t.kind ≠ .comment

theorem regular_of_kind? {word : List Char} {kind : TokenKind} (h : Word.kind? word = some kind) :
    kind.isRegular = true ∧ kind ≠ .endMarker := by
  rw [Word.kind?] at h
  split at h
  · cases h
    split <;> exact ⟨rfl, by simp⟩
  · split at h
    · cases h
      exact ⟨rfl, by simp⟩
    · cases h

theorem regular_mend (word : List Char) :
    (Word.mend word).1.isRegular = true ∧ (Word.mend word).1 ≠ .endMarker := by
  dsimp only [Word.mend]
  split_ifs <;> exact ⟨rfl, nofun⟩

/-- A scan finds comments, operators and words, but no end. -/
theorem scanFrom_ordinary (table : LineTable) (mode : Mode) (line offset : Nat) (chars : List Char) :
    ∀ step ∈ (scanFrom table mode line offset chars).steps,
      step.token.kind.isRegular = true ∧ step.token.kind ≠ .endMarker ∨ step.token.kind = .comment := by
  fun_induction scanFrom table mode line offset chars with
  | case1 => simp
  | case2 mode line offset c rest _ ih => exact ih
  | case3 mode line offset rest _ ih => exact ih
  | case4 mode line offset rest _ _ comment _ ih => exact forall_mem_cons.2 ⟨.inr rfl, ih⟩
  | case5 mode line offset c rest _ _ _ op _ _ ih => exact forall_mem_cons.2 ⟨.inl ⟨rfl, TokenKind.noConfusion⟩, ih⟩
  | case6 => simp
  | case7 line offset c rest _ _ _ _ word _ onward _ kind hkind ih =>
    exact forall_mem_cons.2 ⟨.inl (regular_of_kind? hkind), ih⟩
  | case8 mode line offset c rest _ _ _ _ word _ onward _ _ kind complaint hmend _ ih =>
    have hkind : kind = (Word.mend word).1 := by rw [hmend]
    exact forall_mem_cons.2 ⟨.inl (hkind ▸ regular_mend word), ih⟩
  | case9 => simp

end Scan

namespace Cursor

theorem offered_append_steps (file : String) (steps : List ScanStep) (rest : List FeedItem) :
    offered (steps.map (fun step => FeedItem.token step.token (step.complaint.map fun c => (c, file))) ++ rest) =
      (steps.map ScanStep.token).filter (fun t => t.kind ≠ .comment) ++ offered rest := by
  induction steps with
  | nil => rfl
  | cons step steps ih =>
    rw [map_cons, cons_append, offered, ih, map_cons]
    by_cases hc : step.token.kind = .comment
    · rw [if_pos hc, filter_cons_of_neg (by simpa using hc)]
    · rw [if_neg hc, filter_cons_of_pos (by simpa using hc), cons_append]

/-- A text offers the tokens of its scan and, if the scan is complete, the end. -/
theorem offers_unopened (session : Session) (text file path : String) :
    Offers ((Scan.ofNormalized (Text.normalizeBreaks text)).significant ++
        (Scan.ofNormalized (Text.normalizeBreaks text)).finish.tokens
          (Text.splitLines (Text.normalizeBreaks text)))
      { session, feed := .unopened text file, path } := by
  refine ⟨rfl, ?_, ?_, Nat.le_refl 0⟩
  · change [] ++ offered (Feed.itemsOfScan _ _ _) = _
    rw [nil_append, Feed.itemsOfScan, offered_append_steps]
    congr 1
    cases (Scan.ofNormalized (Text.normalizeBreaks text)).finish <;> rfl
  · intro t complaint ht
    rcases mem_append.1 ht with hfound | hlast
    · obtain ⟨step, hstep, heq⟩ := mem_map.1 hfound
      obtain ⟨rfl, -⟩ := FeedItem.token.inj heq
      exact (Scan.scanFrom_ordinary _ _ _ _ _ step hstep).imp_left And.left
    · split at hlast
      · obtain ⟨last, hmem, heq⟩ := mem_map.1 hlast
        obtain ⟨rfl, -⟩ := FeedItem.token.inj heq
        rw [mem_singleton.1 hmem]
        exact .inl rfl
      · cases mem_singleton.1 hlast

end Cursor

end Labyrinth
