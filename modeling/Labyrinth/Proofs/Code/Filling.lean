import Labyrinth.Code.Sections

/-!
# Filling texts with marks

A mark is replaced wherever it stands in a text. What a line begins with before marks are replaced tells what it begins
with afterwards: marks give way to what replaces them, and everything between them stays as it is.
-/

namespace Labyrinth

open List

namespace Text

variable {old new done rest chars : List Char} {c : Char}

theorem afterStart?_eq_some_iff {start chars rest : List Char} :
    afterStart? start chars = some rest ↔ chars = start ++ rest := by
  fun_induction afterStart? start chars with
  | case1 chars => simp
  | case2 => simp
  | case3 start a chars ih => simp [ih]
  | case4 a start c chars hne => simp [Ne.symm hne]

theorem replaceChars_cons_of_none (h : afterStart? old (c :: rest) = none) :
    replaceChars old new done (c :: rest) = replaceChars old new (c :: done) rest := by
  rw [replaceChars]
  split
  · next hsome => cases h.symm.trans hsome
  · rfl

theorem replaceChars_append_self (hold : old ≠ []) (rest : List Char) :
    replaceChars old new done (old ++ rest) = replaceChars old new (new.reverse ++ done) rest := by
  obtain ⟨c, cs, rfl⟩ := exists_cons_of_ne_nil hold
  rw [cons_append, replaceChars]
  split
  · next after hsome =>
    obtain rfl : rest = after := append_cancel_left (afterStart?_eq_some_iff.1 hsome)
    rw [dif_neg hold]
  · next hnone => cases hnone.symm.trans (afterStart?_eq_some_iff.2 (cons_append ..).symm)

theorem replaceChars_eq_append (old new done chars : List Char) :
    replaceChars old new done chars = done.reverse ++ replaceChars old new [] chars := by
  induction hn : chars.length using Nat.strongRecOn generalizing chars done with
  | ind n ih =>
    subst hn
    cases chars with
    | nil => simp [replaceChars]
    | cons c rest =>
      by_cases hold : old = []
      · subst hold
        have hlt : rest.length < (c :: rest).length := Nat.lt_succ_self _
        rw [replaceChars, replaceChars, ih _ hlt (c :: done) rest rfl, ih _ hlt [c] rest rfl]
        simp [afterStart?]
      · cases hafter : afterStart? old (c :: rest) with
        | none =>
          have hlt : rest.length < (c :: rest).length := Nat.lt_succ_self _
          rw [replaceChars_cons_of_none hafter, replaceChars_cons_of_none hafter, ih _ hlt (c :: done) rest rfl,
            ih _ hlt [c] rest rfl]
          simp
        | some after =>
          have hlt := length_le_of_afterStart? hafter
          have hpos := length_pos_iff.2 hold
          rw [afterStart?_eq_some_iff.1 hafter, replaceChars_append_self hold, replaceChars_append_self hold,
            ih _ (by omega) (new.reverse ++ done) after rfl, ih _ (by omega) (new.reverse ++ []) after rfl]
          simp

/-- The result of replacing, from the left. -/
theorem replaceChars_cons (h : afterStart? old (c :: rest) = none) :
    replaceChars old new [] (c :: rest) = c :: replaceChars old new [] rest := by
  rw [replaceChars_cons_of_none h, replaceChars_eq_append]
  rfl

theorem replaceChars_self (hold : old ≠ []) (rest : List Char) :
    replaceChars old new [] (old ++ rest) = new ++ replaceChars old new [] rest := by
  rw [replaceChars_append_self hold, replaceChars_eq_append]
  simp

/-- What is replaced does not reach over a character that it does not have. -/
theorem replaceChars_break (hold : old ≠ []) (hc : c ∉ old) (before after : List Char) :
    replaceChars old new [] (before ++ c :: after) =
      replaceChars old new [] before ++ c :: replaceChars old new [] after := by
  induction hn : before.length using Nat.strongRecOn generalizing before with
  | ind n ih =>
    subst hn
    cases before with
    | nil =>
      have hnone : afterStart? old (c :: after) = none := by
        rw [Option.eq_none_iff_forall_ne_some]
        intro rest hrest
        obtain ⟨d, ds, rfl⟩ := exists_cons_of_ne_nil hold
        exact hc (by rw [(List.cons.inj (afterStart?_eq_some_iff.1 hrest)).1]; exact mem_cons_self)
      rw [nil_append, replaceChars_cons hnone, replaceChars]
      rfl
    | cons d before =>
      cases hafter : afterStart? old (d :: before) with
      | some rest =>
        have hlt := length_le_of_afterStart? hafter
        have hpos := length_pos_iff.2 hold
        rw [afterStart?_eq_some_iff.1 hafter, append_assoc, replaceChars_self hold, replaceChars_self hold,
          ih _ (by omega) rest rfl, append_assoc]
      | none =>
        have hnone : afterStart? old (d :: (before ++ c :: after)) = none := by
          rw [Option.eq_none_iff_forall_ne_some]
          intro rest hrest
          -- A match would end before the character, or have it.
          rw [afterStart?_eq_some_iff, ← cons_append, append_eq_append_iff] at hrest
          rcases hrest with ⟨more, hmore, hrest⟩ | ⟨more, hmore, -⟩
          · cases more with
            | nil => cases hafter.symm.trans (afterStart?_eq_some_iff.2 (show d :: before = old ++ [] by simp [hmore]))
            | cons e more => exact hc (by simp [hmore, (List.cons.inj hrest).1])
          · cases hafter.symm.trans (afterStart?_eq_some_iff.2 hmore)
        rw [cons_append, replaceChars_cons hnone, replaceChars_cons hafter,
          ih _ (Nat.lt_succ_self _) before rfl, cons_append]

/-- Characters that do not begin what is replaced stay as they are. -/
theorem replaceChars_plain {kept : List Char} (h : ∀ d ∈ kept, old.head? ≠ some d) (hold : old ≠ []) (rest : List Char) :
    replaceChars old new [] (kept ++ rest) = kept ++ replaceChars old new [] rest := by
  induction kept with
  | nil => rfl
  | cons d kept ih =>
    obtain ⟨hd, hkept⟩ := forall_mem_cons.1 h
    have hnone : afterStart? old (d :: (kept ++ rest)) = none := by
      rw [Option.eq_none_iff_forall_ne_some]
      intro after hafter
      obtain ⟨e, es, rfl⟩ := exists_cons_of_ne_nil hold
      exact hd (congrArg some (List.cons.inj (afterStart?_eq_some_iff.1 hafter)).1.symm)
    rw [cons_append, replaceChars_cons hnone, ih hkept]
    rfl

end Text

namespace Code

open Text

/-! ### Marks -/

/-- A mark is a word in a comment. -/
def isMark (mark : String) : Bool :=
  match mark.toList with
  | '/' :: '*' :: rest => match rest.reverse with
    | '/' :: '*' :: word => word.all fun c => c != '/' && c != '*' && c != '\n'
    | _ => false
  | _ => false

theorem exists_word_of_isMark {mark : String} (h : isMark mark = true) : ∃ word : List Char,
    '/' ∉ word ∧ '*' ∉ word ∧ '\n' ∉ word ∧ mark.toList = '/' :: '*' :: (word ++ ['*', '/']) := by
  unfold isMark at h
  split at h
  · next rest hmark =>
    split at h
    · next word hrest =>
      have hword (c : Char) (hc : c ∈ word.reverse) : c ≠ '/' ∧ c ≠ '*' ∧ c ≠ '\n' := by
        simpa [and_assoc] using all_eq_true.1 h c (mem_reverse.1 hc)
      refine ⟨word.reverse, fun hc => (hword _ hc).1 rfl, fun hc => (hword _ hc).2.1 rfl,
        fun hc => (hword _ hc).2.2 rfl, ?_⟩
      rw [hmark, ← List.reverse_reverse rest, hrest]
      simp
    · cases h
  · cases h

section Mark

variable {mark : String} (hmark : isMark mark = true)
include hmark

theorem toList_ne_nil_of_isMark : mark.toList ≠ [] := by
  obtain ⟨_, -, -, -, hword⟩ := exists_word_of_isMark hmark
  simp [hword]

theorem not_mem_break_of_isMark : '\n' ∉ mark.toList := by
  obtain ⟨_, -, -, hbreak, hword⟩ := exists_word_of_isMark hmark
  simp [hword, hbreak]

theorem replaceChars_mark_plain {kept : List Char} (hkept : '/' ∉ kept) (new rest : List Char) :
    replaceChars mark.toList new [] (kept ++ rest) = kept ++ replaceChars mark.toList new [] rest := by
  refine replaceChars_plain (fun d hd h => hkept ?_) (toList_ne_nil_of_isMark hmark) rest
  obtain ⟨_, -, -, -, hword⟩ := exists_word_of_isMark hmark
  rw [hword] at h
  exact Option.some.inj h ▸ hd

/-- A mark is not replaced together with another one, nor does it begin inside another one. -/
theorem replaceChars_mark_other {other : String} (hother : isMark other = true) (hne : mark ≠ other)
    {new rest : List Char} (hrest : rest.head? ≠ some '*') :
    replaceChars mark.toList new [] (other.toList ++ rest) = other.toList ++ replaceChars mark.toList new [] rest := by
  obtain ⟨word, -, hstar, -, hword⟩ := exists_word_of_isMark hmark
  obtain ⟨word', hslash', hstar', -, hword'⟩ := exists_word_of_isMark hother
  have hcut (w x : List Char) (hw : '*' ∉ w) : (w ++ '*' :: x).takeWhile (· ≠ '*') = w := by
    rw [takeWhile_append_of_pos (fun c hc => by simpa using fun h : c = '*' => hw (h ▸ hc))]
    simp
  have hfirst : afterStart? mark.toList (other.toList ++ rest) = none := by
    rw [Option.eq_none_iff_forall_ne_some]
    intro after hafter
    rw [afterStart?_eq_some_iff, hword, hword'] at hafter
    have hwords : word' ++ '*' :: ('/' :: rest) = word ++ '*' :: ('/' :: after) := by simpa using hafter
    have hsame := congrArg (takeWhile (· ≠ '*')) hwords
    rw [hcut _ _ hstar', hcut _ _ hstar] at hsame
    exact hne (String.toList_inj.1 (by rw [hword, hword', hsame]))
  have hlast : afterStart? mark.toList ('/' :: rest) = none := by
    rw [Option.eq_none_iff_forall_ne_some]
    intro after hafter
    rw [afterStart?_eq_some_iff, hword] at hafter
    exact hrest (by rw [(List.cons.inj hafter).2]; rfl)
  have hinside : '/' ∉ '*' :: (word' ++ ['*']) := by simp [hslash']
  have hshape : other.toList ++ rest = '/' :: ('*' :: (word' ++ ['*']) ++ '/' :: rest) := by simp [hword']
  rw [hshape] at hfirst ⊢
  rw [replaceChars_cons hfirst, replaceChars_mark_plain hmark hinside, replaceChars_cons hlast]
  simp [hword']

end Mark

/-- A place in a text: a mark, or what stands there instead of one. -/
inductive Slot where
  | mark (m : String)
  | text (t : String)
deriving DecidableEq

namespace Slot

def chars : Slot → List Char
  | mark m => m.toList
  | text t => t.toList

def fill (m new : String) : Slot → Slot
  | mark m' => if m' = m then text new else mark m'
  | text t => text t

end Slot

def slotChars (slots : List (Slot × String)) : List Char :=
  slots.flatMap fun entry => entry.1.chars ++ entry.2.toList

/-- Nothing that belongs to a mark stands at a place or after it, apart from whole marks. -/
def Slot.isProper (entry : Slot × String) : Bool :=
  (match entry.1 with
    | .mark m => isMark m
    | .text t => !t.toList.contains '/') &&
  !entry.2.toList.contains '/' && entry.2.toList.head? != some '*' && !entry.2.toList.isEmpty

theorem replaceChars_slots {mark : String} (hmark : isMark mark = true) (new : String) {slots : List (Slot × String)}
    (hslots : slots.all Slot.isProper = true) (rest : List Char) :
    replaceChars mark.toList new.toList [] (slotChars slots ++ rest) =
      slotChars (slots.map fun entry => (entry.1.fill mark new, entry.2)) ++
        replaceChars mark.toList new.toList [] rest := by
  induction slots with
  | nil => rfl
  | cons entry slots ih =>
    obtain ⟨slot, after⟩ := entry
    obtain ⟨hentry, hothers⟩ := Bool.and_eq_true_iff.1 hslots
    simp only [Slot.isProper, Bool.and_eq_true, Bool.not_eq_true', contains_eq_mem, decide_eq_false_iff_not,
      bne_iff_ne, isEmpty_eq_false_iff] at hentry
    obtain ⟨⟨⟨hproper, hafter⟩, hhead⟩, hne⟩ := hentry
    have hrest := replaceChars_mark_plain hmark hafter new.toList (slotChars slots ++ rest)
    have hstar : (after.toList ++ (slotChars slots ++ rest)).head? ≠ some '*' := by
      obtain ⟨c, cs, hcs⟩ := exists_cons_of_ne_nil hne
      rw [hcs] at hhead ⊢
      exact hhead
    have hslot : replaceChars mark.toList new.toList [] (slot.chars ++ (after.toList ++ (slotChars slots ++ rest))) =
        (slot.fill mark new).chars ++
          replaceChars mark.toList new.toList [] (after.toList ++ (slotChars slots ++ rest)) := by
      cases slot with
      | text t =>
        have ht : '/' ∉ t.toList := by simpa using hproper
        exact replaceChars_mark_plain hmark ht _ _
      | mark other =>
        by_cases hsame : other = mark
        · subst hsame
          rw [Slot.chars, replaceChars_self (toList_ne_nil_of_isMark hmark), Slot.fill, if_pos rfl]
          rfl
        · rw [Slot.chars, replaceChars_mark_other hmark hproper (Ne.symm hsame) hstar, Slot.fill, if_neg hsame]
          rfl
    rw [ih hothers] at hrest
    simp only [slotChars, flatMap_cons, map_cons, append_assoc] at hslot hrest ⊢
    rw [hslot, hrest]

/-! ### Lines -/

/-- A line of a text begins with a text, and then come places. The first line of the text does not count. -/
def Opens (text start : String) (slots : List (Slot × String)) : Prop :=
  ∃ before after, text.toList = before ++ '\n' :: (start.toList ++ (slotChars slots ++ after))

theorem exists_joined_eq {lines : List String} {line : String} {k : Nat} (h : lines[k + 1]? = some line) :
    ∃ before after, (joined "\n" lines).toList = before ++ '\n' :: (line.toList ++ after) := by
  induction k generalizing lines with
  | zero =>
    match lines, h with
    | first :: _ :: [], rfl => exact ⟨first.toList, [], by simp [joined]⟩
    | first :: _ :: _ :: _, rfl => exact ⟨first.toList, _, by simp [joined, String.intercalate_cons_cons]; rfl⟩
  | succ k ih =>
    match lines, h with
    | first :: next :: lines, h =>
      obtain ⟨before, after, hrest⟩ := @ih (next :: lines) h
      refine ⟨first.toList ++ '\n' :: before, after, ?_⟩
      have hjoined : (joined "\n" (first :: next :: lines)).toList =
          first.toList ++ '\n' :: (joined "\n" (next :: lines)).toList := by
        simp [joined, String.intercalate_cons_cons]
      rw [hjoined, hrest]
      simp

/-- Whether a line begins with a text and places, all of them proper. -/
def isOpened (line : List Char) (start : String) (slots : List (Slot × String)) : Bool :=
  (start.toList ++ slotChars slots).isPrefixOf line && !start.toList.contains '/' && slots.all Slot.isProper

/-- Replacing a mark fills the places where it stands. -/
theorem Opens.replaceAll {text start : String} {slots : List (Slot × String)} (h : Opens text start slots)
    {mark : String} (hmark : isMark mark = true) (hstart : '/' ∉ start.toList)
    (hslots : slots.all Slot.isProper = true) (new : String) :
    Opens (Text.replaceAll text mark new) start (slots.map fun entry => (entry.1.fill mark new, entry.2)) := by
  obtain ⟨before, after, htext⟩ := h
  refine ⟨replaceChars mark.toList new.toList [] before, replaceChars mark.toList new.toList [] after, ?_⟩
  rw [Text.replaceAll, String.toList_ofList, htext,
    replaceChars_break (toList_ne_nil_of_isMark hmark) (not_mem_break_of_isMark hmark),
    replaceChars_mark_plain hmark hstart, replaceChars_slots hmark new hslots]

def fillSlots (marks : List (String × String)) (slots : List (Slot × String)) : List (Slot × String) :=
  marks.foldl (fun slots mark => slots.map fun entry => (entry.1.fill mark.1 mark.2, entry.2)) slots

theorem Opens.foldl {start : String} (hstart : '/' ∉ start.toList) {marks : List (String × String)} :
    ∀ {text : String} {slots : List (Slot × String)}, Opens text start slots → slots.all Slot.isProper = true →
      (∀ mark ∈ marks, isMark mark.1 = true ∧ ('/' ∉ mark.2.toList ∨ ∀ entry ∈ slots, entry.1 ≠ .mark mark.1)) →
      Opens (marks.foldl (fun text mark => Text.replaceAll text mark.1 mark.2) text) start (fillSlots marks slots) := by
  induction marks with
  | nil => exact fun h _ _ => h
  | cons mark marks ih =>
    intro text slots h hslots hmarks
    obtain ⟨⟨hmark, hnew⟩, hmarks⟩ := forall_mem_cons.1 hmarks
    refine ih (h.replaceAll hmark hstart hslots mark.2) ?_ fun m hm => ⟨(hmarks m hm).1, (hmarks m hm).2.imp_right ?_⟩
    · rw [all_map, all_eq_true]
      intro entry hentry
      have hproper := all_eq_true.1 hslots entry hentry
      obtain ⟨slot, after⟩ := entry
      cases slot with
      | text t => exact hproper
      | mark m =>
        rw [Function.comp_apply, Slot.fill]
        split
        · next hm =>
          have hplain : '/' ∉ mark.2.toList := hnew.resolve_right fun h => h _ hentry (congrArg Slot.mark hm)
          simp only [Slot.isProper, Bool.and_eq_true] at hproper ⊢
          exact ⟨⟨⟨by simpa using hplain, hproper.1.1.2⟩, hproper.1.2⟩, hproper.2⟩
        · exact hproper
    · intro hnone entry hentry
      obtain ⟨⟨slot, after⟩, hmem, rfl⟩ := mem_map.1 hentry
      have hslot := hnone _ hmem
      cases slot with
      | text t => exact nofun
      | mark m' =>
        dsimp only [Slot.fill]
        split
        · exact nofun
        · exact hslot

/-- A filled text has lines that begin as those of the text did, with the places filled. What a mark is replaced by must
not look like a mark itself, unless the mark stands at none of the places. -/
theorem opens_fill {lines : List String} {k : Nat} {line : List Char} {start : String} {slots : List (Slot × String)}
    {marks : List (String × String)} (hline : lines[k + 1]? = some (String.ofList line))
    (h : isOpened line start slots = true)
    (hmarks : ∀ mark ∈ marks, isMark mark.1 = true ∧ ('/' ∉ mark.2.toList ∨ ∀ entry ∈ slots, entry.1 ≠ .mark mark.1)) :
    Opens (fill lines marks) start (fillSlots marks slots) := by
  simp only [isOpened, Bool.and_eq_true, Bool.not_eq_true', contains_eq_mem, decide_eq_false_iff_not] at h
  obtain ⟨⟨hbegins, hstart⟩, hslots⟩ := h
  obtain ⟨more, rfl⟩ := isPrefixOf_iff_prefix.1 hbegins
  obtain ⟨before, after, hlines⟩ := exists_joined_eq hline
  rw [String.toList_ofList, append_assoc, append_assoc] at hlines
  exact Opens.foldl hstart ⟨before, more ++ after, hlines⟩ hslots hmarks

end Code

end Labyrinth
