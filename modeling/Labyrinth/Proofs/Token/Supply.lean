import Labyrinth.Token.Cursor
import Labyrinth.Proofs.Task

/-!
# The source of a cursor

What the source of a cursor has still to yield, and the lines that reports are taken from. Tokens of a regular
kind are never passed over, and each of them has weight or has none.
-/

namespace Labyrinth

/-- The kinds of tokens that a scan of a text without comments finds, and the kind of the end. -/
def TokenKind.isRegular : TokenKind → Bool
  | .endMarker | .name | .number | .op | .keyword _ => true
  | _ => false

namespace Cursor

open Labyrinth.Task

def upcoming (c : Cursor) : List FeedItem :=
  match c.feed with
  | .unopened text file =>
    Feed.itemsOfScan file (Scan.ofNormalized (Text.normalizeBreaks text))
      [Scan.endToken (Text.splitLines (Text.normalizeBreaks text))]
  | .items rest => rest

/-- The lines that reports are taken from as soon as a token was taken. -/
def reportLines (c : Cursor) : Array String :=
  match c.feed with
  | .unopened text _ => Text.splitLines (Text.normalizeBreaks text)
  | .items _ => c.session.lines

theorem not_skips {t : Token} (h : t.kind.isRegular = true) (taken : Array Token) :
    skips taken t = false := by
  cases hk : t.kind <;> simp_all [skips, TokenKind.isRegular]

theorem openFeed_yields (c : Cursor) :
    ∃ c', Yields openFeed c () c' ∧ c'.feed = .items c.upcoming ∧ c'.tokens = c.tokens ∧ c'.index = c.index ∧
      c'.verbose = c.verbose ∧ c'.session.lines = c.reportLines := by
  cases hf : c.feed with
  | unopened text file | items rest => simp [openFeed, upcoming, reportLines, hf]

theorem hasWeight_ok {t : Token} (h : t.kind.isRegular = true) : ∃ b, hasWeight t = .ok b := by
  cases hk : t.kind <;> simp_all [hasWeight, TokenKind.isRegular]

theorem hasWeight_of_ne {t : Token} (h : t.kind.isRegular = true) (hend : t.kind ≠ .endMarker) :
    hasWeight t = .ok true := by
  cases hk : t.kind with
  | endMarker => exact absurd hk hend
  | name | number | op => simp [hasWeight, hk, TokenKind.code?]
  | keyword k =>
    have hcode : (6 : Int) < TokenKind.firstKeyword + k.index := by
      simp only [TokenKind.firstKeyword]
      omega
    simp [hasWeight, hk, TokenKind.code?, hcode]
  | comment | foreign | unknown =>
    rw [hk] at h
    cases h

theorem lastOfWeight_ok {taken : Array Token} (found : Option Token) :
    ∀ {count : Nat}, (∀ i < count, ∃ t, taken[i]? = some t ∧ t.kind.isRegular = true) →
      (0 < count ∨ found.isSome = true) → ∃ t, lastOfWeight taken found count = .ok (some t) := by
  intro count
  induction count generalizing found with
  | zero =>
    intro _ hf
    obtain ⟨t, ht⟩ := Option.isSome_iff_exists.1 (hf.resolve_left (Nat.lt_irrefl 0))
    exact ⟨t, by rw [ht]; rfl⟩
  | succ i ih =>
    intro hall _
    obtain ⟨t, ht, hr⟩ := hall i (Nat.lt_succ_self i)
    obtain ⟨b, hb⟩ := hasWeight_ok hr
    have hget : taken.getD i default = t := by
      rw [Array.getD_eq_getD_getElem?, ht, Option.getD_some]
    rw [lastOfWeight]
    simp only [hget, hb]
    cases b with
    | true => exact ⟨t, rfl⟩
    | false => exact ih (some t) (fun j hj => hall j (by omega)) (.inr rfl)

end Cursor

end Labyrinth
