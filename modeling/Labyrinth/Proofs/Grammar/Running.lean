import Labyrinth.Proofs.Grammar.Typing

/-!
# Reading that comes to an end

A parser whose tokens are of use to builders breaks off only by a report that ends the run: what the steps of an
alternative keep is of the categories that its action works with, and a report on it has a line to point to.
-/

namespace Labyrinth

open Labyrinth.Task

/-- A cursor that moves reports with the same lines, and prints nothing. -/
theorem Cursor.Steady.steps {tokens : List Token} {lines : Array String} {c c' : Cursor} (h : Steady lines c)
    (ho : Offers tokens c) (hs : Steps c c') : Steady lines c' ∧ c'.session.out = c.session.out := by
  cases hs with
  | peek hy => exact ⟨h.peek ho hy, ((modest_peek _ ho.quiet).of_yields hy).2.out⟩
  | next hy => exact ⟨h.next ho hy, ((modest_next _ ho.quiet).of_yields hy).2.out⟩
  | goTo => exact ⟨h.goTo _, rfl⟩

namespace Grammar

theorem Source.Closed.regular {lines : Array String} {src : Source} (hsrc : src.Closed lines) :
    ∀ t ∈ src.tokens, t.kind.isRegular = true := by
  intro t ht
  obtain ⟨i, hi, hget⟩ := List.mem_iff_getElem.1 ht
  have hsome : src.tokens[i]? = some t := by rw [List.getElem?_eq_getElem hi, hget]
  by_cases hend : i + 1 < src.tokens.length
  · exact (hsrc.usable hend hsome).regular
  · rw [(hsrc.last (by omega) hsome).1]
    rfl

/-- An account of the categories of results. -/
def shown (lines : Array String) {src : Source} (hsrc : src.Closed lines) (complaining : Bool) (printed : String) :
    Account src complaining where
  Note := Unit
  Later _ _ := True
  later_refl _ := trivial
  later_trans _ _ := trivial
  made _ := showing src lines
  made_later _ _ _ _ _ _ h := h
  Stands _ := Eq
  stands_later _ _ _ h := h
  likeness _ := likeness_eq
  Place _ _ i := i < src.tokens.length
  Room _ _ i := i < src.tokens.length
  room_anew _ hp := hp
  room_handed _ hp := hp
  room_grown _ hp _ _ := hp
  place_made hp hs hmade :=
    hmade.inside (fun _ _ _ _ h => h.inside hsrc.last fun seed hseed => (hs seed hseed).inside hsrc.last) hp
  Fits _ _ p := p.cursor.Steady lines ∧ p.cursor.session.out = printed
  hold h := h
  moved := by
    rintro n held p c level ⟨hsteady, hprinted⟩ ho hs
    obtain ⟨hsteady', hout⟩ := hsteady.steps ho hs
    exact ⟨(), trivial, hsteady', hout.trans hprinted⟩
  remembered h := h
  Breaks := Parser.Blamed printed
  strict := True
  lax := .inl trivial
  within _ {_ _ _} hp := hp
  regular _ := hsrc.regular
  performed := by
    intro n own r i a rest kept kept' settled span p hfits ho hp _ hseeds hleft hv hsteps hsame _ hspan
    rw [List.forall₂_eq_eq_eq] at hsame
    subst hsame
    obtain ⟨hsteady, hprinted⟩ := hfits
    obtain ⟨all, hb, hmem⟩ := hleft.mem
    obtain ⟨k, hready, -⟩ := hsteps.ready (fun _ _ _ _ h => h.lies hsrc.last False.elim (suits_showing src lines)
      fun seed hs => (hseeds seed hs).lies hsrc.last False.elim (suits_showing src lines))
      (Rule.regular_alternatives hb a (hmem a List.mem_cons_self)) hv
    have hlines : p.cursor.session.lines = lines :=
      hsteady.session_lines (Nat.lt_of_lt_of_le (Nat.zero_lt_of_lt hready.lt) ho.index_le)
    refine (hready.works hsrc.toWhole hspan p).mono (fun x p' hy ⟨htouch, _⟩ => ?_) fun stop p' hblamed =>
      hprinted ▸ hblamed (hsrc.fair _ _) hlines
    refine ⟨(), x, trivial, rfl, fun k hready => ?_, ?_, htouch.out.trans hprinted⟩
    · obtain ⟨-, _, -, -, hshows, hsucceeds⟩ := ((hready.works hsrc.toWhole hspan) p).of_yields hy
      exact ⟨hshows.weaken False.elim, hsucceeds⟩
    · have hsame := htouch.lines
      obtain ⟨signs, session, rfl⟩ := htouch.only
      exact hsteady.withSession hsame

end Grammar

end Labyrinth
