import Labyrinth.Proofs.Grammar.Modest
import Labyrinth.Proofs.Token.Offers

/-!
# What builders touch

A builder changes the signs of literals and adds reports. It neither moves the cursor nor looks at the memory.
-/

namespace Labyrinth.Parser

open Labyrinth.Task Labyrinth.Grammar

/-- What a builder leaves as it is: everything but the signs and the reports, which become no fewer. -/
structure Touches (p p' : Parser) : Prop where
  only : ∃ signs session, p' = { p with signs, cursor := { p.cursor with session } }
  lines : p'.cursor.session.lines = p.cursor.session.lines
  out : p'.cursor.session.out = p.cursor.session.out
  unreported : Unreported p' → Unreported p

theorem Touches.refl (p : Parser) : Touches p p :=
  ⟨⟨p.signs, p.cursor.session, rfl⟩, rfl, rfl, id⟩

theorem Touches.trans {p p' p'' : Parser} (h : Touches p p') (h' : Touches p' p'') : Touches p p'' := by
  refine ⟨?_, h'.lines.trans h.lines, h'.out.trans h.out, fun hu => h.unreported (h'.unreported hu)⟩
  obtain ⟨⟨_, _, rfl⟩, ⟨signs, session, rfl⟩⟩ := And.intro h.only h'.only
  exact ⟨signs, session, rfl⟩

/-- Every run of a computation touches only signs and reports. -/
def Touching {α : Type} (act : Task Parser α) : Prop :=
  ∀ p a p', Yields act p a p' → Touches p p'

/-- A report is there afterwards; a fatal one is the end. -/
theorem reported_of_reportSpan {message : String} {span : Span} {fatal : Bool} {p p' : Parser} {u : Unit}
    (h : Yields (reportSpan message span fatal) p u p') : fatal = false ∧ ¬Unreported p' := by
  simp only [reportSpan, reportBetween, yields_bind, yields_get] at h
  obtain ⟨_, _, ⟨rfl, rfl⟩, h⟩ := h
  split at h
  · simp only [yields_bind, yields_pure] at h
    obtain ⟨_, _, ⟨rfl, rfl⟩, h⟩ := h
    cases fatal with
    | true => simp [Session.reportFatal] at h
    | false =>
      rw [if_neg Bool.false_ne_true] at h
      obtain ⟨session, hreport, rfl⟩ := yields_inSession.1 h
      exact ⟨rfl, Session.not_unreported_of_report hreport⟩
  · simp at h

theorem touching_reportSpan (message : String) (span : Span) (fatal : Bool) :
    Touching (reportSpan message span fatal) := by
  intro p u p' h
  have hreported := reported_of_reportSpan h
  simp only [reportSpan, reportBetween, yields_bind, yields_get] at h
  obtain ⟨_, _, ⟨rfl, rfl⟩, h⟩ := h
  split at h
  · simp only [yields_bind, yields_pure, hreported.1, Bool.false_eq_true, if_false, yields_inSession, Session.report,
      yields_get, yields_ofExcept, yields_modify] at h
    obtain ⟨_, _, ⟨rfl, rfl⟩, session, ⟨_, _, ⟨rfl, rfl⟩, _, _, ⟨_, rfl⟩, rfl⟩, rfl⟩ := h
    exact ⟨⟨_, _, rfl⟩, rfl, rfl, fun hu => absurd hu hreported.2⟩
  · simp at h

theorem composed_touching : Composed fun _ => Touching where
  pure _ p _ _ h := by
    obtain ⟨_, rfl⟩ := yields_pure.1 h
    exact .refl p
  bind hx hf _ _ _ h := by
    obtain ⟨a, _, h₁, h₂⟩ := yields_bind.1 h
    exact (hx _ _ _ h₁).trans (hf a _ _ _ h₂)
  look hf _ _ _ h := by
    obtain ⟨p, _, ⟨rfl, rfl⟩, h⟩ := yields_bind.1 h
    exact hf _ _ _ _ h
  fail _ _ _ _ h := absurd h not_yields_fail
  reportSpan := touching_reportSpan
  newSign _ _ _ _ h := by
    simp only [newSign, yields_bind, yields_get, yields_modify, yields_pure] at h
    obtain ⟨_, _, ⟨rfl, rfl⟩, _, _, rfl, _, rfl⟩ := h
    exact ⟨⟨_, _, rfl⟩, rfl, rfl, id⟩
  setSign _ _ _ _ _ h := by
    rw [setSign, yields_modify] at h
    subst h
    exact ⟨⟨_, _, rfl⟩, rfl, rfl, id⟩

/-- Actions touch only signs and reports. -/
theorem touching_perform (action : Action) (span : Span) (kept : List Parsed) :
    Touching (perform action span kept) :=
  composed_touching.perform action span kept

end Labyrinth.Parser
