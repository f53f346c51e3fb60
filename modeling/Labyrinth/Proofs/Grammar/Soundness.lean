import Labyrinth.Proofs.Grammar.Coverage
import Labyrinth.Proofs.Grammar.Typing
import Labyrinth.Proofs.Token.Positions

/-!
# What is read without reports is well formed

All tokens of a program that is handed on were taken without a report, so they are well formed, and so is whatever
actions that report nothing make of them.
-/

namespace Labyrinth.Grammar

open Labyrinth.Task

/-- Actions that report nothing make something well formed. -/
theorem suits_laid {src : Source} (hsrc : src.Whole) (lines : Array String) :
    Suits src lines True (laid src) (laid src) := by
  rintro a i j kept x k ⟨span, p, p', hspan, hy, hu⟩ hready
  obtain ⟨-, d, -, hd, hshows, -⟩ := (hready.works hsrc hspan p).of_yields hy
  exact ⟨hshows.weaken fun _ => hd hu trivial, span, p, p', hspan, hy, hu⟩

/-- A program spans all tokens before the end of the text, and its nodes lie where the tokens lie that they were read
from. -/
theorem Reads.placed_of_start {src : Source} {complaining : Bool} {p : Program SignRef} (hsrc : src.Whole)
    (hwell : ∀ t ∈ src.tokens, t.WellFormed) (lines : Array String)
    (h : Reads src (laid src) complaining none (.rule .start) 0 (.program p) src.tokens.length) :
    (src.ground lines 0 src.tokens.length).Site p.span ∧
      p.Placed (src.ground lines 0 src.tokens.length).Within := by
  obtain ⟨body, k, t, hbody, hsucceeds, ht, -, hlength, span, q, q', hspan, hmade, -⟩ := h.start_cases
  cases (yields_pure.1 hmade).1
  obtain ⟨hlies, -⟩ := hbody.lies hsrc.last (fun _ => hwell) (suits_laid hsrc lines) nofun
  obtain ⟨m, rfl⟩ := Nat.exists_eq_add_one_of_ne_zero (Nat.ne_zero_of_lt (hlies.onward.lt hsucceeds))
  have hm : src.tokens[m]? = some src.tokens[m] := List.getElem?_eq_getElem (by omega)
  have hsite : (src.ground lines 0 src.tokens.length).Site span := by
    obtain ⟨first, u, hfirst, hu, rfl⟩ := hspan
    have hstop : (src.ground lines 0 src.tokens.length).stop = m + 1 := by
      simp only [Source.ground]
      omega
    refine ⟨by rw [hstop]; exact Nat.succ_pos m, first, u, hfirst, ?_, rfl, rfl⟩
    -- The end of the text has no weight, so the search goes on to the token before it.
    have hend : Cursor.hasWeight t = .ok false := by rw [Cursor.hasWeight, (hsrc.last (by omega) ht).1]
    have hget : src.tokens.toArray.getD (m + 1) default = t := by simp [Array.getD_eq_getD_getElem?, ht]
    rw [hlength, Cursor.lastOfWeight, hget, hend] at hu
    cases (hsrc.lastOfWeight (by omega) hm (some t)).symm.trans hu
    rw [hstop]
    exact hm
  refine ⟨hsite, fun s hs => hsite.stmt (c := True) (Parser.stmtsOf_shows ?_ s hs)⟩
  have hblock : Category.block.Shows (src.ground lines 0 (m + 1)) True body :=
    (hlies.shows rfl).resolve_left (by rintro rfl; cases hsucceeds)
  exact hblock.mono (Source.ground_into (Nat.le_refl 0) (by omega)) id

end Labyrinth.Grammar

namespace Labyrinth.Program

open Labyrinth.Task Labyrinth.Grammar

/-- A program that the parser yields without a report is well formed. -/
theorem wellFormed_of_parse {text file : String} {session : Session} {p : Program SignRef}
    {parser : Parser} (h : Yields (Parser.parse (.rule .start)) (Parser.ofText session text file) (.program p) parser)
    (hclean : Unreported parser) : p.WellFormed := by
  obtain ⟨src, complaining, hreads, hwell, -, htokens⟩ := reads_of_parse h hclean
  have hsrc := Source.whole_of_scan htokens
  have hlies := (hreads.lies hsrc.last (fun _ => hwell) (suits_laid hsrc #[]) nofun).1
  obtain ⟨q, heq, hq⟩ := (hlies.shows rfl).resolve_left nofun
  cases heq
  exact hq trivial

theorem wellFormed_of_text {text file : String} {s s' : Session} {tree : Program Sign}
    (htree : Yields (ofText text file) s tree s') : tree.WellFormed := by
  obtain ⟨p, parser, hparse, hclean, rfl⟩ := of_yields_ofText htree
  exact (wellFormed_of_parse hparse hclean).mapSign parser.signOf

/-- A program that is handed on is well formed: whatever was not read as it should be was reported, and a report
ends the run. -/
theorem ofText_wellFormed {text file : String} {session session' : Session} {program : Program Sign}
    (h : Yields (ofText text file) session program session') : program.WellFormed := by
  obtain ⟨p, parser, hparse, hclean, rfl⟩ := of_yields_ofText h
  exact (wellFormed_of_parse hparse hclean).mapSign parser.signOf

/-- Every node inside a program that is handed on starts on a line of the text. -/
theorem ofText_placed {text file : String} {session session' : Session} {program : Program Sign}
    (h : Yields (ofText text file) session program session') :
    program.Placed fun _ span => Text.HasLine text span.start.1 := by
  obtain ⟨p, parser, hparse, hclean, rfl⟩ := of_yields_ofText h
  obtain ⟨src, complaining, hreads, hwell, -, hsrc⟩ := reads_of_parse hparse hclean
  obtain ⟨-, hplaced⟩ := hreads.placed_of_start (Source.whole_of_scan hsrc) hwell #[]
  refine (hplaced.mono ?_).mapSign parser.signOf
  rintro outer span ⟨a, k, l, b, -, -, hl, hb, hstop, -, t, u, ht, -, hstart, -⟩
  have hk : k < (Scan.ofNormalized (Text.normalizeBreaks text)).significant.length := by
    simp only [Source.ground, hsrc, List.length_append, List.length_singleton] at hstop
    omega
  rw [show (src.ground #[] 0 src.tokens.length).tokens = src.tokens from rfl, hsrc, List.getElem?_append_left hk] at ht
  have hline := Scan.hasLine_of_significant (List.mem_of_getElem? ht)
  rw [Text.HasLine, Text.splitLines_normalizeBreaks] at hline
  rw [hstart]
  exact hline

/-- A text that is read without reports. -/
def sampleText : String := "m[1 a] << -1V."

set_option maxRecDepth 10000 in
theorem ofText_wellFormed_sample : ∃ program session', Yields (ofText sampleText) {} program session' ∧
    program.body.length = 1 ∧ program.WellFormed := by
  have hgives : gives (ofText sampleText) {} (fun program _ => program.body.length == 1) = true := by decide +kernel
  obtain ⟨program, session', hrun, hlength⟩ := yields_of_gives hgives
  exact ⟨program, session', hrun, beq_iff_eq.1 hlength, ofText_wellFormed hrun⟩

end Labyrinth.Program
