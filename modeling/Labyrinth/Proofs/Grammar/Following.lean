import Labyrinth.Proofs.Grammar.Agreement
import Labyrinth.Proofs.Grammar.Building
import Labyrinth.Proofs.Grammar.Running

/-!
# The parser follows plain reading

Wherever plain reading yields a result, the parser yields one that is alike, at the same place. Its memory makes
it faster and changes nothing else.
-/

namespace Labyrinth.Grammar

open Labyrinth.Task

theorem Parsed.likeness_like (R : NumberNode SignRef → NumberNode SignRef → Prop) : Likeness (Parsed.Like R) where
  token := .token
  nothing := .nothing
  list h := .list (parsedsLike_iff.2 h)
  gather hx hy := .list (.cons hx (parsedsLike_iff.2 hy.items))
  succeeds := Parsed.Like.succeeds
  isNothing := Parsed.Like.isNothing

variable {src : Source} {i : Nat} {lines : Array String} {n : Ledger} {p : Parser}

/-- No span that an action is given is marked as recovered. -/
theorem Spans.recovered {a : Action} {j : Nat} {span : Span} (h : Spans src a i j span) : span.recovered = false := by
  unfold Spans at h
  split at h
  · obtain ⟨_, _, _, _, rfl⟩ := h
    rfl
  · rw [h]
    rfl

/-- An operand that takes a sign up is remembered. -/
theorem Ledger.Fits.remember {place : Nat} {c : Call} {entry : Parsed × Nat} (h : n.Fits src lines (c.held place) p) :
    n.Fits src lines none { p with memory := p.memory.insert (place, c) entry } :=
  { h with
    settled := by
      intro ref q s hq hs hne
      obtain ⟨m, hm, hheld | hmem⟩ := h.settled ref q s hq hs hne
      · refine ⟨m, hm, .inr (ResultTable.mem_insert.2 (.inl ?_))⟩
        cases c with
        | rule r =>
          simp only [Call.held, Rule.held] at hheld
          split at hheld
          · next hr => rw [hr, Option.some.inj hheld]
          · cases hheld
        | _ => cases hheld
      · exact ⟨m, hm, .inr (ResultTable.mem_insert.2 (.inr hmem))⟩ }

/-- Only where an operand is read anew can its action take a sign up. -/
theorem Left.takes_sign {again : Outcomes} {r : Rule} {a : Alternative} {rest : List Alternative}
    (h : Left again r i (a :: rest)) {op : UnaryOp} (ha : a.action = .unary op) : r = .factor := by
  obtain ⟨all, hb, hmem⟩ := h.mem
  have hsigns := r.signs_body
  rw [hb, show (Body.choice all).signs = true from
    List.any_eq_true.2 ⟨a, hmem a List.mem_cons_self, by rw [ha]; rfl⟩] at hsigns
  exact beq_iff_eq.1 hsigns.symm

section Following

variable {src : Source} {lines : Array String}

/-- An account of a parser that does what plain reading does: it makes only calls that plain reading makes, and a
ledger tells where the signs belong that its results refer to. -/
def following (hend : src.Ended) (hregular : ∀ t ∈ src.tokens, t.kind.isRegular = true)
    (hnames : ∀ t ∈ src.tokens, t.kind = .name → (Text.item? lines (t.start.1 - 1)).isSome = true) :
    Account src false where
  Note := Ledger
  Later := Ledger.Later
  later_refl := .refl
  later_trans := .trans
  made _ := src.built
  made_later _ _ _ _ _ _ h := h
  Stands n := Parsed.Like (n.Marks src)
  stands_later hl _ _ h := h.mono fun _ _ => hl.marks
  likeness _ := Parsed.likeness_like _
  Place own c i := i < src.tokens.length ∧ ∃ x j, Reads src src.built false own c i x j
  Room own r i := i < src.tokens.length ∧
    ∃ x j, BodyTo src.built false (Reads src src.built false own) i r.body x j
  room_anew := by
    rintro own r i hm ⟨hi, x, j, h⟩
    exact ⟨hi, x, j, h.body hm⟩
  room_handed := by
    rintro own r i hm ⟨hi, x, j, h⟩
    rcases h.rule_cases with ⟨hm', -⟩ | ⟨-, hb⟩ | ⟨hm', -⟩
    · cases hm.symm.trans hm'
    · exact ⟨hi, x, j, hb⟩
    · cases hm.symm.trans hm'
  room_grown := by
    rintro n own r i entry hm ⟨hi, x, j, h⟩ hown hs
    rcases h.rule_cases with ⟨hm', -⟩ | ⟨hm', -⟩ | ⟨-, ⟨seed, hseed, hr, hplace⟩ | hg⟩
    · cases hm.symm.trans hm'
    · cases hm.symm.trans hm'
    · exact absurd hplace (hown seed hseed hr)
    · exact ⟨hi, hg.exists_round hs fun h h' => BodyTo.unique h h'⟩
  place_made := by
    rintro n own r i c k ⟨hi, x, j, hb⟩ hs hmade
    refine ⟨hmade.inside (fun _ _ _ _ h => h.inside hend fun seed hseed => (hs seed hseed).inside hend) hi, ?_⟩
    exact hmade.comes (Reads.agree_self own) hb
  Fits n held p := n.Fits src lines held p
  hold := Ledger.Fits.hold
  moved h ho hs := ⟨_, .refl _, { h with steady := (h.steady.steps ho hs).1 }⟩
  remembered := Ledger.Fits.remember
  Breaks _ _ := False
  strict := True
  lax := .inl trivial
  within _ {_ _ _} hp := hp.1
  regular _ := hregular
  performed := by
    rintro n own r i a rest kept kept' settled span p hfits ho ⟨-, x, j, hb⟩ _ hseeds hleft hv hsteps hkept hnew hspan
    have hdet : Agree (· = ·) (Reads src src.built false own) _ := Reads.agree_self own
    obtain ⟨y, hy⟩ : ∃ y, src.build i a.action kept' = some y := by
      obtain ⟨_, _, hc⟩ := hleft.choiceTo hdet hb
      cases hc with
      | skip hv' | blamed hv' => cases hv.symm.trans hv'
      | done _ hs hx =>
        cases (hs.unique hdet hsteps).1
        exact ⟨_, hx⟩
      | settled _ hs | next _ hs => cases (hs.unique hdet hsteps).1
    have hlt := hsteps.advances (fun _ _ _ _ h => h.onward fun seed hs => (hseeds seed hs).onward) hleft
    have hsign : ∀ op, a.action = .unary op → r.held i = some i ∧ (i, Call.rule .factor) ∉ p.memory := by
      intro op hop
      obtain rfl := hleft.takes_sign hop
      refine ⟨if_pos rfl, fun hmem => ?_⟩
      rw [ResultTable.mem_iff_isSome_getElem?, hnew rfl] at hmem
      cases hmem
    obtain ⟨x, p', n', hyields, hl, hfits', hlike⟩ := Ledger.perform_builds hspan.recovered hfits
      (Nat.lt_of_lt_of_le (Nat.zero_lt_of_lt hlt) ho.index_le) hnames (parsedsLike_iff.2 hkept) hsign hy
    exact (ends_iff_of_yields hyields).2 ⟨n', y, hl, hlike, hy, hfits'⟩

end Following

/-- The literal of a finished tree has the value and the sign that plain reading settled on. -/
def Settles (a : NumberNode Sign) (b : NumberNode SignRef) : Prop :=
  a.value = b.value ∧ a.span.recovered = b.span.recovered ∧ ∀ s : Sign, b.sign = s.mark → a.sign = s

theorem Ledger.Fits.settles {held : Option Nat} (h : n.Fits src lines held p) {a b : NumberNode SignRef}
    (hab : n.Marks src a b) : Settles (a.mapSign p.signOf) b := by
  obtain ⟨hv, hspan, q, hq, hm⟩ := hab
  refine ⟨hv, hspan, fun s hs => ?_⟩
  have hof : ∀ {t}, n.signs[a.sign]? = some t → p.signOf a.sign = t := by
    intro t ht
    rw [Parser.signOf, h.signs, Array.getD_eq_getD_getElem?, ht, Option.getD_some]
  change p.signOf a.sign = s
  rcases hm with ⟨hl, hm⟩ | ⟨_, hm | ⟨t, _, hm, ht⟩⟩
  · rw [hof (h.unled _ _ hq hl)]
    rw [hs] at hm
    cases s <;> first | rfl | cases hm
  · rw [hs] at hm
    cases s <;> cases hm
  · rw [hof ht]
    rw [hs] at hm
    cases s <;> cases t <;> first | rfl | cases hm

/-- Where plain reading finds a program, the parser returns it. -/
theorem parse_follows {src : Source} {session : Session} {text file : String} {tree : Program SignRef} {j : Nat}
    (ho : (Parser.ofText session text file).cursor.Offers src.tokens) (hend : src.Ended)
    (hregular : ∀ t ∈ src.tokens, t.kind.isRegular = true)
    (hnames : ∀ t ∈ src.tokens, t.kind = .name →
      (Text.item? (Text.splitLines (Text.normalizeBreaks text)) (t.start.1 - 1)).isSome = true)
    (hne : 0 < src.tokens.length) (h : Reads src src.built false none (.rule .start) 0 (.program tree) j) :
    ∃ p parser, Yields (Parser.parse (.rule .start)) (Parser.ofText session text file) (.program p) parser ∧
      Program.Like Settles (p.mapSign parser.signOf) tree := by
  have hready := Account.ready_fresh (A := following hend hregular hnames) (n := ⟨[], #[]⟩)
    (p := Parser.ofText session text file) ⟨rfl, ⟨rfl, nofun⟩, rfl, nofun, nofun⟩ ho rfl rfl rfl rfl rfl
    (src.depth (.rule .start) 0 + 1)
  have hplace : (following hend hregular hnames).Place none (.rule .start)
      (Parser.ofText session text file).cursor.index := ⟨hne, _, _, h⟩
  obtain ⟨x, parser, hy, n, -, hready', -, y, hlike, hread⟩ :=
    (Account.Ready.read hready hplace (by rintro _ ⟨rfl⟩; nofun)).exists_yields
  obtain ⟨rfl, -⟩ := h.unique hread
  cases hlike with
  | @program p _ hp =>
    refine ⟨p, parser, ?_, hp.1, StmtsLike.mapSign (fun _ _ => hready'.fits.settles) hp.2⟩
    exact yields_modify_bind.2 (Yields.bind hy (yields_pure.2 ⟨rfl, rfl⟩))

end Labyrinth.Grammar
