import Labyrinth.Proofs.Grammar.Account
import Labyrinth.Proofs.Grammar.Spelling

/-!
# Every token counts

A program that the parser hands on is made of all tokens of the text but comments: the scan went through to the
end, and the statements of the program are spelled by its tokens, each of which was taken by the grammar exactly
once. A number that is spelled like the name of the end would be taken for the end; but the parser tries to read
a statement there first, and such a number is too long to be read without a report.
-/

namespace Labyrinth.Grammar

open List Labyrinth.Task

variable {t : Token} {x : Parsed} {j i : Nat} {c : Call} {src : Source}

/-! ### A number that is spelled like the end -/

/-- A number that is spelled like the name of the end. -/
def endLike : Token := ⟨.number, "ENDMARKER", default, default, ""⟩

/-- A token has the kind and the text of `endLike`. -/
def IsEndLike (t : Token) : Prop :=
  t.kind = endLike.kind ∧ t.text = endLike.text

theorem IsEndLike.accepts_eq (h : IsEndLike t) (c : Call) : c.accepts t = c.accepts endLike := by
  cases c with
  | rule r => rfl
  | token r => cases r <;> simp only [Call.accepts, Source.passes, h.1]
  | keyword k => simp only [Call.accepts, h.1]
  | expect text => simp only [Call.accepts, Parser.matchesText, h.1, h.2]

/-- A number that is spelled like the end is too long for a literal. -/
theorem IsEndLike.not_literal (h : IsEndLike t) : ¬Action.literal.Makes [.token t] x := by
  rintro ⟨span, p, p', hy, hu⟩
  have hlong : (Parser.digitsOf t).length > 3 := by
    rw [Parser.digitsOf, h.2]
    decide
  obtain ⟨n, p₁, hnumber, hy⟩ := yields_bind.1 hy
  obtain ⟨-, rfl⟩ := yields_pure.1 hy
  obtain ⟨tooLarge, p₂, hlength, hliteral⟩ := yields_bind.1 hnumber
  simp only [Parser.reportLength, if_pos hlong, yields_bind, yields_pure] at hlength
  obtain ⟨_, _, hreport, -, rfl⟩ := hlength
  exact (Parser.reported_of_reportSpan hreport).2 ((Parser.composed_touching.literalOf _ _ _ _ _ _ hliteral).unreported hu)

/-- The rules that read nothing at such a number. -/
def Rule.dead : Rule → Bool
  | functionDefinition | recoverFunctionDefinition | invalidFunctionDefinition | declaration | numberDeclaration
  | recoverNumberDeclaration | numberType | numberTypeRaw | identifier | word | keyword | robotKeyword | subscript
  | call | recoverSubscript | invalidSubscript | recoverCall | invalidCall => true
  | _ => false

/-- The rules that come to read a literal at such a number. -/
def Rule.stuck : Rule → Bool
  | statementGroup | statementList | statement | expr | assignment | comparison | sum | term | factor | primary
  | atom => true
  | _ => false

/-- Whether a call at the beginning of a rule reads nothing at such a number. -/
def Rule.deadCall (r : Rule) : Call → Bool
  | .rule s => s.dead && (s.memory != .forgotten || s.seed? == r.seed?) || r.seed? == some s
  | c => !c.accepts endLike

/-- Whether an alternative of a rule reads nothing at such a number. -/
def Rule.deadAlternative (r : Rule) (a : Alternative) : Bool :=
  match a.steps with
  | .need c :: _ | .keep c :: _ | .ahead c :: _ => r.deadCall c
  | _ => false

/-- Whether an alternative of a rule comes to read a literal at such a number. -/
def Rule.stuckAlternative (r : Rule) (a : Alternative) : Bool :=
  !a.invalid && (a == ⟨[.keep (.token .number)], .literal, false⟩ ||
    match a.steps.head?.bind Step.call? with
    | some (.rule s) => s.stuck && r.seed? != some s
    | _ => false)

/-- Whether some alternative comes to read a literal, and those before it read nothing. -/
def Rule.stuckChoice (r : Rule) : List Alternative → Bool
  | [] => false
  | a :: rest => r.stuckAlternative a || r.deadAlternative a && r.stuckChoice rest

variable {r : Rule} {complaining : Bool} {p' : Parser} {p : Program SignRef}

theorem Rule.body_of_dead (h : r.dead = true) : ∃ alternatives, r.body = .choice alternatives ∧
    ∀ a ∈ alternatives, r.deadAlternative a = true := by
  cases r <;> first | (cases h; done) | exact ⟨_, rfl, by decide⟩

theorem Rule.body_of_stuck (h : r.stuck = true) :
    (∃ alternatives, r.body = .choice alternatives ∧ r.stuckChoice alternatives = true) ∨
      ∃ first others, r.body = .gather first others ∧ first.stuck = true := by
  cases r <;> first
    | (cases h; done)
    | exact .inr ⟨_, _, rfl, rfl⟩
    | exact .inl ⟨_, rfl, by decide⟩

/-- The seed that a rule asks for is at hand at a place. -/
def AtHand (own : Option Seed) (r : Rule) (i : Nat) : Prop :=
  ∀ s, r.seed? = some s → ∃ seed ∈ own, seed.rule = s ∧ seed.place = i

/-- What the outcome of a call at such a number is like: calls that read nothing fail, and some have no outcome. -/
structure Jams (own : Option Seed) (c : Call) (i : Nat) (x : Parsed) : Prop where
  number : c = .token .number → ∃ t, x = .token t ∧ IsEndLike t
  token : c.isRule = false → c.accepts endLike = false → x.succeeds = false
  seed : ∀ seed ∈ own, c = .rule seed.rule → i = seed.place → x.succeeds = false
  dead : ∀ r : Rule, c = .rule r → r.dead = true → AtHand own r i → x.succeeds = false
  stuck : ∀ r : Rule, c = .rule r → r.stuck = true → ∃ seed ∈ own, seed.rule = r ∧ seed.place = i

section Jamming

variable {again : Outcomes} {own : Option Seed} {r : Rule} {i : Nat}
  (ha : ∀ c x j, again c i x j → Jams own c i x) (hhand : AtHand own r i)
variable {x : Parsed} {j : Nat} {complaining : Bool}

include ha hhand

theorem fails_of_deadCall (hc : r.deadCall c = true) (h : again c i x j) : x.succeeds = false := by
  have hj := ha c x j h
  cases c with
  | rule s =>
    rw [Rule.deadCall, Bool.or_eq_true] at hc
    rcases hc with hdead | hseed
    · rw [Bool.and_eq_true, Bool.or_eq_true, bne_iff_ne, beq_iff_eq] at hdead
      obtain ⟨hdead, hplace⟩ := hdead
      refine hj.dead s rfl hdead fun s' hs' => ?_
      rcases hplace with hm | hm
      · -- The rules among these that ask for a seed are not remembered.
        cases s <;> first | (cases hs'; done) | (cases hdead; done) | exact absurd rfl hm
      · exact hhand s' (hm ▸ hs')
    · obtain ⟨seed, hs, rfl, rfl⟩ := hhand s (beq_iff_eq.1 hseed)
      exact hj.seed seed hs rfl rfl
  | token | keyword | expect => exact hj.token rfl (by simpa [Rule.deadCall] using hc)

variable {a : Alternative} {out : Option (List Parsed × Nat)} {settled : Bool} {alternatives : List Alternative}

theorem StepsTo.fails_of_dead (hd : r.deadAlternative a = true) (h : StepsTo again [] false i a.steps out settled) :
    out = none ∧ settled = false := by
  have hno : ∀ {c : Call} {x : Parsed} {j : Nat}, r.deadCall c = true → again c i x j → ¬x.succeeds = true := by
    intro c x j hc h hx
    rw [fails_of_deadCall ha hhand hc h] at hx
    cases hx
  unfold Rule.deadAlternative at hd
  generalize a.steps = steps at hd h
  cases h with
  | done | cut => cases hd
  | @on _ _ _ _ _ _ _ _ _ s hs hc hx =>
    cases s <;> cases hs <;> first
      | cases hd
      | exact absurd hx (hno hd hc)
  | fails => exact ⟨rfl, rfl⟩

theorem ChoiceTo.fails_of_dead (hd : ∀ a ∈ alternatives, r.deadAlternative a = true)
    (h : ChoiceTo silent complaining again i alternatives x j) : x.succeeds = false := by
  induction h with
  | none => rfl
  | skip _ _ _ ih => exact ih fun a hmem => hd a (mem_cons_of_mem _ hmem)
  | done _ hs _ => cases (StepsTo.fails_of_dead ha hhand (hd _ mem_cons_self) hs).1
  | blamed => rfl
  | settled => rfl
  | next _ _ _ ih => exact ih fun a hmem => hd a (mem_cons_of_mem _ hmem)

omit hhand in
/-- An alternative that comes to read a literal has no outcome. -/
theorem StepsTo.not_stuck (hd : r.stuckAlternative a = true) (hown : ∀ seed ∈ own, r.seed? = some seed.rule)
    (h : StepsTo again [] false i a.steps out settled) :
    ∃ kept j, out = some (kept, j) ∧ ∀ x, ¬a.action.Makes kept x := by
  rw [Rule.stuckAlternative, Bool.and_eq_true, Bool.or_eq_true, beq_iff_eq] at hd
  rcases hd.2 with rfl | hcall
  · cases h with
    | on hs hc hx h =>
      cases hs
      obtain ⟨t, rfl, ht⟩ := (ha _ _ _ hc).number rfl
      cases h
      exact ⟨_, _, rfl, fun x => ht.not_literal⟩
    | fails hs hc hx =>
      cases hs
      obtain ⟨t, rfl, -⟩ := (ha _ _ _ hc).number rfl
      cases hx
  · exfalso
    split at hcall
    · next s hs =>
      rw [Bool.and_eq_true, bne_iff_ne] at hcall
      have hno : ∀ {x j}, ¬again (.rule s) i x j := by
        intro x j hc
        obtain ⟨seed, hmem, rfl, -⟩ := (ha _ _ _ hc).stuck s rfl hcall.1
        exact hcall.2 (hown seed hmem)
      generalize a.steps = steps at h hs
      cases h with
      | done => cases hs
      | cut => cases hs
      | on hcall hc | fails hcall hc =>
        cases hcall.symm.trans hs
        exact hno hc
    · cases hcall

theorem ChoiceTo.not_stuck (hd : r.stuckChoice alternatives = true) (hown : ∀ seed ∈ own, r.seed? = some seed.rule)
    (h : ChoiceTo silent complaining again i alternatives x j) : False := by
  induction h with
  | none => cases hd
  | @skip a _ _ _ hv _ _ ih =>
    rw [Rule.stuckChoice, Bool.or_eq_true, Bool.and_eq_true] at hd
    rcases hd with hd | hd
    · simp [Rule.stuckAlternative, hv] at hd
    · exact ih hd.2
  | done _ hs hx =>
    rw [Rule.stuckChoice, Bool.or_eq_true, Bool.and_eq_true] at hd
    rcases hd with hd | hd
    · obtain ⟨_, _, hout, hno⟩ := StepsTo.not_stuck ha hd hown hs
      cases hout
      exact hno _ hx
    · cases (StepsTo.fails_of_dead ha hhand hd.1 hs).1
  | blamed hv _ hs =>
    rw [Rule.stuckChoice, Bool.or_eq_true, Bool.and_eq_true] at hd
    rcases hd with hd | hd
    · simp [Rule.stuckAlternative, hv] at hd
    · cases (StepsTo.fails_of_dead ha hhand hd.1 hs).1
  | settled _ hs =>
    rw [Rule.stuckChoice, Bool.or_eq_true, Bool.and_eq_true] at hd
    rcases hd with hd | hd
    · obtain ⟨_, _, hout, -⟩ := StepsTo.not_stuck ha hd hown hs
      cases hout
    · cases (StepsTo.fails_of_dead ha hhand hd.1 hs).2
  | next _ hs _ ih =>
    rw [Rule.stuckChoice, Bool.or_eq_true, Bool.and_eq_true] at hd
    rcases hd with hd | hd
    · obtain ⟨_, _, hout, -⟩ := StepsTo.not_stuck ha hd hown hs
      cases hout
    · exact ih hd.2

/-- The body of a rule that reads nothing fails. -/
theorem BodyTo.fails_of_dead (hr : r.dead = true)
    (h : BodyTo silent complaining again i r.body x j) : x.succeeds = false := by
  obtain ⟨alternatives, hb, hd⟩ := Rule.body_of_dead hr
  rw [hb] at h
  exact ChoiceTo.fails_of_dead ha hhand hd h

/-- The body of a rule that comes to read a literal has no outcome. -/
theorem BodyTo.not_stuck (hr : r.stuck = true) (hown : ∀ seed ∈ own, r.seed? = some seed.rule)
    (h : BodyTo silent complaining again i r.body x j) : False := by
  rcases Rule.body_of_stuck hr with ⟨alternatives, hb, hd⟩ | ⟨first, others, hb, hd⟩
  · rw [hb] at h
    exact ChoiceTo.not_stuck ha hhand hd hown h
  · have hseed : r.seed? = none := by
      cases r <;> first | rfl | cases hb
    have hno : ∀ {x j}, ¬again (.rule first) i x j := by
      intro x j hc
      obtain ⟨seed, hmem, -⟩ := (ha _ _ _ hc).stuck first rfl hd
      rw [hseed] at hown
      cases hown seed hmem
    rw [hb] at h
    cases h with
    | missing hf | alone hf | both hf => exact hno hf

end Jamming

/-- Outcomes without reports at a number that is spelled like the end. -/
theorem Reads.jams {own : Option Seed} (h : Reads src silent complaining own c i x j) (ht : src.tokens[i]? = some t)
    (he : IsEndLike t)
    (hown : ∀ seed ∈ own, seed.rule.memory = .grown ∧ (seed.place = i → seed.result.1.succeeds = false)) :
    Jams own c i x := by
  refine h (fun own c k x j => k = i → (∀ seed ∈ own, seed.rule.memory = .grown ∧
    (seed.place = i → seed.result.1.succeeds = false)) → Jams own c k x) (fun own c k x j h hk hown => ?_) rfl hown
  subst hk
  cases h with
  | take hc ht' hacc =>
    cases ht.symm.trans ht'
    refine ⟨fun _ => ⟨t, rfl, he⟩, fun _ hno => ?_, ?_, ?_, ?_⟩
    · rw [he.accepts_eq, hno] at hacc
      cases hacc
    · rintro seed - rfl
      cases hc
    · rintro r rfl
      cases hc
    · rintro r rfl
      cases hc
  | refuse hc ht' hacc =>
    cases ht.symm.trans ht'
    refine ⟨?_, fun _ _ => rfl, fun _ _ _ _ => rfl, fun _ _ _ _ => rfl, ?_⟩
    · rintro rfl
      rw [he.accepts_eq] at hacc
      cases hacc
    · rintro r rfl
      cases hc
  | anew hm hb =>
    rename_i r
    have hhand : AtHand none r k := fun s hs => by
      rw [Rule.seed?_eq_none hm] at hs
      cases hs
    refine ⟨nofun, nofun, ?_, ?_, ?_⟩
    · rintro seed hs ⟨rfl⟩
      rw [(hown seed hs).1] at hm
      cases hm
    · rintro s ⟨rfl⟩ hdead -
      exact BodyTo.fails_of_dead (fun _ _ _ h => h rfl nofun) hhand hdead hb
    · rintro s ⟨rfl⟩ hstuck
      exact (BodyTo.not_stuck (fun _ _ _ h => h rfl nofun) hhand hstuck nofun hb).elim
  | handed hm hb =>
    rename_i r
    refine ⟨nofun, nofun, ?_, ?_, ?_⟩
    · rintro seed hs ⟨rfl⟩
      rw [(hown seed hs).1] at hm
      cases hm
    · rintro s ⟨rfl⟩ hdead hhand
      exact BodyTo.fails_of_dead (fun _ _ _ h => h rfl hown) hhand hdead hb
    · rintro s ⟨rfl⟩ hstuck
      cases r <;> cases hm <;> cases hstuck
  | seed hs =>
    obtain ⟨hgrown, hfails⟩ := hown _ hs
    refine ⟨nofun, nofun, fun _ _ _ _ => hfails rfl, ?_, ?_⟩
    · exact fun _ _ _ _ => hfails rfl
    · rintro s ⟨rfl⟩ -
      exact ⟨_, hs, rfl, rfl⟩
  | grown hm hno hg =>
    rename_i r
    have hstuck : r.stuck = true := by
      cases r <;> first | rfl | cases hm
    have hseed : r.seed? = some r := Rule.seed?_of_grown hm
    have hplanted : ∀ seed ∈ some (Seed.mk r k (.nothing, k)), seed.rule.memory = .grown ∧
        (seed.place = k → seed.result.1.succeeds = false) := by
      rintro _ ⟨rfl⟩
      exact ⟨hm, fun _ => rfl⟩
    have hhand : AtHand (some ⟨r, k, .nothing, k⟩) r k := by
      intro s hs
      rw [hseed] at hs
      cases hs
      exact ⟨_, rfl, rfl, rfl⟩
    have hasks : ∀ seed ∈ some (Seed.mk r k (.nothing, k)), r.seed? = some seed.rule := by
      rintro _ ⟨rfl⟩
      exact hseed
    cases hg with
    | stop hb | more hb =>
      exact (BodyTo.not_stuck (fun _ _ _ h => h rfl hplanted) hhand hstuck hasks hb).elim

/-! ### The end of a program -/

/-- What actions make with the spans that they have where they are carried out, if they report nothing. -/
def laid (src : Source) : Makings := fun a i j kept x =>
  ∃ span p p', Spans src a i j span ∧ Yields (Parser.perform a span kept) p x p' ∧ Unreported p'

theorem laid_silent (a : Action) (i j : Nat) (kept : List Parsed) (x : Parsed)
    (h : laid src a i j kept x) : silent a i j kept x := by
  obtain ⟨span, p, p', -, hy, hu⟩ := h
  exact ⟨span, p, p', hy, hu⟩

/-- An account of reports: a note says of all actions so far that they reported nothing. -/
def reports (src : Source) (complaining : Bool) : Account src complaining where
  Note := Prop
  Later n n' := n' → n
  later_refl _ := id
  later_trans h h' := h ∘ h'
  made n a i j kept x := ∃ span p p', Spans src a i j span ∧ Yields (Parser.perform a span kept) p x p' ∧
    (n → Unreported p')
  made_later := by
    rintro n n' hl a i j kept x ⟨span, p, p', hspan, hy, hu⟩
    exact ⟨span, p, p', hspan, hy, fun hn => hu (hl hn)⟩
  Stands _ := Eq
  stands_later _ _ _ h := h
  likeness _ := likeness_eq
  Place _ _ _ := True
  Room _ _ _ := True
  room_anew _ _ := trivial
  room_handed _ _ := trivial
  room_grown _ _ _ _ := trivial
  place_made _ _ _ := trivial
  Fits n _ p := Unreported p → n ∧ p.cursor.Sound
  hold := id
  moved h ho hs := by
    obtain ⟨-, -, hm⟩ := ho.steps hs
    refine ⟨_, id, fun hu => ?_⟩
    obtain ⟨hn, hsound⟩ := h (hm.unreported hu)
    exact ⟨hn, hm.sound hu hsound⟩
  remembered h := h
  Breaks _ _ := True
  strict := False
  lax := .inr fun _ _ => trivial
  within := False.elim
  regular := False.elim
  performed := by
    intro n own r i a rest kept kept' settled span p hfits _ _ _ _ _ _ _ hkept _ hspan
    rw [forall₂_eq_eq_eq] at hkept
    subst hkept
    refine ⟨fun {x p'} hy => ?_, fun _ => trivial⟩
    have htouches := Parser.touching_perform _ _ _ _ _ _ hy
    refine ⟨n ∧ Unreported p', x, And.left, rfl, ⟨span, p, p', hspan, hy, And.right⟩, fun hu => ?_⟩
    obtain ⟨hn, hs⟩ := hfits (htouches.unreported hu)
    obtain ⟨_, _, rfl⟩ := htouches.only
    exact ⟨⟨hn, hu⟩, hs.taken, hs.upcoming⟩

/-- What a parser that remembers nothing yet reads without a report is an outcome without reports. -/
theorem reads_of_read {p : Parser} (hy : Yields (Parser.read c) p x p') (ho : p.cursor.Offers src.tokens)
    (hquiet : p.verbose = false) (hreserved : p.reserved = []) (hsoft : p.softReserved = []) (hmemory : p.memory = {})
    (hsound : Unreported p → p.cursor.Sound) (hc : ∀ r, c = .rule r → r.memory ≠ .forgotten) :
    p'.cursor.Offers src.tokens ∧ p'.verbose = false ∧ p'.reserved = [] ∧ p'.softReserved = [] ∧
      (Unreported p' → p'.cursor.Sound ∧
        Reads src (laid src) p.complaining none c p.cursor.index x p'.cursor.index) := by
  have hready := Account.ready_fresh (A := reports src p.complaining) (n := True) (fun hu => ⟨trivial, hsound hu⟩) ho
    hquiet hreserved hsoft rfl hmemory (src.depth c p.cursor.index + 1)
  obtain ⟨n, -, hready', -, _, rfl, hreads⟩ := (hready.read trivial hc).of_yields hy
  refine ⟨hready'.offers, hready'.quiet, hready'.reserved, hready'.softReserved, fun hu => ?_⟩
  obtain ⟨hn, hs⟩ := hready'.fits hu
  refine ⟨hs, hreads.mono ?_⟩
  rintro a i j kept x ⟨span, q, q', hspan, hy, hnote⟩
  exact ⟨span, q, q', hspan, hy, hnote hn⟩

theorem RoundsTo.tried {again : Outcomes} {steps : List Step} {done : List Parsed}
    (h : RoundsTo again steps done i x j) : ∃ out settled, StepsTo again [] false j steps out settled := by
  induction h with
  | stop hs _ => exact ⟨_, _, hs⟩
  | more _ _ ih => exact ih

/-- A program is made of the statements up to a token that is taken for the end. -/
theorem Reads.start_cases {made : Makings} (h : Reads src made complaining none (.rule .start) i (.program p) j) :
    ∃ body k t, Reads src made complaining none (.rule .statements) i body k ∧ body.succeeds = true ∧
      src.tokens[k]? = some t ∧ (Call.expect "ENDMARKER").accepts t = true ∧ j = k + 1 ∧
      made .program i j [body] (.program p) := by
  cases h.body rfl with
  | done _ hs hx =>
    cases hs with
    | on hcall hc hx' hs =>
      cases hcall
      cases hs with
      | on hcall hend hy hs =>
        cases hcall
        cases hs
        cases hend.leads with
        | take _ ht hacc => exact ⟨_, _, _, hc, hx', ht, hacc, rfl, hx⟩
        | refuse => cases hy
  | skip hv => cases hv
  | next _ _ hb => cases hb

/-- Where a program ends, a further statement was looked for. -/
theorem Reads.statements_of_start (h : Reads src silent complaining none (.rule .start) i (.program p) j) :
    ∃ body k t, Reads src silent complaining none (.rule .statements) i body k ∧ body.succeeds = true ∧
      src.tokens[k]? = some t ∧ (Call.expect "ENDMARKER").accepts t = true ∧ j = k + 1 ∧
      p.body = Parser.stmtsOf body ∧ ∃ y l, Reads src silent complaining none (.rule .statementGroup) k y l := by
  obtain ⟨body, k, t, hbody, hsucceeds, ht, hacc, hj, hmakes⟩ := h.start_cases
  have hprogram : p.body = Parser.stmtsOf body := by
    obtain ⟨span, q, q', hy, -⟩ := hmakes
    cases (yields_pure.1 hy).1
    rfl
  obtain ⟨g, hgroups⟩ : ∃ g, Reads src silent complaining none (.rule .groups) i g k := by
    cases hbody.body rfl with
    | done _ hs _ =>
      cases hs with
      | on hcall hc _ hs =>
        cases hcall
        cases hs
        exact ⟨_, hc⟩
    | skip hv | blamed hv => cases hv
    | settled => cases hsucceeds
    | next _ _ hb =>
      cases hb
      cases hsucceeds
  refine ⟨body, k, t, hbody, hsucceeds, ht, hacc, hj, hprogram, ?_⟩
  obtain ⟨out, settled, hs⟩ := RoundsTo.tried (hgroups.body rfl)
  cases hs with
  | on hcall hc | fails hcall hc =>
    cases hcall
    exact ⟨_, _, hc⟩

/-! ### The tokens of a text -/

/-- A token that is spelled like the name of the end is a number. -/
theorem scanFrom_endLike (table : Scan.LineTable) (mode : Scan.Mode) (line offset : Nat) (chars : List Char)
    (hm : mode = .regular) : ∀ step ∈ (Scan.scanFrom table mode line offset chars).steps,
      step.token.text = endLike.text → step.token.kind = endLike.kind := by
  have hword : ∀ {word : List Char}, String.ofList word = endLike.text → Word.kind? word = some .number := by
    intro word hw
    have heq : word = endLike.text.toList := by rw [← hw, String.toList_ofList]
    rw [heq]
    decide
  fun_induction Scan.scanFrom table mode line offset chars with
  | case1 => simp
  | case2 mode line offset c rest _ ih => exact ih hm
  | case3 mode line offset rest _ ih => exact ih hm
  | case4 mode line offset rest _ _ _ comment ih =>
    refine forall_mem_cons.2 ⟨fun htext => ?_, ih hm⟩
    have hfirst : comment.head? = some 'E' := by
      simpa [Scan.tokenAt, endLike] using congrArg (fun s => s.toList.head?) htext
    exact absurd (show some '#' = some 'E' from hfirst) (by decide)
  | case5 mode line offset c rest _ _ _ op hop _ ih =>
    refine forall_mem_cons.2 ⟨fun htext => ?_, ih hm⟩
    have hmem : endLike.text ∈ operators := by
      have heq : op = endLike.text := by rw [← htext]; exact String.ofList_toList.symm
      rw [← heq]
      exact mem_of_find?_eq_some hop
    exact absurd hmem (by decide)
  | case6 => simp
  | case7 line offset c rest _ _ _ _ word _ onward _ kind hkind ih =>
    refine forall_mem_cons.2 ⟨fun htext => ?_, ih rfl⟩
    rw [hword htext] at hkind
    exact (Option.some.inj hkind).symm
  | case8 mode line offset c rest _ _ _ _ word _ onward _ _ kind complaint hmend hno ih =>
    exact forall_mem_cons.2 ⟨fun htext => (hno _ hm (hword htext)).elim, ih rfl⟩
  | case9 => simp

theorem eq_endMarker_of_code? {kind : TokenKind} (h : kind.isRegular = true) (hc : kind.code? = some 0) :
    kind = .endMarker := by
  cases kind with
  | endMarker => rfl
  | keyword k =>
    simp only [TokenKind.code?, TokenKind.firstKeyword, Option.some.injEq] at hc
    omega
  | name | number | op => simp [TokenKind.code?] at hc
  | comment | foreign | unknown => cases h

/-- A token of a text that is taken for the end, and is not the end, is a number that is spelled like it. -/
theorem isEndLike_of_accepts {text : String} (ht : t ∈ (Scan.ofNormalized text).significant)
    (ha : (Call.expect "ENDMARKER").accepts t = true) : IsEndLike t := by
  obtain ⟨hmem, hcomment⟩ := mem_filter.1 ht
  obtain ⟨step, hstep, rfl⟩ := mem_map.1 hmem
  have hkind := (Scan.scanFrom_ordinary _ _ _ _ _ step hstep).resolve_right (by simpa using hcomment)
  have htext : step.token.text = endLike.text := by
    have hcode : TokenKind.codeNamed? "ENDMARKER" = some 0 := by decide
    have hspelling : TokenKind.spellings.lookup "ENDMARKER" = none := by decide
    simp only [Call.accepts, Parser.matchesText, hcode, hspelling, Bool.or_false, Bool.or_eq_true, beq_iff_eq] at ha
    exact ha.resolve_right fun hzero => hkind.2 (eq_endMarker_of_code? hkind.1 hzero)
  exact ⟨scanFrom_endLike _ _ _ _ _ rfl step hstep htext, htext⟩

/-- A parser reads by a rule once or twice, and whatever it yields without a report is an outcome without
reports. -/
theorem laid_of_parse {p : Parser} (hy : Yields (Parser.parse c) p x p') (ho : p.cursor.Offers src.tokens)
    (hi : p.cursor.index = 0) (hquiet : p.verbose = false) (hreserved : p.reserved = []) (hsoft : p.softReserved = [])
    (hmemory : p.memory = {}) (hsound : p.cursor.Sound) (hc : ∀ r, c = .rule r → r.memory ≠ .forgotten)
    (hu : Unreported p') : p'.cursor.Offers src.tokens ∧ p'.cursor.Sound ∧
      ∃ complaining, Reads src (laid src) complaining none c 0 x p'.cursor.index := by
  simp only [Parser.parse, yields_bind, yields_modify] at hy
  obtain ⟨_, p₁, rfl, result, p₂, hread, hy⟩ := hy
  obtain ⟨ho₂, hquiet₂, hreserved₂, hsoft₂, hreads⟩ :=
    reads_of_read hread ho hquiet hreserved hsoft hmemory (fun _ => hsound) hc
  split at hy
  · obtain ⟨rfl, rfl⟩ := yields_pure.1 hy
    exact ⟨ho₂, (hreads hu).1, false, hi ▸ (hreads hu).2⟩
  · simp only [yields_bind, yields_modify] at hy
    obtain ⟨_, p₃, rfl, _, p₄, hreset, _, p₅, rfl, result', p₆, hread', hy⟩ := hy
    obtain ⟨cursor, hcursor, rfl⟩ := Parser.yields_inCursor.1 hreset
    obtain ⟨ho₄, rfl⟩ := ho₂.reset hcursor
    obtain ⟨ho₆, -, -, -, hreads'⟩ := reads_of_read hread' ho₄ hquiet₂ hreserved₂ hsoft₂ rfl
      (fun hu => ⟨(hreads hu).1.taken, (hreads hu).1.upcoming⟩) hc
    split at hy
    · obtain ⟨rfl, rfl⟩ := yields_pure.1 hy
      exact ⟨ho₆, (hreads' hu).1, true, (hreads' hu).2⟩
    · simp [Session.reportFatal] at hy

end Labyrinth.Grammar

namespace Labyrinth.Program

open List Labyrinth.Task Labyrinth.Grammar

theorem unreported_of_reportCollected {separator : String} {s s' : Session} {u : Unit}
    (h : Yields (Session.reportCollected separator) s u s') : Unreported s := by
  simp only [Session.reportCollected, yields_bind, yields_get] at h
  obtain ⟨_, _, ⟨rfl, rfl⟩, h⟩ := h
  split at h
  · next hempty => exact Array.isEmpty_iff.1 hempty
  · simp at h

variable {text file : String} {session : Session}

/-- A program is handed on if the parser yields one and nothing was reported. -/
theorem of_yields_ofText {session' : Session} {program : Program Sign}
    (h : Yields (ofText text file) session program session') :
    ∃ p parser, Yields (Parser.parse (.rule .start)) (Parser.ofText session text file) (.program p) parser ∧
      Unreported parser ∧ program = p.mapSign parser.signOf := by
  rcases hparse : (Parser.parse (.rule .start)).run (Parser.ofText session text file) with ⟨result | result, parser⟩
  all_goals
    unfold Yields ofText at h
    simp only [ExceptT.run_mk, hparse] at h
  · cases h
  · change Yields _ parser.cursor.session program session' at h
    obtain ⟨_, s, hcollected, hresult⟩ := yields_bind.1 h
    have hclean : Unreported parser := unreported_of_reportCollected hcollected
    split at hresult
    · next p => exact ⟨p, parser, hparse, hclean, (yields_pure.1 hresult).1.symm⟩
    · exact absurd hresult not_yields_fail

/-- If the parser yields a program without a report, then the scan went through the whole text, and the program is an
outcome of all tokens of the text, which are well formed. -/
theorem reads_of_parse {p : Program SignRef} {parser : Parser}
    (h : Yields (Parser.parse (.rule .start)) (Parser.ofText session text file) (.program p) parser)
    (hclean : Unreported parser) : ∃ (src : Source) (complaining : Bool),
      Reads src (laid src) complaining none (.rule .start) 0 (.program p) src.tokens.length ∧
        (∀ t ∈ src.tokens, t.WellFormed) ∧ (Scan.ofNormalized (Text.normalizeBreaks text)).finish = .complete ∧
        src.tokens = (Scan.ofNormalized (Text.normalizeBreaks text)).significant ++
          [Scan.endToken (Text.splitLines (Text.normalizeBreaks text))] := by
  obtain ⟨src, hsrc⟩ : ∃ src : Source, src.tokens = (Scan.ofNormalized (Text.normalizeBreaks text)).significant ++
      (Scan.ofNormalized (Text.normalizeBreaks text)).finish.tokens (Text.splitLines (Text.normalizeBreaks text)) :=
    ⟨⟨_, fun _ => false⟩, rfl⟩
  have ho := Cursor.offers_unopened session text file file
  rw [← hsrc] at ho
  obtain ⟨ho', hsound, complaining, hreads⟩ := laid_of_parse h ho rfl rfl rfl rfl rfl
    (Cursor.sound_unopened session text file file) (by rintro _ ⟨rfl⟩; nofun) hclean
  obtain ⟨body, k, t, -, -, ht, hacc, hj, -, y, l, hgroup⟩ := (hreads.mono laid_silent).statements_of_start
  -- Among the tokens of the scan there is none where the program could end.
  have hk : (Scan.ofNormalized (Text.normalizeBreaks text)).significant.length ≤ k := by
    by_contra hlt
    rw [hsrc, getElem?_append_left (by omega)] at ht
    have hlike := isEndLike_of_accepts (mem_of_getElem? ht) hacc
    rw [← getElem?_append_left (by omega), ← hsrc] at ht
    obtain ⟨seed, hs, -⟩ := (hgroup.jams ht hlike nofun).stuck _ rfl rfl
    cases hs
  have hlength := (List.getElem?_eq_some_iff.1 ht).1
  have hwell : parser.cursor.index = src.tokens.length → ∀ t ∈ src.tokens, t.WellFormed := by
    intro hend t ht
    obtain ⟨i, hi⟩ := mem_iff_getElem?.1 ht
    have hlt := (List.getElem?_eq_some_iff.1 hi).1
    rw [ho'.getElem?_eq (by have := ho'.index_le; omega)] at hi
    exact hsound.taken t (Array.mem_of_getElem? hi)
  cases hfinish : (Scan.ofNormalized (Text.normalizeBreaks text)).finish with
  | illegal line column shown =>
    simp only [hfinish, ScanEnd.tokens, append_nil] at hsrc
    rw [hsrc] at hlength
    omega
  | complete =>
    simp only [hfinish, ScanEnd.tokens] at hsrc
    have hend : parser.cursor.index = src.tokens.length := by
      rw [hsrc, length_append, length_singleton] at hlength ⊢
      omega
    exact ⟨src, complaining, hend ▸ hreads, hwell hend, rfl, hsrc⟩

/-- If a text has a program, then the scan went through the whole text, and the statements of the program are
spelled by all of its tokens that are no comments. -/
theorem ofText_spelled {text file : String} {session session' : Session} {program : Program Sign}
    (h : Yields (ofText text file) session program session') :
    (Scan.ofNormalized (Text.normalizeBreaks text)).finish = .complete ∧
      ∃ body signs, Spells (.rule .statements) body (Scan.ofNormalized (Text.normalizeBreaks text)).significant ∧
        program.body = mapStmtSigns signs (Parser.stmtsOf body) := by
  obtain ⟨p, parser, hparse, hclean, rfl⟩ := of_yields_ofText h
  obtain ⟨src, complaining, hreads, -, hfinish, hsrc⟩ := reads_of_parse hparse hclean
  obtain ⟨body, k, t, hbody, hsucceeds, -, -, hj, hprogram, -⟩ := (hreads.mono laid_silent).statements_of_start
  have hspells := (hbody.spelt nofun).of_succeeds hsucceeds
  have hend : k = (Scan.ofNormalized (Text.normalizeBreaks text)).significant.length := by
    rw [hsrc, length_append, length_singleton] at hj
    omega
  refine ⟨hfinish, body, parser.signOf, ?_, congrArg (mapStmtSigns parser.signOf) hprogram⟩
  rw [Source.stretch, drop_zero, Nat.sub_zero, hsrc, hend, take_left] at hspells
  exact hspells

/-- A text that goes on after the name of the end. -/
def trailText : String := "go. # ENDMARKER\nrl."

set_option maxRecDepth 10000 in
theorem ofText_spelled_trail : ∃ program session' body signs, Yields (ofText trailText) {} program session' ∧
    (Scan.ofNormalized (Text.normalizeBreaks trailText)).significant.map Token.text = ["go", ".", "rl", "."] ∧
    Spells (.rule .statements) body (Scan.ofNormalized (Text.normalizeBreaks trailText)).significant ∧
    program.body = mapStmtSigns signs (Parser.stmtsOf body) := by
  have hgives : gives (ofText trailText) {} (fun program _ => program.body.length == 2) = true := by decide +kernel
  obtain ⟨program, session', hyields, -⟩ := yields_of_gives hgives
  obtain ⟨-, body, signs, hspells, hbody⟩ := ofText_spelled hyields
  exact ⟨program, session', body, signs, hyields, by decide +kernel, hspells, hbody⟩

end Labyrinth.Program
