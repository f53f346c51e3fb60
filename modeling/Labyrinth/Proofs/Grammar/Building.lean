import Labyrinth.Proofs.Grammar.Account
import Labyrinth.Proofs.Grammar.Results

/-!
# Building while at work

Where plain reading builds a result, a parser at work builds one that is alike. Only three actions leave traces
in the parser: a literal is given a place for its sign, a sign settles the literal behind it, and a name in the
place of a type is reported. A literal gets a sign only from the sign directly in front of it.
-/

namespace Labyrinth.Grammar

open Labyrinth.Task

/-- Whether an action takes up a sign. -/
def Action.signs : Action → Bool
  | .unary _ => true
  | _ => false

def Body.signs : Body → Bool
  | .choice alternatives => alternatives.any fun a => a.action.signs
  | _ => false

/-- Only operands with a sign in front take a sign up. -/
theorem Rule.signs_body (r : Rule) : r.body.signs = (r == .factor) := by
  cases r <;> rfl

/-- The signs that literals have so far, and the places of these literals. -/
structure Ledger where
  places : List Nat
  signs : Array Sign

namespace Ledger

variable {src : Source} {lines : Array String} {held : Option Nat} {n n' n'' : Ledger} {p : Parser}

/-- A literal of a result is what plain reading marks: a literal that has no sign in front is not marked, and
the mark of any other is its place, or its sign once the sign is read. -/
def Marks (src : Source) (n : Ledger) (a b : NumberNode SignRef) : Prop :=
  a.value = b.value ∧ a.span.recovered = b.span.recovered ∧ ∃ q, n.places[a.sign]? = some q ∧
    (src.led q = false ∧ b.sign = Sign.unsigned.mark ∨
      src.led q = true ∧ (b.sign = pendingMark q ∨
        ∃ s, s ≠ .unsigned ∧ b.sign = s.mark ∧ n.signs[a.sign]? = some s))

/-- What happens between two moments: no place and no sign once read is lost. -/
structure Later (n n' : Ledger) : Prop where
  places : n.places <+: n'.places
  signs : ∀ (ref : Nat) (s : Sign), n.signs[ref]? = some s → s ≠ .unsigned → n'.signs[ref]? = some s

/-- The parser fits a source. A sign was only read where the operand behind it is remembered, or at the place
`held`, where it was read just now. -/
structure Fits (src : Source) (lines : Array String) (n : Ledger) (held : Option Nat) (p : Parser) : Prop where
  signs : p.signs = n.signs
  steady : p.cursor.Steady lines
  size : n.signs.size = n.places.length
  unled : ∀ (ref q : Nat), n.places[ref]? = some q → src.led q = false → n.signs[ref]? = some .unsigned
  settled : ∀ (ref q : Nat) (s : Sign), n.places[ref]? = some q → n.signs[ref]? = some s → s ≠ .unsigned →
    ∃ m, q = m + 1 ∧ (held = some m ∨ (m, Call.rule .factor) ∈ p.memory)

theorem Later.refl (n : Ledger) : n.Later n :=
  ⟨List.prefix_refl _, fun _ _ h _ => h⟩

theorem Later.trans (h : n.Later n') (h' : n'.Later n'') : n.Later n'' :=
  ⟨h.places.trans h'.places, fun ref s hs hne => h'.signs ref s (h.signs ref s hs hne) hne⟩

theorem Later.marks (h : n.Later n') {a b : NumberNode SignRef} (hab : n.Marks src a b) : n'.Marks src a b := by
  obtain ⟨hv, hspan, q, hq, hm⟩ := hab
  obtain ⟨more, hmore⟩ := h.places
  have hlt := (List.getElem?_eq_some_iff.1 hq).1
  refine ⟨hv, hspan, q, by rw [← hmore, List.getElem?_append_left hlt, hq], hm.imp_right ?_⟩
  rintro ⟨hl, hp | ⟨s, hs, hb, hsign⟩⟩
  · exact ⟨hl, .inl hp⟩
  · exact ⟨hl, .inr ⟨s, hs, hb, h.signs _ _ hsign hs⟩⟩

theorem Fits.hold (h : n.Fits src lines none p) : n.Fits src lines held p :=
  { h with
    settled := fun ref q s hq hs hne => by
      obtain ⟨m, hm, hnone | hmem⟩ := h.settled ref q s hq hs hne
      · cases hnone
      · exact ⟨m, hm, .inr hmem⟩ }

/-- A computation builds a result like a given one. -/
def Builds (src : Source) (lines : Array String) (held : Option Nat) (n : Ledger) (p : Parser)
    (act : Task Parser Parsed) (y : Parsed) : Prop :=
  ∃ x p' n', Yields act p x p' ∧ n.Later n' ∧ n'.Fits src lines held p' ∧ Parsed.Like (n'.Marks src) x y

variable {y : Parsed} {i : Nat} {t : Token} {e : Expr SignRef} {span : Span}

theorem builds_pure {x : Parsed} (h : n.Fits src lines held p) (hl : Parsed.Like (n.Marks src) x y) :
    Builds src lines held n p (pure x) y :=
  ⟨x, p, n, yields_pure.2 ⟨rfl, rfl⟩, .refl n, h, hl⟩

/-! ### Literals and signs -/

/-- A new literal is marked by its place if a sign stands in front of it. -/
theorem makeNumber_builds (h : n.Fits src lines none p) (hspan : span.recovered = false)
    (he : src.literal i t = some e) :
    Builds src lines held n p (do return .expr (.number (← Parser.makeNumber t span))) (.expr e) := by
  obtain ⟨places, signs⟩ := n
  obtain rfl : p.signs = signs := h.signs
  have hsize : p.signs.size = places.length := h.size
  unfold Source.literal at he
  split at he
  · next hlen =>
    obtain ⟨value, hvalue, rfl⟩ := Option.map_eq_some_iff.1 he
    have hplace : (places ++ [i])[p.signs.size]? = some i := by
      rw [hsize, List.getElem?_concat_length]
    -- A sign in the new table is the new one or an old one.
    have hcases : ∀ {r q : Nat}, (places ++ [i])[r]? = some q →
        (r = p.signs.size ∧ q = i ∧ (p.signs.push .unsigned)[r]? = some .unsigned) ∨
          places[r]? = some q ∧ (p.signs.push .unsigned)[r]? = p.signs[r]? := by
      intro r q hq
      by_cases hr : r = p.signs.size
      · subst hr
        rw [hplace] at hq
        exact .inl ⟨rfl, (Option.some.inj hq).symm, Array.getElem?_push_size⟩
      · have hlt : r < places.length := by
          have := (List.getElem?_eq_some_iff.1 hq).1
          rw [List.length_append, List.length_singleton] at this
          omega
        rw [List.getElem?_append_left hlt] at hq
        exact .inr ⟨hq, by rw [Array.getElem?_push, if_neg hr]⟩
    refine ⟨.expr (.number ⟨span, value, p.signs.size⟩), { p with signs := p.signs.push .unsigned },
      ⟨places ++ [i], p.signs.push .unsigned⟩, ?_, ⟨List.prefix_append _ _, ?_⟩, ⟨rfl, h.steady, ?_, ?_, ?_⟩,
      .expr (.number ⟨rfl, hspan, i, hplace, ?_⟩)⟩
    · have hshort : ¬3 < (Parser.digitsOf t).length := by omega
      simp [Parser.makeNumber, Parser.reportLength, Parser.literalOf, Parser.newSign, hshort, hvalue]
    · intro r s hs _
      have hlt : r < p.signs.size := (Array.getElem?_eq_some_iff.1 hs).1
      rw [Array.getElem?_push, if_neg (Nat.ne_of_lt hlt)]
      exact hs
    · simp [hsize]
    · intro r q hq hl
      rcases hcases hq with ⟨-, -, hs⟩ | ⟨hq, hs⟩
      · exact hs
      · rw [hs, h.unled r q hq hl]
    · intro r q s hq hs hne
      rcases hcases hq with ⟨-, -, hs'⟩ | ⟨hq, hs'⟩
      · exact absurd (Option.some.inj (hs.symm.trans hs')) hne
      · exact h.hold.settled r q s hq (hs' ▸ hs) hne
    · cases hl : src.led i with
      | true => exact .inr ⟨rfl, .inl (by simp)⟩
      | false => exact .inl ⟨rfl, by simp⟩
  · cases he

/-- A sign settles the literal behind it, and is an operation in front of anything else. -/
theorem makeUnary_builds (h : n.Fits src lines none p) {op : UnaryOp} {e' f : Expr SignRef}
    (hspan : span.recovered = false) (hheld : held = some i) (hfresh : (i, Call.rule .factor) ∉ p.memory)
    (hlike : Expr.Like (n.Marks src) e e') (hf : Source.signed op i e' = some f) :
    Builds src lines held n p (do return .expr (← Parser.makeUnary op e span)) (.expr f) := by
  obtain ⟨places, signs⟩ := n
  obtain rfl : p.signs = signs := h.signs
  have hof : ∀ {ref s}, p.signs[ref]? = some s → p.signOf ref = s := by
    intro ref s hs
    rw [Parser.signOf, Array.getD_eq_getD_getElem?, hs, Option.getD_some]
  cases hlike with
  | @number a b hab =>
    obtain ⟨hvalue, hread, q, hq, hmark⟩ := hab
    simp only [Source.signed] at hf
    split at hf
    · next hpending =>
      cases hf
      -- The literal stands directly behind the sign, and nothing else could have settled it.
      have hled : q = i + 1 ∧ src.led q = true := by
        rcases hmark with ⟨_, hm⟩ | ⟨hl, hm | ⟨s, _, hm, _⟩⟩
        · rw [hpending] at hm
          simp [pendingMark, Sign.mark] at hm
        · rw [hpending] at hm
          have hplace : i + 1 + 3 = q + 3 := hm
          exact ⟨by omega, hl⟩
        · rw [hpending] at hm
          cases s <;> simp [pendingMark, Sign.mark] at hm
      have hlt : a.sign < p.signs.size := by
        rw [show p.signs.size = places.length from h.size]
        exact (List.getElem?_eq_some_iff.1 hq).1
      have hsign : p.signs[a.sign]? = some .unsigned := by
        rw [Array.getElem?_eq_getElem hlt, Option.some.injEq]
        by_contra hne
        obtain ⟨k, hk, hnone | hmem⟩ := h.settled _ _ _ hq (Array.getElem?_eq_getElem hlt) hne
        · cases hnone
        · have hki : k = i := by omega
          exact hfresh (hki ▸ hmem)
      have hset : ∀ r : Nat, (p.signs.setIfInBounds a.sign op.sign)[r]? =
          if a.sign = r then some op.sign else p.signs[r]? := by
        intro r
        rw [Array.getElem?_setIfInBounds, if_pos hlt]
      have hne : op.sign ≠ .unsigned := by
        cases op <;> simp [UnaryOp.sign]
      refine ⟨.expr (.number a), { p with signs := p.signs.setIfInBounds a.sign op.sign },
        ⟨places, p.signs.setIfInBounds a.sign op.sign⟩, ?_, ⟨List.prefix_refl _, ?_⟩, ⟨rfl, h.steady, ?_, ?_, ?_⟩,
        .expr (.number ⟨hvalue, hread, q, hq, .inr ⟨hled.2, .inr ⟨op.sign, hne, rfl, ?_⟩⟩⟩)⟩
      · simp [Parser.makeUnary, hof hsign, Parser.setSign]
        cases op <;> rfl
      · intro r s hs hs'
        rw [hset]
        split
        · next hr =>
          subst hr
          exact absurd (Option.some.inj (hsign.symm.trans hs)).symm hs'
        · exact hs
      · rw [Array.size_setIfInBounds]
        exact h.size
      · intro r m hm hl
        rw [hset]
        split
        · next hr =>
          subst hr
          rw [← Option.some.inj (hq.symm.trans hm), hled.2] at hl
          cases hl
        · exact h.unled r m hm hl
      · intro r m s hm hs hs'
        rw [hset] at hs
        split at hs
        · next hr =>
          subst hr
          have hplace := Option.some.inj (hq.symm.trans hm)
          exact ⟨i, by omega, .inl hheld⟩
        · exact h.hold.settled r m s hm hs hs'
      · rw [hset, if_pos rfl]
    · split at hf
      · next hsettled =>
        cases hf
        refine ⟨.expr (.unary span op (.number a)), p, _, ?_, .refl _, h.hold,
          .expr (.unary op hspan (.number ⟨hvalue, hread, q, hq, hmark⟩))⟩
        have hne : p.signOf a.sign ≠ .unsigned := by
          rcases hmark with ⟨_, hm⟩ | ⟨_, hm | ⟨s, hs, _, hsign⟩⟩
          · rw [hm] at hsettled
            simp [Sign.mark] at hsettled
          · rw [hm] at hsettled
            simp [pendingMark, Sign.mark] at hsettled
          · rw [hof hsign]
            exact hs
        simp [Parser.makeUnary, hne]
      · cases hf
  | _ =>
    cases hf
    exact builds_pure h.hold (.expr (.unary op hspan (by constructor <;> assumption)))

/-! ### Reports -/

def noting (p : Parser) (d : Diagnostic) : Parser :=
  { p with cursor := { p.cursor with
    session := { p.cursor.session with pending := p.cursor.session.pending.push d } } }

theorem Fits.noting (h : n.Fits src lines held p) (d : Diagnostic) : n.Fits src lines held (noting p d) :=
  { h with steady := h.steady.withSession rfl }

theorem nameOf_name : TokenKind.nameOf .name = .ok "NAME" := rfl

theorem yields_report (loc : Location) (kind message line : String) (s : Session) :
    Yields (Session.report loc kind message (.line line)) s ()
      { s with pending := s.pending.push ⟨loc, kind, message, some line⟩ } := rfl

/-- A name in the place of a type is reported and taken for the normal width. -/
theorem makeTokenType_name (h : n.Fits src lines held p) (hpos : 0 < p.cursor.tokens.size)
    (hline : (Text.item? lines (t.start.1 - 1)).isSome = true) (hk : t.kind = .name) :
    ∃ type d, Yields (Parser.makeTokenType t) p type (noting p d) ∧ type.content = (.normal, true) := by
  rw [← h.steady.session_lines hpos] at hline
  obtain ⟨line, hline⟩ := Option.isSome_iff_exists.1 hline
  refine ⟨⟨(Span.ofToken t).asRecovered, .normal⟩, ⟨⟨p.file, t.start.1, t.start.2, some t.stop.1,
    some t.stop.2⟩, Diagnostic.syntaxKind, "expected number type, got NAME", some line⟩, ?_, rfl⟩
  have hreport : ∀ message, Yields (Parser.reportSpan message (Span.ofToken t)) p ()
      (noting p ⟨(Span.ofToken t).loc p.file, Diagnostic.syntaxKind, message, some line⟩) := by
    intro message
    simp only [Parser.reportSpan, Parser.reportBetween, Span.ofToken, hline, yields_get_bind, pure_bind]
    exact yields_inSession.2 ⟨_, yields_report _ _ _ _ _, rfl⟩
  simp only [Parser.makeTokenType, Parser.makeNumberType, Parser.typeOfKind, hk, Parser.kindOf?]
  rw [nameOf_name]
  exact (yields_pure.2 ⟨rfl, rfl⟩).bind ((hreport _).bind (yields_pure.2 ⟨rfl, rfl⟩))

theorem makeName_name (hk : t.kind = .name) : Yields (Parser.makeName (.token t) span) p ⟨span, t.text⟩ p := by
  simp [Parser.makeName, hk]

theorem makeTokenName_name (hk : t.kind = .name) : Yields (Parser.makeTokenName t) p ⟨Span.ofToken t, t.text⟩ p :=
  makeName_name hk

theorem makeRobotOp_word {op : RobotOp} (h : Parser.robotOpOf? t.kind = some op) :
    Yields (Parser.makeRobotOp t span) p (.robot span op) p := by
  simp [Parser.makeRobotOp, Parser.robotOpOfKind, h]

theorem makeNumberType_word {kind : NumberKind} (h : Parser.kindOf? t.kind = some kind) :
    Yields (Parser.makeNumberType t span) p ⟨span, kind⟩ p := by
  simp [Parser.makeNumberType, Parser.typeOfKind, h]

theorem content_ofToken (t : Token) :
    (⟨Span.ofToken t, t.text⟩ : NameNode).content = (⟨default, t.text⟩ : NameNode).content := rfl

theorem nameResult_name (hk : t.kind = .name) :
    Yields (Parser.nameResult t) p (.expr (.name ⟨Span.ofToken t, t.text⟩)) p :=
  (makeTokenName_name hk).bind (yields_pure.2 ⟨rfl, rfl⟩)

/-- Two names in the place of a parameter are reported and taken for a parameter of the normal width. -/
theorem recoverParam_builds {u : Token} (hspan : span.recovered = false) (h : n.Fits src lines held p)
    (hpos : 0 < p.cursor.tokens.size) (hline : (Text.item? lines (t.start.1 - 1)).isSome = true) (ht : t.kind = .name)
    (hu : u.kind = .name) : Builds src lines held n p (Parser.perform .recoverParam span [.token t, .token u])
      (.param ⟨default, ⟨Span.asRecovered default, .normal⟩, ⟨default, u.text⟩⟩) := by
  obtain ⟨type, d, hy, htype⟩ := makeTokenType_name h hpos hline ht
  refine ⟨.param ⟨span, type, ⟨Span.ofToken u, u.text⟩⟩, noting p d, n, ?_, .refl n, h.noting d, .param ?_⟩
  · exact hy.bind ((makeTokenName_name hu).bind (yields_pure.2 ⟨rfl, rfl⟩))
  · simp only [ParamNode.content, htype, hspan]
    rfl

/-! ### Actions -/

theorem makeAssignment_builds {first first' : Expr SignRef} {rest rest' : Parsed} (hspan : span.recovered = false)
    (h : n.Fits src lines held p) (hf : Expr.Like (n.Marks src) first first')
    (hr : Parsed.Like (n.Marks src) rest rest') (he : Source.assignment first' (Parser.tailsOf rest') = some e) :
    Builds src lines held n p (do return .expr (← Parser.makeAssignment first (Parser.tailsOf rest) span)) (.expr e) := by
  obtain ⟨hparts, hbads⟩ := Parser.assemble_like hf (Parser.tailsOf_like hr)
  unfold Source.assignment at he
  split at he
  · next parts hassemble =>
    cases he
    rw [hassemble] at hparts hbads
    have hnil := hbads.2 rfl
    refine ⟨.expr (.assign span _), p, n, ?_, .refl n, h, .expr (.assign hspan hparts)⟩
    simp [Parser.makeAssignment, hnil, Parser.reportTargets]
  · cases he

theorem makeSubscript_builds {name name' : NameNode} {indices indices' : Parsed} (hspan : span.recovered = false)
    (h : n.Fits src lines held p) (hn : name.content = name'.content)
    (hi : Parsed.Like (n.Marks src) indices indices') (he : Source.element name' (Parser.exprsOf indices') = some e) :
    Builds src lines held n p
      (do return .expr (← Parser.makeSubscript (.expr (.name name)) (Parser.exprsOf indices) span)) (.expr e) := by
  have hlike := Parser.exprsOf_like hi
  unfold Source.element at he
  split at he
  · next i j hij =>
    cases he
    rw [hij] at hlike
    generalize Parser.exprsOf indices = es at hlike
    cases hlike with
    | cons hi hs =>
      cases hs with
      | cons hj hs =>
        cases hs
        exact builds_pure h (.expr (.subscript hspan hn hi hj))
  · cases he

/-- Where plain reading builds a result, an action builds one that is alike. -/
theorem perform_builds {action : Action} {kept kept' : List Parsed} (hspan : span.recovered = false)
    (h : n.Fits src lines none p) (hpos : 0 < p.cursor.tokens.size)
    (hnames : ∀ t ∈ src.tokens, t.kind = .name → (Text.item? lines (t.start.1 - 1)).isSome = true)
    (hk : ParsedsLike (n.Marks src) kept kept')
    (hu : ∀ op, action = .unary op → held = some i ∧ (i, Call.rule .factor) ∉ p.memory)
    (hb : src.build i action kept' = some y) : Builds src lines held n p (Parser.perform action span kept) y := by
  have hold : n.Fits src lines held p := h.hold
  unfold Source.build at hb
  split at hb
  -- The actions that keep what they get, or make a group or a statement of it.
  · cases hb
    obtain ⟨x, rfl, hx⟩ := hk.one
    exact builds_pure hold hx
  · cases hb
    exact builds_pure hold (.list hk)
  · cases hb
    obtain ⟨x, rfl, hx⟩ := hk.one
    exact builds_pure hold (.program ⟨hspan, Parser.stmtsOf_like hx⟩)
  · cases hb
    obtain ⟨x, rfl, hx⟩ := hk.one
    exact builds_pure hold (.tuple (.cons (.list (Parser.flatten_like hx.items)) .nil))
  · cases hb
    obtain ⟨x, rfl, hx⟩ := hk.one
    obtain ⟨xs, rfl, hxs⟩ := hx.of_list
    exact builds_pure hold (.tuple (.cons (.list hxs) .nil))
  · cases hb
    obtain ⟨x, rfl, hx⟩ := hk.one
    obtain rfl := hx.of_nothing
    exact builds_pure hold (.tuple (.cons (.list .nil) .nil))
  · cases hb
    obtain ⟨x, rfl, hx⟩ := hk.one
    obtain ⟨e, rfl, he⟩ := hx.of_expr
    exact builds_pure hold (.stmt (.expr hspan he))
  -- Functions and their parameters.
  · cases hb
    obtain ⟨_, _, params, body, rfl, hx, hx', hp, hs⟩ := hk.four
    obtain ⟨t, rfl, ht⟩ := hx.of_type
    obtain ⟨n, rfl, hn⟩ := hx'.of_name
    refine builds_pure hold (.stmt ?_)
    rw [show n.value = _ from congrArg Prod.fst hn]
    exact .function _ hspan ht (Parser.paramsOf_like hp) (Parser.stmtsOf_like hs)
  · cases hb
    obtain ⟨_, _, rfl, hx, hx'⟩ := hk.two
    obtain ⟨t, rfl, ht⟩ := hx.of_type
    obtain ⟨n, rfl, hn⟩ := hx'.of_name
    exact builds_pure hold (.param (Prod.ext ht (Prod.ext hn hspan)))
  · obtain ⟨_, _, rfl, ht, hn⟩ := hk.two
    obtain rfl := ht.of_token
    obtain rfl := hn.of_token
    split at hb
    · next hkinds =>
      cases hb
      exact recoverParam_builds hspan hold hpos (hnames _ hkinds.1 hkinds.2.1) hkinds.2.1 hkinds.2.2
    · cases hb
  -- Statements with expressions.
  · cases hb
    obtain ⟨_, rfl, hx⟩ := hk.one
    obtain ⟨e, rfl, he⟩ := hx.of_expr
    exact builds_pure hold (.stmt (.giveBack hspan he))
  · cases hb
    obtain ⟨_, _, rfl, hx, hs⟩ := hk.two
    obtain ⟨e, rfl, he⟩ := hx.of_expr
    exact builds_pure hold (.stmt (.loop hspan he (Parser.stmtsOf_like hs)))
  · cases hb
    obtain ⟨_, _, rfl, hx, hs⟩ := hk.two
    obtain ⟨e, rfl, he⟩ := hx.of_expr
    exact builds_pure hold (.stmt (.check hspan he (Parser.stmtsOf_like hs)))
  · obtain ⟨_, _, names, _, rfl, hx, hx', hn, hv⟩ := hk.four
    obtain ⟨t, rfl, ht⟩ := hx.of_type
    obtain ⟨t', rfl, ht'⟩ := hx'.of_type
    obtain ⟨e, rfl, he⟩ := hv.of_expr
    cases he with
    | number hab =>
      cases hb
      exact builds_pure hold (.stmt (.declareField hspan ht ht' (Parser.namesOf_like hn) hab))
    | _ => cases hb
  · obtain ⟨_, names, _, rfl, hx, hn, hv⟩ := hk.three
    obtain ⟨t, rfl, ht⟩ := hx.of_type
    obtain ⟨e, rfl, he⟩ := hv.of_expr
    cases he with
    | number hab =>
      cases hb
      exact builds_pure hold (.stmt (.declareNumber hspan ht (Parser.namesOf_like hn) hab))
    | _ => cases hb
  -- Chains and operations.
  · obtain ⟨_, rest, rfl, hx, hr⟩ := hk.two
    obtain ⟨e, rfl, he⟩ := hx.of_expr
    obtain ⟨f, hf, rfl⟩ := Option.map_eq_some_iff.1 hb
    exact makeAssignment_builds hspan hold he hr hf
  · cases hb
    obtain ⟨_, rest, rfl, hx, hr⟩ := hk.two
    obtain ⟨e, rfl, he⟩ := hx.of_expr
    refine builds_pure hold (.expr ?_)
    obtain ⟨hops, hes⟩ := Parser.comparesOf_split hr
    rw [hops]
    exact .compare _ hspan he hes
  · cases hb
    obtain ⟨x, rfl, hx⟩ := hk.one
    exact builds_pure hold (.tuple (.cons (.cmpOp _) (.cons hx .nil)))
  · cases hb
    obtain ⟨_, _, rfl, hx, hx'⟩ := hk.two
    obtain ⟨l, rfl, hl⟩ := hx.of_expr
    obtain ⟨r, rfl, hr⟩ := hx'.of_expr
    exact builds_pure hold (.expr (.binary _ hspan hl hr))
  · obtain ⟨_, rfl, hx⟩ := hk.one
    obtain ⟨e, rfl, he⟩ := hx.of_expr
    obtain ⟨f, hf, rfl⟩ := Option.map_eq_some_iff.1 hb
    obtain ⟨hheld, hfresh⟩ := hu _ rfl
    exact makeUnary_builds h hspan hheld hfresh he hf
  -- Elements and calls.
  · obtain ⟨_, indices, rfl, hx, hi⟩ := hk.two
    obtain ⟨n, rfl, hn⟩ := hx.of_name
    obtain ⟨f, hf, rfl⟩ := Option.map_eq_some_iff.1 hb
    exact makeSubscript_builds hspan hold hn hi hf
  · obtain ⟨_, indices, rfl, hn, hi⟩ := hk.two
    obtain rfl := hn.of_token
    split at hb
    · next hname =>
      obtain ⟨f, hf, rfl⟩ := Option.map_eq_some_iff.1 hb
      obtain ⟨x, p', n', hy, hrest⟩ := makeSubscript_builds hspan hold (content_ofToken _) hi hf
      exact ⟨x, p', n', (nameResult_name hname).bind hy, hrest⟩
    · cases hb
  · cases hb
    obtain ⟨_, args, rfl, hx, ha⟩ := hk.two
    obtain ⟨n, rfl, hn⟩ := hx.of_name
    exact builds_pure hold (.expr (.call hspan hn (Parser.exprsOf_like ha)))
  · obtain ⟨_, args, rfl, hn, ha⟩ := hk.two
    obtain rfl := hn.of_token
    split at hb
    · next hname =>
      cases hb
      exact ⟨_, p, n, (nameResult_name hname).bind (yields_pure.2 ⟨rfl, rfl⟩), .refl n, hold,
        .expr (.call hspan rfl (Parser.exprsOf_like ha))⟩
    · cases hb
  -- Single tokens.
  · obtain ⟨_, rfl, ht⟩ := hk.one
    obtain rfl := ht.of_token
    obtain ⟨e, he, rfl⟩ := Option.map_eq_some_iff.1 hb
    exact makeNumber_builds h hspan he
  · obtain ⟨_, rfl, ht⟩ := hk.one
    obtain rfl := ht.of_token
    split at hb
    · next hname =>
      cases hb
      exact ⟨.expr (.name ⟨span, _⟩), p, n, (makeName_name hname).bind (yields_pure.2 ⟨rfl, rfl⟩), .refl n, hold,
        .expr (.name (Prod.ext rfl hspan))⟩
    · cases hb
  · obtain ⟨_, rfl, ht⟩ := hk.one
    obtain rfl := ht.of_token
    obtain ⟨op, hop, rfl⟩ := Option.map_eq_some_iff.1 hb
    exact ⟨.expr (.robot span op), p, n, (makeRobotOp_word hop).bind (yields_pure.2 ⟨rfl, rfl⟩), .refl n, hold,
      .expr (.robot op hspan)⟩
  · obtain ⟨_, rfl, ht⟩ := hk.one
    obtain rfl := ht.of_token
    obtain ⟨kind, hkind, rfl⟩ := Option.map_eq_some_iff.1 hb
    exact ⟨.type ⟨span, kind⟩, p, n, (makeNumberType_word hkind).bind (yields_pure.2 ⟨rfl, rfl⟩), .refl n, hold,
      .type (Prod.ext rfl hspan)⟩
  · cases hb

end Ledger

end Labyrinth.Grammar
