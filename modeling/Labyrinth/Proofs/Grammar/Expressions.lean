import Labyrinth.Proofs.Grammar.Lexemes
import Labyrinth.Proofs.Numeral

/-!
# Reading written expressions

Every rule of the levels of precedence reads an expression that holds together at its level, up to a lexeme
that cannot carry the expression on.
-/

namespace Labyrinth

/-! ### Lexemes that end an expression -/

/-- Operators with the levels of the expressions that they carry on. -/
def continuations : List (Nat × String) :=
  [(0, "<<"), (0, ">>"), (1, "=="), (1, "<>"), (1, "<="), (1, "=>"), (2, "+"), (2, "-"), (3, "\\"), (3, "/"),
   (5, "["), (5, "(")]

/-- A lexeme that carries no expression of a level or of a closer one on. -/
def Lexeme.Stops (level : Nat) (l : Lexeme) : Prop :=
  ∀ entry ∈ continuations, level ≤ entry.1 → l.isOp entry.2 = false

instance (level : Nat) (l : Lexeme) : Decidable (l.Stops level) :=
  inferInstanceAs (Decidable (∀ entry ∈ continuations, level ≤ entry.1 → l.isOp entry.2 = false))

variable {l : Lexeme}

theorem Lexeme.Stops.mono {level level' : Nat} (h : l.Stops level) (hle : level ≤ level') : l.Stops level' :=
  fun entry hmem hlevel => h entry hmem (Nat.le_trans hle hlevel)

theorem Lexeme.stops_of_ne (h : l.kind ≠ .op) (level : Nat) : l.Stops level :=
  fun _ _ _ => Lexeme.isOp_of_ne h _

/-- A lexeme that no expression begins with. -/
structure Lexeme.NoExpr (l : Lexeme) : Prop where
  word : l.kind.isWord = false
  number : l.kind ≠ .number
  operator : ∀ s ∈ ["(", "+", "-"], l.isOp s = false

@[simp] theorem Parser.exprsOf_map (es : List (Expr SignRef)) : Parser.exprsOf (.list (es.map .expr)) = es := by
  simp [Parser.exprsOf, Parsed.items, List.filterMap_map]

namespace Grammar.Source

variable {src : Source} {own : Option Seed} {i j : Nat} {l : Lexeme} {e : Expr SignRef}
variable {s : String} {action : Action} {r : Rule} {x : Parsed × Nat} {k : Nat}
    {again : Call → Nat → Option (Parsed × Nat)}

/-! ### Names, literals, commands and parentheses -/

theorem identifier_hit (h : src.Holds i (.name s)) :
    src.read own (.rule .identifier) i = some (.expr (.name ⟨default, s⟩), i + 1) := by
  obtain ⟨t, _, hshows, hread⟩ := accepts_name.hit h rfl
  refine read_choice ?_ rfl rfl
  have hkind : t.kind = .name := hshows.kind
  have htext : t.text = s := hshows.text
  simp [choice, steps, hread, Parsed.succeeds, build, hkind, htext]

theorem identifier_miss (h : src.Holds i l) (hl : l.kind ≠ .name) :
    src.read own (.rule .identifier) i = some (.nothing, i) := by
  refine read_choice ?_ rfl rfl
  simp [choice, steps, accepts_name.miss h (beq_eq_false_iff_ne.2 hl), Parsed.succeeds]

variable {op : RobotOp} {v : Int} {led : Bool} {rest : List Step} {last a b c : Parsed × Nat} {e' : Expr SignRef}
  {tails : List (Flow × Expr SignRef)}

theorem robotOperation_hit (h : src.Holds i (.keyword op.keyword)) :
    src.read own (.rule .robotOperation) i = some (.expr (.robot default op), i + 1) := by
  obtain ⟨t, _, hshows, hread⟩ := accepts_robotKeyword.hit h (by cases op <;> rfl)
  refine read_choice ?_ rfl rfl
  have hop : Parser.robotOpOf? t.kind = some op := by
    rw [hshows.kind]
    cases op <;> rfl
  simp [choice, steps, hread, Parsed.succeeds, build, hop]

theorem robotOperation_miss (h : src.Holds i l) (hl : l.kind.isCommand = false) :
    src.read own (.rule .robotOperation) i = some (.nothing, i) := by
  refine read_choice ?_ rfl rfl
  simp [choice, steps, accepts_robotKeyword.miss h hl, Parsed.succeeds]

theorem numberType_hit {kind : NumberKind} (h : src.Holds i (.keyword kind.keyword)) :
    src.read own (.rule .numberType) i = some (.type ⟨default, kind⟩, i + 1) := by
  obtain ⟨t, _, hshows, hread⟩ := accepts_numberTypeRaw.hit h (by cases kind <;> rfl)
  refine read_choice ?_ rfl rfl
  have hkind : Parser.kindOf? t.kind = some kind := by
    rw [hshows.kind]
    cases kind <;> rfl
  simp [choice, steps, hread, Parsed.succeeds, build, hkind]

theorem numberType_miss (h : src.Holds i l) (hl : l.kind.isNumberType = false) :
    src.read own (.rule .numberType) i = some (.nothing, i) := by
  refine read_choice ?_ rfl rfl
  simp [choice, steps, accepts_numberTypeRaw.miss h hl, Parsed.succeeds]

theorem atom_name (h : src.Holds i (.name s)) :
    src.read own (.rule .atom) i = some (.expr (.name ⟨default, s⟩), i + 1) := by
  refine read_choice ?_ rfl rfl
  simp [choice, only, steps, identifier_hit h, Parsed.succeeds, build]

theorem atom_command (h : src.Holds i (.keyword op.keyword)) :
    src.read own (.rule .atom) i = some (.expr (.robot default op), i + 1) := by
  refine read_choice ?_ rfl rfl
  simp [choice, only, steps, identifier_miss h TokenKind.noConfusion, accepts_number.miss h rfl, robotOperation_hit h,
    Parsed.succeeds, build]

/-- The literal that a written number is read as. -/
theorem literal_number {t : Token} (h : src.Holds i (.number v led)) (ht : (Lexeme.number v led).Shows t)
    (hlow : 0 ≤ v) (hhigh : v ≤ 32767) :
    src.literal i t = some (.number ⟨default, v, if led then pendingMark i else Sign.unsigned.mark⟩) := by
  obtain ⟨n, rfl⟩ := Int.eq_ofNat_of_zero_le hlow
  obtain ⟨ds, hne, hlen, hvalue, hnumeral⟩ := Radix.exists_numeral n
  have htext : t.text = String.ofList (ds.map Radix.digit32) := by
    rw [ht.text, Lexeme.number, hnumeral]
    rfl
  have hdigits : Parser.digitsOf t = String.ofList (ds.map Radix.digit32) := by
    rw [Parser.digitsOf, htext, String.toList_ofList, Radix.filter_digits]
  have hled : src.led i = led := h.2 rfl
  rw [literal, hdigits, Radix.readInt?_digits (Radix.reads32_digits ds) hne, String.length_ofList, List.length_map,
    if_pos (hlen 3 (by decide) (by omega)), hled, Option.map_some, hvalue]

theorem atom_number (h : src.Holds i (.number v led)) (hlow : 0 ≤ v) (hhigh : v ≤ 32767) :
    src.read own (.rule .atom) i =
      some (.expr (.number ⟨default, v, if led then pendingMark i else Sign.unsigned.mark⟩), i + 1) := by
  obtain ⟨t, _, hshows, hread⟩ := accepts_number.hit h rfl
  refine read_choice ?_ rfl rfl
  simp [choice, only, steps, identifier_miss h TokenKind.noConfusion, hread, Parsed.succeeds, build,
    literal_number h hshows hlow hhigh]

/-- Parentheses hold what a comparison reads. -/
theorem atom_bracketed (hopen : src.Holds i (.op "("))
    (hread : src.read none (.rule .comparison) (i + 1) = some (.expr e, j)) (hclose : src.Holds j (.op ")")) :
    src.read own (.rule .atom) i = some (.expr e, j + 1) := by
  obtain ⟨t, _, ht⟩ := expect_hit hopen (by decide)
  obtain ⟨t', _, ht'⟩ := expect_hit hclose (by decide)
  have hgroup : src.read none (.rule .group) i = some (.expr e, j + 1) := by
    refine read_choice ?_ rfl rfl
    simp [choice, steps, ht, hread, ht', Parsed.succeeds, build]
  refine read_choice ?_ rfl rfl
  simp [choice, only, steps, identifier_miss hopen TokenKind.noConfusion, accepts_number.miss hopen rfl,
    robotOperation_miss hopen rfl, ht, hgroup, Parsed.succeeds, build]

/-- Nothing is read where no expression begins. -/
theorem atom_miss (h : src.Holds i l) (hword : l.kind.isWord = false) (hnumber : l.kind ≠ .number)
    (hopen : l.isOp "(" = false) : src.read own (.rule .atom) i = some (.nothing, i) := by
  have hname : l.kind ≠ .name := by
    intro hk
    rw [hk] at hword
    cases hword
  have hcommand : l.kind.isCommand = false := by
    cases hk : l.kind with
    | keyword k => cases k <;> first | rfl | (rw [hk] at hword; cases hword)
    | _ => rfl
  have hrecover : src.read none (.rule .recoverAtom) i = some (.nothing, i) := by
    refine read_choice ?_ rfl rfl
    simp [choice, steps, accepts_word.miss h hword, Parsed.succeeds]
  refine read_choice ?_ rfl rfl
  simp [choice, only, steps, identifier_miss h hname, accepts_number.miss h (beq_eq_false_iff_ne.2 hnumber),
    robotOperation_miss h hcommand, expect_miss h hopen (by decide), hrecover, Parsed.succeeds]

/-! ### Calls and elements of fields -/

/-- A postfix is looked for after a seed and, failing that, directly after a word. -/
theorem read_postfix {recover invalid : Rule}
    (hlast : last.1.succeeds = true → ∀ own, src.read own (.expect s) last.2 = some (.nothing, last.2))
    (hread : src.read none (.rule recover) i = some x) (hx : x.1.succeeds = false → x = (.nothing, i))
    (hb : r.body = .choice [⟨.keep (.rule .primary) :: .need (.expect s) :: rest, action, false⟩, only recover,
      onlyInvalid invalid]) (hm : r.memory = .forgotten) (hrecover : recover.memory = .remembered) :
    src.read (some ⟨.primary, i, last⟩) (.rule r) i = some x := by
  have hsecond : src.choice (src.read (some ⟨.primary, i, last⟩)) i [only recover, onlyInvalid invalid] = some x := by
    cases hs : x.1.succeeds with
    | true => simp [choice, only, steps, read_own _ hrecover, hread, hs, build]
    | false => simp [choice, only, onlyInvalid, steps, read_own _ hrecover, hread, hx hs, Parsed.succeeds]
  refine read_forgotten ?_ hb hm
  rw [choice]
  cases hs : last.1.succeeds with
  | true => simp [steps, read_seed (r := .primary) rfl, hlast hs, Parsed.succeeds, hsecond]
  | false => simp [steps, read_seed (r := .primary) rfl, hs, hsecond]

/-- One round of growing a postfix expression: a subscript, a call or something without a postfix. -/
theorem round_primary (hlast : last.1.succeeds = true → ∀ s ∈ ["[", "("], ∀ own,
      src.read own (.expect s) last.2 = some (.nothing, last.2))
    (ha : src.read none (.rule .recoverSubscript) i = some a) (ha' : a.1.succeeds = false → a = (.nothing, i))
    (hb : src.read none (.rule .recoverCall) i = some b) (hb' : b.1.succeeds = false → b = (.nothing, i))
    (hc : ∀ own, src.read own (.rule .atom) i = some c) :
    src.round .primary i last = some (if a.1.succeeds then a else if b.1.succeeds then b
      else if c.1.succeeds then c else (.nothing, i)) := by
  have hsub := read_postfix (r := .subscript) (fun hs => hlast hs "[" (by decide)) ha ha' rfl rfl rfl
  have hcall := read_postfix (r := .call) (fun hs => hlast hs "(" (by decide)) hb hb' rfl rfl rfl
  change src.choice _ i _ = _
  cases hsa : a.1.succeeds with
  | true => simp [choice, only, steps, hsub, hsa, build]
  | false =>
    cases hsb : b.1.succeeds with
    | true => simp [choice, only, steps, hsub, hcall, hsa, hsb, build]
    | false =>
      cases hsc : c.1.succeeds with
      | true => simp [choice, only, steps, hsub, hcall, hc, hsa, hsb, hsc, build]
      | false => simp [choice, only, steps, hsub, hcall, hc, hsa, hsb, hsc]
 
/-- A postfix expression is read up to a lexeme that is no further postfix. -/
theorem read_primary (hl : src.Holds j l) (hstop : l.Stops 5)
    (ha : src.read none (.rule .recoverSubscript) i = some a) (ha' : a.1.succeeds = false → a = (.nothing, i))
    (hb : src.read none (.rule .recoverCall) i = some b) (hb' : b.1.succeeds = false → b = (.nothing, i))
    (hc : ∀ own, src.read own (.rule .atom) i = some c)
    (hx : (if a.1.succeeds then a else if b.1.succeeds then b else if c.1.succeeds then c else (.nothing, i)) =
      (.expr e, j)) (hij : i < j) : src.read none (.rule .primary) i = some (.expr e, j) := by
  have hfirst : src.round .primary i (.nothing, i) = some (.expr e, j) := by
    rw [round_primary (fun hs => by cases hs) ha ha' hb hb' hc, hx]
  have hmiss : ∀ s ∈ ["[", "("], ∀ own, src.read own (.expect s) j = some (.nothing, j) := by
    intro s hs own
    simp only [List.mem_cons, List.not_mem_nil, or_false] at hs
    rcases hs with rfl | rfl
    · exact expect_miss hl (hstop (5, "[") (by decide) (Nat.le_refl _)) (by decide)
    · exact expect_miss hl (hstop (5, "(") (by decide) (Nat.le_refl _)) (by decide)
  have hsecond : src.round .primary i (.expr e, j) = some (.expr e, j) := by
    rw [round_primary (fun _ => hmiss) ha ha' hb hb' hc, hx]
  exact read_of_grown (.tail .refl hfirst rfl hij) hsecond (Nat.le_refl _) nofun rfl

/-- No postfix is recovered where no word stands before its bracket. -/
theorem recover_miss (h : src.Holds i l)
    (hnext : l.kind.isWord = true → src.read none (.expect s) (i + 1) = some (.nothing, i + 1))
    (hb : r.body = .choice [⟨.keep (.rule .word) :: .need (.expect s) :: rest, action, false⟩])
    (hm : r.memory = .remembered) : src.read own (.rule r) i = some (.nothing, i) := by
  refine read_choice ?_ hb hm
  cases hword : l.kind.isWord with
  | true =>
    obtain ⟨t, _, _, hread⟩ := accepts_word.hit h hword
    simp [choice, steps, hread, hnext hword, Parsed.succeeds]
  | false => simp [choice, steps, accepts_word.miss h hword, Parsed.succeeds]

/-- What stands without a postfix is read as it is. -/
theorem primary_of_atom {l' : Lexeme} (h : src.Holds i l') (hatom : ∀ own, src.read own (.rule .atom) i = some (.expr e, j))
    (hword : l'.kind.isWord = true → j = i + 1) (hl : src.Holds j l) (hstop : l.Stops 5) :
    src.read none (.rule .primary) i = some (.expr e, j) := by
  have hij : i < j := lt_of_read (hatom none) rfl
  have hmiss : ∀ s ∈ ["[", "("], l'.kind.isWord = true →
      src.read none (.expect s) (i + 1) = some (.nothing, i + 1) := by
    intro s hs hw
    rw [← hword hw]
    simp only [List.mem_cons, List.not_mem_nil, or_false] at hs
    rcases hs with rfl | rfl
    · exact expect_miss hl (hstop (5, "[") (by decide) (Nat.le_refl _)) (by decide)
    · exact expect_miss hl (hstop (5, "(") (by decide) (Nat.le_refl _)) (by decide)
  exact read_primary hl hstop (recover_miss h (hmiss "[" (by decide)) rfl rfl) (fun _ => rfl)
    (recover_miss h (hmiss "(" (by decide)) rfl rfl) (fun _ => rfl) hatom rfl hij

/-- Nothing is read where no expression begins. -/
theorem primary_miss (h : src.Holds i l) (hword : l.kind.isWord = false) (hnumber : l.kind ≠ .number)
    (hopen : l.isOp "(" = false) : src.read none (.rule .primary) i = some (.nothing, i) := by
  have hfirst : src.round .primary i (.nothing, i) = some (.nothing, i) :=
    round_primary (fun hs => by cases hs)
      (recover_miss h (fun hw => by rw [hword] at hw; cases hw) rfl rfl) (fun _ => rfl)
      (recover_miss h (fun hw => by rw [hword] at hw; cases hw) rfl rfl) (fun _ => rfl)
      (fun _ => atom_miss h hword hnumber hopen)
  exact read_of_grown .refl hfirst (Nat.le_refl _) nofun rfl

/-- An element of a field: a name and two indices in brackets. -/
theorem primary_subscript {e₁ e₂ : Expr SignRef} (hname : src.Holds i (.name s))
    (hopen : src.Holds (i + 1) (.op "["))
    (hread : src.read none (.rule .recoverIndices) (i + 2) = some (.list [.expr e₁, .expr e₂], k))
    (hclose : src.Holds k (.op "]")) (hl : src.Holds (k + 1) l) (hstop : l.Stops 5) :
    src.read none (.rule .primary) i = some (.expr (.subscript default ⟨default, s⟩ e₁ e₂), k + 1) := by
  obtain ⟨t, _, hshows, ht⟩ := accepts_word.hit hname rfl
  obtain ⟨u, _, hu⟩ := expect_hit hopen (by decide)
  obtain ⟨v, _, hv⟩ := expect_hit hclose (by decide)
  have hkind : t.kind = .name := hshows.kind
  have htext : t.text = s := hshows.text
  have hsub : src.read none (.rule .recoverSubscript) i =
      some (.expr (.subscript default ⟨default, s⟩ e₁ e₂), k + 1) := by
    refine read_choice ?_ rfl rfl
    simp [choice, steps, ht, hu, hread, hv, Parsed.succeeds, build, hkind, htext, Parser.exprsOf, Parsed.items,
      element]
  have hcall : src.read none (.rule .recoverCall) i = some (.nothing, i) :=
    recover_miss (s := "(") hname (fun _ => expect_miss hopen rfl (by decide)) rfl rfl
  have hij : i < k + 1 := lt_of_read hsub rfl
  exact read_primary hl hstop hsub (fun h => by cases h) hcall (fun _ => rfl)
    (fun _ => atom_name hname) rfl hij

/-- A call: a name and arguments in parentheses. -/
theorem primary_call {args : List (Expr SignRef)} (hname : src.Holds i (.name s))
    (hopen : src.Holds (i + 1) (.op "("))
    (hread : src.read none (.rule .recoverArgs) (i + 2) = some (.list (args.map .expr), k))
    (hclose : src.Holds k (.op ")")) (hl : src.Holds (k + 1) l) (hstop : l.Stops 5) :
    src.read none (.rule .primary) i = some (.expr (.call default ⟨default, s⟩ args), k + 1) := by
  obtain ⟨t, _, hshows, ht⟩ := accepts_word.hit hname rfl
  obtain ⟨u, _, hu⟩ := expect_hit hopen (by decide)
  obtain ⟨v, _, hv⟩ := expect_hit hclose (by decide)
  have hkind : t.kind = .name := hshows.kind
  have htext : t.text = s := hshows.text
  have hsub : src.read none (.rule .recoverSubscript) i = some (.nothing, i) :=
    recover_miss (s := "[") hname (fun _ => expect_miss hopen rfl (by decide)) rfl rfl
  have hcall : src.read none (.rule .recoverCall) i = some (.expr (.call default ⟨default, s⟩ args), k + 1) := by
    refine read_choice ?_ rfl rfl
    simp [choice, steps, ht, hu, hread, hv, Parsed.succeeds, build, hkind, htext]
  have hij : i < k + 1 := lt_of_read hcall rfl
  exact read_primary hl hstop hsub (fun _ => rfl) hcall (fun h => by cases h)
    (fun _ => atom_name hname) rfl hij

/-! ### Signs -/

/-- The last alternative passes a result on as it is. -/
theorem choice_only
    (h : again (.rule r) i = some x) (hx : x.1.succeeds = false → x = (.nothing, i)) :
    src.choice again i [only r] = some x := by
  cases hs : x.1.succeeds with
  | true => simp [choice, only, steps, h, hs, build]
  | false => simp [choice, only, steps, h, hx hs, Parsed.succeeds]

theorem factor_of_primary (h : src.Holds i l) (hplus : l.isOp "+" = false)
    (hminus : l.isOp "-" = false) (hread : src.read none (.rule .primary) i = some x)
    (hx : x.1.succeeds = false → x = (.nothing, i)) : src.read own (.rule .factor) i = some x := by
  refine read_choice ?_ rfl rfl
  rw [choice, choice, choice_only hread hx]
  simp [steps, expect_miss h hplus (by decide), expect_miss h hminus (by decide), Parsed.succeeds]

theorem factor_signed {op : UnaryOp} (h : src.Holds i (.op op.spelling))
    (hread : src.read none (.rule .factor) (i + 1) = some (.expr e, j)) (hsigned : signed op i e = some e') :
    src.read own (.rule .factor) i = some (.expr e', j) := by
  refine read_choice ?_ rfl rfl
  cases op with
  | pos =>
    obtain ⟨t, _, ht⟩ := expect_hit h (by decide)
    change ∀ own, src.read own (.expect "+") i = _ at ht
    simp [choice, steps, ht, hread, hsigned, Parsed.succeeds, build]
  | neg =>
    obtain ⟨t, _, ht⟩ := expect_hit h (by decide)
    change ∀ own, src.read own (.expect "-") i = _ at ht
    have hmiss : src.read none (.expect "+") i = some (.nothing, i) := expect_miss h rfl (by decide)
    simp [choice, steps, hmiss, ht, hread, hsigned, Parsed.succeeds, build]

/-! ### Operations that associate to the left -/

/-- The alternative of a rule that begins with itself and goes on with an operation. -/
def carryOn (r : Rule) (op : BinOp) (operand : Rule) : Alternative :=
  ⟨[.keep (.rule r), .need (.expect op.spelling), .keep (.rule operand)], .binary op, false⟩

/-- A rule for two operations of one level that associate to the left. -/
structure LeftRule (r operand : Rule) (f g : BinOp) : Prop where
  body : r.body = .choice [carryOn r f operand, carryOn r g operand, only operand]
  memory : r.memory = .grown
  spelling : f.spelling ≠ g.spelling
  own : ∀ (src : Source) i k last, src.read (some ⟨r, k, last⟩) (.rule operand) i = src.read none (.rule operand) i

theorem term_leftRule : LeftRule .term .factor .mul .div :=
  ⟨rfl, rfl, by decide, fun _ _ _ _ => read_own _ rfl⟩

theorem sum_leftRule : LeftRule .sum .term .add .sub := by
  refine ⟨rfl, rfl, by decide, fun src i k last => ?_⟩
  have hown : ∀ seed ∈ some (Seed.mk .sum k last), seed.rule = .term → seed.place ≠ i := by
    rintro _ ⟨rfl⟩ hr
    cases hr
  ext x
  rw [read_eq_some_iff, read_eq_some_iff]
  refine ⟨fun h => ?_, fun h => h.with_seed fun r hr => ⟨by cases hr; nofun, by cases hr; exact hown⟩⟩
  rcases h.rule_cases with ⟨hm, -⟩ | ⟨hm, -⟩ | ⟨hm, ⟨seed, hs, hr, hplace⟩ | hg⟩
  · cases hm
  · cases hm
  · exact absurd hplace (hown seed hs hr)
  · exact .of_leads (.grown hm nofun hg)

theorem spelling_mem_operators (op : BinOp) : op.spelling ∈ operators := by
  cases op <;> decide

/-- Growing leads to an expression, and its first operand ends no later. -/
structure Spine (src : Source) (r operand : Rule) (i j : Nat) (e : Expr SignRef) : Prop where
  grown : Grown (src.round r i) (.nothing, i) (.expr e, j)
  first : ∃ x, src.read none (.rule operand) i = some x ∧ x.2 ≤ j

namespace LeftRule

variable {r operand : Rule} {f g op : BinOp}

/-- One round of a rule that goes on with neither of its operations. -/
theorem round_operand (hr : LeftRule r operand f g) (last : Parsed × Nat)
    (hlast : last.1.succeeds = true → ∀ op ∈ [f, g], ∀ own,
      src.read own (.expect op.spelling) last.2 = some (.nothing, last.2))
    (hread : src.read none (.rule operand) i = some x) :
    src.round r i last = some (if x.1.succeeds then x else (.nothing, i)) := by
  have hthird : src.choice (src.read (some ⟨r, i, last⟩)) i [only operand] =
      some (if x.1.succeeds then x else (.nothing, i)) := by
    cases hs : x.1.succeeds <;> simp [choice, only, steps, hr.own, hread, hs, build]
  rw [round, hr.body]
  dsimp only
  rw [choice, choice, hthird]
  cases hs : last.1.succeeds with
  | true =>
    have hf := hlast hs f (by simp)
    have hg := hlast hs g (by simp)
    simp [carryOn, steps, read_seed hr.memory, hf, hg, Parsed.succeeds]
  | false => simp [carryOn, steps, read_seed hr.memory, hs]

theorem single (hr : LeftRule r operand f g) (hread : src.read none (.rule operand) i = some (.expr e, j)) :
    src.Spine r operand i j e := by
  have hij : i < j := lt_of_read hread rfl
  have hround := hr.round_operand (.nothing, i) (fun hs => by cases hs) hread
  exact ⟨.tail .refl hround rfl hij, _, hread, Nat.le_refl _⟩

/-- An operation carries an expression on. -/
theorem step (hr : LeftRule r operand f g) {k : Nat} {e' : Expr SignRef} (h : src.Spine r operand i k e)
    (hop : op = f ∨ op = g) (hl : src.Holds k (.op op.spelling))
    (hread : src.read none (.rule operand) (k + 1) = some (.expr e', j)) :
    src.Spine r operand i j (.binary default e op e') := by
  have hkj : k + 1 < j := lt_of_read hread rfl
  obtain ⟨t, _, ht⟩ := expect_hit hl (spelling_mem_operators op)
  have hround : src.round r i (.expr e, k) = some (.expr (.binary default e op e'), j) := by
    rw [round, hr.body]
    rcases hop with rfl | rfl
    · simp [choice, carryOn, steps, read_seed hr.memory, ht, hr.own, hread, Parsed.succeeds, build]
    · have hmiss : ∀ own, src.read own (.expect f.spelling) k = some (.nothing, k) := fun own =>
        expect_miss hl (by rw [Lexeme.isOp_op]; exact beq_eq_false_iff_ne.2 hr.spelling.symm)
          (spelling_mem_operators f)
      simp [choice, carryOn, steps, read_seed hr.memory, hmiss, ht, hr.own, hread, Parsed.succeeds, build]
  obtain ⟨x, hx, hle⟩ := h.first
  exact ⟨.tail h.grown hround rfl (Nat.lt_of_succ_lt hkj), x, hx, Nat.le_trans hle (by omega)⟩

/-- An expression is read up to a lexeme that is none of the operations. -/
theorem read (hr : LeftRule r operand f g) (h : src.Spine r operand i j e) (hl : src.Holds j l)
    (hf : l.isOp f.spelling = false) (hg : l.isOp g.spelling = false) :
    src.read none (.rule r) i = some (.expr e, j) := by
  obtain ⟨x, hx, hle⟩ := h.first
  have hij : i ≤ x.2 := ((read_eq_some_iff.1 hx).onward nofun).le
  have hmiss : ∀ op ∈ [f, g], ∀ own, src.read own (.expect op.spelling) j = some (.nothing, j) := by
    intro op hop own
    simp only [List.mem_cons, List.not_mem_nil, or_false] at hop
    rcases hop with rfl | rfl
    · exact expect_miss hl hf (spelling_mem_operators _)
    · exact expect_miss hl hg (spelling_mem_operators _)
  have hlast := hr.round_operand (.expr e, j) (fun _ => hmiss) hx
  refine read_of_grown h.grown hlast ?_ nofun hr.memory
  split
  · exact hle
  · exact Nat.le_trans hij hle

theorem miss (hr : LeftRule r operand f g)
    (hread : src.read none (.rule operand) i = some (.nothing, i)) :
    src.read none (.rule r) i = some (.nothing, i) := by
  have hfirst := hr.round_operand (.nothing, i) (fun hs => by cases hs) hread
  exact read_of_grown .refl hfirst (Nat.le_refl _) nofun hr.memory

end LeftRule

/-! ### Comparisons and assignments -/

theorem steps_keep_one {c : Call} {x : Parsed} (h : again c i = some (x, j))
    (hx : x.succeeds = true) : steps again [] false i [.keep c] = some (some ([x], j), false) := by
  simp [steps, h, hx]

theorem steps_keep_none {c : Call}
    (h : again c i = some (.nothing, i)) : steps again [] false i [.keep c] = some (none, false) := by
  simp [steps, h, Parsed.succeeds]

/-- An operand without tails is read as it is. -/
theorem read_without_tails {operand tails tail : Rule}
    (hread : src.read none (.rule operand) i = some x)
    (hx : x.1.succeeds = false → x = (.nothing, i))
    (hmiss : x.1.succeeds = true → src.read none (.rule tail) x.2 = some (.nothing, x.2))
    (hb : r.body = .choice [⟨[.keep (.rule operand), .keep (.rule tails)], action, false⟩, only operand])
    (hm : r.memory = .remembered) (htails : tails.body = .rounds [.keep (.rule tail)])
    (hm' : tails.memory = .remembered) : src.read own (.rule r) i = some x := by
  refine read_choice ?_ hb hm
  rw [choice, choice_only hread hx]
  cases hs : x.1.succeeds with
  | true =>
    have hempty : src.read none (.rule tails) x.2 = some (.list [], x.2) :=
      read_rounds .nil (steps_keep_none (hmiss hs)) htails hm'
    simp [steps, hread, hempty, Parsed.succeeds]
  | false => simp [steps, hread, hs]

theorem cmpOp_spelling_mem_operators (op : CmpOp) : op.spelling ∈ operators := by
  cases op <;> decide

theorem comparisonBits_hit {op : CmpOp} (h : src.Holds i (.op op.spelling))
    (hread : src.read none (.rule .sum) (i + 1) = some (.expr e, j)) :
    src.read none (.rule .comparisonBits) i = some (.tuple [.cmpOp op, .expr e], j) := by
  obtain ⟨t, _, ht⟩ := expect_hit h (cmpOp_spelling_mem_operators op)
  have hmiss : ∀ op' : CmpOp, op' ≠ op → src.read none (.expect op'.spelling) i = some (.nothing, i) := by
    intro op' hne
    refine expect_miss h ?_ (cmpOp_spelling_mem_operators op')
    cases op <;> cases op' <;> first | rfl | exact absurd rfl hne
  refine read_choice ?_ rfl rfl
  have heq := hmiss .eq
  have hne := hmiss .ne
  have hle := hmiss .le
  have hge := hmiss .ge
  cases op <;> simp only [CmpOp.spelling, ne_eq, reduceCtorEq, not_false_eq_true, true_imp_iff] at ht heq hne hle hge <;>
    simp [choice, steps, ht, heq, hne, hle, hread, Parsed.succeeds, build]

theorem comparisonBits_miss (h : src.Holds i l) (hl : l.Stops 1) :
    src.read none (.rule .comparisonBits) i = some (.nothing, i) := by
  have heq : src.read none (.expect "==") i = some (.nothing, i) := expect_miss h (hl (1, "==") (by decide) (by decide)) (by decide)
  have hne : src.read none (.expect "<>") i = some (.nothing, i) := expect_miss h (hl (1, "<>") (by decide) (by decide)) (by decide)
  have hle : src.read none (.expect "<=") i = some (.nothing, i) := expect_miss h (hl (1, "<=") (by decide) (by decide)) (by decide)
  have hge : src.read none (.expect "=>") i = some (.nothing, i) := expect_miss h (hl (1, "=>") (by decide) (by decide)) (by decide)
  refine read_choice ?_ rfl rfl
  simp [choice, steps, heq, hne, hle, hge, Parsed.succeeds]

/-- A sum and the comparisons that follow it. -/
theorem comparison_chain {tails : List (CmpOp × Expr SignRef)}
    (hread : src.read none (.rule .sum) i = some (.expr e, k))
    (htails : Rounds (src.read none) [.keep (.rule .comparisonBits)] k
      (tails.map fun tail => .tuple [.cmpOp tail.1, .expr tail.2]) j)
    (hne : tails ≠ []) (hl : src.Holds j l) (hstop : l.Stops 1) :
    src.read own (.rule .comparison) i =
      some (.expr (.compare default e (tails.map Prod.fst) (tails.map Prod.snd)), j) := by
  have hrounds : src.read none (.rule .compareTails) k = _ :=
    read_rounds htails (steps_keep_none (comparisonBits_miss hl hstop)) rfl rfl
  have hcompares : Parser.comparesOf (.list (tails.map fun tail => .tuple [.cmpOp tail.1, .expr tail.2])) = tails := by
    simp [Parser.comparesOf, Parsed.items, List.filterMap_map]
  refine read_choice ?_ rfl rfl
  simp [choice, steps, hread, hrounds, hcompares, hne, Parsed.succeeds, build]

theorem assignTail_hit {flow : Flow} (h : src.Holds i (.op flow.spelling))
    (hread : src.read none (.rule .comparison) (i + 1) = some (.expr e, j)) :
    ∃ t, t.text = flow.spelling ∧ src.read none (.rule .assignTail) i = some (.list [.token t, .expr e], j) := by
  obtain ⟨t, htext, ht⟩ := expect_hit h (by cases flow <;> decide)
  have harrow : src.read none (.rule .assignOp) i = some (.token t, i + 1) := by
    refine read_choice ?_ rfl rfl
    cases flow with
    | left =>
      change ∀ own, src.read own (.expect "<<") i = _ at ht
      simp [choice, steps, ht, Parsed.succeeds, build]
    | right =>
      change ∀ own, src.read own (.expect ">>") i = _ at ht
      have hmiss : src.read none (.expect "<<") i = some (.nothing, i) := expect_miss h rfl (by decide)
      simp [choice, steps, hmiss, ht, Parsed.succeeds, build]
  refine ⟨t, htext, read_choice ?_ rfl rfl⟩
  simp [choice, steps, harrow, hread, Parsed.succeeds, build]

theorem assignTail_miss (h : src.Holds i l) (hl : l.Stops 0) :
    src.read none (.rule .assignTail) i = some (.nothing, i) := by
  have hleft : src.read none (.expect "<<") i = some (.nothing, i) :=
    expect_miss h (hl (0, "<<") (by decide) (by decide)) (by decide)
  have hright : src.read none (.expect ">>") i = some (.nothing, i) :=
    expect_miss h (hl (0, ">>") (by decide) (by decide)) (by decide)
  have harrow : src.read none (.rule .assignOp) i = some (.nothing, i) := by
    refine read_choice ?_ rfl rfl
    simp [choice, steps, hleft, hright, Parsed.succeeds]
  refine read_choice ?_ rfl rfl
  simp [choice, steps, harrow, Parsed.succeeds]

/-- What an assignment reads is an expression. -/
theorem expr_of_assignment
    (hread : src.read none (.rule .assignment) i = some x) (hx : x.1.succeeds = false → x = (.nothing, i)) :
    src.read own (.rule .expr) i = some x :=
  read_choice (choice_only hread hx) rfl rfl

/-- A chain of arrows and operands after a first operand. -/
inductive Arrows (src : Source) : Nat → List (Flow × Expr SignRef) → Nat → Prop where
  | nil {i : Nat} : src.Arrows i [] i
  | cons {i j k : Nat} {flow : Flow} {e : Expr SignRef} {rest : List (Flow × Expr SignRef)} :
      src.Holds i (.op flow.spelling) → src.read none (.rule .comparison) (i + 1) = some (.expr e, j) →
      src.Arrows j rest k → src.Arrows i ((flow, e) :: rest) k

theorem Arrows.rounds (h : src.Arrows i tails j) :
    ∃ results, Rounds (src.read none) [.keep (.rule .assignTail)] i results j ∧
      Parser.tailsOf (.list results) = tails := by
  induction h with
  | nil => exact ⟨[], .nil, rfl⟩
  | @cons i j k flow e rest harrow hread _ ih =>
    obtain ⟨results, hrounds, htails⟩ := ih
    obtain ⟨t, htext, ht⟩ := assignTail_hit harrow hread
    refine ⟨_, .cons (steps_keep_one ht rfl) hrounds, ?_⟩
    have hflow : (if t.text = "<<" then Flow.left else .right) = flow := by
      rw [htext]
      cases flow <;> rfl
    rw [← htails, ← hflow]
    rfl

/-- A chain of assignments in which every target can take a value. -/
theorem assignment_chain (hread : src.read none (.rule .comparison) i = some (.expr e, k))
    (htails : src.Arrows k tails j) (hne : tails ≠ []) (hl : src.Holds j l) (hstop : l.Stops 0)
    (hchain : assignment e tails = some e') : src.read none (.rule .assignment) i = some (.expr e', j) := by
  obtain ⟨results, hrounds, rfl⟩ := htails.rounds
  have hread' : src.read none (.rule .assignTails) k = some (.list results, j) :=
    read_rounds hrounds (steps_keep_none (assignTail_miss hl hstop)) rfl rfl
  have hresults : results ≠ [] := by
    rintro rfl
    exact hne rfl
  refine read_choice ?_ rfl rfl
  simp [choice, steps, hread, hread', hresults, hchain, Parsed.succeeds, build]

/-! ### Places where no expression begins -/

theorem expr_miss (h : src.Holds i l) (hl : l.NoExpr) : src.read own (.rule .expr) i = some (.nothing, i) := by
  have hprimary := primary_miss h hl.word hl.number (hl.operator "(" (by decide))
  have hfactor : src.read none (.rule .factor) i = some (.nothing, i) :=
    factor_of_primary h (hl.operator "+" (by decide)) (hl.operator "-" (by decide)) hprimary fun _ => rfl
  have hsum := sum_leftRule.miss (term_leftRule.miss hfactor)
  have hcomparison : src.read none (.rule .comparison) i = some (.nothing, i) :=
    read_without_tails hsum (fun _ => rfl) (fun hs => by cases hs) rfl rfl rfl rfl
  have hassignment : src.read none (.rule .assignment) i = some (.nothing, i) :=
    read_without_tails hcomparison (fun _ => rfl) (fun hs => by cases hs) rfl rfl rfl rfl
  exact expr_of_assignment hassignment fun _ => rfl

end Grammar.Source

end Labyrinth
