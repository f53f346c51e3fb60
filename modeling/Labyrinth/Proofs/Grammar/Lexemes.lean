import Labyrinth.Proofs.Grammar.Agreement
import Labyrinth.Proofs.Grammar.Writing

/-!
# Reading lexemes

What plain reading comes to, step by step: what calls for a single token read where a source holds a lexeme, what
repetitions and growing rules come to, and the rules that accept one token by its kind.
-/

namespace Labyrinth

def Lexeme.isOp (spelling : String) (l : Lexeme) : Bool :=
  l.kind == .op && l.text == spelling

variable {l : Lexeme}

@[simp] theorem Lexeme.isOp_op (s s' : String) : (Lexeme.op s').isOp s = (s' == s) := by
  simp [Lexeme.isOp, Lexeme.op]

theorem Lexeme.isOp_of_ne (h : l.kind ≠ .op) (s : String) : l.isOp s = false := by
  simp [Lexeme.isOp, h]

/-- A lexeme is read as a token. Only operators are spelled as operators. -/
structure Lexeme.Shows (l : Lexeme) (t : Token) : Prop where
  kind : t.kind = l.kind
  text : t.text = l.text
  regular : l.kind.isRegular = true
  operator : l.text ∈ operators → l.kind = .op

/-- Operators have no names, and the numbers of their kinds are not those of regular tokens. -/
theorem operators_codes : ∀ s ∈ operators, TokenKind.codeNamed? s = none ∧
    ∀ code ∈ TokenKind.spellings.lookup s, 3 ≤ code ∧ code < 54 := by
  decide

theorem code?_ne_of_regular {kind : TokenKind} (h : kind.isRegular = true) {code : Nat} (hlow : 3 ≤ code)
    (hhigh : code < 54) : kind.code? ≠ some (code : Int) := by
  cases kind with
  | keyword k =>
    simp only [TokenKind.code?, TokenKind.firstKeyword, ne_eq, Option.some.injEq]
    omega
  | endMarker | name | number | op =>
    simp only [TokenKind.code?, ne_eq, Option.some.injEq]
    omega
  | comment | foreign | unknown => cases h

theorem Lexeme.Shows.matchesText {t : Token} (h : l.Shows t) {s : String} (hs : s ∈ operators) :
    Parser.matchesText s t = l.isOp s := by
  obtain ⟨hname, hcode⟩ := operators_codes s hs
  rw [Parser.matchesText, hname, h.text, h.kind, Lexeme.isOp]
  by_cases htext : l.text = s
  · have hkind := h.operator (htext ▸ hs)
    simp [htext, hkind]
  · rw [beq_eq_false_iff_ne.2 htext]
    cases hlookup : TokenKind.spellings.lookup s with
    | none => simp
    | some code =>
      obtain ⟨hlow, hhigh⟩ := hcode code hlookup
      have hne := code?_ne_of_regular h.regular hlow hhigh
      simp [beq_eq_false_iff_ne.2 hne]

/-! ### Kinds of words -/

namespace TokenKind

/-- The names of number types. -/
def isNumberType : TokenKind → Bool
  | keyword .tiny | keyword .small | keyword .normal | keyword .big => true
  | _ => false

/-- Commands to the robot. -/
def isCommand : TokenKind → Bool
  | keyword .go | keyword .rl | keyword .rr | keyword .sonar | keyword .compass => true
  | _ => false

/-- Keywords that may stand where a name is meant. -/
def isKeyword : TokenKind → Bool
  | keyword k => k ≠ .returnWord
  | _ => false

/-- What may stand where a name is meant. -/
def isWord (kind : TokenKind) : Bool :=
  kind == name || kind.isKeyword

end TokenKind

namespace Grammar.Source

variable {src : Source} {own : Option Seed} {i : Nat} {l : Lexeme}

def Holds (src : Source) (i : Nat) (l : Lexeme) : Prop :=
  (∃ t, src.tokens[i]? = some t ∧ l.Shows t) ∧ (l.kind = .number → src.led i = l.led)

def At (src : Source) : Nat → List Lexeme → Prop
  | _, [] => True
  | i, l :: rest => src.Holds i l ∧ src.At (i + 1) rest

variable {rest : List Lexeme} {j : Nat} {c : Call} {x : Parsed × Nat} {t : Token} {s : String}
  {test : TokenKind → Bool} {r : Rule} {settled : Bool} {alternatives : List Alternative} {cs : List Call}
  {tests : List (TokenKind → Bool)} {results : List Parsed}

@[simp] theorem at_nil : src.At i [] := trivial

@[simp] theorem at_cons : src.At i (l :: rest) ↔ src.Holds i l ∧ src.At (i + 1) rest :=
  Iff.rfl

@[simp] theorem at_append {first : List Lexeme} :
    src.At i (first ++ rest) ↔ src.At i first ∧ src.At (i + first.length) rest := by
  induction first generalizing i with
  | nil => simp
  | cons l first ih =>
    rw [List.cons_append, at_cons, ih, at_cons, and_assoc, List.length_cons]
    simp only [Nat.add_assoc, Nat.add_comm 1]

/-- What stands at the start of lexemes that are followed by another one. -/
theorem At.next (h : src.At i rest) (hl : src.Holds j l) (hj : i + rest.length = j) :
    src.Holds i (rest.head?.getD l) := by
  cases rest with
  | nil =>
    obtain rfl : i = j := hj
    exact hl
  | cons l' rest => exact h.1

theorem At.get {lexemes : List Lexeme} (h : src.At i lexemes) {n : Nat} (hn : lexemes[n]? = some l) :
    src.Holds (i + n) l := by
  induction lexemes generalizing i n with
  | nil => cases hn
  | cons l' rest ih =>
    cases n with
    | zero =>
      cases hn
      exact h.1
    | succ n =>
      rw [← Nat.succ_add_eq_add_succ]
      exact ih h.2 hn

/-! ### Calls -/

/-- The result of a call at a place and the place where it ends, if plain reading comes to one. -/
noncomputable def read (src : Source) (own : Option Seed) (c : Call) (i : Nat) : Option (Parsed × Nat) :=
  open Classical in
  if h : ∃ x : Parsed × Nat, Reads src src.built false own c i x.1 x.2 then some h.choose else none

theorem read_eq_some_iff : src.read own c i = some x ↔ Reads src src.built false own c i x.1 x.2 := by
  unfold read
  constructor
  · intro h
    split at h
    · next hex =>
      cases h
      exact hex.choose_spec
    · cases h
  · intro h
    have hex : ∃ x : Parsed × Nat, Reads src src.built false own c i x.1 x.2 := ⟨x, h⟩
    obtain ⟨hx, hj⟩ := hex.choose_spec.unique h
    rw [dif_pos hex, Prod.ext hx hj]

/-- What counts as a success is a step forward. -/
theorem lt_of_read (h : src.read none c i = some x) (hx : x.1.succeeds = true) : i < x.2 :=
  ((read_eq_some_iff.1 h).onward nofun).lt hx

/-- A call for a single token takes the token at its place if it passes. -/
theorem read_single (hc : c.isRule = false) (ht : src.tokens[i]? = some t) :
    src.read own c i = some (if c.accepts t then (.token t, i + 1) else (.nothing, i)) := by
  split
  · next ha => exact read_eq_some_iff.2 (.of_leads (.take hc ht ha))
  · next ha => exact read_eq_some_iff.2 (.of_leads (.refuse hc ht (by simpa using ha)))

theorem read_expect (h : src.Holds i l) (hs : s ∈ operators) : ∃ t, l.Shows t ∧
      ∀ own, src.read own (.expect s) i = some (if l.isOp s then (.token t, i + 1) else (.nothing, i)) := by
  obtain ⟨⟨t, ht, hshows⟩, _⟩ := h
  refine ⟨t, hshows, fun own => ?_⟩
  rw [read_single rfl ht, Call.accepts, hshows.matchesText hs]

/-- An operator is read where it is expected. -/
theorem expect_hit (h : src.Holds i (.op s)) (hs : s ∈ operators) :
    ∃ t, t.text = s ∧ ∀ own, src.read own (.expect s) i = some (.token t, i + 1) := by
  obtain ⟨t, hshows, ht⟩ := read_expect h hs
  refine ⟨t, hshows.text, fun own => ?_⟩
  rw [ht, Lexeme.isOp_op, if_pos (beq_self_eq_true s)]

/-- Nothing but the operator itself is read where an operator is expected. -/
theorem expect_miss (h : src.Holds i l) (hl : l.isOp s = false) (hs : s ∈ operators) :
    src.read own (.expect s) i = some (.nothing, i) := by
  obtain ⟨t, _, ht⟩ := read_expect h hs
  rw [ht, if_neg (by rw [hl]; exact Bool.false_ne_true)]

/-- A call reads a token if its kind passes a test, and nothing otherwise. -/
def Accepts (src : Source) (c : Call) (test : TokenKind → Bool) : Prop :=
  ∀ own i t, src.tokens[i]? = some t →
    src.read own c i = some (if test t.kind then (.token t, i + 1) else (.nothing, i))

theorem accepts_single (hc : c.isRule = false) (hp : ∀ t, c.accepts t = test t.kind) : src.Accepts c test := by
  intro own i t ht
  rw [read_single hc ht, hp]

theorem accepts_keyword (k : Keyword) : src.Accepts (.keyword k) (· == .keyword k) :=
  accepts_single rfl fun _ => rfl

theorem accepts_name : src.Accepts (.token .name) (· == .name) :=
  accepts_single rfl fun _ => rfl

theorem accepts_number : src.Accepts (.token .number) (· == .number) :=
  accepts_single rfl fun _ => rfl

section Accepts

variable {c : Call} {test : TokenKind → Bool}

theorem Accepts.hit (h : src.Accepts c test) (hl : src.Holds i l) (ht : test l.kind = true) :
    ∃ t ∈ src.tokens, l.Shows t ∧ ∀ own, src.read own c i = some (.token t, i + 1) := by
  obtain ⟨⟨t, hget, hshows⟩, _⟩ := hl
  refine ⟨t, List.mem_of_getElem? hget, hshows, fun own => ?_⟩
  rw [h own i t hget, hshows.kind, if_pos ht]

theorem Accepts.miss (h : src.Accepts c test) (hl : src.Holds i l) (ht : test l.kind = false) :
    src.read own c i = some (.nothing, i) := by
  obtain ⟨⟨t, hget, hshows⟩, _⟩ := hl
  rw [h own i t hget, hshows.kind, if_neg (by rw [ht]; exact Bool.false_ne_true)]

end Accepts

/-! ### Rules -/

/-- A rule whose results are remembered has no use for a seed. -/
theorem read_own (seed : Seed) (hm : r.memory = .remembered) :
    src.read (some seed) (.rule r) i = src.read none (.rule r) i := by
  ext x
  rw [read_eq_some_iff, read_eq_some_iff]
  exact ⟨fun h => .of_leads (.anew hm (h.body hm)), fun h => .of_leads (.anew hm (h.body hm))⟩

theorem stepsTo_of_steps {list : List Step} {kept : List Parsed} {settled' : Bool} {out : Option (List Parsed × Nat)}
    (h : steps (src.read own) kept settled i list = some (out, settled')) :
    StepsTo (Reads src src.built false own) kept settled i list out settled' := by
  induction list generalizing kept settled i with
  | nil =>
    cases h
    exact .done
  | cons step rest ih =>
    rw [steps] at h
    split at h
    · next hs =>
      cases step <;> cases hs
      exact .cut (ih h)
    · next hs =>
      split at h
      · next hc =>
        split at h
        · next hx => exact .on hs (read_eq_some_iff.1 hc) hx (ih h)
        · next hx =>
          cases h
          exact .fails hs (read_eq_some_iff.1 hc) (by simpa using hx)
      · cases h

theorem choiceTo_of_choice (h : src.choice (src.read own) i alternatives = some x) :
    ChoiceTo src.built false (Reads src src.built false own) i alternatives x.1 x.2 := by
  induction alternatives with
  | nil =>
    cases h
    exact .none
  | cons a rest ih =>
    rw [choice] at h
    split at h
    · next hv => exact .skip hv rfl (ih h)
    · next hv =>
      have hv : a.invalid = false := by simpa using hv
      have htried : a.invalid = true → false = true := fun h => hv.symm.trans h
      split at h
      · next hs =>
        obtain ⟨_, hbuild, rfl⟩ := Option.map_eq_some_iff.1 h
        exact .done hv (stepsTo_of_steps hs) hbuild
      · next settled hs =>
        split at h
        · next hset =>
          cases h
          exact .settled htried (hset ▸ stepsTo_of_steps hs)
        · next hset =>
          rw [Bool.not_eq_true] at hset
          exact .next htried (hset ▸ stepsTo_of_steps hs) (ih h)
      · cases h

/-- A choice reads what its alternatives read. -/
theorem read_choice (hx : src.choice (src.read none) i alternatives = some x) (hb : r.body = .choice alternatives)
    (hm : r.memory = .remembered) : src.read own (.rule r) i = some x := by
  refine read_eq_some_iff.2 (.of_leads (.anew hm ?_))
  rw [hb]
  exact choiceTo_of_choice hx

/-- A rule whose results are forgotten reads what its alternatives read with the seed it is a part of. -/
theorem read_forgotten (hx : src.choice (src.read own) i alternatives = some x) (hb : r.body = .choice alternatives)
    (hm : r.memory = .forgotten) : src.read own (.rule r) i = some x := by
  refine read_eq_some_iff.2 (.of_leads (.handed hm ?_))
  rw [hb]
  exact choiceTo_of_choice hx

/-- A rule that is called with its own seed at its place yields the seed. -/
theorem read_seed (hm : r.memory = .grown) {result : Parsed × Nat} :
    src.read (some ⟨r, i, result⟩) (.rule r) i = some result :=
  have hseed : (⟨r, i, result⟩ : Seed) ∈ some (⟨r, i, result⟩ : Seed) := rfl
  read_eq_some_iff.2 (.of_leads (.seed hseed hm))

/-- Alternatives that pass a token on accept what one of them accepts. -/
theorem choice_accepts (ht : src.tokens[i]? = some t) (hcs : List.Forall₂ src.Accepts cs tests) :
    src.choice (src.read none) i (cs.map fun c => ⟨[.keep c], .pass, false⟩) =
      some (if tests.any (· t.kind) then (.token t, i + 1) else (.nothing, i)) := by
  induction hcs with
  | nil => rfl
  | @cons c test cs tests hc _ ih =>
    rw [List.map_cons, choice]
    simp only [steps, Step.call?, hc none i t ht]
    cases htest : test t.kind with
    | true => simp [Parsed.succeeds, htest]
    | false => simpa [Parsed.succeeds, htest] using ih

theorem accepts_rule (hcs : List.Forall₂ src.Accepts cs tests) (htest : ∀ kind, tests.any (· kind) = test kind)
    (hb : r.body = .choice (cs.map fun c => ⟨[.keep c], .pass, false⟩)) (hm : r.memory = .remembered) :
    src.Accepts (.rule r) test := by
  intro own i t ht
  rw [← htest]
  exact read_choice (choice_accepts ht hcs) hb hm

theorem accepts_numberTypeRaw : src.Accepts (.rule .numberTypeRaw) TokenKind.isNumberType := by
  refine accepts_rule (.cons (accepts_keyword .tiny) <| .cons (accepts_keyword .small) <|
    .cons (accepts_keyword .normal) <| .cons (accepts_keyword .big) .nil) (fun kind => ?_) rfl rfl
  cases kind with
  | keyword k => cases k <;> rfl
  | _ => rfl

theorem accepts_robotKeyword : src.Accepts (.rule .robotKeyword) TokenKind.isCommand := by
  refine accepts_rule (.cons (accepts_keyword .go) <| .cons (accepts_keyword .rl) <|
    .cons (accepts_keyword .rr) <| .cons (accepts_keyword .sonar) <| .cons (accepts_keyword .compass) .nil)
    (fun kind => ?_) rfl rfl
  cases kind with
  | keyword k => cases k <;> rfl
  | _ => rfl

theorem accepts_keyword_rule : src.Accepts (.rule .keyword) TokenKind.isKeyword := by
  refine accepts_rule (.cons accepts_numberTypeRaw <| .cons (accepts_keyword .field) <|
    .cons (accepts_keyword .begin) <| .cons (accepts_keyword .endWord) <| .cons (accepts_keyword .untilWord) <|
    .cons (accepts_keyword .doWord) <| .cons (accepts_keyword .check) <| .cons accepts_robotKeyword .nil)
    (fun kind => ?_) rfl rfl
  cases kind with
  | keyword k => cases k <;> rfl
  | _ => rfl

theorem accepts_keywordNotBegin :
    src.Accepts (.rule .keywordNotBegin) (fun kind => kind.isKeyword && kind != .keyword .begin) := by
  refine accepts_rule (.cons accepts_numberTypeRaw <| .cons (accepts_keyword .field) <|
    .cons (accepts_keyword .endWord) <| .cons (accepts_keyword .untilWord) <| .cons (accepts_keyword .doWord) <|
    .cons (accepts_keyword .check) <| .cons accepts_robotKeyword .nil) (fun kind => ?_) rfl rfl
  cases kind with
  | keyword k => cases k <;> rfl
  | _ => rfl

theorem accepts_word : src.Accepts (.rule .word) TokenKind.isWord :=
  accepts_rule (.cons accepts_name <| .cons accepts_keyword_rule .nil) (fun kind => by simp [TokenKind.isWord]) rfl rfl

theorem accepts_wordNotBegin :
    src.Accepts (.rule .wordNotBegin) (fun kind => kind.isWord && kind != .keyword .begin) := by
  refine accepts_rule (.cons accepts_name <| .cons accepts_keywordNotBegin .nil) (fun kind => ?_) rfl rfl
  cases kind with
  | keyword k => cases k <;> rfl
  | _ => rfl

/-! ### Repetitions -/

variable {list : List Step}

/-- Rounds that keep results one after another lead from a place to another. -/
inductive Rounds (again : Call → Nat → Option (Parsed × Nat)) (list : List Step) :
    Nat → List Parsed → Nat → Prop where
  | nil {i : Nat} : Rounds again list i [] i
  | cons {i j k : Nat} {result : Parsed} {results : List Parsed} {settled : Bool} :
      steps again [] false i list = some (some ([result], j), settled) → Rounds again list j results k →
      Rounds again list i (result :: results) k

theorem Rounds.roundsTo (h : Rounds (src.read none) list i results j)
    (hend : steps (src.read none) [] false j list = some (none, settled)) (done : List Parsed) :
    RoundsTo (Reads src src.built false none) list done i (.list (done.reverse ++ results)) j := by
  induction h generalizing done with
  | nil =>
    rw [List.append_nil]
    exact .stop (stepsTo_of_steps hend) nofun
  | @cons _ _ _ result results _ hstep _ ih =>
    have hmore := ih hend (result :: done)
    rw [List.reverse_cons, List.append_assoc, List.singleton_append] at hmore
    exact .more (stepsTo_of_steps hstep) hmore

/-- A repetition reads as many rounds as succeed. -/
theorem read_rounds (h : Rounds (src.read none) list i results j)
    (hend : steps (src.read none) [] false j list = some (none, settled)) (hb : r.body = .rounds list)
    (hm : r.memory = .remembered) : src.read own (.rule r) i = some (.list results, j) := by
  refine read_eq_some_iff.2 (.of_leads (.anew hm ?_))
  rw [hb]
  exact h.roundsTo hend []

/-! ### Growth -/

/-- One round of a rule that grows at a place. -/
noncomputable def round (src : Source) (r : Rule) (i : Nat) (last : Parsed × Nat) : Option (Parsed × Nat) :=
  match r.body with
  | .choice alternatives => src.choice (src.read (some ⟨r, i, last⟩)) i alternatives
  | _ => none

theorem bodyTo_of_round {last : Parsed × Nat} (h : src.round r i last = some x) :
    BodyTo src.built false (Reads src src.built false (some ⟨r, i, last⟩)) i r.body x.1 x.2 := by
  unfold round at h
  split at h
  · next hb =>
    rw [hb]
    exact choiceTo_of_choice h
  · cases h

/-- Growing leads from one result to another, further one. -/
inductive Grown (round : Parsed × Nat → Option (Parsed × Nat)) : Parsed × Nat → Parsed × Nat → Prop where
  | refl {a : Parsed × Nat} : Grown round a a
  | tail {a b : Parsed × Nat} {r : Parsed} {j : Nat} : Grown round a b → round b = some (r, j) → r.succeeds = true → b.2 < j → Grown round a (r, j)

/-- A rule that grows reads the result from which it gets no further. -/
theorem read_of_grown {b : Parsed × Nat} (h : Grown (src.round r i) (.nothing, i) b)
    (hlast : src.round r i b = some x) (hx : x.2 ≤ b.2) (hown : ∀ seed ∈ own, seed.rule = r → seed.place ≠ i)
    (hm : r.memory = .grown) : src.read own (.rule r) i = some b := by
  refine read_eq_some_iff.2 (.of_leads (.grown hm hown ?_))
  have hgrows : ∀ {a c : Parsed × Nat}, Grown (src.round r i) a c →
      GrowsTo (fun last stop => BodyTo src.built false (Reads src src.built false (some ⟨r, i, last, stop⟩)) i r.body)
        c.1 c.2 b.1 b.2 →
      GrowsTo (fun last stop => BodyTo src.built false (Reads src src.built false (some ⟨r, i, last, stop⟩)) i r.body)
        a.1 a.2 b.1 b.2 := by
    intro a c hac hend
    induction hac with
    | refl => exact hend
    | tail _ hround hs hlt ih => exact ih (.more (bodyTo_of_round hround) hs hlt hend)
  exact hgrows h (.stop (bodyTo_of_round hlast) fun _ => hx)

end Grammar.Source

end Labyrinth
