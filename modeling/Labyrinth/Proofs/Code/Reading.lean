import Labyrinth.Proofs.Code.Written

/-!
# Reading emitted expressions

Emitted expressions read with the precedence of C: what stands in brackets or behind a name comes first, then
products, sums and conjunctions. Nearly everything is emitted as a call, but a chain of comparisons is a conjunction
without brackets around it, and an index is a sum. So an expression is read as it was meant if and only if no index in
it is a chain. Several assertions next to each other are no expression at all.
-/

namespace Labyrinth.Code

open List Labyrinth.Task

/-! ### Tokens -/

inductive CToken where
  /-- A name, a number or a text in quotes. -/
  | leaf (text : String)
  | opened
  | closed
  | indexed
  | unindexed
  | comma
  | times
  | plus
  | and
  /-- What is no part of an expression. -/
  | other (c : Char)
deriving DecidableEq

def signTokens : Char → List CToken
  | ' ' => []
  | '(' => [.opened]
  | ')' => [.closed]
  | '[' => [.indexed]
  | ']' => [.unindexed]
  | ',' => [.comma]
  | '*' => [.times]
  | '+' => [.plus]
  | c => [.other c]

def textTokens (begun : List Char) : List Char → List CToken
  | [] => nameTokens begun
  | '&' :: '&' :: cs => nameTokens begun ++ .and :: textTokens [] cs
  | c :: cs =>
    if c.isAlphanum || c == '_' then textTokens (begun ++ [c]) cs
    else nameTokens begun ++ signTokens c ++ textTokens [] cs
where
  nameTokens (begun : List Char) : List CToken :=
    if begun.isEmpty then [] else [.leaf (String.ofList begun)]

def tokensOf (fragments : List Fragment) : List CToken :=
  fragments.flatMap fun
    | .glue text => textTokens [] text.toList
    | fragment => [.leaf fragment.text]

namespace Fragment

variable (fs : List Fragment)

@[simp] theorem tokens_foreign (x : String) : tokensOf (foreign x :: fs) = .leaf x :: tokensOf fs := rfl
@[simp] theorem tokens_function (x : String) : tokensOf (function x :: fs) = .leaf (functionName x) :: tokensOf fs := rfl
@[simp] theorem tokens_mention (x : String) : tokensOf (mention x :: fs) = .leaf (variableName x) :: tokensOf fs := rfl
@[simp] theorem tokens_number (value : Int) : tokensOf (number value :: fs) = .leaf (toString value) :: tokensOf fs := rfl
@[simp] theorem tokens_quoted (x : String) : tokensOf (quoted x :: fs) = .leaf (quoted x).text :: tokensOf fs := rfl
@[simp] theorem tokens_blank : tokensOf (glue " " :: fs) = tokensOf fs := rfl
@[simp] theorem tokens_comma : tokensOf (glue ", " :: fs) = .comma :: tokensOf fs := rfl
@[simp] theorem tokens_opened : tokensOf (glue "( " :: fs) = .opened :: tokensOf fs := rfl
@[simp] theorem tokens_closed : tokensOf (glue ") " :: fs) = .closed :: tokensOf fs := rfl
@[simp] theorem tokens_closed_blank : tokensOf (glue " ) " :: fs) = .closed :: tokensOf fs := rfl
@[simp] theorem tokens_closed_comma : tokensOf (glue "), " :: fs) = .closed :: .comma :: tokensOf fs := rfl
@[simp] theorem tokens_indexed : tokensOf (glue "[ " :: fs) = .indexed :: tokensOf fs := rfl
@[simp] theorem tokens_unindexed : tokensOf (glue " ] " :: fs) = .unindexed :: tokensOf fs := rfl
@[simp] theorem tokens_plus : tokensOf (glue "+ " :: fs) = .plus :: tokensOf fs := rfl
@[simp] theorem tokens_times : tokensOf (glue "* " :: fs) = .times :: tokensOf fs := rfl
@[simp] theorem tokens_and : tokensOf (glue "&& " :: fs) = .and :: tokensOf fs := rfl

@[simp] theorem tokens_print : tokensOf (glue "printf( " :: fs) = .leaf "printf" :: .opened :: tokensOf fs :=
  congrArg (· ++ tokensOf fs) (by decide +kernel : tokensOf [glue "printf( "] = [.leaf "printf", .opened])

@[simp] theorem tokens_clamp :
    tokensOf (glue "max(min(" :: fs) = .leaf "max" :: .opened :: .leaf "min" :: .opened :: tokensOf fs :=
  congrArg (· ++ tokensOf fs)
    (by decide +kernel : tokensOf [glue "max(min("] = [.leaf "max", .opened, .leaf "min", .opened])

end Fragment

@[simp] theorem tokensOf_nil : tokensOf [] = [] := rfl

@[simp] theorem tokensOf_append (fs gs : List Fragment) : tokensOf (fs ++ gs) = tokensOf fs ++ tokensOf gs :=
  flatMap_append

/-! ### The reader -/

inductive CTree where
  /-- Names, numbers and texts next to each other. -/
  | leaf (texts : List String)
  | call (function : CTree) (args : List CTree)
  | index (field place : CTree)
  | times (lhs rhs : CTree)
  | plus (lhs rhs : CTree)
  | and (lhs rhs : CTree)

namespace CTree

/-- The left operand of an operator, if there is one, with the right one. -/
def after (op : CTree → CTree → CTree) : Option CTree → CTree → CTree
  | none, t => t
  | some s, t => op s t

def apply (f : String) (args : List CTree) : CTree := .call (.leaf [f]) args

end CTree

/-- An expression that is being read, after the arguments before it: the left operands of a conjunction, a sum and a
product, and what was read last. -/
structure Pending where
  args : List CTree := []
  conjunction : Option CTree := none
  sum : Option CTree := none
  product : Option CTree := none
  last : Option CTree := none

namespace Pending

/-- The product that ends with a tree. -/
def term (p : Pending) (t : CTree) : CTree := .after .times p.product t

/-- The sum that ends with a tree. -/
def total (p : Pending) (t : CTree) : CTree := .after .plus p.sum (p.term t)

/-- The conjunction that ends with a tree. -/
def whole (p : Pending) (t : CTree) : CTree := .after .and p.conjunction (p.total t)

/-- What was read last. -/
def put (p : Pending) (t : CTree) : Pending := { p with last := some t }

/-- A tree is the left operand of a product. -/
def times (p : Pending) (t : CTree) : Pending := { p with product := some (p.term t), last := none }

/-- A tree is the left operand of a sum. -/
def plus (p : Pending) (t : CTree) : Pending := { p with sum := some (p.total t), product := none, last := none }

/-- A tree is the left operand of a conjunction. -/
def and (p : Pending) (t : CTree) : Pending := { args := p.args, conjunction := some (p.whole t) }

/-- A tree is an argument. -/
def next (p : Pending) (t : CTree) : Pending := { args := p.args ++ [p.whole t] }

/-- The arguments of a call. Without any argument there must be nothing at all. -/
def arguments? : Pending → Option (List CTree)
  | ⟨[], none, none, none, none⟩ => some []
  | p => p.last.map fun t => p.args ++ [p.whole t]

end Pending

/-- What a bracket is for. -/
inductive Bracket where
  | group
  | call
  | index
deriving DecidableEq

abbrev Stack := List (Bracket × Pending)

def Stack.step : Stack → CToken → Option Stack
  | [], _ => none
  | (b, p) :: rest, token => match token, p.last with
    | .leaf w, none => some ((b, p.put (.leaf [w])) :: rest)
    | .leaf w, some (.leaf ws) => some ((b, p.put (.leaf (ws ++ [w]))) :: rest)
    | .opened, none => some ((.group, {}) :: (b, p) :: rest)
    | .opened, some _ => some ((.call, {}) :: (b, p) :: rest)
    | .indexed, some _ => some ((.index, {}) :: (b, p) :: rest)
    | .times, some t => some ((b, p.times t) :: rest)
    | .plus, some t => some ((b, p.plus t) :: rest)
    | .and, some t => some ((b, p.and t) :: rest)
    | .comma, some t => if b = .call then some ((b, p.next t) :: rest) else none
    | .closed, last => match b, rest, last with
      | .group, (c, q) :: rest, some t => some ((c, q.put (p.whole t)) :: rest)
      | .call, (c, q) :: rest, _ => do
        let f ← q.last
        let args ← p.arguments?
        return (c, q.put (.call f args)) :: rest
      | _, _, _ => none
    | .unindexed, some t => match b, rest with
      | .index, (c, q) :: rest => do
        let f ← q.last
        return (c, q.put (.index f (p.whole t))) :: rest
      | _, _ => none
    | _, _ => none

def Stack.scan (s : Stack) (tokens : List CToken) : Option Stack := tokens.foldlM Stack.step s

/-- The expression that tokens are read as. -/
def readExpr (tokens : List CToken) : Option CTree :=
  match Stack.scan [(.group, {})] tokens with
  | some [(_, p)] => p.last.map p.whole
  | _ => none

/-! ### How tokens are read -/

namespace Stack

variable {b c : Bracket} {p q : Pending} {rest s : Stack} {f t : CTree} {w : String}

@[simp] theorem scan_nil : s.scan [] = some s := rfl

@[simp] theorem scan_cons (token : CToken) (ts : List CToken) :
    s.scan (token :: ts) = (s.step token).bind fun s => s.scan ts := rfl

@[simp] theorem scan_append (ts us : List CToken) : s.scan (ts ++ us) = (s.scan ts).bind fun s => s.scan us := by
  simp [scan]

theorem step_leaf (hp : p.last = none) : step ((b, p) :: rest) (.leaf w) = some ((b, p.put (.leaf [w])) :: rest) := by
  cases p; cases hp; rfl

theorem step_comma (hp : p.last = some t) : step ((.call, p) :: rest) .comma = some ((.call, p.next t) :: rest) := by
  cases p; cases hp; rfl

theorem step_plus (hp : p.last = some t) : step ((b, p) :: rest) .plus = some ((b, p.plus t) :: rest) := by
  cases p; cases hp; rfl

theorem step_times (hp : p.last = some t) : step ((b, p) :: rest) .times = some ((b, p.times t) :: rest) := by
  cases p; cases hp; rfl

theorem step_closed (hp : p.last = some t) : step ((.call, p) :: (c, q.put f) :: rest) .closed =
    some ((c, q.put (.call f (p.args ++ [p.whole t]))) :: rest) := by
  have hargs : p.arguments? = some (p.args ++ [p.whole t]) := by
    unfold Pending.arguments?
    split
    · cases hp
    · simp [hp]
  change (p.arguments?.bind fun args => some ((c, q.put (.call f args)) :: rest)) = _
  rw [hargs]
  rfl

end Stack

/-- The operands of a conjunction are read one after another. -/
def Pending.fed (p : Pending) (c : CTree) : List CTree → Pending
  | [] => p.put c
  | d :: ds => (p.and c).fed d ds

def CTree.all : List CTree → CTree
  | [] => .leaf []
  | c :: cs => cs.foldl .and c

variable {p : Pending} {ts : List CToken} {t u : CTree}

theorem Pending.fed_eq (hs : p.sum = none) (hp : p.product = none) (c : CTree) (cs : List CTree) :
    (p.fed c cs).args = p.args ∧ ∃ t, (p.fed c cs).last = some t ∧
      (p.fed c cs).whole t = cs.foldl .and (.after .and p.conjunction c) := by
  induction cs generalizing p c with
  | nil => exact ⟨rfl, c, rfl, by simp [fed, put, whole, total, term, hs, hp, CTree.after]⟩
  | cons d cs ih => simpa [fed, and, whole, total, term, hs, hp, CTree.after] using ih (p := p.and c) rfl rfl d

theorem Pending.fed_last (p : Pending) (c : CTree) (cs : List CTree) : ∃ t, (p.fed c cs).last = some t ∧
    (p.conjunction.isSome ∨ cs ≠ [] → ∃ k, (p.fed c cs).conjunction = some k) := by
  induction cs generalizing p c with
  | nil => exact ⟨c, rfl, fun h => Option.isSome_iff_exists.1 (h.resolve_right (not_not_intro rfl))⟩
  | cons d cs ih =>
    obtain ⟨t, ht, hk⟩ := ih (p.and c) d
    exact ⟨t, ht, fun _ => hk (.inl rfl)⟩

/-- Tokens are read as the operands of a conjunction, wherever an expression can begin. -/
def Reads (ts : List CToken) (c : CTree) (cs : List CTree) : Prop :=
  ∀ b p rest, p.last = none → Stack.scan ((b, p) :: rest) ts = some ((b, p.fed c cs) :: rest)

/-- Tokens are read as a tree, where nothing else is next to them. -/
def ReadsAs (ts : List CToken) (t : CTree) : Prop :=
  ∃ c cs, Reads ts c cs ∧ .all (c :: cs) = t

theorem Reads.as {c : CTree} (h : Reads ts c []) : ReadsAs ts c := ⟨c, [], h, rfl⟩

theorem ReadsAs.scan (h : ReadsAs ts t) (b : Bracket) (args : List CTree) (rest : Stack) :
    ∃ q u, Stack.scan ((b, { args := args }) :: rest) ts = some ((b, q) :: rest) ∧ q.last = some u ∧ q.args = args ∧
      q.whole u = t := by
  obtain ⟨c, cs, hread, rfl⟩ := h
  obtain ⟨hargs, u, hu, hwhole⟩ := Pending.fed_eq (p := { args := args }) rfl rfl c cs
  exact ⟨_, u, hread b _ rest rfl, hu, hargs, hwhole⟩

theorem ReadsAs.readExpr_eq (h : ReadsAs ts t) : readExpr ts = some t := by
  obtain ⟨q, u, hscan, hu, -, hwhole⟩ := h.scan .group [] []
  rw [readExpr, hscan]
  simp [hu, hwhole]

/-- Names, numbers and texts next to each other are read as one leaf. -/
theorem Reads.leaves (w : String) (ws : List String) : Reads ((w :: ws).map .leaf) (.leaf (w :: ws)) [] := by
  intro b p rest hp
  have hmore : ∀ us vs : List String, Stack.scan ((b, p.put (.leaf us)) :: rest) (vs.map .leaf) =
      some ((b, p.put (.leaf (us ++ vs))) :: rest) := by
    intro us vs
    induction vs generalizing us with
    | nil => simp
    | cons v vs ih => simpa [Stack.step, Pending.put] using ih (us ++ [v])
  rw [map_cons, Stack.scan_cons, Stack.step_leaf hp, Option.bind_some, hmore]
  rfl

/-! ### Calls -/

def callTokens (f : String) : List (List CToken) → List CToken
  | [] => [.leaf f, .opened, .closed]
  | ts :: tss => .leaf f :: .opened :: ts ++ tss.flatMap (.comma :: ·) ++ [.closed]

/-- Behind an argument further arguments are read. -/
theorem scan_args {tss : List (List CToken)} {ts : List CTree} (h : Forall₂ ReadsAs tss ts)
    (hp : p.last = some u) (rest : Stack) :
    ∃ q v, Stack.scan ((.call, p) :: rest) (tss.flatMap (.comma :: ·)) = some ((.call, q) :: rest) ∧ q.last = some v ∧
      q.args ++ [q.whole v] = p.args ++ p.whole u :: ts := by
  induction h generalizing p u with
  | nil => exact ⟨p, u, rfl, hp, rfl⟩
  | cons hfirst _ ih =>
    obtain ⟨q, v, hscan, hv, hargs, hwhole⟩ := hfirst.scan .call (p.next u).args rest
    obtain ⟨r, x, hrest, hx, hall⟩ := ih hv
    refine ⟨r, x, ?_, hx, ?_⟩
    · rw [flatMap_cons, cons_append, Stack.scan_cons, Stack.step_comma hp, Option.bind_some, Stack.scan_append]
      exact hscan ▸ hrest
    · rw [hall, hargs, hwhole]
      simp [Pending.next]

theorem Reads.call (f : String) {tss : List (List CToken)} {ts : List CTree} (h : Forall₂ ReadsAs tss ts) :
    Reads (callTokens f tss) (.apply f ts) [] := by
  intro b p rest hp
  cases h with
  | nil =>
    rw [callTokens, Stack.scan_cons, Stack.step_leaf hp]
    rfl
  | cons hfirst hrest =>
    obtain ⟨q, u, hscan, hu, hargs, hwhole⟩ := hfirst.scan .call [] ((b, p.put (.leaf [f])) :: rest)
    obtain ⟨r, v, hmore, hv, hall⟩ := scan_args hrest hu ((b, p.put (.leaf [f])) :: rest)
    have hopened : Stack.step ((b, p.put (.leaf [f])) :: rest) .opened =
        some ((.call, {}) :: (b, p.put (.leaf [f])) :: rest) := rfl
    simp only [callTokens, cons_append, append_assoc, Stack.scan_cons, Stack.scan_append, Stack.step_leaf hp,
      hopened, Option.bind_some, hscan, hmore, Stack.step_closed hv, hall, hargs, hwhole]
    rfl

theorem ReadsAs.link (f : String) {lhs rhs : List CToken} (hl : ReadsAs lhs t) (hr : ReadsAs rhs u) :
    Reads (callTokens f [lhs, rhs]) (.apply f [t, u]) [] :=
  .call f (.cons hl (.cons hr .nil))

/-! ### Indices -/

/-- The tokens of an element of a field. -/
def elementTokens (x : String) (i j : List CToken) (w : String) : List CToken :=
  .leaf x :: .indexed :: i ++ .plus :: j ++ [CToken.times, .leaf w, .unindexed]

/-- An element of a field is read as a sum with a product if and only if both indices are read as one operand. -/
theorem Reads.element {i j : List CToken} {ci cj : CTree} {csi csj : List CTree} (hi : Reads i ci csi) (hj : Reads j cj csj)
    (x w : String) : ∃ t, Reads (elementTokens x i j w) (.index (.leaf [x]) t) [] ∧ ∀ ti tj,
      t = .plus ti (.times tj (.leaf [w])) ↔ (csi = [] ∧ ci = ti) ∧ csj = [] ∧ cj = tj := by
  obtain ⟨t, ht, hti⟩ := Pending.fed_last {} ci csi
  obtain ⟨u, hu, htj⟩ := Pending.fed_last ((({} : Pending).fed ci csi).plus t) cj csj
  refine ⟨((((({} : Pending).fed ci csi).plus t).fed cj csj).times u).whole (.leaf [w]), ?_, ?_⟩
  · intro b p rest hp
    have hindexed : Stack.step ((b, p.put (.leaf [x])) :: rest) .indexed =
        some ((.index, {}) :: (b, p.put (.leaf [x])) :: rest) := rfl
    simp only [elementTokens, cons_append, append_assoc, Stack.scan_cons, Stack.scan_append, Stack.step_leaf hp,
      hindexed, Option.bind_some, hi _ {} _ rfl, Stack.step_plus ht, hj _ (Pending.plus _ t) _ rfl,
      Stack.step_times hu]
    rfl
  · intro ti tj
    by_cases hcs : csi = [] ∧ csj = []
    · obtain ⟨rfl, rfl⟩ := hcs
      cases ht
      cases hu
      simp [Pending.fed, Pending.put, Pending.plus, Pending.times, Pending.whole, Pending.total, Pending.term, CTree.after]
    · -- With a conjunction on the way the whole is one.
      obtain ⟨k, hk⟩ := htj (by by_cases hcsi : csi = [] <;> grind [Pending.plus])
      refine iff_of_false ?_ fun h => hcs ⟨h.1.1, h.2.1⟩
      simp [Pending.whole, Pending.times, hk, CTree.after]

/-! ### Chains -/

def linkTrees (lhs : CTree) (left : ValueType) : List CmpOp → List ValueType → List CTree → List CTree
  | op :: ops, right :: types, t :: ts =>
    .apply (operatorName op.word left.name right.name) [lhs, t] :: linkTrees t right ops types ts
  | _, _, _ => []

theorem tokensOf_compareFragments (first : Bool) (lhs : List Fragment) (left right : ValueType) (op : CmpOp)
    (ops : List CmpOp) (types : List ValueType) (e : CExpr) (es : List CExpr) :
    tokensOf (compareFragments first lhs left (op :: ops) (right :: types) (e :: es)) =
      (if first then [] else [CToken.and]) ++
        (callTokens (operatorName op.word left.name right.name) [tokensOf lhs, tokensOf e.fragments] ++
          tokensOf (compareFragments false e.fragments right ops types es)) := by
  cases first <;> simp [compareFragments, callTokens]

section

variable {es : List CExpr} {ops : List CmpOp} {types : List ValueType} {left : ValueType} {lhs : List Fragment}
  {t u : CTree} {ts us : List CTree}

/-- Behind a comparison a chain goes on. -/
theorem scan_chain (h : Forall₂ (fun e t => ReadsAs (tokensOf e.fragments) t) es ts) (hops : ops.length = es.length)
    (htypes : types.length = es.length) (hlhs : ReadsAs (tokensOf lhs) t) (b : Bracket) (p : Pending) (c : CTree)
    (rest : Stack) : Stack.scan ((b, p.put c) :: rest) (tokensOf (compareFragments false lhs left ops types es)) =
      some ((b, p.fed c (linkTrees t left ops types ts)) :: rest) := by
  induction h generalizing ops types lhs t left p c with
  | nil =>
    rw [length_eq_zero_iff.1 hops]
    rfl
  | cons he _ ih =>
    match ops, types, hops, htypes with
    | op :: ops, right :: types, hops, htypes =>
      have hand : Stack.step ((b, p.put c) :: rest) .and = some ((b, p.and c) :: rest) := rfl
      rw [tokensOf_compareFragments, if_neg Bool.false_ne_true, singleton_append, Stack.scan_cons, hand,
        Option.bind_some, Stack.scan_append, ReadsAs.link _ hlhs he _ _ _ rfl, Option.bind_some]
      exact ih (Nat.succ.inj hops) (Nat.succ.inj htypes) he _ _

theorem Reads.chain (left : ValueType) (h : Forall₂ (fun e t => ReadsAs (tokensOf e.fragments) t) es ts)
    (hne : es ≠ []) (hops : ops.length = es.length) (htypes : types.length = es.length) (hlhs : ReadsAs (tokensOf lhs) t) :
    ∃ c cs, linkTrees t left ops types ts = c :: cs ∧
      Reads (tokensOf (compareFragments true lhs left ops types es)) c cs := by
  cases h with
  | nil => exact absurd rfl hne
  | cons he hes =>
    match ops, types, hops, htypes with
    | op :: ops, right :: types, hops, htypes =>
      refine ⟨_, _, rfl, fun b p rest hp => ?_⟩
      rw [tokensOf_compareFragments, if_pos rfl, nil_append, Stack.scan_append, ReadsAs.link _ hlhs he _ _ _ hp,
        Option.bind_some]
      exact scan_chain hes (Nat.succ.inj hops) (Nat.succ.inj htypes) he _ _ _ _

/-- The comparisons of a chain show its operands. -/
theorem linkTrees_inj (hops : ops.length = ts.length) (htypes : types.length = ts.length) (hus : us.length = ts.length)
    (hne : ts ≠ []) (h : linkTrees t left ops types ts = linkTrees u left ops types us) : t = u ∧ ts = us := by
  induction ts generalizing t left ops types u us with
  | nil => exact absurd rfl hne
  | cons t' ts ih =>
    match ops, types, us, hops, htypes, hus with
    | op :: ops, right :: types, u' :: us, hops, htypes, hus =>
      simp only [linkTrees, CTree.apply, List.cons.injEq, CTree.call.injEq, true_and, and_true] at h
      obtain ⟨⟨rfl, rfl⟩, h⟩ := h
      refine ⟨rfl, ?_⟩
      cases ts with
      | nil => rw [length_eq_zero_iff.1 (Nat.succ.inj hus)]
      | cons => rw [(ih (Nat.succ.inj hops) (Nat.succ.inj htypes) (Nat.succ.inj hus) (cons_ne_nil _ _) h).2]

theorem length_linkTrees (hops : ops.length = ts.length) (htypes : types.length = ts.length) :
    (linkTrees t left ops types ts).length = ts.length := by
  induction ts generalizing t left ops types with
  | nil =>
    cases length_eq_zero_iff.1 hops
    rfl
  | cons t' ts ih =>
    match ops, types, hops, htypes with
    | op :: ops, right :: types, hops, htypes =>
      exact congrArg (· + 1) (ih (Nat.succ.inj hops) (Nat.succ.inj htypes))

/-- A conjunction shows its operands, if their number is known. -/
theorem CTree.all_inj (h : CTree.all ts = .all us) (hlength : ts.length = us.length) : ts = us := by
  have hfold : ∀ {cs ds : List CTree} {c d : CTree}, cs.length = ds.length → cs.foldl .and c = ds.foldl .and d →
      c = d ∧ cs = ds := by
    intro cs
    induction cs with
    | nil =>
      intro ds c d hlength h
      cases length_eq_zero_iff.1 hlength.symm
      exact ⟨h, rfl⟩
    | cons c' cs ih =>
      intro ds c d hlength h
      cases ds with
      | nil => cases hlength
      | cons d' ds =>
        obtain ⟨heq, rfl⟩ := ih (Nat.succ.inj hlength) h
        cases heq
        exact ⟨rfl, rfl⟩
  match ts, us, hlength with
  | [], [], _ => rfl
  | c :: cs, d :: ds, hlength =>
    obtain ⟨rfl, rfl⟩ := hfold (Nat.succ.inj hlength) h
    rfl

end

/-! ### What is meant -/

/-- The texts of the format of a line with values of some types. -/
def formatTexts (types : List ValueType) : List String :=
  (types.flatMap fun t => [formatName t, (Fragment.quoted " ").text]) ++ [(Fragment.quoted "\\n").text]

def assertTree (type : ValueType) (message : String) (t : CTree) : CTree :=
  .apply "slabes_assert" [.apply (convertName type.name "unsigned_tiny") [t], .leaf [(Fragment.quoted message).text]]

mutual

def CExpr.tree : CExpr → CTree
  | .literal type value =>
    .apply "max" [.apply "min" [.leaf [toString value], .leaf [maxName (.int type)]], .leaf [minName (.int type)]]
  | .plain value => .leaf [toString value]
  | .variable x => .leaf [variableName x]
  | .apply f args => .apply (functionName f) (trees args)
  | .print types args => .apply "printf" (.leaf (formatTexts types) :: trees args)
  | .asserts types args messages => .all (zipWith id (zipWith assertTree types messages) (trees args))
  | .binary op left right lhs rhs => .apply (operatorName op.word left.name right.name) [lhs.tree, rhs.tree]
  | .compare first left ops types operands => .all (linkTrees first.tree left ops types (trees operands))
  | .element field index i j => .index field.tree (.plus i.tree (.times j.tree (.leaf [maxName (.int index)])))
  | .convert source target value => .apply (convertName source.name target.name) [value.tree]
  | .nothing => .leaf []

def trees : List CExpr → List CTree
  | [] => []
  | e :: es => e.tree :: trees es

end

theorem length_trees (es : List CExpr) : (trees es).length = es.length := by
  induction es with
  | nil => rfl
  | cons e es ih => rw [trees, length_cons, length_cons, ih]

theorem tokensOf_listFragments (es : List CExpr) :
    tokensOf (listFragments false es) = (es.map (tokensOf ·.fragments)).flatMap (.comma :: ·) := by
  induction es with
  | nil => rfl
  | cons e es ih => simp [listFragments, ih]

theorem tokensOf_apply (f : String) (es : List CExpr) :
    tokensOf (CExpr.apply f es).fragments = callTokens (functionName f) (es.map (tokensOf ·.fragments)) := by
  cases es with
  | nil => rfl
  | cons e es =>
    by_cases hparts : listParts true (e :: es) = [] <;>
      simp [CExpr.fragments, hparts, listFragments, callTokens, tokensOf_listFragments]

theorem tokensOf_print (types : List ValueType) (es : List CExpr) : tokensOf (CExpr.print types es).fragments =
    callTokens "printf" ((formatTexts types).map .leaf :: es.map (tokensOf ·.fragments)) := by
  have hformat : tokensOf (types.flatMap fun t => [.foreign (formatName t), .glue " ", .quoted " ", .glue " "]) =
      (types.flatMap fun t => [formatName t, (Fragment.quoted " ").text]).map .leaf := by
    induction types with
    | nil => rfl
    | cons t types ih => simp [ih]
  simp [CExpr.fragments, callTokens, formatTexts, hformat, tokensOf_listFragments]

end Labyrinth.Code

namespace Labyrinth

open List

/-- A chain of several comparisons. -/
def Node.IsChain : Node → Prop
  | .compare _ _ _ operands => 2 ≤ operands.length
  | _ => False

/-- The indices of a node are no chains. -/
def Node.IndicesWhole : Node → Prop
  | .subscript _ _ i j => ¬i.IsChain ∧ ¬j.IsChain
  | _ => True

/-- As an assertion a node has one argument. -/
def Node.AssertsOne : Node → Prop
  | .call _ operand args => ∀ loc x params returns,
      operand.info.value = some (.function loc .assert x params returns) → args.length = 1
  | _ => True

namespace Code

open Labyrinth.Task

variable {n : Node} {e : CExpr}

theorem throughout_leaf (h : n.children = []) : n.Throughout Node.IndicesWhole := by
  rw [Node.throughout_iff, h]
  refine ⟨?_, nofun⟩
  cases n <;> trivial

theorem throughout_call {info : NodeInfo} {operand : Node} {ns : List Node} (ho : operand.children = []) :
    (Node.call info operand ns).Throughout Node.IndicesWhole ↔ ∀ n ∈ ns, n.Throughout Node.IndicesWhole := by
  rw [Node.throughout_iff, Node.children, forall_mem_cons]
  exact ⟨fun h => h.2.2, fun h => ⟨trivial, throughout_leaf ho, h⟩⟩

/-- An expression that was emitted for a node is read as a conjunction of several operands if and only if the node is a
chain, and it is read as it is meant if and only if no index inside is a chain. -/
def ReadFor (n : Node) (e : CExpr) : Prop :=
  ∃ c cs, Reads (tokensOf e.fragments) c cs ∧ (n.IsChain ↔ cs ≠ []) ∧
    (.all (c :: cs) = e.tree ↔ n.Throughout Node.IndicesWhole)

/-- What is read as one operand is no chain. -/
theorem ReadFor.one {c : CTree} (h : Reads (tokensOf e.fragments) c []) (hn : ¬n.IsChain)
    (hc : c = e.tree ↔ n.Throughout Node.IndicesWhole) : ReadFor n e :=
  ⟨c, [], h, iff_of_false hn (fun h => h rfl), hc⟩

theorem readFor_all {rs : List (Node × CExpr)} (h : ∀ r ∈ rs, r.1.Throughout Node.AssertsOne → ReadFor r.1 r.2)
    (hone : ∀ n ∈ rs.map Prod.fst, n.Throughout Node.AssertsOne) :
    ∃ ts, Forall₂ (fun e t => ReadsAs (tokensOf e.fragments) t) (rs.map Prod.snd) ts ∧
      (ts = trees (rs.map Prod.snd) ↔ ∀ n ∈ rs.map Prod.fst, n.Throughout Node.IndicesWhole) := by
  induction rs with
  | nil => exact ⟨[], .nil, by simp [trees]⟩
  | cons r rs ih =>
    obtain ⟨hr, hrs⟩ := forall_mem_cons.1 h
    obtain ⟨hone, hones⟩ := forall_mem_cons.1 hone
    obtain ⟨c, cs, hread, -, htree⟩ := hr hone
    obtain ⟨ts, hreads, hts⟩ := ih hrs hones
    refine ⟨.all (c :: cs) :: ts, .cons ⟨c, cs, hread, rfl⟩ hreads, ?_⟩
    rw [map_cons, map_cons, trees, List.cons.injEq, htree, hts, forall_mem_cons]

theorem Emission.Forms.readFor (h : Emission.Forms n e) (hone : n.Throughout Node.AssertsOne) : ReadFor n e := by
  induction h with
  | @name _ x => exact ReadFor.one (.leaves (variableName x) []) id (iff_of_true rfl (throughout_leaf rfl))
  | @int _ type value =>
    have hleaf : ∀ w, ReadsAs [.leaf w] (.leaf [w]) := fun w => (Reads.leaves w []).as
    have hread := ReadsAs.link "max" (ReadsAs.link "min" (hleaf (toString value)) (hleaf (maxName (.int type)))).as
      (hleaf (minName (.int type)))
    refine ReadFor.one ?_ id (iff_of_true rfl (throughout_leaf rfl))
    simpa [CExpr.fragments, CExpr.tree, callTokens] using hread
  | @print _ _ _ _ _ _ types _ ho _ _ _ ih =>
    obtain ⟨ts, hreads, hts⟩ := readFor_all ih fun n hn => (Node.throughout_iff.1 hone).2 n (mem_cons_of_mem _ hn)
    obtain ⟨w, ws, hformat⟩ := exists_cons_of_ne_nil (by simp [formatTexts] : formatTexts types ≠ [])
    have hread := Reads.call "printf" (.cons (Reads.leaves w ws).as (forall₂_map_left_iff.2 hreads))
    rw [← hformat, ← tokensOf_print] at hread
    refine ReadFor.one hread id ?_
    rw [throughout_call ho, ← hts]
    simp [CTree.apply, CExpr.tree]
  | asserts ho hv ht hm _ ih =>
    obtain ⟨ts, hreads, hts⟩ := readFor_all ih fun n hn => (Node.throughout_iff.1 hone).2 n (mem_cons_of_mem _ hn)
    have hlength := (Node.throughout_iff.1 hone).1 _ _ _ _ hv
    rw [length_map] at hlength
    obtain ⟨r, rfl⟩ := length_eq_one_iff.1 hlength
    obtain ⟨type, rfl⟩ := length_eq_one_iff.1 ht.length_eq.symm
    obtain ⟨message, rfl⟩ := length_eq_one_iff.1 hm
    obtain ⟨t, rfl⟩ := length_eq_one_iff.1 hreads.length_eq.symm
    have hread := ReadsAs.link "slabes_assert" (Reads.call (convertName type.name "unsigned_tiny")
      (.cons (forall₂_cons.1 hreads).1 .nil)).as (Reads.leaves (Fragment.quoted message).text []).as
    refine ReadFor.one (c := assertTree type message t) ?_ id ?_
    · simpa [CExpr.fragments, assertFragments, callTokens, assertTree] using hread
    · rw [throughout_call ho, ← hts]
      simp [CTree.apply, CTree.all, CExpr.tree, trees, assertTree]
  | @apply _ _ _ _ x _ _ _ ho _ _ _ _ ih =>
    obtain ⟨ts, hreads, hts⟩ := readFor_all ih fun n hn => (Node.throughout_iff.1 hone).2 n (mem_cons_of_mem _ hn)
    have hread := Reads.call (functionName x) (forall₂_map_left_iff.2 hreads)
    rw [← tokensOf_apply] at hread
    refine ReadFor.one hread id ?_
    rw [throughout_call ho, ← hts]
    simp [CTree.apply, CExpr.tree]
  | @subscript _ _ x _ index i j ci cj ht hi hj ihi ihj =>
    have hinside := (Node.throughout_iff.1 hone).2
    obtain ⟨c, cs, hread, hchain, htree⟩ := ihi (hinside i (by simp [Node.children]))
    obtain ⟨d, ds, hread', hchain', htree'⟩ := ihj (hinside j (by simp [Node.children]))
    obtain ⟨t, helement, ht⟩ := hread.element hread' (variableName x) (maxName (.int index))
    refine ReadFor.one (c := .index (.leaf [variableName x]) t) ?_ id ?_
    · simpa [CExpr.fragments, elementTokens] using helement
    · rw [Node.throughout_iff, Node.children, forall_mem_cons, forall_mem_cons, forall_mem_singleton,
        Node.IndicesWhole, hchain, hchain', ← htree, ← htree', and_iff_right (throughout_leaf rfl)]
      simp only [CExpr.tree, CTree.index.injEq, true_and, ht]
      by_cases hcs : cs = []
      · by_cases hds : ds = []
        · simp [hcs, hds, CTree.all]
        · simp [hds]
      · simp [hcs]
  | @binary _ lhs op rhs left right cl cr _ _ _ _ ihl ihr =>
    have hinside := (Node.throughout_iff.1 hone).2
    obtain ⟨c, cs, hread, -, htree⟩ := ihl (hinside lhs (by simp [Node.children]))
    obtain ⟨d, ds, hread', -, htree'⟩ := ihr (hinside rhs (by simp [Node.children]))
    have htokens : tokensOf (CExpr.binary op left right cl cr).fragments =
        callTokens (operatorName op.word left.name right.name) [tokensOf cl.fragments, tokensOf cr.fragments] := by
      simp [CExpr.fragments, callTokens]
    have hlink := ReadsAs.link (operatorName op.word left.name right.name) ⟨c, cs, hread, rfl⟩ ⟨d, ds, hread', rfl⟩
    refine ReadFor.one (htokens ▸ hlink) id ?_
    rw [Node.throughout_iff, Node.children, forall_mem_cons, forall_mem_singleton, ← htree, ← htree']
    simp [CTree.apply, CExpr.tree, Node.IndicesWhole]
  | @compare _ operand ops left _ types rs hlength hne hleft ht _ _ iho ih =>
    have hinside := (Node.throughout_iff.1 hone).2
    obtain ⟨d, ds, hread', -, htree⟩ := iho (hinside operand (by simp [Node.children]))
    obtain ⟨ts, hreads, hts⟩ := readFor_all ih fun n hn => hinside n (mem_cons_of_mem _ hn)
    have hrs := hreads.length_eq
    have htypes := ht.length_eq
    rw [length_map] at hrs htypes
    obtain ⟨c, cs, hlinks, hread⟩ := Reads.chain left hreads (by simpa using hne) (by simpa using hlength)
      (by simpa using htypes.symm) ⟨d, ds, hread', rfl⟩
    have hcs := congrArg length hlinks
    rw [length_linkTrees (hlength.trans hrs) (htypes.symm.trans hrs), ← hrs, length_cons] at hcs
    refine ⟨c, cs, hread, ?_, ?_⟩
    · rw [Node.IsChain, length_map, hcs]
      cases cs <;> simp
    · rw [Node.throughout_iff, Node.children, forall_mem_cons, ← htree, ← hts, ← hlinks, CExpr.tree]
      constructor
      · intro h
        have hlengths : (trees (rs.map Prod.snd)).length = ts.length := by rw [length_trees, length_map, hrs]
        have hts : ts ≠ [] := fun hnil => hne (length_eq_zero_iff.1 (hrs.trans (congrArg length hnil)))
        refine ⟨trivial, linkTrees_inj (hlength.trans hrs) (htypes.symm.trans hrs) hlengths hts (CTree.all_inj h ?_)⟩
        rw [length_linkTrees, length_linkTrees, hlengths] <;> omega
      · rintro ⟨-, heq, rfl⟩
        rw [heq]

/-- The text of an emitted expression is that of its tokens, and with the precedence of C it is read as the expression
that is meant if and only if no index inside is a chain of comparisons. -/
theorem Emission.emitExpr_read_iff {n : Node} {e : CExpr} {t t' : Emission} (hn : n.IsExpr)
    (hone : n.Throughout Node.AssertsOne) (h : Yields (emitExpr n) t e t') :
    Emission.Forms n e ∧ rendered e.fragments = spread e.parts ∧
      (readExpr (tokensOf e.fragments) = some e.tree ↔ n.Throughout Node.IndicesWhole) := by
  have hforms := (formsExpr_of_isExpr hn h).1
  obtain ⟨c, cs, hread, -, htree⟩ := hforms.readFor hone
  rw [ReadsAs.readExpr_eq ⟨c, cs, hread, rfl⟩, Option.some.injEq]
  exact ⟨hforms, e.cuts.rendered_eq, htree⟩

/-- An element with the index 1 <= 2 is read as it is meant, one with the index 1 <= 2 <= 3 is not. -/
theorem Emission.emitExpr_read_iff_chain :
    let tiny : IntType := ⟨.tiny, .signed⟩
    let int (value : Int) : Node := .int ⟨.builtin, some (.int .builtin tiny value)⟩ tiny value
    let element (ops : List CmpOp) (operands : List Node) : Node :=
      .subscript ⟨.builtin, none⟩ (.name ⟨.builtin, some (.matrix .builtin tiny tiny 0)⟩ "m")
        (.compare ⟨.builtin, none⟩ (int 1) ops operands) (int 4)
    let t : Emission := { session := default, lines := #[] }
    ∃ e e', Yields (emitExpr (element [.le] [int 2])) t e t ∧ readExpr (tokensOf e.fragments) = some e.tree ∧
      Yields (emitExpr (element [.le, .le] [int 2, int 3])) t e' t ∧ readExpr (tokensOf e'.fragments) ≠ some e'.tree := by
  intro tiny int element t
  obtain ⟨e, he⟩ : ∃ e, Yields (emitExpr (element [.le] [int 2])) t e t := ⟨_, rfl⟩
  obtain ⟨e', he'⟩ : ∃ e', Yields (emitExpr (element [.le, .le] [int 2, int 3])) t e' t := ⟨_, rfl⟩
  have hthroughout : ∀ {P : Node → Prop} {ops operands}, (∀ v, P (int v)) → (∀ info x, P (.name info x)) →
      (∀ info, P (.compare info (int 1) ops operands)) → P (element ops operands) → (∀ n ∈ operands, ∃ v, n = int v) → (element ops operands).Throughout P := by
    intro P ops operands hint hname hcompare helement hoperands
    have hleaf : ∀ v, (int v).Throughout P := fun v => Node.throughout_iff.2 ⟨hint v, nofun⟩
    have hcompared : ∀ n ∈ int 1 :: operands, n.Throughout P := by
      rintro n hn
      obtain ⟨v, rfl⟩ : ∃ v, n = int v := (mem_cons.1 hn).elim (fun h => ⟨1, h⟩) (hoperands n)
      exact hleaf v
    exact Node.throughout_iff.2 ⟨helement, forall_mem_cons.2 ⟨Node.throughout_iff.2 ⟨hname _ _, nofun⟩,
      forall_mem_cons.2 ⟨Node.throughout_iff.2 ⟨hcompare _, hcompared⟩, forall_mem_singleton.2 (hleaf 4)⟩⟩⟩
  have hexpr : ∀ v, (int v).IsExpr := fun _ => .int
  refine ⟨e, e', he, (emitExpr_read_iff (.subscript (.compare rfl (cons_ne_nil _ _) .int ?_) .int) ?_ he).2.2.2 ?_, he', fun h => ?_⟩
  · simpa using hexpr 2
  · exact hthroughout (fun _ => trivial) (fun _ _ => trivial) (fun _ => trivial) trivial (by simp)
  · exact hthroughout (fun _ => trivial) (fun _ _ => trivial) (fun _ => trivial) ⟨Nat.not_succ_le_self 1, id⟩ (by simp)
  · have hread := (emitExpr_read_iff (.subscript (.compare rfl (cons_ne_nil _ _) .int (by simpa using ⟨hexpr 2, hexpr 3⟩)) .int)
      (hthroughout (fun _ => trivial) (fun _ _ => trivial) (fun _ => trivial) trivial (by simp)) he').2.2.1 h
    exact (hread _ .here).1 (Nat.le_refl 2)

end Code

end Labyrinth
