import Labyrinth.Tree.Chain

/-!
# Trees that are alike

Two trees are alike if they are the same up to the places of their nodes, with their literals in a given
relation. Whether a node stands in for something that could not be read is no matter of places.
-/

namespace Labyrinth

variable {ς τ υ : Type}

/-- A name without its place. -/
def NameNode.content (n : NameNode) : String × Bool := (n.value, n.span.recovered)

/-- A number type without its place. -/
def TypeNode.content (t : TypeNode) : NumberKind × Bool := (t.kind, t.span.recovered)

/-- A parameter without its place. -/
def ParamNode.content (p : ParamNode) : (NumberKind × Bool) × (String × Bool) × Bool :=
  (p.type.content, p.name.content, p.span.recovered)

mutual

/-- Expressions that are the same up to places and have related literals. -/
inductive Expr.Like (R : NumberNode ς → NumberNode τ → Prop) : Expr ς → Expr τ → Prop where
  | name {n m} : n.content = m.content → Expr.Like R (.name n) (.name m)
  | number {a b} : R a b → Expr.Like R (.number a) (.number b)
  | robot {s s'} (op) : s.recovered = s'.recovered → Expr.Like R (.robot s op) (.robot s' op)
  | subscript {s s' n m i j i' j'} : s.recovered = s'.recovered → n.content = m.content → Expr.Like R i i' →
      Expr.Like R j j' → Expr.Like R (.subscript s n i j) (.subscript s' m i' j')
  | call {s s' n m args args'} : s.recovered = s'.recovered → n.content = m.content → ExprsLike R args args' →
      Expr.Like R (.call s n args) (.call s' m args')
  | unary {s s' e e'} (op) : s.recovered = s'.recovered → Expr.Like R e e' →
      Expr.Like R (.unary s op e) (.unary s' op e')
  | binary {s s' l r l' r'} (op) : s.recovered = s'.recovered → Expr.Like R l l' → Expr.Like R r r' →
      Expr.Like R (.binary s l op r) (.binary s' l' op r')
  | compare {s s' e e' es es'} (ops) : s.recovered = s'.recovered → Expr.Like R e e' → ExprsLike R es es' →
      Expr.Like R (.compare s e ops es) (.compare s' e' ops es')
  | assign {s s' ps ps'} : s.recovered = s'.recovered → PartsLike R ps ps' →
      Expr.Like R (.assign s ps) (.assign s' ps')
  | hole {s s'} : s.recovered = s'.recovered → Expr.Like R (.hole s) (.hole s')

/-- Lists of expressions that are alike one by one. -/
inductive ExprsLike (R : NumberNode ς → NumberNode τ → Prop) : List (Expr ς) → List (Expr τ) → Prop where
  | nil : ExprsLike R [] []
  | cons {e e' es es'} : Expr.Like R e e' → ExprsLike R es es' → ExprsLike R (e :: es) (e' :: es')

/-- Lists of parts of assignments that are alike one by one. -/
inductive PartsLike (R : NumberNode ς → NumberNode τ → Prop) : List (AssignPart ς) → List (AssignPart τ) → Prop where
  | nil : PartsLike R [] []
  | cons {s s' ts ts' v v' ps ps'} : s.recovered = s'.recovered → ExprsLike R ts ts' → Expr.Like R v v' →
      PartsLike R ps ps' → PartsLike R (.mk s ts v :: ps) (.mk s' ts' v' :: ps')

end

mutual

/-- Statements that are the same up to places and have related literals. -/
inductive Stmt.Like (R : NumberNode ς → NumberNode τ → Prop) : Stmt ς → Stmt τ → Prop where
  | expr {s s' e e'} : s.recovered = s'.recovered → Expr.Like R e e' → Stmt.Like R (.expr s e) (.expr s' e')
  | declareNumber {s s' t t' names names' n n'} : s.recovered = s'.recovered → t.content = t'.content →
      names.map NameNode.content = names'.map NameNode.content → R n n' →
      Stmt.Like R (.declareNumber s t names n) (.declareNumber s' t' names' n')
  | declareField {s s' t t' u u' names names' n n'} : s.recovered = s'.recovered → t.content = t'.content →
      u.content = u'.content → names.map NameNode.content = names'.map NameNode.content → R n n' →
      Stmt.Like R (.declareField s t u names n) (.declareField s' t' u' names' n')
  | loop {s s' e e' body body'} : s.recovered = s'.recovered → Expr.Like R e e' → StmtsLike R body body' →
      Stmt.Like R (.loop s e body) (.loop s' e' body')
  | check {s s' e e' body body'} : s.recovered = s'.recovered → Expr.Like R e e' → StmtsLike R body body' →
      Stmt.Like R (.check s e body) (.check s' e' body')
  | function {s s' t t' params params' body body'} (name) : s.recovered = s'.recovered → t.content = t'.content →
      params.map ParamNode.content = params'.map ParamNode.content → StmtsLike R body body' →
      Stmt.Like R (.function s t name params body) (.function s' t' name params' body')
  | giveBack {s s' e e'} : s.recovered = s'.recovered → Expr.Like R e e' →
      Stmt.Like R (.giveBack s e) (.giveBack s' e')

/-- Lists of statements that are alike one by one. -/
inductive StmtsLike (R : NumberNode ς → NumberNode τ → Prop) : List (Stmt ς) → List (Stmt τ) → Prop where
  | nil : StmtsLike R [] []
  | cons {s s' ss ss'} : Stmt.Like R s s' → StmtsLike R ss ss' → StmtsLike R (s :: ss) (s' :: ss')

end

/-- Programs that are the same up to places and have related literals. -/
def Program.Like (R : NumberNode ς → NumberNode τ → Prop) (p : Program ς) (q : Program τ) : Prop :=
  p.span.recovered = q.span.recovered ∧ StmtsLike R p.body q.body

/-! ### Weaker relations between literals -/

section Mono

variable {R R' : NumberNode ς → NumberNode τ → Prop}

mutual

theorem Expr.Like.mono (h : ∀ a b, R a b → R' a b) {e : Expr ς} {e' : Expr τ} :
    Expr.Like R e e' → Expr.Like R' e e'
  | .name hn => .name hn
  | .number hr => .number (h _ _ hr)
  | .robot op hs => .robot op hs
  | .subscript hs hn hi hj => .subscript hs hn (hi.mono h) (hj.mono h)
  | .call hs hn ha => .call hs hn (ha.mono h)
  | .unary op hs he => .unary op hs (he.mono h)
  | .binary op hs hl hr => .binary op hs (hl.mono h) (hr.mono h)
  | .compare ops hs he hes => .compare ops hs (he.mono h) (hes.mono h)
  | .assign hs hp => .assign hs (hp.mono h)
  | .hole hs => .hole hs

theorem ExprsLike.mono (h : ∀ a b, R a b → R' a b) {es : List (Expr ς)} {es' : List (Expr τ)} :
    ExprsLike R es es' → ExprsLike R' es es'
  | .nil => .nil
  | .cons he hes => .cons (he.mono h) (hes.mono h)

theorem PartsLike.mono (h : ∀ a b, R a b → R' a b) {ps : List (AssignPart ς)} {ps' : List (AssignPart τ)} :
    PartsLike R ps ps' → PartsLike R' ps ps'
  | .nil => .nil
  | .cons hs ht hv hps => .cons hs (ht.mono h) (hv.mono h) (hps.mono h)

end

mutual

theorem Stmt.Like.mono (h : ∀ a b, R a b → R' a b) {s : Stmt ς} {s' : Stmt τ} :
    Stmt.Like R s s' → Stmt.Like R' s s'
  | .expr hs he => .expr hs (he.mono h)
  | .declareNumber hs ht hn hr => .declareNumber hs ht hn (h _ _ hr)
  | .declareField hs ht hu hn hr => .declareField hs ht hu hn (h _ _ hr)
  | .loop hs he hb => .loop hs (he.mono h) (hb.mono h)
  | .check hs he hb => .check hs (he.mono h) (hb.mono h)
  | .function name hs ht hp hb => .function name hs ht hp (hb.mono h)
  | .giveBack hs he => .giveBack hs (he.mono h)

theorem StmtsLike.mono (h : ∀ a b, R a b → R' a b) {ss : List (Stmt ς)} {ss' : List (Stmt τ)} :
    StmtsLike R ss ss' → StmtsLike R' ss ss'
  | .nil => .nil
  | .cons hs hss => .cons (hs.mono h) (hss.mono h)

end

end Mono

/-! ### Chains of likeness -/

section Trans

variable {R : NumberNode ς → NumberNode τ → Prop} {S : NumberNode τ → NumberNode υ → Prop}

/-- Literals that are related through a literal between them. -/
def Through (R : NumberNode ς → NumberNode τ → Prop) (S : NumberNode τ → NumberNode υ → Prop)
    (a : NumberNode ς) (c : NumberNode υ) : Prop := ∃ b, R a b ∧ S b c

mutual

theorem Expr.Like.trans {e : Expr ς} {f : Expr τ} {g : Expr υ} :
    Expr.Like R e f → Expr.Like S f g → Expr.Like (Through R S) e g
  | .name hn, .name hm => .name (hn.trans hm)
  | .number hr, .number hs => .number ⟨_, hr, hs⟩
  | .robot op hs, .robot _ hs' => .robot op (hs.trans hs')
  | .subscript hs hn hi hj, .subscript hs' hn' hi' hj' =>
    .subscript (hs.trans hs') (hn.trans hn') (hi.trans hi') (hj.trans hj')
  | .call hs hn ha, .call hs' hn' ha' => .call (hs.trans hs') (hn.trans hn') (ha.trans ha')
  | .unary op hs he, .unary _ hs' he' => .unary op (hs.trans hs') (he.trans he')
  | .binary op hs hl hr, .binary _ hs' hl' hr' => .binary op (hs.trans hs') (hl.trans hl') (hr.trans hr')
  | .compare ops hs he hes, .compare _ hs' he' hes' =>
    .compare ops (hs.trans hs') (he.trans he') (hes.trans hes')
  | .assign hs hp, .assign hs' hp' => .assign (hs.trans hs') (hp.trans hp')
  | .hole hs, .hole hs' => .hole (hs.trans hs')

theorem ExprsLike.trans {es : List (Expr ς)} {fs : List (Expr τ)} {gs : List (Expr υ)} :
    ExprsLike R es fs → ExprsLike S fs gs → ExprsLike (Through R S) es gs
  | .nil, .nil => .nil
  | .cons he hes, .cons hf hfs => .cons (he.trans hf) (hes.trans hfs)

theorem PartsLike.trans {ps : List (AssignPart ς)} {qs : List (AssignPart τ)} {us : List (AssignPart υ)} :
    PartsLike R ps qs → PartsLike S qs us → PartsLike (Through R S) ps us
  | .nil, .nil => .nil
  | .cons hs ht hv hps, .cons hs' ht' hv' hps' =>
    .cons (hs.trans hs') (ht.trans ht') (hv.trans hv') (hps.trans hps')

end

mutual

theorem Stmt.Like.trans {s : Stmt ς} {t : Stmt τ} {u : Stmt υ} :
    Stmt.Like R s t → Stmt.Like S t u → Stmt.Like (Through R S) s u
  | .expr hs he, .expr hs' he' => .expr (hs.trans hs') (he.trans he')
  | .declareNumber hs ht hn hr, .declareNumber hs' ht' hn' hr' =>
    .declareNumber (hs.trans hs') (ht.trans ht') (hn.trans hn') ⟨_, hr, hr'⟩
  | .declareField hs ht hu hn hr, .declareField hs' ht' hu' hn' hr' =>
    .declareField (hs.trans hs') (ht.trans ht') (hu.trans hu') (hn.trans hn') ⟨_, hr, hr'⟩
  | .loop hs he hb, .loop hs' he' hb' => .loop (hs.trans hs') (he.trans he') (hb.trans hb')
  | .check hs he hb, .check hs' he' hb' => .check (hs.trans hs') (he.trans he') (hb.trans hb')
  | .function name hs ht hp hb, .function _ hs' ht' hp' hb' =>
    .function name (hs.trans hs') (ht.trans ht') (hp.trans hp') (hb.trans hb')
  | .giveBack hs he, .giveBack hs' he' => .giveBack (hs.trans hs') (he.trans he')

theorem StmtsLike.trans {ss : List (Stmt ς)} {ts : List (Stmt τ)} {us : List (Stmt υ)} :
    StmtsLike R ss ts → StmtsLike S ts us → StmtsLike (Through R S) ss us
  | .nil, .nil => .nil
  | .cons hs hss, .cons ht hts => .cons (hs.trans ht) (hss.trans hts)

end

end Trans

/-! ### Settled signs -/

section MapSign

variable {f : ς → υ} {R : NumberNode ς → NumberNode τ → Prop} {Q : NumberNode υ → NumberNode τ → Prop}

mutual

theorem Expr.Like.mapSign (h : ∀ a b, R a b → Q (a.mapSign f) b) {e : Expr ς} {g : Expr τ} :
    Expr.Like R e g → Expr.Like Q (e.mapSign f) g
  | .name hn => .name hn
  | .number hr => .number (h _ _ hr)
  | .robot op hs => .robot op hs
  | .subscript hs hn hi hj => .subscript hs hn (hi.mapSign h) (hj.mapSign h)
  | .call hs hn ha => .call hs hn (ha.mapSign h)
  | .unary op hs he => .unary op hs (he.mapSign h)
  | .binary op hs hl hr => .binary op hs (hl.mapSign h) (hr.mapSign h)
  | .compare ops hs he hes => .compare ops hs (he.mapSign h) (hes.mapSign h)
  | .assign hs hp => .assign hs (hp.mapSign h)
  | .hole hs => .hole hs

theorem ExprsLike.mapSign (h : ∀ a b, R a b → Q (a.mapSign f) b) {es : List (Expr ς)} {gs : List (Expr τ)} :
    ExprsLike R es gs → ExprsLike Q (mapSigns f es) gs
  | .nil => .nil
  | .cons he hes => .cons (he.mapSign h) (hes.mapSign h)

theorem PartsLike.mapSign (h : ∀ a b, R a b → Q (a.mapSign f) b) {ps : List (AssignPart ς)}
    {qs : List (AssignPart τ)} : PartsLike R ps qs → PartsLike Q (mapPartSigns f ps) qs
  | .nil => .nil
  | .cons hs ht hv hps => .cons hs (ht.mapSign h) (hv.mapSign h) (hps.mapSign h)

end

mutual

theorem Stmt.Like.mapSign (h : ∀ a b, R a b → Q (a.mapSign f) b) {s : Stmt ς} {t : Stmt τ} :
    Stmt.Like R s t → Stmt.Like Q (s.mapSign f) t
  | .expr hs he => .expr hs (he.mapSign h)
  | .declareNumber hs ht hn hr => .declareNumber hs ht hn (h _ _ hr)
  | .declareField hs ht hu hn hr => .declareField hs ht hu hn (h _ _ hr)
  | .loop hs he hb => .loop hs (he.mapSign h) (hb.mapSign h)
  | .check hs he hb => .check hs (he.mapSign h) (hb.mapSign h)
  | .function name hs ht hp hb => .function name hs ht hp (hb.mapSign h)
  | .giveBack hs he => .giveBack hs (he.mapSign h)

theorem StmtsLike.mapSign (h : ∀ a b, R a b → Q (a.mapSign f) b) {ss : List (Stmt ς)} {ts : List (Stmt τ)} :
    StmtsLike R ss ts → StmtsLike Q (mapStmtSigns f ss) ts
  | .nil => .nil
  | .cons hs hss => .cons (hs.mapSign h) (hss.mapSign h)

end

end MapSign

end Labyrinth
