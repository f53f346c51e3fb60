import Labyrinth.Analysis.Lowering
import Labyrinth.Proofs.Endings
import Labyrinth.Proofs.Scope.Tables
import Labyrinth.Proofs.Tree.Placed

/-!
# The grammar of analysis trees

Not every analysis tree comes from a program. In one that does, statements stand in bodies only, calls are calls of
names or commands to the robot, values are assigned to names and elements of fields, and a function is assigned to
its own name. A syntax tree becomes an analysis tree unless it has an operation with a single operand; such an operation
ends the run with a report.
-/

namespace Labyrinth

open List Labyrinth.Task

/-! ### Forms of nodes -/

/-- The table of a function marks what the function takes: numbers, each with a name of its own. The function gives
back a number. -/
structure FunctionHead.Heads (head : FunctionHead) (names : NameTable) : Prop where
  isParam_iff : ∀ x, names.isParam x = true ↔ x ∈ head.params.map Prod.fst
  nodup : (head.params.map Prod.fst).Nodup
  int : ∀ entry ∈ head.params, ∃ t, entry.2.type = .int t
  returns : ∃ t, head.returns.type = .int t

namespace Node

/-- Nodes of expressions. An assignment inside an expression leaves a node that is missing. -/
inductive IsExpr : Node → Prop where
  | name {info x} : IsExpr (.name info x)
  | int {info type value} : IsExpr (.int info type value)
  | robot {info op} : IsExpr (.call info (.builtin (Value.robotCommand op)) [])
  | call {info calleeInfo x args} : (∀ a ∈ args, IsExpr a) → IsExpr (.call info (.name calleeInfo x) args)
  | subscript {info fieldInfo x i j} : IsExpr i → IsExpr j → IsExpr (.subscript info (.name fieldInfo x) i j)
  | binary {info lhs op rhs} : IsExpr lhs → IsExpr rhs → IsExpr (.binary info lhs op rhs)
  | compare {info operand ops operands} : ops.length = operands.length → operands ≠ [] → IsExpr operand →
      (∀ a ∈ operands, IsExpr a) → IsExpr (.compare info operand ops operands)
  | missing : IsExpr .missing

/-- Nodes that a value can be assigned to. -/
inductive IsTarget : Node → Prop where
  | name {info x} : IsTarget (.name info x)
  | element {info fieldInfo x i j} : IsExpr i → IsExpr j → IsTarget (.subscript info (.name fieldInfo x) i j)

inductive IsStmt : Node → Prop where
  | expr {n} : IsExpr n → IsStmt n
  | assign {info targets value} : targets ≠ [] → (∀ t ∈ targets, IsTarget t) → IsExpr value →
      IsStmt (.assign info targets value)
  | field {info targets fieldInfo item index value} : (∀ t ∈ targets, ∃ info x, t = .name info x) →
      IsStmt (.assign info targets (.matrix fieldInfo item index value))
  | function {info nameInfo functionInfo head scope body} : head.Heads scope.names → (∀ s ∈ body, IsStmt s) →
      IsStmt (.assign info [.name nameInfo head.name] (.function functionInfo head scope body))
  | giveBack {info value} : IsExpr value → IsStmt (.giveBack info value)
  | condition {info test body} : IsExpr test → (∀ s ∈ body, IsStmt s) → IsStmt (.condition info test body)
  | loop {info test body} : IsExpr test → (∀ s ∈ body, IsStmt s) → IsStmt (.loop info test body)

def children : Node → List Node
  | assign _ targets value => value :: targets
  | call _ operand args => operand :: args
  | giveBack _ value => [value]
  | binary _ lhs _ rhs => [lhs, rhs]
  | compare _ operand _ operands => operand :: operands
  | subscript _ value i j => [value, i, j]
  | condition _ test body => test :: body
  | loop _ test body => test :: body
  | function _ _ _ body => body
  | name _ _ => []
  | int _ _ _ => []
  | matrix _ _ _ _ => []
  | builtin _ => []
  | missing => []

/-- A node is another node or stands somewhere inside it. -/
inductive Within : Node → Node → Prop where
  | here {n : Node} : Within n n
  | inside {n child root : Node} : child ∈ root.children → Within n child → Within n root

/-- Something holds of a node and of all nodes inside it. -/
def Throughout (P : Node → Prop) (root : Node) : Prop :=
  ∀ n, Within n root → P n

theorem throughout_iff {P : Node → Prop} {root : Node} :
    Throughout P root ↔ P root ∧ ∀ child ∈ root.children, Throughout P child := by
  constructor
  · exact fun h => ⟨h root .here, fun child hchild n hn => h n (.inside hchild hn)⟩
  · rintro ⟨hroot, hchildren⟩ n hn
    cases hn with
    | here => exact hroot
    | inside hchild hn => exact hchildren _ hchild n hn

theorem IsTarget.isExpr {n : Node} (h : n.IsTarget) : n.IsExpr := by
  cases h with
  | name => exact .name
  | element hi hj => exact .subscript hi hj

end Node

/-! ### Lowering -/

section Analysable

variable {ς : Type}

mutual

/-- Whether an expression has an analysis tree: nothing in it is an operation with a single operand or a hole. -/
def Expr.isAnalysable : Expr ς → Bool
  | .name _ => true
  | .number _ => true
  | .robot _ _ => true
  | .subscript _ _ i j => i.isAnalysable && j.isAnalysable
  | .call _ _ args => areAnalysable args
  | .unary _ _ _ => false
  | .binary _ lhs _ rhs => lhs.isAnalysable && rhs.isAnalysable
  | .compare _ operand _ operands => areAnalysable operands && operand.isAnalysable
  | .assign _ parts => partsAnalysable parts
  | .hole _ => false

def areAnalysable : List (Expr ς) → Bool
  | [] => true
  | e :: es => e.isAnalysable && areAnalysable es

def AssignPart.isAnalysable : AssignPart ς → Bool
  | .mk _ targets value => value.isAnalysable && areAnalysable targets

def partsAnalysable : List (AssignPart ς) → Bool
  | [] => true
  | part :: parts => part.isAnalysable && partsAnalysable parts

end

mutual

def Stmt.isAnalysable : Stmt ς → Bool
  | .expr _ body => body.isAnalysable
  | .declareNumber _ _ _ _ => true
  | .declareField _ _ _ _ _ => true
  | .loop _ test body => stmtsAnalysable body && test.isAnalysable
  | .check _ test body => stmtsAnalysable body && test.isAnalysable
  | .function _ _ _ _ body => stmtsAnalysable body
  | .giveBack _ value => value.isAnalysable

def stmtsAnalysable : List (Stmt ς) → Bool
  | [] => true
  | s :: ss => s.isAnalysable && stmtsAnalysable ss

end

end Analysable

/-- A node that has a location of its own has one with a property. -/
def Node.Located (L : Location → Prop) : Node → Prop
  | .builtin _ => True
  | .missing => True
  | n => L n.info.loc

theorem Node.Located.mono {L L' : Location → Prop} (hL : ∀ loc, L loc → L' loc) {n : Node} (h : Located L n) :
    Located L' n := by
  cases n with
  | builtin | missing => trivial
  | assign | call | giveBack | binary | compare | subscript | name | condition | loop | int | matrix | function =>
    exact hL _ h

namespace Lowering

open Node

/-- What lowering goes by: how it may end, the file and the lines of the program, and where its spans lie. -/
structure Ground where
  conduct : Conduct
  file : String
  lines : Array String
  placed : Span → Prop
  placed_of_start : ∀ span span', span.start = span'.start → placed span' → placed span
  reads : ∀ span, placed span → conduct.Reads (span.loc file) (.all lines)

variable {g : Ground} {l : Lowering}

/-- The location is that of a span that lies where spans of the program do. -/
def Ground.Lies (g : Ground) (loc : Location) : Prop :=
  ∃ span, g.placed span ∧ loc = span.loc g.file

/-- Lowering is under way: all that was appended so far is a statement that lies in the program. -/
structure Upright (g : Ground) (l : Lowering) : Prop where
  keeps : g.conduct.Keeps l.session
  file : l.file = g.file
  lines : l.lines = g.lines
  body : ∀ n ∈ l.body.toList, n.IsStmt ∧ Throughout (Located g.Lies) n

def Stopped (g : Ground) (stop : Stop) (l : Lowering) : Prop :=
  g.conduct.Stops stop l.session

variable {span outer : Span} {α : Type} {n : Node} {R : Prop} {ss : List (Stmt Sign)}

theorem ends_infoOf (hl : Upright g l) (hspan : g.placed span) :
    Ends (infoOf span) l (fun info l' => Upright g l' ∧ g.Lies info.loc) (Stopped g) := by
  simp only [infoOf, locOf, ends_bind, ends_get, ends_pure]
  exact ⟨hl, span, hspan, by rw [hl.file]⟩

theorem ends_unsupported {cls : String} {Q : α → Lowering → Prop} (hl : Upright g l) (hspan : g.placed span)
    (hexits : g.conduct.exits) : Ends (unsupported cls span) l Q (Stopped g) := by
  simp only [unsupported, locOf, ends_bind, ends_get, ends_pure, hl.file, hl.lines]
  exact ends_inSession.2 (Conduct.ends_reportFatal hl.keeps hexits (g.reads span hspan))

theorem Upright.append (hl : Upright g l) (hstmt : n.IsStmt) (hn : Throughout (Located g.Lies) n) (hR : R) :
    Ends (append n) l (fun _ l' => Upright g l' ∧ R) (Stopped g) := by
  refine ends_modify.2 ⟨⟨hl.keeps, hl.file, hl.lines, fun m hm => ?_⟩, hR⟩
  simp only [Array.toList_push, mem_append, mem_singleton] at hm
  rcases hm with hm | rfl
  · exact hl.body m hm
  · exact ⟨hstmt, hn⟩

/-- What an analysable expression becomes. -/
structure Becomes (g : Ground) (e : Expr Sign) (n : Node) : Prop where
  isAnalysable : e.isAnalysable = true
  isExpr : n.IsExpr
  isTarget : e.isTarget = true → n.IsTarget
  located : Throughout (Located g.Lies) n

/-- Lowering of an expression succeeds exactly if it is analysable. -/
def Lowers (g : Ground) (e : Expr Sign) : Prop :=
  ∀ l : Lowering, Upright g l → (e.isAnalysable = false → g.conduct.exits) →
    Ends (lowerExpr e) l (fun n l' => Upright g l' ∧ Becomes g e n) (Stopped g)

theorem ends_lowerName {n : NameNode} (hl : Upright g l) (hn : g.placed n.span) :
    Ends (lowerName n) l (fun node l' => Upright g l' ∧ ∃ info, g.Lies info.loc ∧ node = .name info n.value)
      (Stopped g) :=
  (ends_infoOf hl hn).bind fun info _ _ ⟨hl, hloc⟩ => ends_pure.2 ⟨hl, info, hloc, rfl⟩

theorem ends_lowerNames {ns : List NameNode} (hl : Upright g l) (hns : ∀ n ∈ ns, g.placed n.span) :
    Ends (lowerNames ns) l (fun nodes l' => Upright g l' ∧ nodes.length = ns.length ∧
      ∀ n ∈ nodes, ∃ info x, g.Lies info.loc ∧ n = .name info x) (Stopped g) := by
  induction ns generalizing l with
  | nil => exact ends_pure.2 ⟨hl, rfl, nofun⟩
  | cons n ns ih =>
    obtain ⟨hn, hns⟩ := forall_mem_cons.1 hns
    rw [lowerNames]
    refine (ends_lowerName hl hn).bind fun _ _ _ ⟨hl, info, hname⟩ => ?_
    refine (ih hl hns).bind fun _ _ _ ⟨hl, hlength, hrest⟩ => ends_pure.2 ⟨hl, by simp [hlength], ?_⟩
    exact forall_mem_cons.2 ⟨⟨info, _, hname⟩, hrest⟩

theorem ends_lowerNumber {kind : NumberKind} {n : NumberNode Sign} (hl : Upright g l) (hn : g.placed n.span) :
    Ends (lowerNumber kind n) l (fun node l' => Upright g l' ∧ ∃ info type value, g.Lies info.loc ∧
      node = .int info type value) (Stopped g) :=
  (ends_infoOf hl hn).bind fun info _ _ ⟨hl, hloc⟩ => ends_pure.2 ⟨hl, info, _, _, hloc, rfl⟩

theorem ends_lowerExprs {es : List (Expr Sign)} (hl : Upright g l) (hes : ∀ e ∈ es, Lowers g e)
    (hexits : areAnalysable es = false → g.conduct.exits) :
    Ends (lowerExprs es) l (fun ns l' => Upright g l' ∧ areAnalysable es = true ∧ ns.length = es.length ∧
      ∀ n ∈ ns, ∃ e ∈ es, Becomes g e n) (Stopped g) := by
  induction es generalizing l with
  | nil => exact ends_pure.2 ⟨hl, rfl, rfl, nofun⟩
  | cons e es ih =>
    obtain ⟨he, hes⟩ := forall_mem_cons.1 hes
    rw [areAnalysable, Bool.and_eq_false_iff] at hexits
    rw [lowerExprs]
    refine (he l hl fun h => hexits (.inl h)).bind fun _ _ _ ⟨hl, hn⟩ => ?_
    refine (ih hl hes fun h => hexits (.inr h)).bind fun _ _ _ ⟨hl, hrest, hlength, hns⟩ => ends_pure.2 ⟨hl, ?_⟩
    refine ⟨by simp [areAnalysable, hn.isAnalysable, hrest], by simp [hlength], forall_mem_cons.2 ⟨?_, fun m hm => ?_⟩⟩
    · exact ⟨e, mem_cons_self, hn⟩
    · obtain ⟨e', he', hm⟩ := hns m hm
      exact ⟨e', mem_cons_of_mem e he', hm⟩

/-- A part of a chain can be lowered. -/
structure LowersPart (g : Ground) (part : AssignPart Sign) : Prop where
  fit : part.Fit
  span : g.placed part.span
  targets : ∀ t ∈ part.targets, Lowers g t
  value : Lowers g part.value

theorem ends_lowerPart {part : AssignPart Sign} (hl : Upright g l) (hpart : LowersPart g part)
    (hexits : part.isAnalysable = false → g.conduct.exits) :
    Ends (lowerPart part) l (fun _ l' => Upright g l' ∧ part.isAnalysable = true) (Stopped g) := by
  obtain ⟨span, targets, value⟩ := part
  obtain ⟨⟨-, hne, hfit⟩, hspan, htargets, hvalue⟩ := hpart
  simp only [AssignPart.targets, AssignPart.value] at hne hfit htargets hvalue
  rw [AssignPart.isAnalysable, Bool.and_eq_false_iff] at hexits
  rw [lowerPart]
  refine (hvalue l hl fun h => hexits (.inl h)).bind fun _ _ _ ⟨hl, hv⟩ => ?_
  refine (ends_lowerExprs hl htargets fun h => hexits (.inr h)).bind fun ns _ _ ⟨hl, hts, hlength, hns⟩ => ?_
  refine (ends_infoOf hl hspan).bind fun _ _ _ ⟨hl, hloc⟩ => ?_
  refine hl.append (.assign ?_ (fun n hn => ?_) hv.isExpr)
    (throughout_iff.2 ⟨hloc, forall_mem_cons.2 ⟨hv.located, fun n hn => ?_⟩⟩) ?_
  · exact ne_nil_of_length_pos (hlength ▸ length_pos_iff.2 hne)
  · obtain ⟨t, ht, hn⟩ := hns n hn
    exact hn.isTarget (hfit t ht)
  · obtain ⟨_, _, hn⟩ := hns n hn
    exact hn.located
  · simp [AssignPart.isAnalysable, hv.isAnalysable, hts]

theorem ends_lowerParts {parts : List (AssignPart Sign)} (hl : Upright g l) (hparts : ∀ part ∈ parts, LowersPart g part)
    (hexits : partsAnalysable parts = false → g.conduct.exits) :
    Ends (lowerParts parts) l (fun _ l' => Upright g l' ∧ partsAnalysable parts = true) (Stopped g) := by
  induction parts generalizing l with
  | nil => exact ends_pure.2 ⟨hl, rfl⟩
  | cons part parts ih =>
    obtain ⟨hpart, hparts⟩ := forall_mem_cons.1 hparts
    rw [partsAnalysable, Bool.and_eq_false_iff] at hexits
    rw [lowerParts]
    refine (ends_lowerPart hl hpart fun h => hexits (.inl h)).bind fun _ _ _ ⟨hl, hfirst⟩ => ?_
    refine (ih hl hparts fun h => hexits (.inr h)).mono (fun _ _ _ ⟨hl, hrest⟩ => ⟨hl, ?_⟩) fun _ _ h => h
    simp [partsAnalysable, hfirst, hrest]

theorem throughout_name {info : NodeInfo} {x : String} (h : g.Lies info.loc) :
    Throughout (Located g.Lies) (.name info x) :=
  throughout_iff.2 ⟨h, nofun⟩

/-- Expressions are lowered as they ought to be. -/
theorem lowers {e : Expr Sign} (hw : e.WellFormed) (he : e.Placed (fun _ => g.placed) outer) : Lowers g e := by
  induction hw generalizing outer with
  | name =>
    intro l hl _
    cases he with
    | name hn =>
      rw [lowerExpr]
      refine (ends_lowerName hl hn).mono (fun _ _ _ ⟨hl, _, hloc, hnode⟩ => ⟨hl, ?_⟩) fun _ _ h => h
      subst hnode
      exact ⟨rfl, .name, fun _ => .name, throughout_name hloc⟩
  | number =>
    intro l hl _
    cases he with
    | number hn =>
      rw [lowerExpr]
      refine (ends_lowerNumber hl hn).mono (fun _ _ _ ⟨hl, _, _, _, hloc, hnode⟩ => ⟨hl, ?_⟩) fun _ _ h => h
      subst hnode
      exact ⟨rfl, .int, nofun, throughout_iff.2 ⟨hloc, nofun⟩⟩
  | robot =>
    intro l hl _
    cases he with
    | robot hspan =>
      rw [lowerExpr]
      refine (ends_infoOf hl hspan).bind fun _ _ _ ⟨hl, hloc⟩ => ends_pure.2 ⟨hl, rfl, .robot, nofun, ?_⟩
      exact throughout_iff.2 ⟨hloc, forall_mem_singleton.2 (throughout_iff.2 ⟨trivial, nofun⟩)⟩
  | subscript _ _ _ _ ihi ihj =>
    intro l hl hexits
    cases he with
    | subscript hspan hn hi hj =>
      rw [Expr.isAnalysable, Bool.and_eq_false_iff] at hexits
      rw [lowerExpr]
      refine (ends_lowerName hl hn).bind fun _ _ _ ⟨hl, _, hname, hnode⟩ => ?_
      refine (ihi hi _ hl fun h => hexits (.inl h)).bind fun _ _ _ ⟨hl, hi⟩ => ?_
      refine (ihj hj _ hl fun h => hexits (.inr h)).bind fun _ _ _ ⟨hl, hj⟩ => ?_
      subst hnode
      refine (ends_infoOf hl hspan).bind fun _ _ _ ⟨hl, hloc⟩ => ends_pure.2 ⟨hl, ?_, ?_, fun _ => ?_, ?_⟩
      · simp [Expr.isAnalysable, hi.isAnalysable, hj.isAnalysable]
      · exact .subscript hi.isExpr hj.isExpr
      · exact .element hi.isExpr hj.isExpr
      · exact throughout_iff.2 ⟨hloc, by simp [children, throughout_name hname, hi.located, hj.located]⟩
  | call _ _ _ ih =>
    intro l hl hexits
    cases he with
    | call hspan hn hargs =>
      rw [lowerExpr]
      refine (ends_lowerName hl hn).bind fun _ _ _ ⟨hl, _, hname, hnode⟩ => ?_
      refine (ends_lowerExprs hl (fun a ha => ih a ha (hargs a ha)) hexits).bind fun _ _ _ ⟨hl, hargs, _, hns⟩ => ?_
      subst hnode
      refine (ends_infoOf hl hspan).bind fun _ _ _ ⟨hl, hloc⟩ => ends_pure.2 ⟨hl, hargs, .call fun n hn => ?_, nofun, ?_⟩
      · obtain ⟨_, _, hn⟩ := hns n hn
        exact hn.isExpr
      · refine throughout_iff.2 ⟨hloc, forall_mem_cons.2 ⟨throughout_name hname, fun n hn => ?_⟩⟩
        obtain ⟨_, _, hn⟩ := hns n hn
        exact hn.located
  | unary =>
    intro l hl hexits
    cases he with
    | unary hspan =>
      rw [lowerExpr]
      exact ends_unsupported hl hspan (hexits rfl)
  | binary _ _ _ _ ihl ihr =>
    intro l hl hexits
    cases he with
    | binary hspan hleft hright =>
      rw [Expr.isAnalysable, Bool.and_eq_false_iff] at hexits
      rw [lowerExpr]
      refine (ihl hleft _ hl fun h => hexits (.inl h)).bind fun _ _ _ ⟨hl, hleft⟩ => ?_
      refine (ihr hright _ hl fun h => hexits (.inr h)).bind fun _ _ _ ⟨hl, hright⟩ => ?_
      refine (ends_infoOf hl hspan).bind fun _ _ _ ⟨hl, hloc⟩ => ends_pure.2 ⟨hl, ?_, ?_, nofun, ?_⟩
      · simp [Expr.isAnalysable, hleft.isAnalysable, hright.isAnalysable]
      · exact .binary hleft.isExpr hright.isExpr
      · exact throughout_iff.2 ⟨hloc, by simp [children, hleft.located, hright.located]⟩
  | compare _ _ hlen hne _ ih ihs =>
    intro l hl hexits
    cases he with
    | compare hspan he hes =>
      rw [Expr.isAnalysable, Bool.and_eq_false_iff] at hexits
      rw [lowerExpr]
      refine (ends_lowerExprs hl (fun a ha => ihs a ha (hes a ha)) fun h => hexits (.inl h)).bind
        fun _ _ _ ⟨hl, hall, hlength, hns⟩ => ?_
      refine (ih he _ hl fun h => hexits (.inr h)).bind fun _ _ _ ⟨hl, hn⟩ => ?_
      have hpaired := hlen.trans hlength.symm
      refine (ends_infoOf hl hspan).bind fun _ _ _ ⟨hl, hloc⟩ =>
        ends_pure.2 ⟨hl, ?_, .compare hpaired ?_ hn.isExpr fun n hn => ?_, nofun, ?_⟩
      · simp [Expr.isAnalysable, hall, hn.isAnalysable]
      · exact ne_nil_of_length_pos (hpaired ▸ length_pos_iff.2 hne)
      · obtain ⟨_, _, hn⟩ := hns n hn
        exact hn.isExpr
      · refine throughout_iff.2 ⟨hloc, forall_mem_cons.2 ⟨hn.located, fun n hn => ?_⟩⟩
        obtain ⟨_, _, hn⟩ := hns n hn
        exact hn.located
  | assign _ _ hfit _ _ iht ihv =>
    intro l hl hexits
    cases he with
    | assign _ hspans htargets hvalues =>
      rw [lowerExpr]
      refine (ends_lowerParts hl (fun part hpart => ⟨hfit part hpart, ?_, ?_, ?_⟩) hexits).bind
        fun _ _ _ ⟨hl, hparts⟩ => ends_pure.2 ⟨hl, hparts, .missing, nofun, throughout_iff.2 ⟨trivial, nofun⟩⟩
      · obtain ⟨first, _, hfirst, -, hstart, -⟩ := hspans part hpart
        exact g.placed_of_start _ first hstart hfirst
      · exact fun t ht => iht part hpart t ht (htargets part hpart t ht)
      · exact ihv part hpart (hvalues part hpart)

/-- Lowering of a statement succeeds exactly if it is analysable. -/
def LowersStmt (g : Ground) (s : Stmt Sign) : Prop :=
  ∀ l : Lowering, Upright g l → (s.isAnalysable = false → g.conduct.exits) →
    Ends (lowerStmt s) l (fun _ l' => Upright g l' ∧ s.isAnalysable = true) (Stopped g)

theorem ends_lowerStmts (hl : Upright g l) (hss : ∀ s ∈ ss, LowersStmt g s)
    (hexits : stmtsAnalysable ss = false → g.conduct.exits) :
    Ends (lowerStmts ss) l (fun _ l' => Upright g l' ∧ stmtsAnalysable ss = true) (Stopped g) := by
  induction ss generalizing l with
  | nil => exact ends_pure.2 ⟨hl, rfl⟩
  | cons s ss ih =>
    obtain ⟨hs, hss⟩ := forall_mem_cons.1 hss
    rw [stmtsAnalysable, Bool.and_eq_false_iff] at hexits
    rw [lowerStmts]
    refine (hs l hl fun h => hexits (.inl h)).bind fun _ _ _ ⟨hl, hfirst⟩ => ?_
    refine (ih hl hss fun h => hexits (.inr h)).mono (fun _ _ _ ⟨hl, hrest⟩ => ⟨hl, ?_⟩) fun _ _ h => h
    simp [stmtsAnalysable, hfirst, hrest]

/-- A body is filled on its own. -/
theorem ends_collect (hl : Upright g l) (hss : ∀ s ∈ ss, LowersStmt g s)
    (hexits : stmtsAnalysable ss = false → g.conduct.exits) :
    Ends (collect (lowerStmts ss)) l (fun ns l' => Upright g l' ∧ stmtsAnalysable ss = true ∧
      ∀ n ∈ ns, n.IsStmt ∧ Throughout (Located g.Lies) n) (Stopped g) := by
  simp only [collect, ends_bind, ends_get, ends_modify, ends_pure]
  have hempty : Upright g { l with body := #[] } := ⟨hl.keeps, hl.file, hl.lines, by simp⟩
  refine (ends_lowerStmts hempty hss hexits).mono (fun _ l' _ h => ?_) fun _ _ h => h
  exact ⟨⟨h.1.keeps, h.1.file, h.1.lines, hl.body⟩, h.2, h.1.body⟩

theorem ends_appendExpr (hl : Upright g l) (hexpr : n.IsExpr) (hn : Throughout (Located g.Lies) n) (hR : R) :
    Ends (appendExpr n) l (fun _ l' => Upright g l' ∧ R) (Stopped g) := by
  unfold appendExpr
  split
  · exact ends_pure.2 ⟨hl, hR⟩
  · exact hl.append (.expr hexpr) hn hR

theorem paramValues_heads {ς : Type} {loc : Location} {name : String} {params : List ParamNode}
    {body : List (Stmt ς)} {type : IntType} :
    FunctionHead.Heads ⟨name, paramValues loc params, .int loc type 0⟩ (NameTable.ofFunction params body) where
  isParam_iff x := by
    rw [NameTable.isParam_ofFunction, paramValues, Scope.mem_map_fst_byName, map_map]
    rfl
  nodup := Scope.byName_induction (P := fun values => (values.map Prod.fst).Nodup) nodup_nil
    fun _ h _ _ => Scope.nodup_putValue h
  int := by
    refine Scope.byName_induction (P := fun values => ∀ entry ∈ values, ∃ t, entry.2.type = .int t) nofun ?_
    intro values hvalues entry hentry e he
    obtain ⟨p, _, rfl⟩ := mem_map.1 hentry
    rcases Scope.mem_putValue he with rfl | he
    · exact ⟨_, rfl⟩
    · exact hvalues e he
  returns := ⟨_, rfl⟩

/-- Statements are lowered as they ought to be. -/
theorem lowersStmt {s : Stmt Sign} (hw : s.WellFormed) (hs : s.Placed (fun _ => g.placed) outer) :
    LowersStmt g s := by
  induction hw generalizing outer with
  | expr _ hwe =>
    intro l hl hexits
    cases hs with
    | expr _ he =>
      rw [lowerStmt]
      refine (lowers hwe he l hl hexits).bind fun _ _ _ ⟨hl, hn⟩ => ?_
      exact ends_appendExpr hl hn.isExpr hn.located hn.isAnalysable
  | declareNumber _ _ hne =>
    intro l hl _
    cases hs with
    | declareNumber hspan _ hns hv =>
      rw [lowerStmt]
      refine (ends_lowerNumber hl hv).bind fun _ _ _ ⟨hl, _, _, _, hvalue, hnode⟩ => ?_
      refine (ends_lowerNames hl hns).bind fun _ _ _ ⟨hl, hlength, hnames⟩ => ?_
      subst hnode
      refine (ends_infoOf hl hspan).bind fun _ _ _ ⟨hl, hloc⟩ => hl.append (.assign ?_ (fun t ht => ?_) .int) ?_ rfl
      · exact ne_nil_of_length_pos (hlength ▸ length_pos_iff.2 hne)
      · obtain ⟨_, _, _, rfl⟩ := hnames t ht
        exact .name
      · refine throughout_iff.2 ⟨hloc, forall_mem_cons.2 ⟨throughout_iff.2 ⟨hvalue, nofun⟩, fun t ht => ?_⟩⟩
        obtain ⟨_, _, hname, rfl⟩ := hnames t ht
        exact throughout_name hname
  | declareField =>
    intro l hl _
    cases hs with
    | declareField hspan _ _ hns =>
      rw [lowerStmt]
      refine (ends_infoOf hl hspan).bind fun _ _ _ ⟨hl, hloc⟩ => ?_
      refine (ends_lowerNames hl hns).bind fun _ _ _ ⟨hl, _, hnames⟩ => hl.append (.field fun t ht => ?_) ?_ rfl
      · obtain ⟨info, x, -, ht⟩ := hnames t ht
        exact ⟨info, x, ht⟩
      · refine throughout_iff.2 ⟨hloc, forall_mem_cons.2 ⟨throughout_iff.2 ⟨hloc, nofun⟩, fun t ht => ?_⟩⟩
        obtain ⟨_, _, hname, rfl⟩ := hnames t ht
        exact throughout_name hname
  | loop _ hwt _ ih | check _ hwt _ ih =>
    intro l hl hexits
    cases hs
    rename_i hspan htest hbody
    rw [Stmt.isAnalysable, Bool.and_eq_false_iff] at hexits
    rw [lowerStmt]
    refine (ends_collect hl (fun s hs => ih s hs (hbody s hs)) fun h => hexits (.inl h)).bind
      fun _ _ _ ⟨hl, hb, hbody⟩ => ?_
    refine (lowers hwt htest _ hl fun h => hexits (.inr h)).bind fun _ _ _ ⟨hl, hn⟩ => ?_
    refine (ends_infoOf hl hspan).bind fun _ _ _ ⟨hl, hloc⟩ => hl.append ?_ (throughout_iff.2 ⟨hloc, ?_⟩) ?_
    · have hstmts := fun n hn => (hbody n hn).1
      first | exact .loop hn.isExpr hstmts | exact .condition hn.isExpr hstmts
    · exact forall_mem_cons.2 ⟨hn.located, fun n hn => (hbody n hn).2⟩
    · simp [Stmt.isAnalysable, hb, hn.isAnalysable]
  | @function _ _ callee _ _ _ _ _ _ _ ih =>
    intro l hl hexits
    cases hs with
    | function hspan _ _ hbody =>
      rw [lowerStmt]
      refine (ends_infoOf hl hspan).bind fun info _ _ ⟨hl, hloc⟩ => ?_
      refine (ends_collect hl (fun s hs => ih s hs (hbody s hs)) hexits).bind fun _ _ _ ⟨hl, hb, hbody⟩ => ?_
      refine hl.append ?_ (throughout_iff.2 ⟨hloc, forall_mem_cons.2 ⟨throughout_iff.2 ⟨hloc, ?_⟩, ?_⟩⟩) hb
      · exact @IsStmt.function info info info ⟨callee, _, _⟩ _ _ paramValues_heads fun n hn => (hbody n hn).1
      · exact fun n hn => (hbody n hn).2
      · exact forall_mem_singleton.2 (throughout_name hloc)
  | giveBack _ hwe =>
    intro l hl hexits
    cases hs with
    | giveBack hspan he =>
      rw [lowerStmt]
      refine (lowers hwe he l hl hexits).bind fun _ _ _ ⟨hl, hn⟩ => ?_
      refine (ends_infoOf hl hspan).bind fun _ _ _ ⟨hl, hloc⟩ => ?_
      refine hl.append (.giveBack hn.isExpr) (throughout_iff.2 ⟨hloc, ?_⟩) hn.isAnalysable
      exact forall_mem_singleton.2 hn.located

theorem ends_within {text file : String} {act : Task Lowering α} {s : Session} {Q : α → Session → Prop}
    {E : Stop → Session → Prop} :
    Ends (within text file act) s Q E ↔ Ends act { session := s, file, lines := Text.splitLines text }
      (fun a l => Q a l.session) (fun stop l => E stop l.session) :=
  ends_of_run rfl

end Lowering

theorem NameTable.isParam_ofProgram {ς : Type} (p : Program ς) (x : String) :
    (ofProgram p).isParam x = false := by
  simpa using (lists_ofProgram p).isParam_iff (nil_subset _) x

variable {text : String} {p : Program Sign} {s : Session}

/-- A program becomes an analysis tree exactly if all its statements are analysable. Nothing is bound in it yet, and
there are no parameters. -/
theorem Program.ends_lower {g : Lowering.Ground} (hw : p.WellFormed) (hp : p.Placed fun _ => g.placed)
    (hlines : g.lines = Text.splitLines text) (hs : g.conduct.Keeps s)
    (hexits : stmtsAnalysable p.body = false → g.conduct.exits) :
    Ends (p.lower text g.file) s (fun m s' => g.conduct.Keeps s' ∧ stmtsAnalysable p.body = true ∧
      (∀ n ∈ m.body, n.IsStmt ∧ Node.Throughout (Node.Located g.Lies) n) ∧
      m.scope = { names := NameTable.ofProgram p }) g.conduct.Stops := by
  rw [Program.lower, Lowering.ends_within]
  have hl : Lowering.Upright g { session := s, file := g.file, lines := Text.splitLines text } :=
    ⟨hs, rfl, hlines.symm, by simp⟩
  simp only [Lowering.infoOf, Lowering.locOf, ends_bind, ends_get, ends_pure]
  have hstmts := fun s hs => Lowering.lowersStmt (hw.2 s hs) (hp s hs)
  refine (Lowering.ends_collect hl hstmts hexits).mono ?_ fun _ _ h => h
  exact fun _ _ _ h => ⟨h.1.keeps, h.2.1, h.2.2, trivial⟩

/-- The nodes of a well-formed program are statements. -/
theorem Program.lower_isStmt {R : Span → Span → Prop} {file : String} {m : Module} {s' : Session} (hw : p.WellFormed)
    (hp : p.Placed R) (h : Yields (p.lower text file) s m s') :
    (∀ n ∈ m.body, n.IsStmt) ∧ m.scope.values = [] ∧ ∀ x, m.scope.names.isParam x = false := by
  let g : Lowering.Ground := ⟨⟨s, fun _ => True, True, fun _ => True⟩, file, Text.splitLines text, fun _ => True,
    fun _ _ _ => id, fun _ _ _ _ _ _ => trivial⟩
  have hends := ends_lower (g := g) hw (hp.mono fun _ _ _ => trivial) rfl (Conduct.keeps_start _) fun _ => trivial
  obtain ⟨_, _, hbody, hscope⟩ := hends.of_yields h
  rw [hscope]
  exact ⟨fun n hn => (hbody n hn).1, rfl, NameTable.isParam_ofProgram p⟩

end Labyrinth
