import Mathlib
import Labyrinth.Proofs.Grammar.Soundness

/-!
# The spans of nodes

Tokens come one after the other, so a span of tokens contains every span of tokens that lie between its first and its
last one. A node of a program that is read was made of tokens, and everything below it was made of tokens between its
first and its last one. Parts of chains are the exception: their spans are put together from those of other nodes.
-/

namespace Labyrinth

open List

/-- One span lies inside another. -/
def Span.Contains (outer inner : Span) : Prop :=
  toLex outer.start ≤ toLex inner.start ∧ toLex inner.stop ≤ toLex outer.stop

theorem Span.Contains.trans {outer span inner : Span} (h : outer.Contains span) (h' : span.Contains inner) :
    outer.Contains inner :=
  ⟨h.1.trans h'.1, h'.2.trans h.2⟩

/-- A span from the start of a token to the end of one that does not stand before it. -/
def Span.RunsOver (tokens : List Token) (span : Span) : Prop :=
  ∃ (k l : Nat) (t u : Token), k ≤ l ∧ tokens[k]? = some t ∧ tokens[l]? = some u ∧ span.start = t.start ∧ span.stop = u.stop

namespace Shape

/-- What a shape shows: itself, and whatever its parts show. -/
inductive Has : Shape → Shape → Prop where
  | here (s : Shape) : Has s s
  | part {cls span names parts p s} : p ∈ parts → Has p s → Has (.node cls span names parts) s
  | item {items p s} : p ∈ items → Has p s → Has (.list items) s
  | member {items p s} : p ∈ items → Has p s → Has (.tuple items) s

/-- All nodes of a shape have a span inside the given one, and all but parts of chains have a span with some property
that contains the spans of all nodes below. -/
def Nested (T : Span → Prop) (outer : Span) (s : Shape) : Prop :=
  ∀ cls span names parts, s.Has (.node cls span names parts) → outer.Contains span ∧
    (cls ≠ "BasicAssignment" → T span ∧ ∀ p ∈ parts, ∀ cls' span' names' parts',
      p.Has (.node cls' span' names' parts') → span.Contains span')

variable {T : Span → Prop} {outer span : Span} {cls : String} {names : List String} {parts items : List Shape}

theorem nested_node (hs : outer.Contains span) (ht : T span) (h : ∀ p ∈ parts, p.Nested T span) :
    (node cls span names parts).Nested T outer := by
  intro _ _ _ _ hhas
  cases hhas with
  | here => exact ⟨hs, fun _ => ⟨ht, fun p hp _ _ _ _ hin => (h p hp _ _ _ _ hin).1⟩⟩
  | part hp hin => exact ⟨hs.trans (h _ hp _ _ _ _ hin).1, (h _ hp _ _ _ _ hin).2⟩

/-- What is below a part of a chain lies inside the chain. -/
theorem nested_part (hs : outer.Contains span) (h : ∀ p ∈ parts, p.Nested T outer) :
    (node "BasicAssignment" span names parts).Nested T outer := by
  intro _ _ _ _ hhas
  cases hhas with
  | here => exact ⟨hs, fun hne => absurd rfl hne⟩
  | part hp hin => exact h _ hp _ _ _ _ hin

@[simp] theorem nested_list : (list items).Nested T outer ↔ ∀ p ∈ items, p.Nested T outer := by
  refine ⟨fun h p hp _ _ _ _ hin => h _ _ _ _ (.item hp hin), fun h _ _ _ _ hhas => ?_⟩
  cases hhas with
  | item hp hin => exact h _ hp _ _ _ _ hin

@[simp] theorem nested_tuple : (tuple items).Nested T outer ↔ ∀ p ∈ items, p.Nested T outer := by
  refine ⟨fun h p hp _ _ _ _ hin => h _ _ _ _ (.member hp hin), fun h _ _ _ _ hhas => ?_⟩
  cases hhas with
  | member hp hin => exact h _ hp _ _ _ _ hin

@[simp] theorem nested_plain (text : String) : (plain text).Nested T outer := by
  intro _ _ _ _ hhas
  cases hhas

@[simp] theorem nested_number (value : Int) : (number value).Nested T outer := by
  intro _ _ _ _ hhas
  cases hhas

end Shape

open Shape

variable {T : Span → Prop} {outer : Span}

/-- A span with a property inside another one. -/
def Span.Holds (T : Span → Prop) (outer span : Span) : Prop :=
  outer.Contains span ∧ T span

theorem NameNode.nested {n : NameNode} (h : outer.Holds T n.span) : n.shape.Nested T outer :=
  nested_node h.1 h.2 (by simp)

theorem TypeNode.nested {t : TypeNode} (h : outer.Holds T t.span) : t.shape.Nested T outer :=
  nested_node h.1 h.2 (by simp)

theorem NumberNode.nested {n : NumberNode Sign} (h : outer.Holds T n.span) : n.shape.Nested T outer :=
  nested_node h.1 h.2 (by simp)

theorem ParamNode.Placed.nested {q : ParamNode} (h : q.Placed (Span.Holds T) outer) : q.shape.Nested T outer :=
  nested_node h.span.1 h.span.2 (by simp [TypeNode.nested h.type, NameNode.nested h.name])

theorem exprShapes_eq_map (es : List (Expr Sign)) : exprShapes es = es.map Expr.shape := by
  induction es with
  | nil => rfl
  | cons e es ih => rw [exprShapes, ih, map_cons]

theorem partShapes_eq_map (parts : List (AssignPart Sign)) : partShapes parts = parts.map AssignPart.shape := by
  induction parts with
  | nil => rfl
  | cons p ps ih => rw [partShapes, ih, map_cons]

theorem stmtShapes_eq_map (ss : List (Stmt Sign)) : stmtShapes ss = ss.map Stmt.shape := by
  induction ss with
  | nil => rfl
  | cons s ss ih => rw [stmtShapes, ih, map_cons]

theorem Expr.Placed.nested {e : Expr Sign} (h : e.Placed (Span.Holds T) outer) : e.shape.Nested T outer := by
  induction h with
  | name h => exact NameNode.nested h
  | number h => exact NumberNode.nested h
  | robot h => exact nested_node h.1 h.2 (by simp)
  | subscript h hn _ _ hi hj => exact nested_node h.1 h.2 (by simp [NameNode.nested hn, hi, hj])
  | call h hn _ ih =>
    exact nested_node h.1 h.2 (by simpa [NameNode.nested hn, exprShapes_eq_map] using ih)
  | unary h _ ih => exact nested_node h.1 h.2 (by simp [ih])
  | binary h _ _ hl hr => exact nested_node h.1 h.2 (by simp [hl, hr])
  | compare h _ _ he ih => exact nested_node h.1 h.2 (by simpa [he, exprShapes_eq_map] using ih)
  | assign h hparts _ _ ht hv =>
    refine nested_node h.1 h.2 (forall_mem_singleton.2 (nested_list.2 ?_))
    rw [partShapes_eq_map]
    refine forall_mem_map.2 fun part hpart => ?_
    obtain ⟨first, last, hfirst, hlast, hstart, hstop⟩ := hparts part hpart
    obtain ⟨span, targets, value⟩ := part
    refine nested_part ⟨hstart ▸ hfirst.1.1, hstop ▸ hlast.1.2⟩ (forall_mem_cons.2 ⟨nested_list.2 ?_, ?_⟩)
    · rw [exprShapes_eq_map]
      exact forall_mem_map.2 (ht _ hpart)
    · exact forall_mem_singleton.2 (hv _ hpart)
  | hole h => exact nested_node h.1 h.2 (forall_mem_nil _)

theorem Stmt.Placed.nested {s : Stmt Sign} (h : s.Placed (Span.Holds T) outer) : s.shape.Nested T outer := by
  have hbody {span : Span} {body : List (Stmt Sign)} (h : ∀ s ∈ body, s.shape.Nested T span) :
      (list (stmtShapes body)).Nested T span :=
    nested_list.2 (by rw [stmtShapes_eq_map]; exact forall_mem_map.2 h)
  have hnames {span : Span} {names : List NameNode} (h : ∀ n ∈ names, span.Holds T n.span) :
      (list (names.map NameNode.shape)).Nested T span :=
    nested_list.2 (forall_mem_map.2 fun n hn => NameNode.nested (h n hn))
  induction h with
  | expr h he => exact nested_node h.1 h.2 (by simp [he.nested])
  | declareNumber h ht hn hv =>
    exact nested_node h.1 h.2 (by simp [TypeNode.nested ht, hnames hn, NumberNode.nested hv])
  | declareField h he hz hn hv =>
    exact nested_node h.1 h.2 (by simp [TypeNode.nested he, TypeNode.nested hz, hnames hn, NumberNode.nested hv])
  | loop h he _ ih => exact nested_node h.1 h.2 (by simp [he.nested, hbody ih])
  | check h he _ ih => exact nested_node h.1 h.2 (by simp [he.nested, hbody ih])
  | function h ht hq _ ih =>
    have hparams := nested_list.2 (forall_mem_map.2 fun q hmem => (hq q hmem).nested)
    exact nested_node h.1 h.2 (by simp [TypeNode.nested ht, hparams, hbody ih])
  | giveBack h he => exact nested_node h.1 h.2 (by simp [he.nested])

/-- Tokens that a scan finds come one after the other. -/
theorem Scan.significant_ordered (text : String) :
    (∀ t ∈ (ofNormalized text).significant, toLex t.start < toLex t.stop) ∧
      (ofNormalized text).significant.Pairwise fun t later => toLex t.stop ≤ toLex later.start := by
  obtain ⟨pieces, tail, hcut⟩ := Cut.exists_of_text text.toList
  have hscan := ofNormalized_cut hcut
  rw [String.ofList_toList] at hscan
  have hfinds := stepsOf_finds (LineTable.ofText text) hcut []
  constructor
  · intro t ht
    obtain ⟨step, hstep, rfl⟩ := mem_map.1 (mem_of_mem_filter ht)
    rw [hscan] at hstep
    obtain ⟨_, _, _, _, hfind⟩ := hfinds.1 step hstep
    exact hfind.start_lt_stop
  · refine (pairwise_map.2 ?_).filter _
    rw [hscan]
    exact hfinds.2

/-- A span of tokens contains a span of tokens between its first and its last one. -/
theorem Grammar.Stretch.Within.contains {g : Grammar.Stretch} {inner : Span}
    (hlt : ∀ t, g.Takes t → toLex t.start < toLex t.stop)
    (hordered : ∀ k l t u, k < l → g.tokens[k]? = some t → l < g.stop → g.tokens[l]? = some u →
      toLex t.stop ≤ toLex u.start) (h : g.Within outer inner) : outer.Contains inner := by
  obtain ⟨a, k, l, b, ha, hk, hl, hb, hstop, ⟨ta, tb, hta, htb, hs, he⟩, tk, tl, htk, htl, hs', he'⟩ := h
  rw [Span.Contains, hs, hs', he, he']
  constructor
  · rcases Nat.eq_or_lt_of_le hk with rfl | hk
    · cases hta.symm.trans htk
      exact le_rfl
    · exact (hlt ta ⟨a, ha, by omega, hta⟩).le.trans (hordered a k ta tk hk hta (by omega) htk)
  · rcases Nat.eq_or_lt_of_le hb with rfl | hb
    · cases htl.symm.trans htb
      exact le_rfl
    · exact (hordered l b tl tb hb htl hstop htb).trans (hlt tb ⟨b, by omega, hstop, htb⟩).le

namespace Program

open Labyrinth.Task Labyrinth.Grammar

/-- Every node of a program that is handed on, parts of chains apart, runs from the start of a token of the text to the
end of one that does not stand before it, and contains the span of every node below it. -/
theorem ofText_spans {text file : String} {session session' : Session} {program : Program Sign}
    (h : Yields (ofText text file) session program session') {cls : String} {span : Span} {names : List String}
    {parts : List Shape} (hnode : program.shape.Has (.node cls span names parts)) (hcls : cls ≠ "BasicAssignment") :
    span.RunsOver (Scan.ofNormalized (Text.normalizeBreaks text)).significant ∧
      ∀ part ∈ parts, ∀ cls' span' names' parts', part.Has (.node cls' span' names' parts') →
        span.Contains span' := by
  obtain ⟨p, parser, hparse, hclean, rfl⟩ := of_yields_ofText h
  obtain ⟨src, complaining, hreads, hwell, -, hsrc⟩ := reads_of_parse hparse hclean
  obtain ⟨hsite, hplaced⟩ := hreads.placed_of_start (Source.whole_of_scan hsrc) hwell #[]
  generalize hg : src.ground #[] 0 src.tokens.length = g at hsite hplaced
  set tokens := (Scan.ofNormalized (Text.normalizeBreaks text)).significant with htokens
  -- The stretch stops before the end of the text.
  have hget : ∀ k, k < g.stop → g.tokens[k]? = tokens[k]? := by
    intro k hk
    subst hg
    simp only [Source.ground, hsrc, length_append, length_singleton] at hk
    rw [show (src.ground #[] 0 src.tokens.length).tokens = src.tokens from rfl, hsrc,
      getElem?_append_left (by omega)]
  obtain ⟨hlt, hordered⟩ := Scan.significant_ordered (Text.normalizeBreaks text)
  have hholds : ∀ outer inner, g.Within outer inner → outer.Holds (Span.RunsOver tokens) inner := by
    intro outer inner hwithin
    refine ⟨hwithin.contains (fun t ht => ?_) fun k l t u hkl ht hl hu => ?_, ?_⟩
    · obtain ⟨k, -, hk, ht⟩ := ht
      exact hlt t (mem_of_getElem? (hget k hk ▸ ht))
    · rw [hget k (by omega)] at ht
      rw [hget l hl] at hu
      obtain ⟨hk, rfl⟩ := List.getElem?_eq_some_iff.1 ht
      obtain ⟨hl, rfl⟩ := List.getElem?_eq_some_iff.1 hu
      exact pairwise_iff_getElem.1 hordered k l hk hl hkl
    · obtain ⟨a, k, l, b, -, -, hkl, hb, hstop, -, t, u, ht, hu, hspan⟩ := hwithin
      exact ⟨k, l, t, u, hkl, hget k (by omega) ▸ ht, hget l (by omega) ▸ hu, hspan⟩
  have hbody : ∀ s ∈ (p.mapSign parser.signOf).body, s.shape.Nested (Span.RunsOver tokens) p.span :=
    fun s hs => ((hplaced.mono hholds).mapSign parser.signOf s hs).nested
  have hspan := hholds _ _ hsite.at
  have hnested : (p.mapSign parser.signOf).shape.Nested (Span.RunsOver tokens) p.span := by
    refine nested_node hspan.1 hspan.2 (forall_mem_singleton.2 (nested_list.2 ?_))
    rw [stmtShapes_eq_map]
    exact forall_mem_map.2 hbody
  exact (hnested cls span names parts hnode).2 hcls

set_option maxRecDepth 10000 in
theorem ofText_spans_sample : ∃ program session', Yields (ofText sampleText) {} program session' ∧
    program.body.length = 1 ∧ program.span.RunsOver (Scan.ofNormalized (Text.normalizeBreaks sampleText)).significant ∧
      ∀ cls span names parts, (Shape.list (stmtShapes program.body)).Has (.node cls span names parts) →
        program.span.Contains span := by
  have hgives : gives (ofText sampleText) {} (fun program _ => program.body.length == 1) = true := by decide +kernel
  obtain ⟨program, session', hrun, hlength⟩ := yields_of_gives hgives
  obtain ⟨hruns, hbelow⟩ := ofText_spans hrun (.here _) (by decide)
  exact ⟨program, session', hrun, beq_iff_eq.1 hlength, hruns, hbelow _ (mem_singleton.2 rfl)⟩

end Program

end Labyrinth
