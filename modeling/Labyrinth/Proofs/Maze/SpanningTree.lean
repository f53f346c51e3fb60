import Mathlib.Combinatorics.SimpleGraph.Acyclic
import Labyrinth.Maze.Generation
import Labyrinth.Proofs.Maze.Grid

/-!
# Mazes are spanning trees

The walk that carves a maze keeps a tree: the passages carved so far join exactly the visited cells, and each
step forward adds one cell and one passage. A cell leaves the way back only when all its neighbours are
visited, so that the walk ends with the whole component of the player's cell, after at most two steps for
each cell of the field.
-/

namespace Labyrinth.Maze

open List SimpleGraph

namespace Field

variable {f : Field} {p next : Position} {d : Direction}

/-- Opening the wall between a cell and the next one clears its two sides. -/
theorem clear_open_iff (hp : f.inside p = true) (h : f.move? p d = some next) (q : Position) (e : Direction) :
    (Carving.open_ f p d next).Clear q e ↔
      (q = p ∧ d = e) ∨ (q = next ∧ d.reverse = e) ∨ f.Clear q e := by
  have hnext : (f.changeWalls p (· &&& ~~~d.bit)).inside next = true := by
    rw [inside_changeWalls]
    exact (move?_eq_some_iff.1 h).2
  rw [Carving.open_, clear_changeWalls_iff hnext, clear_changeWalls_iff hp, or_left_comm]

@[simp] theorem width_open (f : Field) (p next : Position) (d : Direction) :
    (Carving.open_ f p d next).width = f.width := by
  rw [Carving.open_, width_changeWalls, width_changeWalls]

@[simp] theorem height_open (f : Field) (p next : Position) (d : Direction) :
    (Carving.open_ f p d next).height = f.height := by
  rw [Carving.open_, height_changeWalls, height_changeWalls]

@[simp] theorem inside_open (f : Field) (p next : Position) (d : Direction) (q : Position) :
    (Carving.open_ f p d next).inside q = f.inside q :=
  inside_congr (width_open ..) (height_open ..) q

@[simp] theorem move?_open (f : Field) (p next : Position) (d : Direction) (q : Position)
    (e : Direction) : (Carving.open_ f p d next).move? q e = f.move? q e :=
  move?_congr (width_open ..) (height_open ..) q e

/-- Opening a wall adds one passage. -/
theorem passages_open (hp : f.inside p = true) (h : f.move? p d = some next) :
    (Carving.open_ f p d next).passages = f.passages ⊔ edge p next := by
  obtain ⟨hstep, hnext⟩ := move?_eq_some_iff.1 h
  have hback : neighbour next d.reverse = p := (move?_eq_some_iff.1 (move?_reverse hp h)).1
  have hne : p ≠ next := fun he => neighbour_ne p d (hstep.trans he.symm)
  ext a b
  simp only [passages, sup_adj, edge_adj, inside_open, move?_open, clear_open_iff hp h]
  constructor
  · rintro ⟨ha, e, hab, hae, hbe⟩
    obtain ⟨hab', hb⟩ := move?_eq_some_iff.1 hab
    have hba : neighbour b e.reverse = a := (move?_eq_some_iff.1 (move?_reverse ha hab)).1
    -- A side of `a` or of `b` that was opened just now says which cells these are.
    rcases hae with ⟨rfl, rfl⟩ | ⟨rfl, rfl⟩ | hae
    · exact .inr ⟨.inl ⟨rfl, hab'.symm.trans hstep⟩, hab'.symm.trans hstep ▸ hne⟩
    · exact .inr ⟨.inr ⟨rfl, hab'.symm.trans hback⟩, hab'.symm.trans hback ▸ hne.symm⟩
    · rcases hbe with ⟨rfl, rfl⟩ | ⟨rfl, he⟩ | hbe
      · exact .inr ⟨.inr ⟨hba.symm.trans hstep, rfl⟩, hba.symm.trans hstep ▸ hne.symm⟩
      · rw [← he] at hba
        exact .inr ⟨.inl ⟨hba.symm.trans hback, rfl⟩, hba.symm.trans hback ▸ hne⟩
      · exact .inl ⟨ha, e, hab, hae, hbe⟩
  · rintro (⟨ha, e, hab, hae, hbe⟩ | ⟨⟨rfl, rfl⟩ | ⟨rfl, rfl⟩, _⟩)
    · exact ⟨ha, e, hab, .inr (.inr hae), .inr (.inr hbe)⟩
    · exact ⟨hp, d, h, .inl ⟨rfl, rfl⟩, .inr (.inl ⟨rfl, rfl⟩)⟩
    · refine ⟨hnext, d.reverse, move?_reverse hp h, .inr (.inl ⟨rfl, rfl⟩), .inl ⟨rfl, ?_⟩⟩
      rw [Direction.reverse_reverse]

end Field

namespace Carving

variable {p next origin : Position} {c c' : Carving} {random : Int} {d : Direction} {back : List Position}
    {f : Field}

def cells (c : Carving) : Set Position := {p | c.field.inside p = true ∧ c.isVisited p = true}

theorem mem_cells :
    p ∈ c.cells ↔ c.field.inside p = true ∧ c.isVisited p = true := Iff.rfl

theorem cells_finite (c : Carving) : c.cells.Finite :=
  c.field.ncard_inside_le.1.subset fun _ hp => hp.1

theorem ncard_cells_le (c : Carving) : c.cells.ncard ≤ c.field.width * c.field.height :=
  (Set.ncard_le_ncard (fun _ hp => hp.1) c.field.ncard_inside_le.1).trans c.field.ncard_inside_le.2

/-! ### One step -/

/-- With the numbers that a generator yields, the six tries of a step are the six directions. -/
theorem exists_direction_eq (h : 0 ≤ random) (hlt : random < 2 ^ 31) (d : Direction) :
    ∃ i < 6, direction random i = d := by
  have hd := d.index_lt
  refine ⟨(d.index + 6 - random.toNat % 6) % 6, Nat.mod_lt _ (by omega), ?_⟩
  have hb : Int.bmod random (2 ^ 32) = random := Int.bmod_eq_of_le (by omega) (by omega)
  change Direction.ofIndex (((Int.bmod random (2 ^ 32) % 2 ^ 64).toNat + _) % 2 ^ 64) = d
  rw [hb]
  have hw : ((random % 2 ^ 64).toNat + (d.index + 6 - random.toNat % 6) % 6) % 2 ^ 64 % 6 = d.index := by
    omega
  rw [← Direction.ofIndex_mod, hw, Direction.ofIndex_index]

/-- A way that is found leads to a neighbour that was not visited. -/
theorem way?_eq_some
    (h : c.way? p random = some (d, next)) :
    c.field.move? p d = some next ∧ c.isVisited next = false := by
  obtain ⟨i, _, hi⟩ := exists_of_findSome?_eq_some h
  simp only at hi
  split at hi
  · next q hq =>
    split at hi
    · cases hi
    · next hv =>
      cases hi
      exact ⟨hq, by simpa using hv⟩
  · cases hi

/-- When no way is found, all neighbours were visited. -/
theorem isVisited_of_way?_eq_none (hr : 0 ≤ random)
    (hlt : random < 2 ^ 31) (h : c.way? p random = none) {q : Position}
    (hq : c.field.move? p d = some q) : c.isVisited q = true := by
  obtain ⟨i, hi, rfl⟩ := exists_direction_eq hr hlt d
  have hn := findSome?_eq_none_iff.1 h i (mem_range.2 hi)
  simp only [hq] at hn
  split at hn
  · next hv => exact hv
  · cases hn

/-- A step notes the way back if it is longer than any before, and goes on or back. -/
theorem step_spec (ht : c.trail = p :: back) (random : Int) : (c.step random).longest = max c.longest c.trail.length ∧
    (c.step random).farthest = (if c.longest < c.trail.length then p else c.farthest) ∧
    ((∃ d next, c.way? p random = some (d, next) ∧ (c.step random).field = open_ c.field p d next ∧
        (c.step random).visited = c.visited.setIfInBounds (c.field.index next) true ∧
        (c.step random).trail = next :: p :: back) ∨
      (c.way? p random = none ∧ (c.step random).field = c.field ∧ (c.step random).visited = c.visited ∧
        (c.step random).trail = back)) := by
  obtain ⟨noted, hf, hv, hl, hfar, hstep⟩ : ∃ noted : Carving, noted.field = c.field ∧
      noted.visited = c.visited ∧ noted.longest = max c.longest c.trail.length ∧
      noted.farthest = (if c.longest < c.trail.length then p else c.farthest) ∧
      c.step random = (noted.way? p random).elim { noted with trail := back } fun way =>
        { noted with
          field := open_ noted.field p way.1 way.2
          visited := noted.visited.setIfInBounds (noted.field.index way.2) true
          trail := way.2 :: p :: back } := by
    unfold step
    rw [ht]
    dsimp only
    by_cases hl : (p :: back).length > c.longest
    · rw [if_pos hl, if_pos hl]
      exact ⟨{ c with longest := (p :: back).length, farthest := p }, rfl, rfl,
        (Nat.max_eq_right (Nat.le_of_lt hl)).symm, rfl, by split <;> simp only [*, Option.elim]⟩
    · rw [if_neg hl, if_neg hl]
      exact ⟨c, rfl, rfl, (Nat.max_eq_left (Nat.le_of_not_lt hl)).symm, rfl, by split <;> simp only [*, Option.elim]⟩
  have hseen : ∀ q, noted.isVisited q = c.isVisited q := by
    intro q
    rw [isVisited, isVisited, hf, hv]
  have hway : noted.way? p random = c.way? p random := by
    simp only [way?, hf, hseen]
  cases h : c.way? p random with
  | some found =>
    rw [hway, h] at hstep
    rw [hstep, ← hf, ← hv]
    exact ⟨hl, hfar, .inl ⟨found.1, found.2, rfl, rfl, rfl, rfl⟩⟩
  | none =>
    rw [hway, h] at hstep
    rw [hstep, ← hf, ← hv]
    exact ⟨hl, hfar, .inr ⟨rfl, rfl, rfl, rfl⟩⟩

/-- What a step does to field, visited cells and way back: it goes on to a neighbour that was not visited, or
it goes back because there is none. -/
theorem step_cases (hr : 0 ≤ random)
    (hlt : random < 2 ^ 31) (ht : c.trail = p :: back) :
    (∃ d next, c.field.move? p d = some next ∧ c.isVisited next = false ∧
      (c.step random).field = open_ c.field p d next ∧
      (c.step random).visited = c.visited.setIfInBounds (c.field.index next) true ∧
      (c.step random).trail = next :: p :: back) ∨
    ((∀ d q, c.field.move? p d = some q → c.isVisited q = true) ∧
      (c.step random).field = c.field ∧ (c.step random).visited = c.visited ∧
      (c.step random).trail = back) := by
  obtain ⟨-, -, ⟨d, next, hway, h⟩ | ⟨hway, h⟩⟩ := step_spec ht random
  · obtain ⟨hm, hn⟩ := way?_eq_some hway
    exact .inl ⟨d, next, hm, hn, h⟩
  · exact .inr ⟨fun d q hq => isVisited_of_way?_eq_none hr hlt hway hq, h⟩

/-- What a step does to field and way back, whatever the random number: it goes back, or it opens the wall
towards a neighbour and goes there. -/
theorem step_field_trail (c : Carving) (random : Int) :
    ((c.step random).field = c.field ∧ (c.step random).trail = c.trail.tail) ∨
    ∃ p back d next, c.trail = p :: back ∧ c.field.move? p d = some next ∧
      (c.step random).field = open_ c.field p d next ∧ (c.step random).trail = next :: p :: back := by
  cases ht : c.trail with
  | nil => exact .inl (by simp [step, ht])
  | cons p back =>
    obtain ⟨-, -, ⟨d, next, hway, hf, -, h⟩ | ⟨-, hf, -, h⟩⟩ := step_spec ht random
    · exact .inr ⟨p, back, d, next, rfl, (way?_eq_some hway).1, hf, h⟩
    · exact .inl ⟨hf, h⟩

/-- What every step keeps a whole walk keeps. -/
theorem walk_keeps {P : Carving → Prop} {random : Nat → Int}
    (hstep : ∀ c n, c.trail ≠ [] → P c → P (c.step (random n))) (steps : Nat) :
    ∀ {c : Carving} (done : Nat), P c → P (c.walk random steps done) := by
  induction steps with
  | zero => exact fun _ h => h
  | succ steps ih =>
    intro c done h
    rw [Carving.walk]
    split
    · exact h
    · next ht => exact ih (done + 1) (hstep c done (by simpa using ht) h)

/-- What solid walls have and opening a wall keeps, the field has after a walk. The way back stays on the field, if the
field has cells. -/
theorem walk_field {P : Field → Prop} (hp : ∀ q, f.inside q = true → f.inside p = true) (hstart : P (f.fillWalls 0xFF))
    (hopen : ∀ {g : Field} {p next d}, P g → g.inside p = true → g.move? p d = some next → P (open_ g p d next))
    (random : Nat → Int) (steps : Nat) :
    let g := (walk random (start f p) steps 0).field
    P g ∧ g.width = f.width ∧ g.height = f.height := by
  refine And.left (walk_keeps (P := fun c => (P c.field ∧ c.field.width = f.width ∧ c.field.height = f.height) ∧
    ∀ r ∈ c.trail, ∀ q, f.inside q = true → f.inside r = true) ?_ steps 0 ⟨⟨hstart, rfl, rfl⟩, fun r hr => ?_⟩)
  · rintro c n - ⟨⟨hfield, hw, hh⟩, htrail⟩
    rcases c.step_field_trail (random n) with ⟨hf, ht⟩ | ⟨p, back, d, next, ht, hm, hf, ht'⟩
    · rw [hf, ht]
      exact ⟨⟨hfield, hw, hh⟩, fun r hr => htrail r (mem_of_mem_tail hr)⟩
    · have hsize := Field.inside_congr hw hh
      have hnext : f.inside next = true := (hsize next).symm.trans (Field.move?_eq_some_iff.1 hm).2
      rw [hf, ht', Field.width_open, Field.height_open, ← ht]
      exact ⟨⟨hopen hfield ((hsize p).trans (htrail p (ht ▸ mem_cons_self) next hnext)) hm, hw, hh⟩,
        forall_mem_cons.2 ⟨fun _ _ => hnext, htrail⟩⟩
  · rwa [mem_singleton.1 hr]

/-! ### The tree that a walk carves -/

/-- What holds between two steps of a walk that began at a cell. -/
structure Sound (origin : Position) (c : Carving) : Prop where
  /-- There is a mark for every cell. -/
  size : c.visited.size = c.field.width * c.field.height
  /-- The walk began on the field. -/
  origin_mem : origin ∈ c.cells
  /-- Every clear side faces a clear side of a cell of the field. -/
  faces : ∀ {p d}, c.field.Clear p d → ∃ q, c.field.move? p d = some q ∧ c.field.Clear q d.reverse
  /-- Passages join visited cells only. -/
  mem_of_adj : ∀ {p q}, c.field.passages.Adj p q → p ∈ c.cells
  acyclic : c.field.passages.IsAcyclic
  reachable : ∀ {p}, p ∈ c.cells → c.field.passages.Reachable origin p
  edges_finite : c.field.passages.edgeSet.Finite
  count : c.field.passages.edgeSet.ncard + 1 = c.cells.ncard
  trail_mem : ∀ {p}, p ∈ c.trail → p ∈ c.cells
  /-- A cell leaves the way back only when all its neighbours are visited. -/
  closed : ∀ {p}, p ∈ c.cells → p ∉ c.trail → ∀ {d q}, c.field.move? p d = some q → q ∈ c.cells

/-- A step forward visits one more cell. -/
theorem cells_forward
    (hsize : c.visited.size = c.field.width * c.field.height) (hm : c.field.move? p d = some next)
    (hf : c'.field = open_ c.field p d next)
    (hv : c'.visited = c.visited.setIfInBounds (c.field.index next) true) :
    c'.cells = insert next c.cells := by
  have hnext : c.field.inside next = true := (Field.move?_eq_some_iff.1 hm).2
  have hlt : c.field.index next < c.visited.size := hsize ▸ Field.index_lt hnext
  have hindex : ∀ q, c'.field.index q = c.field.index q := by
    intro q
    rw [hf, Field.index, Field.index, Field.width_open]
  ext q
  rw [Set.mem_insert_iff, mem_cells, mem_cells, hf, Field.inside_open]
  simp only [isVisited, hindex, hv, Array.getD_eq_getD_getElem?]
  by_cases hq : q = next
  · subst hq
    simp [hnext, hlt]
  · constructor
    · rintro ⟨hi, hs⟩
      have hne : c.field.index next ≠ c.field.index q :=
        fun he => hq (Field.index_injective hi hnext he.symm)
      rw [Array.getElem?_setIfInBounds_ne hne] at hs
      exact .inr ⟨hi, hs⟩
    · rintro (he | ⟨hi, hs⟩)
      · exact absurd he hq
      · have hne : c.field.index next ≠ c.field.index q :=
          fun he => hq (Field.index_injective hi hnext he.symm)
        rw [Array.getElem?_setIfInBounds_ne hne]
        exact ⟨hi, hs⟩

theorem cells_congr (hf : c'.field = c.field) (hv : c'.visited = c.visited) : c'.cells = c.cells := by
  ext q
  rw [mem_cells, mem_cells, isVisited, isVisited, hf, hv]

/-- A cell that was not visited is not reached by passages. -/
theorem Sound.not_reachable (h : Sound origin c)
    (hne : p ≠ next) (hn : next ∉ c.cells) : ¬c.field.passages.Reachable p next := by
  intro hr
  obtain ⟨w⟩ := hr.symm
  cases w with
  | nil => exact hne rfl
  | cons hadj _ => exact hn (h.mem_of_adj hadj)

/-- A step forward keeps the tree: it adds one cell and the passage to it. -/
theorem Sound.forward
    (h : Sound origin c) (ht : c.trail = p :: back)
    (hm : c.field.move? p d = some next) (hn : c.isVisited next = false)
    (hf : c'.field = open_ c.field p d next)
    (hv : c'.visited = c.visited.setIfInBounds (c.field.index next) true)
    (ht' : c'.trail = next :: p :: back) : Sound origin c' := by
  have hpc : p ∈ c.cells := h.trail_mem (ht ▸ mem_cons_self)
  have hp : c.field.inside p = true := hpc.1
  have hnc : next ∉ c.cells := fun hc => Bool.false_ne_true (hn.symm.trans hc.2)
  have hne : p ≠ next := fun he => hnc (he ▸ hpc)
  have hcells : c'.cells = insert next c.cells := cells_forward h.size hm hf hv
  have hgraph : c'.field.passages = c.field.passages ⊔ edge p next := hf ▸ Field.passages_open hp hm
  have hedges : c'.field.passages.edgeSet = insert s(p, next) c.field.passages.edgeSet := by
    rw [hgraph, edgeSet_sup, edgeSet_edge_of_ne hne, Set.union_singleton]
  have hreach : c'.field.passages.Reachable p next := by
    refine Adj.reachable ?_
    rw [hgraph, sup_adj, edge_adj]
    exact .inr ⟨.inl ⟨rfl, rfl⟩, hne⟩
  have hmono : ∀ {q}, c.field.passages.Reachable origin q → c'.field.passages.Reachable origin q :=
    fun hq => hq.mono (hgraph ▸ le_sup_left)
  refine ⟨?_, ?_, ?_, ?_, ?_, ?_, ?_, ?_, ?_, ?_⟩
  · rw [hv, hf, Array.size_setIfInBounds, h.size, Field.width_open, Field.height_open]
  · rw [hcells]
    exact .inr h.origin_mem
  · intro q e hq
    rw [hf] at hq ⊢
    simp only [Field.clear_open_iff hp hm, Field.move?_open] at hq ⊢
    rcases hq with ⟨rfl, rfl⟩ | ⟨rfl, rfl⟩ | hq
    · exact ⟨next, hm, .inr (.inl ⟨rfl, rfl⟩)⟩
    · exact ⟨p, Field.move?_reverse hp hm, .inl ⟨rfl, (Direction.reverse_reverse d).symm⟩⟩
    · obtain ⟨r, hr, hrc⟩ := h.faces hq
      exact ⟨r, hr, .inr (.inr hrc)⟩
  · intro a b hab
    rw [hgraph, sup_adj, edge_adj] at hab
    rw [hcells]
    rcases hab with hab | ⟨⟨rfl, _⟩ | ⟨rfl, _⟩, _⟩
    · exact .inr (h.mem_of_adj hab)
    · exact .inr hpc
    · exact .inl rfl
  · rw [hgraph]
    exact h.acyclic.sup_edge_of_not_reachable (h.not_reachable hne hnc)
  · intro q hq
    rw [hcells] at hq
    rcases hq with rfl | hq
    · exact (hmono (h.reachable hpc)).trans hreach
    · exact hmono (h.reachable hq)
  · rw [hedges]
    exact h.edges_finite.insert _
  · have hnew : s(p, next) ∉ c.field.passages.edgeSet :=
      fun hadj => hnc (h.mem_of_adj (Adj.symm hadj))
    rw [hedges, hcells, Set.ncard_insert_of_notMem hnew h.edges_finite,
      Set.ncard_insert_of_notMem hnc c.cells_finite, h.count]
  · intro q hq
    rw [ht', mem_cons, ← ht] at hq
    rw [hcells]
    exact hq.imp id h.trail_mem
  · intro q hq hqt e r hr
    rw [hcells] at hq ⊢
    rw [ht', mem_cons, ← ht, not_or] at hqt
    rw [hf, Field.move?_open] at hr
    exact .inr (h.closed (hq.resolve_left hqt.1) hqt.2 hr)

/-- A step back keeps the tree: the cell that it leaves has no neighbour left to visit. -/
theorem Sound.backward
    (h : Sound origin c) (ht : c.trail = p :: back)
    (hn : ∀ d q, c.field.move? p d = some q → c.isVisited q = true)
    (hf : c'.field = c.field) (hv : c'.visited = c.visited) (ht' : c'.trail = back) :
    Sound origin c' := by
  have hcells := cells_congr hf hv
  refine ⟨hv ▸ hf ▸ h.size, hcells ▸ h.origin_mem, hf ▸ h.faces, hf ▸ hcells ▸ h.mem_of_adj,
    hf ▸ h.acyclic, hf ▸ hcells ▸ h.reachable, hf ▸ h.edges_finite, hf ▸ hcells ▸ h.count, ?_, ?_⟩
  · intro q hq
    rw [hcells]
    exact h.trail_mem (ht ▸ mem_cons_of_mem p (ht' ▸ hq))
  · intro q hq hqt d r hr
    rw [hcells] at hq ⊢
    rw [hf] at hr
    by_cases hqp : q = p
    · exact ⟨(Field.move?_eq_some_iff.1 hr).2, hn d r (hqp ▸ hr)⟩
    · refine h.closed hq ?_ hr
      rw [ht, mem_cons, not_or]
      exact ⟨hqp, ht' ▸ hqt⟩

/-- How many steps are left at most: two for each cell not visited yet, and one for each on the way back. -/
noncomputable def remaining (c : Carving) : Nat :=
  2 * (c.field.width * c.field.height - c.cells.ncard) + c.trail.length

/-- Every step keeps the tree and comes nearer to the end. -/
theorem Sound.step (h : Sound origin c)
    (hr : 0 ≤ random) (hlt : random < 2 ^ 31) (ht : c.trail ≠ []) :
    Sound origin (c.step random) ∧ (c.step random).remaining < c.remaining ∧
      (c.step random).field.width = c.field.width ∧ (c.step random).field.height = c.field.height := by
  obtain ⟨p, back, ht⟩ := exists_cons_of_ne_nil ht
  rcases step_cases hr hlt ht with ⟨d, next, hm, hn, hf, hv, ht'⟩ | ⟨hn, hf, hv, ht'⟩
  · have hcells := cells_forward h.size hm hf hv
    have hnc : next ∉ c.cells := fun hc => Bool.false_ne_true (hn.symm.trans hc.2)
    have hcount : (c.step random).cells.ncard = c.cells.ncard + 1 := by
      rw [hcells, Set.ncard_insert_of_notMem hnc c.cells_finite]
    have hle := (c.step random).ncard_cells_le
    refine ⟨h.forward ht hm hn hf hv ht', ?_, by rw [hf, Field.width_open],
      by rw [hf, Field.height_open]⟩
    simp only [remaining, hcount, hf, Field.width_open, Field.height_open, ht, ht', length_cons]
      at hle ⊢
    omega
  · have hcells := cells_congr hf hv
    refine ⟨h.backward ht hn hf hv ht', ?_, by rw [hf], by rw [hf]⟩
    simp only [remaining, hcells, hf, ht, ht', length_cons]
    omega

/-- A whole walk keeps the tree, and ends if it may make as many steps as are left. -/
theorem Sound.walk {random : Nat → Int}
    (hr : ∀ n, 0 ≤ random n ∧ random n < 2 ^ 31) (steps : Nat) :
    ∀ {c : Carving} (done : Nat), Sound origin c → c.remaining ≤ steps →
      Sound origin (c.walk random steps done) ∧ (c.walk random steps done).trail = [] ∧
        (c.walk random steps done).field.width = c.field.width ∧
        (c.walk random steps done).field.height = c.field.height := by
  induction steps with
  | zero =>
    intro c done h hle
    refine ⟨h, eq_nil_of_length_eq_zero ?_, rfl, rfl⟩
    unfold remaining at hle
    exact (Nat.le_zero.1 ((Nat.le_add_left _ _).trans hle))
  | succ steps ih =>
    intro c done h hle
    rw [Carving.walk]
    by_cases ht : c.trail = []
    · simp only [ht, isEmpty_nil, if_true]
      exact ⟨h, trivial, trivial, trivial⟩
    · obtain ⟨hs, hlt, hw, hh⟩ := h.step (hr done).1 (hr done).2 ht
      have hne : c.trail.isEmpty = false := by simpa using ht
      rw [hne, if_neg Bool.false_ne_true]
      obtain ⟨hsound, hend, hw', hh'⟩ := ih (done + 1) hs (by omega)
      exact ⟨hsound, hend, hw'.trans hw, hh'.trans hh⟩

/-- Between solid walls there are no passages. -/
theorem passages_start (f : Field) (p : Position) : (start f p).field.passages = ⊥ := by
  ext a b
  simp only [bot_adj, iff_false]
  rintro ⟨_, d, _, ha, _⟩
  exact f.not_clear_fillWalls_solid a d ha

/-- At the start one cell is visited. -/
theorem cells_start (hp : f.inside p = true) : (start f p).cells = {p} := by
  have hlt := Field.index_lt hp
  ext q
  change f.inside q = true ∧ ((Array.replicate (f.width * f.height) false).setIfInBounds (f.index p)
    true).getD (f.index q) false = true ↔ q = p
  rw [Array.getD_eq_getD_getElem?]
  constructor
  · rintro ⟨hq, hv⟩
    by_contra hne
    have hi : f.index p ≠ f.index q := fun he => hne (Field.index_injective hq hp he.symm)
    rw [Array.getElem?_setIfInBounds_ne hi] at hv
    simp [Field.index_lt hq] at hv
  · rintro rfl
    refine ⟨hp, ?_⟩
    simp [hlt]

/-- The start is a tree with a single cell. -/
theorem sound_start (hp : f.inside p = true) : Sound p (start f p) := by
  have hcells := cells_start hp
  have hgraph := passages_start f p
  refine ⟨?_, ?_, ?_, ?_, ?_, ?_, ?_, ?_, ?_, ?_⟩
  · exact (Array.size_setIfInBounds ..).trans (Array.size_replicate ..)
  · rw [hcells]
    rfl
  · intro q d hq
    exact absurd hq (f.not_clear_fillWalls_solid q d)
  · intro a b hab
    rw [hgraph] at hab
    exact hab.elim
  · rw [hgraph]
    exact isAcyclic_bot
  · intro q hq
    rw [hcells] at hq
    rw [hq]
  · rw [hgraph, edgeSet_bot]
    exact Set.finite_empty
  · rw [hgraph, hcells, edgeSet_bot, Set.ncard_empty, Set.ncard_singleton]
  · intro q hq
    rw [hcells]
    exact mem_singleton.1 hq
  · intro q hq hqt
    rw [hcells] at hq
    exact absurd (mem_singleton.2 hq) hqt

theorem remaining_start_le (hp : f.inside p = true) :
    (start f p).remaining ≤ stepBound f := by
  have hlen : (start f p).trail.length = 1 := rfl
  have hsize : (start f p).field.width * (start f p).field.height = f.width * f.height := rfl
  rw [remaining, cells_start hp, Set.ncard_singleton, hlen, hsize, stepBound]
  omega

/-- A walk that has come to its end has visited the whole component of its first cell. -/
theorem Sound.mem_cells_iff (h : Sound origin c)
    (ht : c.trail = []) (p : Position) : p ∈ c.cells ↔ c.field.grid.Reachable origin p := by
  constructor
  · intro hp
    exact (h.reachable hp).mono c.field.passages_le_grid
  · rintro ⟨w⟩
    have hclosed : ∀ {a b}, c.field.grid.Walk a b → a ∈ c.cells → b ∈ c.cells := by
      intro a b w
      induction w with
      | nil => exact id
      | cons hadj _ ih =>
        intro ha
        obtain ⟨_, d, hd⟩ := hadj
        exact ih (h.closed ha (ht ▸ not_mem_nil) hd)
    exact hclosed w h.origin_mem

end Carving

/-- Content of the cells is no matter for the walls. -/
theorem Field.clear_setCell (f : Field) (p q : Position) (cell : Char) (d : Direction) :
    (f.setCell p cell).Clear q d ↔ f.Clear q d := by
  unfold setCell
  split <;> rfl

theorem Field.passages_setCell (f : Field) (p : Position) (cell : Char) :
    (f.setCell p cell).passages = f.passages := by
  unfold setCell
  split <;> rfl

theorem Field.move?_setCell (f : Field) (p : Position) (cell : Char) (q : Position) (d : Direction) :
    (f.setCell p cell).move? q d = f.move? q d := by
  unfold setCell
  split <;> rfl

/-- Making a maze comes to an end and leaves a spanning tree of the component of the player's cell, whatever
numbers from zero to the greatest signed word of 32 bits the generator yields. -/
theorem makeMaze_spanningTree (g : Game) (random : Nat → Int) (hp : g.field.inside g.player = true)
    (hr : ∀ n, 0 ≤ random n ∧ random n < 2 ^ 31) :
    let maze := (g.makeMaze random).field
    let component := g.field.grid.connectedComponentMk g.player
    (Carving.walk random (Carving.start g.field g.player) (Carving.stepBound g.field) 0).trail = [] ∧
    (∀ p ∈ component.supp, maze.passages.Reachable g.player p) ∧
    (∀ p q, maze.passages.Adj p q → p ∈ component.supp) ∧
    maze.passages.edgeSet.ncard + 1 = component.supp.ncard ∧
    (maze.passages.connectedComponentMk g.player).toSimpleGraph.IsTree ∧
    ∀ p d, maze.Clear p d → ∃ q, maze.move? p d = some q ∧ maze.Clear q d.reverse := by
  intro maze component
  obtain ⟨hs, hend, hw, hh⟩ :=
    (Carving.sound_start hp).walk hr (Carving.stepBound g.field) 0 (Carving.remaining_start_le hp)
  generalize hc : Carving.walk random (Carving.start g.field g.player) (Carving.stepBound g.field) 0 = c
    at hs hend hw hh ⊢
  have hmaze : maze = c.field.setCell c.farthest Cell.finish := by
    rw [← hc]
    rfl
  have hgraph : maze.passages = c.field.passages := hmaze ▸ Field.passages_setCell ..
  have hgrid : c.field.grid = g.field.grid := Field.grid_congr hw hh
  have hcells : component.supp = c.cells := by
    ext p
    rw [ConnectedComponent.mem_supp_iff, ConnectedComponent.eq, reachable_comm, ← hgrid]
    exact (hs.mem_cells_iff hend p).symm
  refine ⟨hend, ?_, ?_, ?_, ?_, ?_⟩
  · intro p hp
    rw [hcells] at hp
    rw [hgraph]
    exact hs.reachable hp
  · intro p q hpq
    rw [hgraph] at hpq
    rw [hcells]
    exact hs.mem_of_adj hpq
  · rw [hgraph, hcells]
    exact hs.count
  · rw [hgraph]
    exact hs.acyclic.isTree_connectedComponent _
  · intro p d hpd
    rw [hmaze] at hpd ⊢
    simp only [Field.clear_setCell, Field.move?_setCell] at hpd ⊢
    exact hs.faces hpd

/-- A maze of three by five cells around the cell in the middle. -/
theorem makeMaze_spanningTree_middle :
    let g : Game := { field := Field.ofSize 3 5, player := ⟨1, 2⟩ }
    let random : Nat → Int := fun n => (7 * n + 3) % 11
    g.field.inside g.player = true ∧ (∀ n, 0 ≤ random n ∧ random n < 2 ^ 31) ∧
      (g.makeMaze random).field.passages.edgeSet.ncard + 1 =
        (g.field.grid.connectedComponentMk g.player).supp.ncard := by
  intro g random
  have hp : g.field.inside g.player = true := by decide
  have hr : ∀ n, 0 ≤ random n ∧ random n < 2 ^ 31 := by
    intro n
    simp only [random]
    omega
  exact ⟨hp, hr, (makeMaze_spanningTree g random hp hr).2.2.2.1⟩

end Labyrinth.Maze
