import Mathlib.Combinatorics.SimpleGraph.Metric
import Labyrinth.Proofs.Maze.SpanningTree

/-!
# The finish is farthest away

The way back of the walk that carves a maze is the path of passages from the cell reached last to the first
cell. Passages are only added, and a path between two cells of a tree is the only one, so the length of the way
back when a cell is reached stays its distance from the first cell. The walk notes the greatest of them.
-/

namespace Labyrinth.Maze

open SimpleGraph

namespace Carving

variable {p next origin : Position} {c c' : Carving} {random : Int} {d : Direction} {back : List Position}

/-- What a walk keeps about the ways back to the cell where it began. -/
structure Measures (origin : Position) (c : Carving) : Prop where
  /-- The way back is a path of passages. -/
  trail : ∀ {p back}, c.trail = p :: back → ∃ w : c.field.passages.Walk p origin, w.IsPath ∧ w.support = c.trail
  /-- The path from a visited cell was noted, unless the cell has just been reached. -/
  noted : ∀ {p}, p ∈ c.cells →
    ∃ w : c.field.passages.Walk p origin, w.IsPath ∧ (w.length < c.longest ∨ w.support = c.trail)
  /-- The longest way that was noted is the path from the cell that was noted with it. -/
  farthest : ∀ {n}, c.longest = n + 1 →
    ∃ w : c.field.passages.Walk c.farthest origin, w.IsPath ∧ w.length = n

/-- There is a mark for every cell, and the cells on the way back are marked. -/
structure Marked (c : Carving) : Prop where
  size : c.visited.size = c.field.width * c.field.height
  trail_mem : ∀ {p}, p ∈ c.trail → p ∈ c.cells

/-- A step marks the cell that it puts on the way back. -/
theorem Marked.step (h : Marked c) (random : Int) : Marked (c.step random) := by
  cases ht : c.trail with
  | nil => simpa only [Carving.step, ht] using h
  | cons p back =>
    obtain ⟨-, -, ⟨d, next, hway, hf, hv, ht'⟩ | ⟨-, hf, hv, ht'⟩⟩ := step_spec ht random
    · have hcells := cells_forward h.size (way?_eq_some hway).1 hf hv
      refine ⟨by simp [hv, hf, h.size], fun hq => ?_⟩
      rw [ht', List.mem_cons, ← ht] at hq
      rw [hcells]
      exact hq.imp id h.trail_mem
    · refine ⟨by rw [hv, hf, h.size], fun hq => ?_⟩
      rw [mem_cells, isVisited, hf, hv]
      exact h.trail_mem (ht ▸ List.mem_cons_of_mem p (ht' ▸ hq))

theorem measures_start {f : Field} (hp : f.inside p = true) : Measures p (start f p) where
  trail h := by
    obtain ⟨rfl, rfl⟩ := List.cons.inj h
    exact ⟨.nil, .nil, rfl⟩
  noted hq := by
    rw [cells_start hp] at hq
    obtain rfl := hq
    exact ⟨.nil, .nil, .inr rfl⟩
  farthest h := nomatch h

/-- Before a step every path from a visited cell gets noted, and the longest of them with its cell. -/
theorem Measures.note (h : Measures origin c) (ht : c.trail = p :: back) :
    (∀ {q}, q ∈ c.cells → ∃ w : c.field.passages.Walk q origin, w.IsPath ∧ w.length < max c.longest c.trail.length) ∧
    ∀ {n}, max c.longest c.trail.length = n + 1 →
      ∃ w : c.field.passages.Walk (if c.longest < c.trail.length then p else c.farthest) origin,
        w.IsPath ∧ w.length = n := by
  constructor
  · intro q hq
    obtain ⟨w, hw, hlt | hs⟩ := h.noted hq
    · exact ⟨w, hw, lt_max_of_lt_left hlt⟩
    · have hlen := w.length_support
      rw [hs] at hlen
      exact ⟨w, hw, lt_max_of_lt_right (by omega)⟩
  · intro n hn
    by_cases hlt : c.longest < c.trail.length
    · obtain ⟨w, hw, hs⟩ := h.trail ht
      have hlen := w.length_support
      rw [hs] at hlen
      rw [if_pos hlt]
      exact ⟨w, hw, by omega⟩
    · rw [if_neg hlt]
      exact h.farthest (by omega)

/-- A step notes the way back. If it goes on, the new cell is put in front of it; if it goes back, the way back is
the rest of the path. -/
theorem Measures.step (h : Measures origin c) (hs : Marked c) (ht : c.trail ≠ []) :
    Measures origin (c.step random) := by
  obtain ⟨p, back, ht⟩ := List.exists_cons_of_ne_nil ht
  obtain ⟨hnoted, hfar⟩ := h.note ht
  obtain ⟨w, hw, hsupport⟩ := h.trail ht
  obtain ⟨hlongest, hfarthest, ⟨d, next, hway, hf, hv, ht'⟩ | ⟨-, hf, hv, ht'⟩⟩ := step_spec ht random
  · obtain ⟨hm, hnew⟩ := way?_eq_some hway
    have hp : c.field.inside p = true := (hs.trail_mem (ht ▸ List.mem_cons_self)).1
    have hne : next ≠ p := (Field.move?_eq_some_iff.1 hm).1 ▸ Field.neighbour_ne p d
    have hgraph : (c.step random).field.passages = c.field.passages ⊔ edge p next := hf ▸ Field.passages_open hp hm
    have hle : c.field.passages ≤ (c.step random).field.passages := hgraph ▸ le_sup_left
    have hadj : (c.step random).field.passages.Adj next p := by
      rw [hgraph, sup_adj, edge_adj]
      exact .inr ⟨.inr ⟨rfl, rfl⟩, hne⟩
    -- The new cell was not visited, so the way back does not lead through it.
    have hpath : (Walk.cons hadj (w.mapLe hle)).IsPath := by
      refine Walk.IsPath.cons (hw.mapLe hle) ?_
      rw [Walk.support_mapLe_eq_support, hsupport]
      exact fun hmem => Bool.false_ne_true (hnew.symm.trans (hs.trail_mem hmem).2)
    have hnext : (Walk.cons hadj (w.mapLe hle)).support = (c.step random).trail := by
      rw [Walk.support_cons, Walk.support_mapLe_eq_support, hsupport, ht, ht']
    refine ⟨fun h' => ?_, fun hq => ?_, fun hn => ?_⟩
    · rw [ht'] at h'
      obtain ⟨rfl, -⟩ := List.cons.inj h'
      exact ⟨_, hpath, hnext⟩
    · rw [cells_forward hs.size hm hf hv] at hq
      rcases hq with rfl | hq
      · exact ⟨_, hpath, .inr hnext⟩
      · obtain ⟨v, hv, hlt⟩ := hnoted hq
        exact ⟨v.mapLe hle, hv.mapLe hle, .inl (by rwa [Walk.length_map, hlongest])⟩
    · obtain ⟨v, hv, hlen⟩ := hfar (hlongest ▸ hn)
      rw [hfarthest]
      exact ⟨v.mapLe hle, hv.mapLe hle, by rwa [Walk.length_map]⟩
  · have hcells := cells_congr hf hv
    refine ⟨fun h' => ?_, fun hq => ?_, fun hn => ?_⟩
    · rw [ht'] at h' ⊢
      rw [hf]
      rw [ht, h'] at hsupport
      cases w with
      | nil => simp at hsupport
      | cons hadj w =>
        rw [Walk.support_cons, List.cons.injEq] at hsupport
        have hhead := w.head_support
        simp only [hsupport.2, List.head_cons] at hhead
        subst hhead
        exact ⟨w, hw.of_cons, hsupport.2.trans h'.symm⟩
    · rw [hcells] at hq
      rw [hf, hlongest]
      obtain ⟨v, hv, hlt⟩ := hnoted hq
      exact ⟨v, hv, .inl hlt⟩
    · rw [hf, hfarthest]
      exact hfar (hlongest ▸ hn)

/-- A walk keeps what its steps keep. -/
theorem walk_measures {f : Field} (hp : f.inside p = true) (random : Nat → Int) (steps : Nat) :
    let c := walk random (start f p) steps 0
    Marked c ∧ Measures p c := by
  have hstart : Marked (start f p) := ⟨(sound_start hp).size, (sound_start hp).trail_mem⟩
  exact walk_keeps (P := fun c => Marked c ∧ Measures p c) (fun _ _ ht h => ⟨h.1.step _, h.2.step h.1 ht⟩) steps 0
    ⟨hstart, measures_start hp⟩

/-- In a tree of passages the length of a path is a distance. -/
theorem Sound.dist_eq_length (h : Sound origin c) (w : c.field.passages.Walk p origin) (hw : w.IsPath) :
    c.field.passages.dist origin p = w.length := by
  obtain ⟨v, hv⟩ := (Walk.reachable w).exists_walk_length_eq_dist
  have hunique := (h.acyclic.subsingleton_path p origin).elim ⟨w, hw⟩ ⟨v, v.isPath_of_length_eq_dist hv⟩
  rw [dist_comm, ← hv]
  exact congrArg (fun v : c.field.passages.Path p origin => v.1.length) hunique.symm

end Carving

/-- The finish of a maze can be reached from the player's cell, and no cell that can be reached is farther away, with
any numbers that the generator yields. -/
theorem Game.makeMaze_finish_farthest (g : Game) (random : Nat → Int) (hp : g.field.inside g.player = true)
    (hr : ∀ n, 0 ≤ random n ∧ random n < 2 ^ 31) :
    let maze := g.makeMaze random
    maze.player = g.player ∧ maze.field.passages.Reachable maze.player maze.finish ∧
      ∀ p, maze.field.passages.Reachable maze.player p →
        maze.field.passages.dist maze.player p ≤ maze.field.passages.dist maze.player maze.finish := by
  intro maze
  obtain ⟨hs, hend, -, -⟩ :=
    (Carving.sound_start hp).walk hr (Carving.stepBound g.field) 0 (Carving.remaining_start_le hp)
  obtain ⟨-, hm⟩ := Carving.walk_measures hp random (Carving.stepBound g.field)
  generalize hc : Carving.walk random (Carving.start g.field g.player) (Carving.stepBound g.field) 0 = c
    at hs hend hm
  have hmaze : maze = { g with field := c.field }.setFinish c.farthest := by rw [← hc]; rfl
  have hgraph : maze.field.passages = c.field.passages := hmaze ▸ Field.passages_setCell ..
  have hfinish : maze.finish = c.farthest := hmaze ▸ rfl
  have hplayer : maze.player = g.player := hmaze ▸ rfl
  -- The way back is empty, so the paths from all cells were noted.
  have hnoted : ∀ {p}, p ∈ c.cells →
      ∃ w : c.field.passages.Walk p g.player, w.IsPath ∧ w.length < c.longest := by
    intro p hp
    obtain ⟨w, hw, hlt | hsupport⟩ := hm.noted hp
    · exact ⟨w, hw, hlt⟩
    · exact absurd (hsupport.trans hend) w.support_ne_nil
  obtain ⟨w, -, hlt⟩ := hnoted hs.origin_mem
  obtain ⟨n, hn⟩ := Nat.exists_eq_succ_of_ne_zero (Nat.ne_zero_of_lt hlt)
  obtain ⟨far, hfar, hlen⟩ := hm.farthest hn
  rw [hgraph, hfinish, hplayer]
  refine ⟨rfl, far.reachable.symm, fun p hreach => ?_⟩
  have hp : p ∈ c.cells := (hs.mem_cells_iff hend p).2 (hreach.mono c.field.passages_le_grid)
  obtain ⟨v, hv, hlt⟩ := hnoted hp
  rw [hs.dist_eq_length v hv, hs.dist_eq_length far hfar]
  omega

/-- In the maze of three by five cells around the cell in the middle no cell is farther away than the finish. -/
theorem Game.makeMaze_finish_farthest_middle :
    let g : Game := { field := Field.ofSize 3 5, player := ⟨1, 2⟩ }
    let maze := g.makeMaze fun n => (7 * n + 3) % 11
    g.field.inside g.player = true ∧ ∀ p, maze.field.passages.Reachable maze.player p →
      maze.field.passages.dist maze.player p ≤ maze.field.passages.dist maze.player maze.finish := by
  intro g maze
  have hp : g.field.inside g.player = true := by decide
  refine ⟨hp, (g.makeMaze_finish_farthest _ hp fun n => ?_).2.2⟩
  omega

end Labyrinth.Maze
