import Labyrinth.Proofs.Maze.Distance

/-!
# The way back is a simple path

Each step of the walk that carves a maze takes the cell reached last off the way back, and puts it there again together
with the next cell if it finds one. So cells come onto the way back many times, but those that are there at one time
are the cells of a path, and they are not more than the cells of the field.
-/

namespace Labyrinth.Maze.Carving

open SimpleGraph

variable {c : Carving} {origin p : Position}

/-- The ways back that one step goes through: the last cell is taken off, and if a way on is found, this cell and the
next one are put on. -/
def stages (c : Carving) (random : Int) : List (List Position) :=
  match c.trail with
  | [] => []
  | p :: back =>
    match c.way? p random with
    | some (_, next) => [back, p :: back, next :: p :: back]
    | none => [back]

/-- The last of them is the way back after the step. -/
theorem getLast?_stages (ht : c.trail ≠ []) (random : Int) :
    (c.stages random).getLast? = some (c.step random).trail := by
  obtain ⟨p, back, ht⟩ := List.exists_cons_of_ne_nil ht
  obtain ⟨-, -, ⟨d, next, hway, -, -, ht'⟩ | ⟨hway, -, -, ht'⟩⟩ := step_spec ht random
  · simp [stages, ht, hway, ht']
  · simp [stages, ht, hway, ht']

/-- No way back that a step goes through is longer than the way back before the step and the one after it. -/
theorem length_le_of_mem_stages {random : Int} {trail : List Position} (h : trail ∈ c.stages random) :
    trail.length ≤ max c.trail.length (c.step random).trail.length := by
  cases ht : c.trail with
  | nil => simp [stages, ht] at h
  | cons p back =>
    obtain ⟨-, -, ⟨d, next, hway, -, -, ht'⟩ | ⟨hway, -, -, ht'⟩⟩ := step_spec ht random
    · simp only [stages, ht, hway, List.mem_cons, List.not_mem_nil, or_false] at h
      rcases h with rfl | rfl | rfl <;> simp only [ht', List.length_cons] <;> omega
    · simp only [stages, ht, hway, List.mem_singleton] at h
      simp [h]

/-- What the way back is between two steps: different visited cells of the field, each joined to the next one by a
passage, down to the cell where the walk began. -/
structure IsSimplePath (origin : Position) (c : Carving) : Prop where
  nodup : c.trail.Nodup
  visited : ∀ p ∈ c.trail, c.field.inside p = true ∧ c.isVisited p = true
  joined : c.trail.IsChain c.field.passages.Adj
  bottom : ∀ p ∈ c.trail.getLast?, p = origin

theorem Measures.isSimplePath (h : Measures origin c) (hm : Marked c) : IsSimplePath origin c := by
  cases ht : c.trail with
  | nil => exact ⟨by simp [ht], by simp [ht], by simp [ht], by simp [ht]⟩
  | cons p back =>
    obtain ⟨w, hw, hsupport⟩ := h.trail ht
    refine ⟨hsupport ▸ hw.support_nodup, fun q hq => hm.trail_mem hq, hsupport ▸ w.isChain_adj_support, ?_⟩
    rw [← hsupport, List.getLast?_eq_some_getLast w.support_ne_nil, w.getLast_support]
    exact fun q hq => (Option.some.inj hq).symm

/-- Different cells of a field are at most as many as the field has cells. -/
theorem IsSimplePath.length_le (h : IsSimplePath origin c) : c.trail.length ≤ c.field.width * c.field.height := by
  obtain ⟨hfinite, hcard⟩ := c.field.ncard_inside_le
  rw [← List.toFinset_card_of_nodup h.nodup, ← Set.ncard_coe_finset]
  refine (Set.ncard_le_ncard (fun p hp => ?_) hfinite).trans hcard
  exact (h.visited p (List.mem_toFinset.1 hp)).1

/-- A step keeps the size of the field. -/
theorem size_step (c : Carving) (random : Int) :
    (c.step random).field.width = c.field.width ∧ (c.step random).field.height = c.field.height := by
  rcases step_field_trail c random with ⟨hf, -⟩ | ⟨p, back, d, next, -, -, hf, -⟩
  · simp [hf]
  · simp [hf]

/-- Whatever numbers the generator yields, before every step of the walk that begins at a cell of the field the way back
is a simple path to this cell, and at no point of the step is it longer than the field has cells. -/
theorem walk_isSimplePath (f : Field) (origin : Position) (horigin : f.inside origin = true) (random : Nat → Int)
    (steps : Nat) :
    let c := walk random (start f origin) steps 0
    IsSimplePath origin c ∧ c.trail.length ≤ f.width * f.height ∧
      ∀ number, (∀ trail ∈ c.stages number, trail.length ≤ f.width * f.height) ∧
        (c.trail ≠ [] → (c.stages number).getLast? = some (c.step number).trail) := by
  intro c
  obtain ⟨hmarked, hmeasures⟩ := walk_measures horigin random steps
  obtain ⟨-, hwidth, hheight⟩ := walk_field (P := fun _ => True) (fun _ _ => horigin) trivial (fun _ _ _ => trivial)
    random steps
  have hpath := hmeasures.isSimplePath hmarked
  have hlength : c.trail.length ≤ f.width * f.height := hwidth ▸ hheight ▸ hpath.length_le
  refine ⟨hpath, hlength, fun number => ⟨fun trail htrail => ?_, fun hne => getLast?_stages hne number⟩⟩
  have hne : c.trail ≠ [] := by
    intro hnil
    simp [stages, hnil] at htrail
  -- The way back is longest before the step or after it, and there it is a simple path.
  have hnext := ((hmeasures.step hmarked hne).isSimplePath (hmarked.step number)).length_le
  rw [(size_step c number).1, (size_step c number).2, hwidth, hheight] at hnext
  exact (length_le_of_mem_stages htrail).trans (max_le hlength hnext)

/-- In a field of three by five cells the way back is never longer than fifteen cells. -/
theorem walk_isSimplePath_middle :
    let c := walk (fun n => (7 * n + 3) % 11) (start (Field.ofSize 3 5) ⟨1, 2⟩) 6 0
    (Field.ofSize 3 5).inside ⟨1, 2⟩ = true ∧ IsSimplePath ⟨1, 2⟩ c ∧
      ∀ number, ∀ trail ∈ c.stages number, trail.length ≤ 15 := by
  intro c
  have hpath := walk_isSimplePath (Field.ofSize 3 5) ⟨1, 2⟩ rfl (fun n => (7 * n + 3) % 11) 6
  exact ⟨rfl, hpath.1, fun number => (hpath.2.2 number).1⟩

end Labyrinth.Maze.Carving
