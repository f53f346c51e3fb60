import Labyrinth.Proofs.Maze.Distance
import Labyrinth.Proofs.Maze.Sonar

/-!
# Marks of the player and of the finish

The field shows where the player stands and where the finish is, and the game notes both places once more.
The mark of the player is always right: a maze never puts its finish below the player, since the walk leaves
the cell it begins in. The mark of the finish is not: it is wiped away where the player has stood, and a new
maze leaves the old mark on the field. What the field does show is said by `ShowsFinish`.
-/

namespace Labyrinth.Maze

open List

namespace Field

/-- On a field of two rows or more every cell has a neighbour that is not straight above it or above to the
left. -/
theorem exists_neighbour {f : Field} {p : Position} (hh : 2 ≤ f.height) (hp : f.inside p = true) :
    ∃ d : Direction, d.index < 4 ∧ ∃ q, f.move? p d = some q := by
  rw [inside_iff] at hp
  by_cases hy : p.y % 2 = 0
  · by_cases h0 : p.y = 0
    · refine ⟨.upRight, by decide, _, move?_eq_some_iff.2 ⟨rfl, (inside_iff ..).2 ?_⟩⟩
      simp only [neighbour, hy, beq_self_eq_true, if_true]
      omega
    · refine ⟨.down, by decide, _, move?_eq_some_iff.2 ⟨rfl, (inside_iff ..).2 ?_⟩⟩
      simp only [neighbour]
      omega
  · refine ⟨.downLeft, by decide, _, move?_eq_some_iff.2 ⟨rfl, (inside_iff ..).2 ?_⟩⟩
    simp only [neighbour, beq_iff_eq, hy, if_false]
    omega

end Field

namespace Carving

variable {p origin : Position} {c : Carving} {f : Field}

/-- Six numbers in a row have all remainders by six. -/
theorem exists_add_mod_eq (w : Nat) {k : Nat} (hk : k < 6) : ∃ i < 6, (w + i) % 6 = k :=
  ⟨(k + 6 - w % 6) % 6, by omega, by omega⟩

/-- Whatever the random number, also where counting on wraps around, four of the directions are among the six
tries of a step. -/
theorem exists_direction_eq_of_index_lt (random : Int) {d : Direction} (hd : d.index < 4) :
    ∃ i < 6, direction random i = d := by
  obtain ⟨w, hw, hdir⟩ : ∃ w < 2 ^ 64, ∀ i, direction random i = Direction.ofIndex ((w + i) % 2 ^ 64) :=
    ⟨(Int.bmod random (2 ^ 32) % 2 ^ 64).toNat, by omega, fun i => rfl⟩
  suffices h : ∃ i < 6, (w + i) % 2 ^ 64 % 6 = d.index by
    obtain ⟨i, hi, hmod⟩ := h
    exact ⟨i, hi, by rw [hdir, ← Direction.ofIndex_mod, hmod, Direction.ofIndex_index]⟩
  by_cases hwrap : w + 5 < 2 ^ 64
  · obtain ⟨i, hi, hmod⟩ := exists_add_mod_eq w (Nat.lt_trans hd (by decide : 4 < 6))
    have hlt : w + i < 2 ^ 64 := by omega
    exact ⟨i, hi, by rw [Nat.mod_eq_of_lt hlt, hmod]⟩
  · -- The last tries begin anew at zero, and four words short of that counts as zero as well.
    obtain ⟨short, hshort⟩ : ∃ short, w + short = 2 ^ 64 := ⟨2 ^ 64 - w, by omega⟩
    by_cases hpast : d.index + short < 6
    · refine ⟨d.index + short, hpast, ?_⟩
      have hsum : w + (d.index + short) = 2 ^ 64 + d.index := by omega
      rw [hsum]
      omega
    · refine ⟨d.index + short - 4, by omega, ?_⟩
      have hsum : w + (d.index + short - 4) = 2 ^ 64 - 4 + d.index := by omega
      rw [hsum]
      omega

/-- A cell that was noted with a way back of more than one cell lies on the field and is not the first. -/
theorem Measures.farthest_ne (h : Measures origin c) (hlong : 2 ≤ c.longest) :
    c.field.inside c.farthest = true ∧ c.farthest ≠ origin := by
  obtain ⟨n, hn⟩ := Nat.exists_eq_add_of_le' hlong
  obtain ⟨w, hw, hlength⟩ := h.farthest hn
  cases w with
  | nil => cases hlength
  | cons hadj w => exact ⟨hadj.1, fun heq => ((SimpleGraph.Walk.cons_isPath_iff hadj w).1 hw).2 (heq ▸ w.end_mem_support)⟩

/-- The longest way back never gets shorter. -/
theorem longest_le_walk (random : Nat → Int) (steps : Nat) (c : Carving) (done : Nat) :
    c.longest ≤ (c.walk random steps done).longest := by
  refine walk_keeps (P := fun c' => c.longest ≤ c'.longest) (fun c' n ht h => ?_) steps done (Nat.le_refl _)
  obtain ⟨p, back, ht⟩ := exists_cons_of_ne_nil ht
  rw [(step_spec ht _).1]
  exact h.trans (Nat.le_max_left ..)

/-- The first step finds a way, since the cell has a neighbour and only the cell itself was visited. -/
theorem trail_step_start (hh : 2 ≤ f.height) (hp : f.inside p = true)
    (random : Int) : ∃ next, ((start f p).step random).trail = [next, p] := by
  obtain ⟨-, -, ⟨d, next, -, -, -, htrail⟩ | ⟨hnone, -⟩⟩ :=
    step_spec (rfl : (start f p).trail = p :: []) random
  · exact ⟨next, htrail⟩
  · exfalso
    obtain ⟨d, hd, q, hq⟩ := Field.exists_neighbour hh hp
    obtain ⟨i, hi, rfl⟩ := exists_direction_eq_of_index_lt random hd
    have hmove : (start f p).field.move? p (direction random i) = some q := hq
    have hseen : (start f p).isVisited q = true := by
      have htry := findSome?_eq_none_iff.1 hnone i (mem_range.2 hi)
      simp only [hmove] at htry
      split at htry
      · next hv => exact hv
      · cases htry
    obtain ⟨rfl, hin⟩ := Field.move?_eq_some_iff.1 hmove
    have hmem : Field.neighbour p (direction random i) ∈ (start f p).cells := mem_cells.2 ⟨hin, hseen⟩
    rw [cells_start hp] at hmem
    exact Field.neighbour_ne p _ hmem

/-- A walk on a field of two rows or more gets away from where it begins. -/
theorem two_le_longest (hh : 2 ≤ f.height) (hp : f.inside p = true)
    (random : Nat → Int) : 2 ≤ (walk random (start f p) (stepBound f) 0).longest := by
  obtain ⟨next, htrail⟩ := trail_step_start hh hp (random 0)
  have htwo : stepBound f = 2 * (f.width * f.height) + 1 + 1 := rfl
  have hstart : (start f p).trail.isEmpty = false := rfl
  have hfirst : ((start f p).step (random 0)).trail.isEmpty = false := by rw [htrail]; rfl
  rw [htwo, walk, hstart, if_neg Bool.false_ne_true, walk, hfirst, if_neg Bool.false_ne_true]
  calc 2 ≤ max ((start f p).step (random 0)).longest ((start f p).step (random 0)).trail.length := by
        rw [htrail]
        exact Nat.le_max_right ..
    _ = (((start f p).step (random 0)).step (random 1)).longest := (step_spec htrail _).1.symm
    _ ≤ _ := longest_le_walk ..

end Carving

/-! ### Orders -/

/-- What a program can have done: commands of the robot, and a maze made with some random numbers. -/
inductive Order where
  | robot (op : RobotOp)
  | maze (random : Nat → Int)

namespace Game

variable {g : Game} {p : Position} {side : Nat}

/-- The game that every program begins with: an empty field, the player in its corner. -/
def setup (side : Nat) : Game := (ofField (Field.square side)).setPlayer ⟨0, 0⟩

def follow (g : Game) : Order → Game
  | .robot op => (g.obey op).2
  | .maze random => g.makeMaze random

def followAll (g : Game) (orders : List Order) : Game := orders.foldl follow g

@[simp] theorem followAll_append (g : Game) (before after : List Order) :
    g.followAll (before ++ after) = (g.followAll before).followAll after := foldl_append

@[simp] theorem followAll_singleton (g : Game) (order : Order) : g.followAll [order] = g.follow order := rfl

/-- The player stands on the field, heads in one of the six directions, and is shown where it stands and
nowhere else. -/
structure ShowsPlayer (g : Game) : Prop where
  player_inside : g.field.inside g.player = true
  heads : ∃ d : Direction, g.heading = d.bit
  cellAt_iff : ∀ p, g.field.cellAt p Cell.empty = Cell.player ↔ p = g.player

theorem ShowsPlayer.turn (h : g.ShowsPlayer) (f : Direction → Direction) :
    { g with heading := g.heading.turn f }.ShowsPlayer := by
  obtain ⟨d, hd⟩ := h.heads
  exact ⟨h.player_inside, ⟨f d, by rw [hd, Heading.turn_bit]⟩, h.cellAt_iff⟩

/-- Where the player leaves, nothing is left; all else stays as it is. -/
theorem cellAt_setPlayer (hg : g.field.inside g.player = true)
    (hp : g.field.inside p = true) (q : Position) (default : Char) :
    (g.setPlayer p).field.cellAt q default =
      if q = p then Cell.player else if q = g.player then Cell.empty else g.field.cellAt q default := by
  have hp' : (g.field.setCell g.player Cell.empty).inside p = true := by rw [Field.inside_setCell, hp]
  rw [setPlayer, if_pos hp, Field.cellAt_setCell hp', Field.cellAt_setCell hg]

theorem player_setPlayer (hp : g.field.inside p = true) :
    (g.setPlayer p).player = p := by
  rw [setPlayer, if_pos hp]

theorem inside_setPlayer (g : Game) (p q : Position) :
    (g.setPlayer p).field.inside q = g.field.inside q := by
  unfold setPlayer
  split
  · rw [Field.inside_setCell, Field.inside_setCell]
  · rfl

theorem ShowsPlayer.setPlayer (h : g.ShowsPlayer)
    (hp : g.field.inside p = true) : (g.setPlayer p).ShowsPlayer where
  player_inside := by rw [player_setPlayer hp, inside_setPlayer, hp]
  heads := by
    rw [Game.setPlayer, if_pos hp]
    exact h.heads
  cellAt_iff := by
    intro q
    rw [cellAt_setPlayer h.player_inside hp, player_setPlayer hp]
    by_cases hq : q = p
    · simp [hq]
    · by_cases hold : q = g.player
      · simp only [if_pos hold, hq, iff_false]
        decide
      · simp [hq, hold, h.cellAt_iff]

/-- A step leads to a cell of the field. -/
theorem inside_of_stepTarget? (h : g.stepTarget? = some p) : g.field.inside p = true := by
  have hmove := (stepTarget?_eq_some_iff.1 h).1
  unfold Field.moveHeading? at hmove
  split at hmove
  · exact (Field.move?_eq_some_iff.1 hmove).2
  · split at hmove
    · next hin =>
      cases hmove
      exact hin
    · cases hmove

/-! ### What one order does to the marks -/

/-- What a command of the robot does to the marks: the mark of the player follows the player, and where the
player was before, nothing is left. -/
structure Moves (g g' : Game) : Prop where
  inside : ∀ q, g'.field.inside q = g.field.inside q
  finish : g'.finish = g.finish
  shows : g'.ShowsPlayer
  cellAt : ∀ q, g'.field.cellAt q Cell.empty =
    if q = g'.player then Cell.player
    else if q = g.player then Cell.empty
    else g.field.cellAt q Cell.empty

/-- A game in which neither field nor player nor finish has changed. -/
theorem ShowsPlayer.moves_of_eq {g' : Game} (h : g.ShowsPlayer) (h' : g'.ShowsPlayer)
    (hf : g'.field = g.field) (hp : g'.player = g.player) (hfin : g'.finish = g.finish) : Moves g g' where
  inside := fun _ => hf ▸ rfl
  finish := hfin
  shows := h'
  cellAt := by
    intro q
    rw [hf, hp]
    by_cases hq : q = g.player
    · rw [if_pos hq, (h.cellAt_iff q).2 hq]
    · rw [if_neg hq, if_neg hq]

theorem ShowsPlayer.obey (h : g.ShowsPlayer) (op : RobotOp) : Moves g (g.obey op).2 := by
  cases op with
  | move =>
    change Moves g g.step.2
    unfold Game.step
    split
    · next p hp =>
      have hin := inside_of_stepTarget? hp
      refine ⟨inside_setPlayer g p, ?_, h.setPlayer hin, ?_⟩
      · rw [Game.setPlayer, if_pos hin]
      · intro q
        rw [player_setPlayer hin]
        exact cellAt_setPlayer h.player_inside hin q Cell.empty
    · exact h.moves_of_eq h rfl rfl rfl
  | rotateLeft => exact h.moves_of_eq (h.turn Direction.left) rfl rfl rfl
  | rotateRight => exact h.moves_of_eq (h.turn Direction.right) rfl rfl rfl
  | sonar => exact h.moves_of_eq h rfl rfl rfl
  | compass => exact h.moves_of_eq h rfl rfl rfl

/-- What a maze does to the marks: one more cell is marked as the finish, and the player does not stand on
it. -/
structure Finishes (g g' : Game) : Prop where
  inside : ∀ q, g'.field.inside q = g.field.inside q
  player : g'.player = g.player
  shows : g'.ShowsPlayer
  finish_inside : g.field.inside g'.finish = true
  finish_ne : g'.finish ≠ g.player
  cellAt : ∀ q, g'.field.cellAt q Cell.empty =
    if q = g'.finish then Cell.finish else g.field.cellAt q Cell.empty

theorem ShowsPlayer.makeMaze (h : g.ShowsPlayer) (hh : g.field.inside ⟨0, 1⟩ = true)
    (random : Nat → Int) : Finishes g (g.makeMaze random) := by
  have hheight : 2 ≤ g.field.height := by
    have hlt : (1 : Int) < g.field.height := ((Field.inside_iff ..).1 hh).2.2.2
    omega
  obtain ⟨hkept, hw, hh⟩ := Carving.walk_field
    (P := fun f => ∀ q, f.cellAt q Cell.empty = g.field.cellAt q Cell.empty) (fun _ _ => h.player_inside) (fun _ => rfl)
    (fun h _ _ q => by rw [Carving.open_, Field.cellAt_changeWalls, Field.cellAt_changeWalls, h]) random
    (Carving.stepBound g.field)
  obtain ⟨-, hmeasures⟩ := Carving.walk_measures h.player_inside random (Carving.stepBound g.field)
  obtain ⟨hin, hne⟩ := hmeasures.farthest_ne (Carving.two_le_longest hheight h.player_inside random)
  have hsize := Field.inside_congr hw hh
  have hinside : ∀ q, (g.makeMaze random).field.inside q = g.field.inside q :=
    fun q => (Field.inside_setCell ..).trans (hsize q)
  have hcell : ∀ q, (g.makeMaze random).field.cellAt q Cell.empty =
      if q = (g.makeMaze random).finish then Cell.finish else g.field.cellAt q Cell.empty := by
    intro q
    rw [← hkept q]
    exact Field.cellAt_setCell hin q Cell.finish Cell.empty
  refine ⟨hinside, rfl, ⟨(hinside _).trans h.player_inside, h.heads, fun q => ?_⟩, (hsize _).symm.trans hin, hne, hcell⟩
  rw [hcell]
  by_cases hq : q = (g.makeMaze random).finish
  · rw [if_pos hq]
    exact ⟨fun hc => absurd hc (by decide), fun hp => absurd (hq.symm.trans hp) hne⟩
  · rw [if_neg hq]
    exact h.cellAt_iff q

/-! ### The player -/

/-- What every order keeps after the setup on a square field: its size, and the right mark of the player. -/
structure SetUp (side : Nat) (g : Game) : Prop where
  inside : ∀ q, g.field.inside q = (Field.square side).inside q
  shows : g.ShowsPlayer

theorem SetUp.makeMaze (hside : 1 ≤ side) (h : SetUp side g)
    (random : Nat → Int) : Finishes g (g.makeMaze random) := by
  refine h.shows.makeMaze ?_ random
  rw [h.inside, Field.inside_iff]
  change (0 : Int) ≤ 0 ∧ (0 : Int) < (side : Nat) ∧ (0 : Int) ≤ 1 ∧ (1 : Int) < (side * 2 + 1 : Nat)
  omega

theorem SetUp.follow (hside : 1 ≤ side) (h : SetUp side g) (order : Order) :
    SetUp side (g.follow order) := by
  cases order with
  | robot op =>
    have hm := h.shows.obey op
    exact ⟨fun q => (hm.inside q).trans (h.inside q), hm.shows⟩
  | maze random =>
    have hm := h.makeMaze hside random
    exact ⟨fun q => (hm.inside q).trans (h.inside q), hm.shows⟩

theorem SetUp.followAll (hside : 1 ≤ side) (orders : List Order) :
    ∀ {g : Game}, SetUp side g → SetUp side (g.followAll orders) := by
  induction orders with
  | nil => exact fun h => h
  | cons order orders ih => exact fun h => ih (h.follow hside order)

theorem inside_corner (hside : 1 ≤ side) : (Field.square side).inside ⟨0, 0⟩ = true := by
  rw [Field.inside_iff]
  change (0 : Int) ≤ 0 ∧ (0 : Int) < (side : Nat) ∧ (0 : Int) ≤ 0 ∧ (0 : Int) < (side * 2 + 1 : Nat)
  omega

/-- After the setup only the player is on the field. -/
theorem cellAt_setup (hside : 1 ≤ side) (q : Position) :
    (setup side).field.cellAt q Cell.empty =
      if q = (setup side).player then Cell.player else Cell.empty := by
  have hin : (ofField (Field.square side)).field.inside ⟨0, 0⟩ = true := inside_corner hside
  have hplayer : (setup side).player = ⟨0, 0⟩ := player_setPlayer hin
  have hcell := cellAt_setPlayer (g := ofField (Field.square side)) hin hin q Cell.empty
  rw [show (ofField (Field.square side)).field.cellAt q Cell.empty = Cell.empty from Field.cellAt_fillCells ..,
    ite_self] at hcell
  rw [hplayer]
  exact hcell

theorem setUp_setup (hside : 1 ≤ side) : SetUp side (setup side) := by
  have hinside : ∀ q, (setup side).field.inside q = (Field.square side).inside q :=
    fun q => inside_setPlayer (ofField (Field.square side)) ⟨0, 0⟩ q
  have hin : (ofField (Field.square side)).field.inside ⟨0, 0⟩ = true := inside_corner hside
  have hplayer : (setup side).player = ⟨0, 0⟩ := player_setPlayer hin
  refine ⟨hinside, by rw [hinside, hplayer]; exact hin, ⟨.up, ?_⟩, fun q => ?_⟩
  · rw [setup, setPlayer, if_pos hin]
    rfl
  · rw [cellAt_setup hside]
    by_cases hq : q = (setup side).player
    · simp [hq]
    · simp only [hq, iff_false]
      decide

/-- Whatever a program has the robot do, and however many mazes it makes with whatever random numbers, the
player stays on the field and heads in one of the six directions, and of all cells of the field the one
where it stands is the only one that shows it. -/
theorem followAll_shows_player (side : Nat) (hside : 1 ≤ side) (orders : List Order) :
    let g := (setup side).followAll orders
    (∀ q, g.field.inside q = (Field.square side).inside q) ∧
    g.field.inside g.player = true ∧
    (∃ d : Direction, g.heading = d.bit) ∧
    ∀ q, g.field.inside q = true → (g.field.cellAt q Cell.empty = Cell.player ↔ q = g.player) := by
  intro g
  have h : SetUp side g := (setUp_setup hside).followAll hside orders
  exact ⟨h.inside, h.shows.player_inside, h.shows.heads, fun q _ => h.shows.cellAt_iff q⟩

/-- On the smallest field, after a walk to the finish, back, and a second maze. -/
theorem followAll_shows_player_smallest :
    let orders : List Order := [.maze fun _ => 4, .robot .move, .robot .rotateLeft, .robot .rotateLeft,
      .robot .move, .maze fun n => 7 * n + 1, .robot .move]
    let g := (setup 1).followAll orders
    1 ≤ 1 ∧ g.field.inside g.player = true ∧ (∃ d : Direction, g.heading = d.bit) ∧
      g.field.cellAt ⟨0, 1⟩ Cell.empty = Cell.player ∧ g.player = ⟨0, 1⟩ := by
  intro orders g
  obtain ⟨-, hin, hheads, hcell⟩ := followAll_shows_player 1 (Nat.le_refl 1) orders
  have hplayer : g.player = ⟨0, 1⟩ := by decide +kernel
  refine ⟨Nat.le_refl 1, hin, hheads, ?_, hplayer⟩
  rw [← hplayer]
  exact (hcell _ hin).2 rfl

/-! ### The finish -/

/-- Some maze has put its finish at a place, and the player was not there since. -/
def ShowsFinish (g : Game) (orders : List Order) (p : Position) : Prop :=
  ∃ before random after, orders = before ++ .maze random :: after ∧
    (g.followAll (before ++ [.maze random])).finish = p ∧
    ∀ mid, mid <+: after → (g.followAll (before ++ .maze random :: mid)).player ≠ p

theorem not_showsFinish_nil (g : Game) (p : Position) : ¬g.ShowsFinish [] p := by
  rintro ⟨before, random, after, h, -⟩
  simp at h

/-- After one more order a place shows the finish if it is put there or was there before, unless the player
stands there now. -/
theorem showsFinish_concat_iff {orders : List Order} {order : Order} :
    g.ShowsFinish (orders ++ [order]) p ↔
      ((∃ random, order = .maze random ∧ ((g.followAll orders).follow order).finish = p) ∨
        g.ShowsFinish orders p) ∧
      ((g.followAll orders).follow order).player ≠ p := by
  constructor
  · rintro ⟨before, random, after, h, hfin, hmid⟩
    obtain rfl | ⟨after, last, rfl⟩ := eq_nil_or_concat after
    · obtain ⟨rfl, horder⟩ := append_inj' h rfl
      obtain rfl := singleton_inj.1 horder
      have hnow := hmid [] nil_prefix
      simp only [followAll_append, followAll_singleton] at hfin hnow
      exact ⟨.inl ⟨random, rfl, hfin⟩, hnow⟩
    · rw [concat_eq_append] at h hmid
      have hsplit : orders ++ [order] = (before ++ .maze random :: after) ++ [last] := by simp [h]
      obtain ⟨rfl, horder⟩ := append_inj' hsplit rfl
      obtain rfl := singleton_inj.1 horder
      refine ⟨.inr ⟨before, random, after, rfl, hfin, fun mid hm => ?_⟩, ?_⟩
      · exact hmid mid (hm.trans (prefix_append after _))
      · have hnow := hmid (after ++ [order]) (prefix_refl _)
        rwa [← cons_append, ← append_assoc, followAll_append, followAll_singleton] at hnow
  · rintro ⟨⟨random, rfl, hfin⟩ | ⟨before, random, after, rfl, hfin, hmid⟩, hnow⟩
    · refine ⟨orders, random, [], rfl, ?_, fun mid hm => ?_⟩
      · rwa [followAll_append]
      · rw [prefix_nil.1 hm, followAll_append]
        exact hnow
    · refine ⟨before, random, after ++ [order], by simp, hfin, fun mid hm => ?_⟩
      rcases prefix_concat_iff.1 hm with rfl | hm
      · rw [← cons_append, ← append_assoc, followAll_append]
        exact hnow
      · exact hmid mid hm

/-- What the field shows follows from what was done: the player where it stands, the finish wherever a maze
has put it and the player was not since, and nothing elsewhere. -/
theorem cellAt_followAll (hside : 1 ≤ side) (orders : List Order) (p : Position) :
    let g := (setup side).followAll orders
    (p = g.player → g.field.cellAt p Cell.empty = Cell.player) ∧
    ((setup side).ShowsFinish orders p → g.field.cellAt p Cell.empty = Cell.finish) ∧
    (p ≠ g.player → ¬(setup side).ShowsFinish orders p → g.field.cellAt p Cell.empty = Cell.empty) := by
  -- The history grows at its end.
  induction orders using reverseRecOn generalizing p with
  | nil =>
    refine ⟨fun hp => ?_, fun hp => absurd hp (not_showsFinish_nil _ p), fun hp _ => ?_⟩
    · exact (cellAt_setup hside p).trans (if_pos hp)
    · exact (cellAt_setup hside p).trans (if_neg hp)
  | append_singleton orders order ih =>
    have h : SetUp side ((setup side).followAll orders) := (setUp_setup hside).followAll hside orders
    simp only [followAll_append, followAll_singleton, showsFinish_concat_iff]
    generalize hg : (setup side).followAll orders = g at ih h
    obtain ⟨-, hfinish, hempty⟩ := ih p
    cases order with
    | robot op =>
      have hm := h.shows.obey op
      change _ ∧ _ ∧ _
      have hcell : (g.follow (.robot op)).field.cellAt p Cell.empty =
          if p = (g.follow (.robot op)).player then Cell.player
          else if p = g.player then Cell.empty else g.field.cellAt p Cell.empty := hm.cellAt p
      rw [hcell]
      refine ⟨fun hp => if_pos hp, ?_, ?_⟩
      · rintro ⟨⟨random, hr, -⟩ | hp, hnow⟩
        · cases hr
        · have hold : p ≠ g.player := by
            rintro rfl
            have := hfinish hp
            rw [(h.shows.cellAt_iff _).2 rfl] at this
            exact absurd this (by decide)
          rw [if_neg (Ne.symm hnow), if_neg hold, hfinish hp]
      · intro hnow hp
        rw [if_neg hnow]
        split
        · rfl
        · next hold => exact hempty hold fun hs => hp ⟨.inr hs, Ne.symm hnow⟩
    | maze random =>
      have hm := h.makeMaze hside random
      have hcell : (g.follow (.maze random)).field.cellAt p Cell.empty =
          if p = (g.follow (.maze random)).finish then Cell.finish
          else g.field.cellAt p Cell.empty := hm.cellAt p
      have hplayer : (g.follow (.maze random)).player = g.player := hm.player
      have hne : (g.follow (.maze random)).finish ≠ g.player := hm.finish_ne
      rw [hcell, hplayer]
      refine ⟨?_, ?_, ?_⟩
      · rintro rfl
        rw [if_neg (Ne.symm hne)]
        exact (h.shows.cellAt_iff _).2 rfl
      · rintro ⟨⟨-, -, hfin⟩ | hp, -⟩
        · rw [if_pos hfin.symm]
        · rw [hfinish hp, ite_self]
      · intro hnow hp
        have hfin : p ≠ (g.follow (.maze random)).finish :=
          fun hfin => hp ⟨.inl ⟨random, rfl, hfin.symm⟩, Ne.symm hnow⟩
        rw [if_neg hfin]
        exact hempty hnow fun hs => hp ⟨.inr hs, Ne.symm hnow⟩

/-- The field shows the finish where the compass finds it, if not hidden by the player, and nowhere else. -/
def FinishAgrees (g : Game) : Prop :=
  (g.field.cellAt g.finish Cell.empty = Cell.finish ∨
    g.field.cellAt g.finish Cell.empty = Cell.player ∧ g.player = g.finish) ∧
  ∀ p, p ≠ g.finish → g.field.cellAt p Cell.empty ≠ Cell.finish

/-- Once a maze was made, the finish lies on the field. -/
theorem inside_finish_followAll (hside : 1 ≤ side) {orders : List Order}
    (hmaze : ∃ random, .maze random ∈ orders) :
    let g := (setup side).followAll orders
    g.field.inside g.finish = true := by
  induction orders using reverseRecOn with
  | nil => simp at hmaze
  | append_singleton orders order ih =>
    have h : SetUp side ((setup side).followAll orders) := (setUp_setup hside).followAll hside orders
    simp only [followAll_append, followAll_singleton]
    cases order with
    | robot op =>
      have hm := h.shows.obey op
      obtain ⟨random, hr⟩ := hmaze
      have hr : Order.maze random ∈ orders := by simpa using hr
      change ((Game.obey _ op).2).field.inside ((Game.obey _ op).2).finish = true
      rw [hm.inside, hm.finish]
      exact ih ⟨random, hr⟩
    | maze random =>
      have hm := h.makeMaze hside random
      exact (hm.inside _).trans hm.finish_inside

/-- What the field shows once a maze was made. Cells show the player, the finishes that mazes have put and the
player has not trodden since, or nothing. So the finish is shown where the compass finds it, and only there,
exactly if the player stands on it or was not there since it was put, and every other finish that an earlier
maze has put was trodden since. -/
theorem finishAgrees_followAll_iff (side : Nat) (hside : 1 ≤ side) (orders : List Order)
    (hmaze : ∃ random, .maze random ∈ orders) :
    let g := (setup side).followAll orders
    g.field.inside g.finish = true ∧
    (∀ p, (p = g.player → g.field.cellAt p Cell.empty = Cell.player) ∧
      ((setup side).ShowsFinish orders p → g.field.cellAt p Cell.empty = Cell.finish) ∧
      (p ≠ g.player → ¬(setup side).ShowsFinish orders p → g.field.cellAt p Cell.empty = Cell.empty)) ∧
    (g.FinishAgrees ↔
      (g.player = g.finish ∨ (setup side).ShowsFinish orders g.finish) ∧
      ∀ p, p ≠ g.finish → ¬(setup side).ShowsFinish orders p) := by
  intro g
  have hcells := cellAt_followAll hside orders
  have hshown : ∀ p, g.field.cellAt p Cell.empty = Cell.finish ↔ (setup side).ShowsFinish orders p := by
    intro p
    obtain ⟨hplayer, hfinish, hempty⟩ := hcells p
    refine ⟨fun hc => ?_, hfinish⟩
    by_contra hp
    by_cases hq : p = g.player
    · exact absurd ((hplayer hq).symm.trans hc) (by decide)
    · exact absurd ((hempty hq hp).symm.trans hc) (by decide)
  refine ⟨inside_finish_followAll hside hmaze, hcells, ?_⟩
  have hstands : g.field.cellAt g.finish Cell.empty = Cell.player ∧ g.player = g.finish ↔
      g.player = g.finish :=
    ⟨And.right, fun hp => ⟨(hcells g.finish).1 hp.symm, hp⟩⟩
  simp only [FinishAgrees, ne_eq, hshown, hstands]
  rw [or_comm]

/-- On the smallest field, with a robot that walks to the finish and leaves it again: the compass still finds
the finish there, and the cell shows nothing. -/
theorem finishAgrees_followAll_iff_left :
    let orders : List Order := [.maze fun _ => 4, .robot .move, .robot .rotateLeft, .robot .rotateLeft,
      .robot .move, .robot .rotateLeft, .robot .rotateLeft, .robot .rotateLeft, .robot .move]
    let g := (setup 1).followAll orders
    1 ≤ 1 ∧ (∃ random, .maze random ∈ orders) ∧ g.finish = ⟨0, 1⟩ ∧ g.field.inside g.finish = true ∧
      g.field.cellAt g.finish Cell.empty = Cell.empty ∧ ¬(setup 1).ShowsFinish orders g.finish ∧
      ¬g.FinishAgrees := by
  intro orders g
  have hmaze : ∃ random, .maze random ∈ orders := ⟨fun _ => 4, mem_cons_self⟩
  obtain ⟨hin, hcells, hagrees⟩ := finishAgrees_followAll_iff 1 (Nat.le_refl 1) orders hmaze
  have hfinish : g.finish = ⟨0, 1⟩ := by decide +kernel
  have hplayer : g.player ≠ g.finish := by decide +kernel
  have hempty : g.field.cellAt g.finish Cell.empty = Cell.empty := by decide +kernel
  have hshows : ¬(setup 1).ShowsFinish orders g.finish := fun h =>
    absurd (((hcells g.finish).2.1 h).symm.trans hempty) (by decide)
  refine ⟨Nat.le_refl 1, hmaze, hfinish, hin, hempty, hshows, fun h => ?_⟩
  exact (hagrees.1 h).1.elim hplayer hshows

end Game

end Labyrinth.Maze
