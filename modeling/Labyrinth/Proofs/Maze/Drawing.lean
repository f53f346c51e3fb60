import Labyrinth.Maze.Display
import Labyrinth.Proofs.Maze.Grid

/-!
# Drawings tell games apart

A drawing shows the upper half of every cell in one line and its lower half in another one. For a known size the
halves stand at known places of the text, and the two halves of a cell tell its content and, where the player is,
the heading: two games of one size with the same drawing have the same cells.
-/

namespace Labyrinth.Maze

/-- What the cells of a game may hold. -/
def Cell.contents : List Char := [wall, player, finish, empty]

namespace Game

variable {g g' : Game} {wide : Bool}

/-- A game as it is played: its cells hold known contents and its heading is a direction. -/
structure Regular (g : Game) : Prop where
  cells : ∀ c ∈ g.field.cells.toList, c ∈ Cell.contents
  heading : ∃ d : Direction, g.heading = d.bit

/-! ### Places in the text -/

variable {rest rest' : List Char} {y : Nat} {d : Direction} {c : Char}

/-- A line and what follows it tell the characters left and right of the separators. -/
theorem rowPieces_inj {before inner mid : Char} {left right left' right' : Nat → Char} {x count : Nat}
    (h : rowPieces before inner (fun x => doubled wide (left x) ++ mid :: doubled wide (right x)) x count ++ rest =
      rowPieces before inner (fun x => doubled wide (left' x) ++ mid :: doubled wide (right' x)) x count ++ rest') :
    (∀ i, x ≤ i → i < x + count → left i = left' i ∧ right i = right' i) ∧ rest = rest' := by
  induction count generalizing x before with
  | zero => exact ⟨fun i hi hi' => absurd hi' (by omega), h⟩
  | succ count ih =>
    have hpiece : left x = left' x ∧ right x = right' x ∧
        rowPieces inner inner (fun x => doubled wide (left x) ++ mid :: doubled wide (right x)) (x + 1) count ++ rest =
        rowPieces inner inner (fun x => doubled wide (left' x) ++ mid :: doubled wide (right' x)) (x + 1) count ++
          rest' := by
      cases wide <;> simpa [rowPieces, doubled, and_assoc] using h
    obtain ⟨hleft, hright, hmore⟩ := hpiece
    obtain ⟨hall, hrest⟩ := ih hmore
    refine ⟨fun i hi hi' => ?_, hrest⟩
    rcases Nat.eq_or_lt_of_le hi with rfl | hi
    · exact ⟨hleft, hright⟩
    · exact hall i hi (by omega)

/-- The halves that stand in the line of a row: the upper ones of the row below it and its own lower ones. -/
def SameLine (g g' : Game) (y : Nat) : Prop :=
  ∀ x, x < g.field.width →
    g.upperHalf x ((y : Int) - 1) = g'.upperHalf x ((y : Int) - 1) ∧ g.lowerHalf x y = g'.lowerHalf x y

theorem upperRow_inj (hw : g.field.width = g'.field.width) (hh : g.field.height = g'.field.height)
    (h : (g.upperRow y wide).toList ++ rest = (g'.upperRow y wide).toList ++ rest') :
    SameLine g g' y ∧ rest = rest' := by
  simp only [upperRow, String.toList_ofList, hw, hh, List.append_assoc] at h
  obtain ⟨hall, hrest⟩ := rowPieces_inj h
  exact ⟨fun x hx => hall x (Nat.zero_le x) (by omega), by simpa using hrest⟩

theorem lowerRow_inj (hw : g.field.width = g'.field.width) (hh : g.field.height = g'.field.height)
    (h : (g.lowerRow y wide).toList ++ rest = (g'.lowerRow y wide).toList ++ rest') :
    SameLine g g' y ∧ rest = rest' := by
  simp only [lowerRow, String.toList_ofList, hw, hh, List.append_assoc] at h
  obtain ⟨hall, hrest⟩ := rowPieces_inj h
  exact ⟨fun x hx => (hall x (Nat.zero_le x) (by omega)).symm, by simpa using hrest⟩

/-- The lines from a row downwards tell the halves in all of them. -/
theorem rowsFrom_inj (hw : g.field.width = g'.field.width) (hh : g.field.height = g'.field.height)
    (h : String.join (g.rowsFrom wide y) = String.join (g'.rowsFrom wide y)) : ∀ k ≤ y, SameLine g g' k := by
  induction y with
  | zero =>
    intro k hk
    obtain rfl := Nat.le_zero.1 hk
    have h := congrArg String.toList h
    simp only [rowsFrom, String.join_cons, String.toList_append] at h
    exact (lowerRow_inj hw hh h).1
  | succ y ih =>
    have h := congrArg String.toList h
    simp only [rowsFrom, String.join_cons, String.toList_append] at h
    have hline : SameLine g g' (y + 1) ∧
        (String.join (g.rowsFrom wide y)).toList = (String.join (g'.rowsFrom wide y)).toList := by
      split at h
      · exact lowerRow_inj hw hh h
      · exact upperRow_inj hw hh h
    intro k hk
    rcases Nat.eq_or_lt_of_le hk with rfl | hk
    · exact hline.1
    · exact ih (String.toList_inj.1 hline.2) k (by omega)

/-! ### The halves of a cell -/

/-- The upper and the lower half of the player's cell. -/
def playerHalves : Direction → Char × Char
  | .up => ('^', '_')
  | .upRight => ('>', '_')
  | .upLeft => ('<', '_')
  | .down => (' ', 'v')
  | .downRight => (' ', '>')
  | .downLeft => (' ', '<')

theorem playerHalves_injective : Function.Injective playerHalves := by
  intro d d' h
  cases d <;> cases d' <;> first | rfl | exact absurd h (by decide)

/-- The upper and the lower half of a cell with a content, for a heading of the player. -/
def halves (d : Direction) (c : Char) : Char × Char :=
  if c = Cell.player then playerHalves d else (c, if c = Cell.empty then '_' else c)

theorem halves_eq (hd : g.heading = d.bit) (x y : Int) :
    (g.upperHalf x y, g.lowerHalf x y) = halves d (g.field.cellAt ⟨x, y⟩ ' ') := by
  have hplayer : (g.playerUpper, g.playerLower) = playerHalves d := by
    cases d <;> simp [playerUpper, playerLower, hd, playerHalves, Direction.bit]
  by_cases hc : g.field.cellAt ⟨x, y⟩ ' ' = Cell.player
  · simp [upperHalf, lowerHalf, halves, hc, hplayer]
  · simp [upperHalf, lowerHalf, halves, hc]

/-- The player looks like nothing else that a cell may hold. -/
theorem playerHalves_ne (hc : c ∈ Cell.contents) (hplayer : c ≠ Cell.player) (d : Direction) :
    playerHalves d ≠ (c, if c = Cell.empty then '_' else c) := by
  simp only [Cell.contents, List.mem_cons, List.not_mem_nil, or_false] at hc
  rcases hc with rfl | rfl | rfl | rfl
  · cases d <;> decide
  · exact absurd rfl hplayer
  · cases d <;> decide
  · cases d <;> decide

/-- The halves of a cell tell its content, and the heading where the player is. -/
theorem eq_of_halves {d' : Direction} {c' : Char} (hc : c ∈ Cell.contents) (hc' : c' ∈ Cell.contents)
    (h : halves d c = halves d' c') : c = c' ∧ (c = Cell.player → d = d') := by
  by_cases hplayer : c = Cell.player <;> by_cases hplayer' : c' = Cell.player
  · rw [halves, if_pos hplayer, halves, if_pos hplayer'] at h
    exact ⟨hplayer.trans hplayer'.symm, fun _ => playerHalves_injective h⟩
  · rw [halves, if_pos hplayer, halves, if_neg hplayer'] at h
    exact absurd h (playerHalves_ne hc' hplayer' d)
  · rw [halves, if_neg hplayer, halves, if_pos hplayer'] at h
    exact absurd h.symm (playerHalves_ne hc hplayer d')
  · rw [halves, if_neg hplayer, halves, if_neg hplayer'] at h
    exact ⟨congrArg Prod.fst h, fun hp => absurd hp hplayer⟩

/-! ### Drawings -/

theorem sameLine_of_drawing (hw : g.field.width = g'.field.width) (hh : g.field.height = g'.field.height)
    (hpos : 0 < g.field.width ∧ 0 < g.field.height) (h : g.drawing wide = g'.drawing wide) :
    ∀ k ≤ g.field.height, SameLine g g' k := by
  have hfull : ¬(g.field.height = 0 || g.field.width = 0) = true := by simp; omega
  have hfull' : ¬(g'.field.height = 0 || g'.field.width = 0) = true := by simp; omega
  rw [drawing, drawing, if_neg hfull, if_neg hfull'] at h
  have htop : g.topRow wide = g'.topRow wide := by simp only [topRow, hw, hh]
  rw [htop, ← hh] at h
  exact rowsFrom_inj hw hh (String.append_right_inj _ |>.1 h)

/-- The cell with a number, read at its place. -/
theorem getElem_cells {i : Nat} (hi : i < g.field.cells.toList.length) (default : Char) :
    g.field.cells.toList[i] = g.field.cellAt ⟨(i % g.field.width : Nat), (i / g.field.width : Nat)⟩ default := by
  have hi' : i < g.field.width * g.field.height := by simpa using hi
  have hw : 0 < g.field.width := Nat.pos_of_mul_pos_right (Nat.zero_lt_of_lt hi')
  have hin : g.field.inside ⟨(i % g.field.width : Nat), (i / g.field.width : Nat)⟩ = true := by
    rw [Field.inside_iff]
    exact ⟨Int.natCast_nonneg _, Int.ofNat_lt.2 (Nat.mod_lt i hw), Int.natCast_nonneg _,
      Int.ofNat_lt.2 (Nat.div_lt_of_lt_mul hi')⟩
  have hindex : g.field.index ⟨(i % g.field.width : Nat), (i / g.field.width : Nat)⟩ = i := by
    rw [Field.index]
    exact Nat.div_add_mod' i g.field.width
  rw [Field.cellAt, if_pos hin, hindex, Vector.getElem?_eq_getElem hi', Option.getD_some]
  simp

/-- Two games of one size whose cells hold known contents and whose headings are directions have the same cells if
they have the same drawing, and the same heading if the player is among the cells. -/
theorem drawing_tells (g g' : Game) (wide : Bool) (hw : g.field.width = g'.field.width)
    (hh : g.field.height = g'.field.height) (hpos : 0 < g.field.width ∧ 0 < g.field.height) (hg : g.Regular)
    (hg' : g'.Regular) (h : g.drawing wide = g'.drawing wide) :
    g.field.cells.toList = g'.field.cells.toList ∧
      (Cell.player ∈ g.field.cells.toList → g.heading = g'.heading) := by
  obtain ⟨d, hd⟩ := hg.heading
  obtain ⟨d', hd'⟩ := hg'.heading
  have hlines := sameLine_of_drawing hw hh hpos h
  -- both halves of a cell stand in lines of the drawing: the lower one in the line of its row, the upper one above
  have hcell : ∀ i (hi : i < g.field.cells.toList.length) (hi' : i < g'.field.cells.toList.length),
      g.field.cells.toList[i] = g'.field.cells.toList[i] ∧ (g.field.cells.toList[i] = Cell.player → d = d') := by
    intro i hi hi'
    have hlt : i < g.field.width * g.field.height := by simpa using hi
    have hx := Nat.mod_lt i hpos.1
    have hy := Nat.div_lt_of_lt_mul hlt
    have hupper := (hlines (i / g.field.width + 1) (by omega) _ hx).1
    have hlower := (hlines (i / g.field.width) (by omega) _ hx).2
    rw [Int.natCast_succ, Int.add_sub_cancel] at hupper
    refine eq_of_halves (hg.cells _ (List.getElem_mem hi)) (hg'.cells _ (List.getElem_mem hi')) ?_
    rw [getElem_cells hi ' ', getElem_cells hi' ' ', ← hw, ← halves_eq hd, ← halves_eq hd', hupper, hlower]
  refine ⟨List.ext_getElem (by simp [hw, hh]) fun i hi hi' => (hcell i hi hi').1, fun hplayer => ?_⟩
  obtain ⟨i, hi, hi'⟩ := List.getElem_of_mem hplayer
  rw [hd, hd', (hcell i hi (by simpa [← hw, ← hh] using hi)).2 hi']

/-- The finish that a game only has in mind is not drawn; all that is drawn is the same. -/
theorem drawing_tells_corner :
    let g : Game := { field := (Field.ofSize 2 3).setCell ⟨0, 0⟩ Cell.player, heading := Direction.downLeft.bit }
    let g' : Game := { g with finish := ⟨1, 1⟩ }
    g.finish ≠ g'.finish ∧ g.drawing true = g'.drawing true ∧ Cell.player ∈ g.field.cells.toList ∧
      g.field.cells.toList = g'.field.cells.toList ∧ g.heading = g'.heading := by
  intro g g'
  have hg : g.Regular := ⟨List.forall_mem_iff_getElem.2 (by decide), .downLeft, rfl⟩
  have hplayer : Cell.player ∈ g.field.cells.toList := by decide
  have hsame : g.drawing true = g'.drawing true := rfl
  obtain ⟨hcells, hheading⟩ := drawing_tells g g' true rfl rfl (by decide) hg ⟨hg.cells, hg.heading⟩ hsame
  exact ⟨by decide, hsame, hplayer, hcells, hheading hplayer⟩

end Game

end Labyrinth.Maze
