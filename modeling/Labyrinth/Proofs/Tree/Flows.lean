import Mathlib.Data.List.Nodup
import Mathlib.Data.List.Range
import Labyrinth.Grammar.Build
import Labyrinth.Proofs.Task
import Labyrinth.Proofs.Tree.Chain

/-!
# What flows where in a chain

The operands of a chain are known by their positions, and the arrow at a position stands in front of the operand there.
An arrow to the right lets the operand behind it have the first operand of its run. An arrow to the left lets the operand
in front of it have the last operand of its run, unless that operand already has a value by an arrow to the right. The
parts of a chain are exactly these flows, ordered by the positions of the operands that give.
-/

namespace Labyrinth

open List

namespace Chain

variable {α β : Type}

/-! ### Flows -/

/-- The arrow in front of the operand at a position. -/
def arrow? (arrows : List Flow) : Nat → Option Flow
  | 0 => none
  | i + 1 => arrows[i]?

/-- The run of arrows to the right that reaches an operand begins at the operand that gives the value. -/
def GivesRight (arrows : List Flow) (value target : Nat) : Prop :=
  value < target ∧ (∀ k, value < k → k ≤ target → arrow? arrows k = some .right) ∧ arrow? arrows value ≠ some .right

/-- Arrows to the left lead from an operand to another one, and none to the right leads to it. -/
def Reaches (arrows : List Flow) (target value : Nat) : Prop :=
  target < value ∧ (∀ k, target < k → k ≤ value → arrow? arrows k = some .left) ∧ arrow? arrows target ≠ some .right

/-- The run of arrows to the left that begins behind an operand ends at the operand that gives the value. -/
def GivesLeft (arrows : List Flow) (value target : Nat) : Prop :=
  Reaches arrows target value ∧ arrow? arrows (value + 1) ≠ some .left

/-- One operand of a chain gives its value to another one. -/
def Gives (arrows : List Flow) (value target : Nat) : Prop :=
  GivesLeft arrows value target ∨ GivesRight arrows value target

variable {arrows : List Flow} {v w i s c : Nat}

theorem arrow?_succ_of_drop {flow : Flow} {rest : List Flow} (h : arrows.drop c = flow :: rest) :
    arrow? arrows (c + 1) = some flow := by
  rw [arrow?, ← head?_drop, h, head?_cons]

theorem arrow?_of_length_lt (h : arrows.length < i) : arrow? arrows i = none := by
  cases i with
  | zero => rfl
  | succ i => exact getElem?_eq_none (by omega)

/-- No operand gets two values. -/
theorem Gives.unique (h : Gives arrows v i) (h' : Gives arrows w i) : v = w := by
  rcases h with ⟨⟨hlt, hrun, hown⟩, hend⟩ | ⟨hlt, hrun, hend⟩ <;>
    rcases h' with ⟨⟨hlt', hrun', hown'⟩, hend'⟩ | ⟨hlt', hrun', hend'⟩
  · by_contra hne
    rcases Nat.lt_or_gt_of_ne hne with hlt | hlt
    · exact hend (hrun' _ (by omega) hlt)
    · exact hend' (hrun _ (by omega) hlt)
  · exact absurd (hrun' i hlt' (Nat.le_refl i)) hown
  · exact absurd (hrun i hlt (Nat.le_refl i)) hown'
  · by_contra hne
    rcases Nat.lt_or_gt_of_ne hne with hlt | hlt
    · exact hend' (hrun _ hlt (by omega))
    · exact hend (hrun' _ hlt (by omega))

/-- An operand behind an arrow to the right gets a value along its run. -/
theorem exists_givesRight (h : arrow? arrows i = some .right) : ∃ v, GivesRight arrows v i := by
  induction i with
  | zero => cases h
  | succ i ih =>
    by_cases hi : arrow? arrows i = some .right
    · obtain ⟨v, hlt, hrun, hend⟩ := ih hi
      refine ⟨v, by omega, fun k hk hki => ?_, hend⟩
      rcases Nat.lt_or_eq_of_le hki with hlt | rfl
      · exact hrun k hk (by omega)
      · exact h
    · refine ⟨i, by omega, fun k hk hki => ?_, hi⟩
      rw [show k = i + 1 by omega]
      exact h

/-- A run of arrows to the left comes to an end. -/
theorem exists_leftEnd (h : arrow? arrows (i + 1) = some .left) :
    ∃ v, i < v ∧ (∀ k, i < k → k ≤ v → arrow? arrows k = some .left) ∧ arrow? arrows (v + 1) ≠ some .left := by
  generalize hn : arrows.length - i = n
  induction n generalizing i with
  | zero => rw [arrow?_of_length_lt (by omega)] at h; cases h
  | succ n ih =>
    by_cases hi : arrow? arrows (i + 1 + 1) = some .left
    · obtain ⟨v, hlt, hrun, hend⟩ := ih hi (by omega)
      refine ⟨v, by omega, fun k hk hkv => ?_, hend⟩
      rcases Nat.lt_or_eq_of_le hk with hlt | rfl
      · exact hrun k hlt hkv
      · exact h
    · refine ⟨i + 1, by omega, fun k hk hkv => ?_, hi⟩
      rw [show k = i + 1 by omega]
      exact h

/-- Which operands get a value is seen by the arrows next to them. -/
theorem exists_gives_iff :
    (∃ v, Gives arrows v i) ↔
      arrow? arrows i = some .right ∨ arrow? arrows (i + 1) = some .left ∧ arrow? arrows i ≠ some .right := by
  constructor
  · rintro ⟨v, ⟨⟨hlt, hrun, hown⟩, -⟩ | ⟨hlt, hrun, -⟩⟩
    · exact .inr ⟨hrun _ (by omega) (by omega), hown⟩
    · exact .inl (hrun i hlt (Nat.le_refl i))
  · rintro (h | ⟨h, hown⟩)
    · obtain ⟨v, hv⟩ := exists_givesRight h
      exact ⟨v, .inr hv⟩
    · obtain ⟨v, hlt, hrun, hend⟩ := exists_leftEnd h
      exact ⟨v, .inl ⟨⟨hlt, hrun, hown⟩, hend⟩⟩

/-! ### Parts by position -/

/-- A part of a chain, by the positions of its operands. -/
structure Sharing where
  targets : List Nat
  value : Nat

/-- The operands that get a value, those before it from right to left, then those behind it from left to right. -/
def Sharing.Apt (arrows : List Flow) (g : Sharing) : Prop :=
  ∃ lefts rights, g.targets = lefts ++ rights ∧ g.targets ≠ [] ∧ lefts.Pairwise (· > ·) ∧ rights.Pairwise (· < ·) ∧
    (∀ i, i ∈ lefts ↔ GivesLeft arrows g.value i) ∧ ∀ i, i ∈ rights ↔ GivesRight arrows g.value i

/-- Parts that hold all flows from operands at a position and behind it. -/
structure Covers (arrows : List Flow) (start : Nat) (parts : List Sharing) : Prop where
  apt : ∀ g ∈ parts, start ≤ g.value ∧ g.Apt arrows
  ordered : parts.Pairwise (·.value < ·.value)
  complete : ∀ v i, start ≤ v → Gives arrows v i → ∃ g ∈ parts, g.value = v

/-- The part that is held back at a position has all the flows that reach the position from the right. -/
def Held (arrows : List Flow) (start : Nat) : Option Sharing → Prop
  | none => ∀ i, ¬Reaches arrows i start
  | some g => g.value = start ∧ g.targets ≠ [] ∧ g.targets.Pairwise (· > ·) ∧
      ∀ i, i ∈ g.targets ↔ Reaches arrows i start

variable {held : Option Sharing} {parts : List Sharing} {g : Sharing}

theorem Held.targets (h : Held arrows s held) :
    ∃ lefts : List Nat, lefts = (held.elim [] Sharing.targets) ∧ lefts.Pairwise (· > ·) ∧
      ∀ i, i ∈ lefts ↔ Reaches arrows i s := by
  cases held with
  | none => exact ⟨[], rfl, .nil, fun i => ⟨nofun, fun hr => absurd hr (h i)⟩⟩
  | some g => exact ⟨g.targets, rfl, h.2.2⟩

def sharing (r : FlowRun Nat) : Sharing :=
  ⟨r.targets, r.value?.getD 0⟩

/-- The parts that runs become if something can be assigned to all operands. -/
def sharings (held : Option Sharing) : List (FlowRun Nat) → List Sharing
  | [] => held.toList
  | r :: rest =>
    match r.flow, held with
    | .left, _ => held.toList ++ sharings (some (sharing r)) rest
    | .right, some left => ⟨left.targets ++ r.targets, left.value⟩ :: sharings none rest
    | .right, none => sharing r :: sharings none rest

/-- The run of the operands between two positions. -/
def stretch (flow : Flow) (s c : Nat) : FlowRun Nat :=
  ⟨flow, range' s (c + 1 - s)⟩

theorem sharing_left (h : s ≤ c) : sharing (stretch .left s c) = ⟨(range' s (c - s)).reverse, c⟩ := by
  have hrange : range' s (c + 1 - s) = range' s (c - s) ++ [c] := by
    rw [show c + 1 - s = c - s + 1 by omega, range'_concat, Nat.one_mul, show s + (c - s) = c by omega]
  simp [sharing, stretch, FlowRun.targets, FlowRun.value?, hrange]

theorem sharing_right (h : s ≤ c) : sharing (stretch .right s c) = ⟨range' (s + 1) (c - s), s⟩ := by
  simp [sharing, stretch, FlowRun.targets, FlowRun.value?, show c + 1 - s = c - s + 1 by omega, range'_succ]

theorem reverse_done (h : s ≤ c) : (c :: (range' s (c - s)).reverse).reverse = range' s (c + 1 - s) := by
  rw [show c + 1 - s = c - s + 1 by omega, range'_concat, reverse_cons, List.reverse_reverse, Nat.one_mul,
    show s + (c - s) = c by omega]

theorem long_stretch_iff (flow : Flow) (h : s ≤ c) : (stretch flow s c).operands.length ≥ 2 ↔ s < c := by
  rw [stretch, length_range']
  omega

/-! ### One run after the other -/

/-- Behind a chain nothing flows any more. -/
theorem covers_end {held : Option Sharing} (hend : arrows.length ≤ c) (hheld : Held arrows c held) :
    Covers arrows c held.toList := by
  have hnone : ∀ k, c < k → arrow? arrows k = none := fun k hk => arrow?_of_length_lt (by omega)
  have hright : ∀ v i, c ≤ v → ¬GivesRight arrows v i := by
    rintro v i hv ⟨hlt, hrun, -⟩
    have := hrun _ (Nat.lt_succ_self v) hlt
    rw [hnone _ (by omega)] at this
    cases this
  have hleft : ∀ v i, c ≤ v → Reaches arrows i v → v = c := by
    rintro v i hv ⟨hlt, hrun, -⟩
    by_contra hne
    have := hrun v hlt (Nat.le_refl v)
    rw [hnone _ (by omega)] at this
    cases this
  cases held with
  | none =>
    refine ⟨nofun, .nil, ?_⟩
    rintro v i hv (⟨hreach, -⟩ | hgives)
    · exact absurd (hleft v i hv hreach ▸ hreach) (hheld i)
    · exact absurd hgives (hright v i hv)
  | some g =>
    obtain ⟨hvalue, hne, hsorted, hmem⟩ := hheld
    refine ⟨?_, pairwise_singleton _ _, ?_⟩
    · intro g' hg'
      rw [Option.toList_some, mem_singleton] at hg'
      subst hg'
      refine ⟨hvalue.ge, g'.targets, [], (append_nil _).symm, hne, hsorted, .nil, fun i => ?_, fun i => ?_⟩
      · rw [hmem, GivesLeft, hvalue, hnone _ (Nat.lt_succ_self c)]
        simp
      · rw [hvalue]
        exact ⟨nofun, fun h => absurd h (hright c i (Nat.le_refl c))⟩
    · rintro v i hv (⟨hreach, -⟩ | hgives)
      · exact ⟨g, mem_singleton_self g, hvalue.trans (hleft v i hv hreach).symm⟩
      · exact absurd hgives (hright v i hv)

/-- At the end of a run to the left exactly its operands reach the last one. -/
theorem held_left (hle : s ≤ c) (hrun : ∀ k, s < k → k ≤ c → arrow? arrows k = some .left)
    (hstart : arrow? arrows s ≠ some .right) (hfree : Held arrows s none) :
    Held arrows c (if s < c then some (sharing (stretch .left s c)) else none) := by
  split
  · next hlt =>
    rw [sharing_left hle]
    refine ⟨rfl, ?_, ?_, fun i => ?_⟩
    · simp only [ne_eq, reverse_eq_nil_iff, range'_eq_nil_iff]
      omega
    · exact pairwise_reverse.2 pairwise_lt_range'
    · simp only [mem_reverse, mem_range'_1]
      constructor
      · rintro ⟨hs, hc⟩
        refine ⟨by omega, fun k hk hkc => hrun k (by omega) hkc, ?_⟩
        rcases Nat.lt_or_eq_of_le hs with hlt | rfl
        · rw [hrun i hlt (by omega)]
          simp
        · exact hstart
      · rintro ⟨hic, hall, hown⟩
        by_contra hout
        exact hfree i ⟨by omega, fun k hk hks => hall k hk (by omega), hown⟩
  · next hlt => rwa [show c = s by omega]

/-- Nothing but the last operand of a run to the left gives a value. -/
theorem Covers.left (h : Covers arrows c parts) (hle : s ≤ c)
    (hrun : ∀ k, s < k → k ≤ c → arrow? arrows k = some .left) : Covers arrows s parts := by
  refine ⟨fun g hg => ⟨hle.trans (h.apt g hg).1, (h.apt g hg).2⟩, h.ordered, fun v i hv hgives => ?_⟩
  by_cases hvc : c ≤ v
  · exact h.complete v i hvc hgives
  · have hnext := hrun (v + 1) (by omega) (by omega)
    rcases hgives with ⟨-, hend⟩ | ⟨hlt, hright, -⟩
    · exact absurd hnext hend
    · rw [hright (v + 1) (by omega) hlt] at hnext
      cases hnext

/-- The first operand of a run to the right gives its value to the rest of the run and to those that reach it. -/
theorem Covers.right (h : Covers arrows (c + 1) parts) (hlt : s < c)
    (hrun : ∀ k, s < k → k ≤ c → arrow? arrows k = some .right) (hstart : arrow? arrows s ≠ some .right)
    (hend : arrow? arrows (c + 1) ≠ some .right) (hheld : Held arrows s held) :
    Covers arrows s (⟨held.elim [] Sharing.targets ++ range' (s + 1) (c - s), s⟩ :: parts) := by
  obtain ⟨lefts, hlefts, hsorted, hmem⟩ := hheld.targets
  have hnext := hrun (s + 1) (by omega) (by omega)
  refine ⟨?_, ?_, ?_⟩
  · intro g hg
    rcases mem_cons.1 hg with rfl | hg
    · refine ⟨Nat.le_refl s, lefts, range' (s + 1) (c - s), by rw [hlefts], ?_, hsorted, pairwise_lt_range',
        fun i => ?_, fun i => ?_⟩
      · simp only [ne_eq, append_eq_nil_iff, range'_eq_nil_iff]
        omega
      · rw [hmem, GivesLeft, hnext]
        simp
      · rw [mem_range'_1]
        change _ ↔ GivesRight arrows s i
        constructor
        · rintro ⟨hs, hc⟩
          exact ⟨by omega, fun k hk hki => hrun k hk (by omega), hstart⟩
        · rintro ⟨hsi, hall, -⟩
          by_contra hout
          exact hend (hall (c + 1) (by omega) (by omega))
    · exact ⟨by have := (h.apt g hg).1; omega, (h.apt g hg).2⟩
  · refine pairwise_cons.2 ⟨fun g hg => ?_, h.ordered⟩
    have := (h.apt g hg).1
    simp only
    omega
  · intro v i hv hgives
    by_cases hvc : c + 1 ≤ v
    · obtain ⟨g, hg, hgv⟩ := h.complete v i hvc hgives
      exact ⟨g, mem_cons_of_mem _ hg, hgv⟩
    · rcases Nat.lt_or_eq_of_le hv with hsv | rfl
      · have hown := hrun v hsv (by omega)
        rcases hgives with ⟨⟨hiv, hall, -⟩, -⟩ | ⟨-, -, hne⟩
        · rw [hall v hiv (Nat.le_refl v)] at hown
          cases hown
        · exact absurd hown hne
      · exact ⟨_, mem_cons_self, rfl⟩

def assigning (rs : List (FlowRun Nat)) : List (FlowRun Nat) :=
  rs.filter fun r => r.operands.length ≥ 2

/-- A run to the left that assigns something is held back. -/
theorem sharings_left (rest : List (FlowRun Nat)) (h : s ≤ c) :
    sharings none (assigning (stretch .left s c :: rest)) =
      sharings (if s < c then some (sharing (stretch .left s c)) else none) (assigning rest) := by
  rw [assigning, filter_cons]
  by_cases hlt : s < c
  · rw [if_pos (decide_eq_true ((long_stretch_iff .left h).2 hlt)), if_pos hlt]
    rfl
  · rw [if_neg (by rw [decide_eq_true_eq, long_stretch_iff .left h]; exact hlt), if_neg hlt]
    rfl

/-- A run to the right is joined with what is held back. -/
theorem sharings_right (held : Option Sharing) (rest : List (FlowRun Nat)) (h : s < c) (hheld : Held arrows s held) :
    sharings held (assigning (stretch .right s c :: rest)) =
      ⟨held.elim [] Sharing.targets ++ range' (s + 1) (c - s), s⟩ :: sharings none (assigning rest) := by
  have hright := sharing_right (Nat.le_of_lt h)
  rw [assigning, filter_cons, if_pos (decide_eq_true ((long_stretch_iff .right (Nat.le_of_lt h)).2 h))]
  cases held with
  | none => exact congrArg (· :: _) hright
  | some left =>
    obtain ⟨rfl, -⟩ := hheld
    exact congrArg (fun r : Sharing => (⟨left.targets ++ r.targets, left.value⟩ : Sharing) :: _) hright

/-- Nothing reaches an operand between a run to the right and an arrow to the left. -/
theorem held_right (h : arrow? arrows c = some .right) : Held arrows (c + 1) none := by
  rintro i ⟨hlt, hrun, hown⟩
  rcases Nat.lt_or_eq_of_le (Nat.le_of_lt_succ hlt) with hic | rfl
  · rw [hrun c hic (Nat.le_succ c)] at h
    cases h
  · exact hown h

/-- The parts of a chain, from a run on that has come from one operand to another, hold all flows from there on. The
induction is over the arrows that are left. -/
theorem sharings_covers (rest : List Flow) : ∀ {flow : Flow} {s c : Nat} {held : Option Sharing},
    arrows.drop c = rest → s ≤ c → (flow = .right → s < c) → (flow = .left → held = none) →
    (∀ k, s < k → k ≤ c → arrow? arrows k = some flow) → arrow? arrows s ≠ some .right → Held arrows s held →
    Covers arrows s (sharings held (assigning
      (runsFrom flow (range' s (c - s)).reverse c (rest.zipIdx (c + 1))))) := by
  induction rest with
  | nil =>
    intro flow s c held hdrop hle hright hleft hrun hstart hheld
    have hend : arrows.length ≤ c := drop_eq_nil_iff.1 hdrop
    rw [zipIdx_nil, runsFrom, reverse_done hle]
    cases flow with
    | left =>
      obtain rfl := hleft rfl
      rw [← stretch, sharings_left [] hle]
      exact (covers_end hend (held_left hle hrun hstart hheld)).left hle hrun
    | right =>
      have hlt := hright rfl
      have hnone : arrow? arrows (c + 1) = none := arrow?_of_length_lt (by omega)
      rw [← stretch, sharings_right held [] hlt hheld]
      refine Covers.right (@covers_end arrows _ none (by omega) ?_) hlt hrun hstart (by simp [hnone]) hheld
      exact held_right (hrun c hlt (Nat.le_refl c))
  | cons next rest ih =>
    intro flow s c held hdrop hle hright hleft hrun hstart hheld
    have hnext := arrow?_succ_of_drop hdrop
    have hdrop' : arrows.drop (c + 1) = rest := by
      rw [← drop_drop, hdrop, drop_one, tail_cons]
    rw [zipIdx_cons, runsFrom]
    split
    · next heq =>
      subst heq
      have hdone : c :: (range' s (c - s)).reverse = (range' s (c + 1 - s)).reverse := by
        rw [← reverse_done hle, List.reverse_reverse]
      rw [hdone]
      refine ih hdrop' (by omega) (fun _ => by omega) hleft (fun k hk hkc => ?_) hstart hheld
      rcases Nat.lt_or_eq_of_le hkc with hlt | rfl
      · exact hrun k hk (by omega)
      · exact hnext
    · next hne =>
      rw [reverse_done hle, ← stretch]
      cases flow with
      | left =>
        obtain rfl := hleft rfl
        obtain rfl : next = .right := by cases next <;> trivial
        rw [sharings_left _ hle, if_pos rfl]
        refine Covers.left ?_ hle hrun
        have hdone : [c] = (range' c (c + 1 - c)).reverse := by simp
        rw [hdone]
        refine ih hdrop' (by omega) (fun _ => by omega) (by simp) (fun k hk hkc => ?_) ?_
          (held_left hle hrun hstart hheld)
        · rw [show k = c + 1 by omega]
          exact hnext
        · rcases Nat.lt_or_eq_of_le hle with hlt | rfl
          · simp [hrun c hlt (Nat.le_refl c)]
          · exact hstart
      | right =>
        have hlt := hright rfl
        obtain rfl : next = .left := by cases next <;> trivial
        rw [sharings_right held _ hlt hheld, if_neg (by simp)]
        refine Covers.right ?_ hlt hrun hstart (by simp [hnext]) hheld
        have hdone : [] = (range' (c + 1) (c + 1 - (c + 1))).reverse := by simp
        rw [hdone]
        refine ih hdrop' (Nat.le_refl _) (by simp) (fun _ => rfl) (fun k hk hkc => by omega) ?_
          (held_right (hrun c hlt (Nat.le_refl c)))
        simp [hnext]

def sharingsOf (arrows : List Flow) : List Sharing :=
  sharings none (runs 0 (arrows.zipIdx 1))

theorem sharingsOf_covers (arrows : List Flow) : Covers arrows 0 (sharingsOf arrows) := by
  have hzero : Held arrows 0 none := fun i hi => Nat.not_lt_zero i hi.1
  cases arrows with
  | nil => exact covers_end (Nat.le_refl 0) hzero
  | cons flow rest =>
    have hrun := @sharings_covers (flow :: rest) rest flow 0 1 none rfl
      (by omega) (fun _ => by omega) (fun _ => rfl) (fun k hk hkc => by rw [show k = 1 by omega]; rfl) nofun hzero
    rw [sharingsOf, zipIdx_cons, runs, runsFrom, if_pos rfl]
    exact hrun

/-! ### Operands at the positions -/

/-- Whatever is a target of the part that is held back is a target of a part. -/
theorem mem_sharings_of_held (rs : List (FlowRun Nat)) (hi : i ∈ g.targets) :
    ∃ g' ∈ sharings (some g) rs, i ∈ g'.targets := by
  cases rs with
  | nil => exact ⟨g, mem_singleton_self g, hi⟩
  | cons r rs =>
    cases hf : r.flow with
    | left =>
      simp only [sharings, hf]
      exact ⟨g, mem_cons_self, hi⟩
    | right =>
      simp only [sharings, hf]
      exact ⟨_, mem_cons_self, mem_append_left _ hi⟩

/-- Whatever is a target of a run is a target of a part. -/
theorem mem_sharings {rs : List (FlowRun Nat)} {r : FlowRun Nat} (hr : r ∈ rs) (hi : i ∈ r.targets) :
    ∀ held, ∃ g ∈ sharings held rs, i ∈ g.targets := by
  induction rs with
  | nil => cases hr
  | cons r' rs ih =>
    intro held
    cases hf : r'.flow with
    | left =>
      have hrest : ∃ g ∈ sharings (some (sharing r')) rs, i ∈ g.targets := by
        rcases mem_cons.1 hr with rfl | hr
        · exact mem_sharings_of_held rs hi
        · exact ih hr _
      obtain ⟨g, hg, hig⟩ := hrest
      simp only [sharings, hf]
      exact ⟨g, mem_append_right _ hg, hig⟩
    | right =>
      rcases mem_cons.1 hr with rfl | hr
      · cases held with
        | none =>
          simp only [sharings, hf]
          exact ⟨_, mem_cons_self, hi⟩
        | some left =>
          simp only [sharings, hf]
          exact ⟨_, mem_cons_self, mem_append_right _ hi⟩
      · obtain ⟨g, hg, hig⟩ := ih hr none
        cases held <;> simp only [sharings, hf] <;> exact ⟨g, mem_cons_of_mem _ hg, hig⟩

/-- A part of a chain of positions. -/
def ChainPart.sharing (p : ChainPart Nat) : Sharing :=
  ⟨p.targets, p.value⟩

/-- If something can be assigned to all targets, the parts of runs are those by position. -/
theorem assembleFrom_sharings [ChainOperand Nat] {rs : List (FlowRun Nat)}
    (ht : ∀ r ∈ rs, ∀ i ∈ r.targets, ChainOperand.isTarget i = true) (held : Option (ChainPart Nat)) :
    (assembleFrom held rs).1.map ChainPart.sharing = sharings (held.map ChainPart.sharing) rs ∧
      (assembleFrom held rs).2 = [] := by
  induction rs generalizing held with
  | nil => cases held <;> simp [assembleFrom, sharings]
  | cons r rs ih =>
    obtain ⟨hr, hrs⟩ := forall_mem_cons.1 ht
    have hfind : r.targets.find? (fun i => !ChainOperand.isTarget i) = none := by simpa using hr
    cases hf : r.flow <;> cases held <;>
      simp [assembleFrom, sharings, partOf, hfind, hf, ih hrs, ChainPart.sharing, Chain.sharing, join]

/-- The operand at a position of a chain. -/
def operandAt (first : α) (rest : List (Flow × α)) (i : Nat) : α :=
  (first :: rest.map Prod.snd).getD i first

/-- The operands of a chain stand at its positions. -/
theorem tailsAlike_operandAt (first : α) (rest : List (Flow × α)) :
    Forall₂ (TailsAlike fun i e => operandAt first rest i = e) ((rest.map Prod.fst).zipIdx 1) rest := by
  refine forall₂_iff_get.2 ⟨by simp, fun i hi hi' => ?_⟩
  simp [TailsAlike, operandAt, getD, Nat.add_comm 1 i, hi']

theorem Sharing.Apt.mem_targets (h : g.Apt arrows) : i ∈ g.targets ↔ Gives arrows g.value i := by
  obtain ⟨lefts, rights, htargets, -, -, -, hlefts, hrights⟩ := h
  rw [htargets, mem_append, hlefts, hrights]
  rfl

theorem Sharing.Apt.nodup (h : g.Apt arrows) : g.targets.Nodup := by
  obtain ⟨lefts, rights, htargets, -, hdown, hup, hlefts, hrights⟩ := h
  rw [htargets]
  refine nodup_append.2 ⟨hdown.imp fun h => Nat.ne_of_gt h, hup.imp fun h => Nat.ne_of_lt h, ?_⟩
  rintro i hi j hj rfl
  have hbefore := ((hlefts i).1 hi).1.1
  have hbehind := ((hrights i).1 hj).1
  omega

/-- What a chain assigns, if something can be assigned to all operands that get a value. -/
theorem assemble_sharings [Inhabited α] [ChainOperand α] {first : α} {rest : List (Flow × α)}
    (ht : ∀ v i, Gives (rest.map Prod.fst) v i → ChainOperand.isTarget (operandAt first rest i) = true) :
    (assemble first rest).1.map (fun p => (p.targets, p.value)) =
        (sharingsOf (rest.map Prod.fst)).map
          (fun g => (g.targets.map (operandAt first rest), operandAt first rest g.value)) ∧
      (assemble first rest).2 = [] := by
  let inst : ChainOperand Nat :=
    ⟨ChainOperand.span ∘ operandAt first rest, ChainOperand.isTarget ∘ operandAt first rest⟩
  obtain ⟨halike, hbads⟩ := @assemble_alike Nat α (fun i e => operandAt first rest i = e) _ _ inst _
    (by rintro i _ rfl; rfl) 0 first _ _ rfl (tailsAlike_operandAt first rest)
  obtain ⟨hparts, hnone⟩ := @assembleFrom_sharings inst (runs 0 ((rest.map Prod.fst).zipIdx 1)) (fun r hr i hi => by
    obtain ⟨g, hg, hig⟩ := mem_sharings hr hi none
    exact ht g.value i (((sharingsOf_covers _).apt g hg).2.mem_targets.1 hig)) none
  rw [assemble, hnone, forall₂_nil_left_iff] at hbads
  refine ⟨?_, hbads⟩
  rw [sharingsOf, ← Option.map_none, ← hparts, map_map, ← forall₂_eq_eq_eq, forall₂_map_left_iff,
    forall₂_map_right_iff]
  refine halike.flip.imp fun q p h => ?_
  obtain ⟨-, htargets, hvalue⟩ := h
  have hmap : p.targets.map (operandAt first rest) = q.targets := by
    rw [← forall₂_eq_eq_eq, forall₂_map_left_iff]
    exact htargets
  exact Prod.ext hmap.symm hvalue.symm

/-- The parts of a chain are the flows from its operands, and no others. -/
theorem Covers.gives_iff (h : Covers arrows 0 parts) :
    (∃ g ∈ parts, g.value = v ∧ i ∈ g.targets) ↔ Gives arrows v i := by
  constructor
  · rintro ⟨g, hg, rfl, hi⟩
    exact (h.apt g hg).2.mem_targets.1 hi
  · intro hgives
    obtain ⟨g, hg, rfl⟩ := h.complete v i (Nat.zero_le v) hgives
    exact ⟨g, hg, rfl, (h.apt g hg).2.mem_targets.2 hgives⟩

/-- No operand is assigned to twice. -/
theorem Covers.nodup (h : Covers arrows 0 parts) : (parts.flatMap Sharing.targets).Nodup := by
  rw [nodup_flatMap]
  refine ⟨fun g hg => (h.apt g hg).2.nodup, ?_⟩
  refine h.ordered.imp_of_mem fun {g g'} hg hg' hlt i hi hi' => ?_
  have heq := ((h.apt g hg).2.mem_targets.1 hi).unique ((h.apt g' hg').2.mem_targets.1 hi')
  omega

end Chain

namespace Parser

open Chain
open Labyrinth.Task

/-- A chain of assignments whose operands that get a value are names and elements is built without a report. It assigns
the flows of the chain and nothing else, no operand twice, and each operand that has an arrow to the right in front of it
or else one to the left behind it. The parts are in the order of the operands that give, one for each of them. -/
theorem makeAssignment_flows {first : Expr SignRef} {rest : List (Flow × Expr SignRef)} {span : Span} {p : Parser}
    (ht : ∀ v i, Gives (rest.map Prod.fst) v i → (operandAt first rest i).isTarget = true) :
    ∃ (parts : List (AssignPart SignRef)) (flows : List Sharing),
      Yields (makeAssignment first rest span) p (.assign span parts) p ∧
      parts.map (fun | .mk _ targets value => (targets, value)) =
        flows.map (fun g => (g.targets.map (operandAt first rest), operandAt first rest g.value)) ∧
      (∀ v i, (∃ g ∈ flows, g.value = v ∧ i ∈ g.targets) ↔ Gives (rest.map Prod.fst) v i) ∧
      (flows.flatMap Sharing.targets).Nodup ∧
      (∀ i, i ∈ flows.flatMap Sharing.targets ↔ arrow? (rest.map Prod.fst) i = some .right ∨
        arrow? (rest.map Prod.fst) (i + 1) = some .left ∧ arrow? (rest.map Prod.fst) i ≠ some .right) ∧
      flows.Pairwise (·.value < ·.value) ∧ ∀ g ∈ flows, g.Apt (rest.map Prod.fst) := by
  have hcovers := sharingsOf_covers (rest.map Prod.fst)
  obtain ⟨hparts, hbads⟩ := @assemble_sharings _ _ _ first rest ht
  refine ⟨(assemble first rest).1.map fun part => .mk part.span part.targets part.value,
    sharingsOf (rest.map Prod.fst), ?_, ?_, fun v i => hcovers.gives_iff, hcovers.nodup, fun i => ?_, hcovers.ordered,
    fun g hg => (hcovers.apt g hg).2⟩
  · simp [makeAssignment, hbads, reportTargets]
  · rw [map_map]
    exact hparts
  · rw [← exists_gives_iff, mem_flatMap]
    constructor
    · rintro ⟨g, hg, hi⟩
      exact ⟨g.value, hcovers.gives_iff.1 ⟨g, hg, rfl, hi⟩⟩
    · rintro ⟨v, hv⟩
      obtain ⟨g, hg, -, hi⟩ := hcovers.gives_iff.2 hv
      exact ⟨g, hg, hi⟩

/-- In `a >> b << c << d` the operand `b` gets `a`, and `c` gets `d`. -/
theorem makeAssignment_flows_turning :
    let name (text : String) : Expr SignRef := .name ⟨default, text⟩
    ∃ (parts : List (AssignPart SignRef)) (flows : List Sharing),
      Yields (makeAssignment (name "a") [(.right, name "b"), (.left, name "c"), (.left, name "d")] default) default
        (.assign default parts) default ∧
      parts.map (fun | .mk _ targets value => (targets, value)) = [([name "b"], name "a"), ([name "c"], name "d")] ∧
      ∀ v i, (∃ g ∈ flows, g.value = v ∧ i ∈ g.targets) ↔ Gives [.right, .left, .left] v i := by
  intro name
  obtain ⟨parts, flows, hbuilt, -, hgives, -⟩ := @makeAssignment_flows (name "a")
    [(.right, name "b"), (.left, name "c"), (.left, name "d")] default default
    fun v i _ => match i with
      | 0 | 1 | 2 | 3 | _ + 4 => rfl
  refine ⟨parts, flows, hbuilt, ?_, hgives⟩
  cases hbuilt
  rfl

end Parser

end Labyrinth
