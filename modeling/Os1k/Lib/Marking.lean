import Mathlib.Data.Set.Insert
import Os1k.Lib.Implicit

/-! Sets of marked nodes in an implicit tree, none of them below another. -/

namespace Os1k.Implicit

/-- Some marked node lies in the subtree of `i`. -/
def Occupied (marked : Set Nat) (i : Nat) : Prop := ∃ j ∈ marked, Under i j

/-- Node `i` shares no descendant with a marked node. -/
def Clear (marked : Set Nat) (i : Nat) : Prop := ∀ j ∈ marked, ¬ Under i j ∧ ¬ Under j i

/-- No marked node lies below another. -/
def Apart (marked : Set Nat) : Prop := ∀ i ∈ marked, ∀ j ∈ marked, Under i j → i = j

/-- A marked node occupies every subtree it lies in. -/
theorem occupied_of_mem {marked : Set Nat} {i j : Nat} (member : j ∈ marked) (under : Under i j) :
    Occupied marked i := ⟨j, member, under⟩

/-- A subtree is occupied by its root, or within one of its halves. -/
theorem occupied_parent {marked : Set Nat} {i : Nat} (nonroot : 0 < i) :
    Occupied marked (parent i) ↔
      parent i ∈ marked ∨ Occupied marked i ∨ Occupied marked (sibling i) := by
  constructor
  · rintro ⟨j, member, under⟩
    -- A marked node below the parent is the parent or lies below one of its children.
    rcases (under_parent_cases nonroot).mp under with rfl | under | under
    · exact .inl member
    · exact .inr (.inl ⟨j, member, under⟩)
    · exact .inr (.inr ⟨j, member, under⟩)
  · rintro (member | ⟨j, member, under⟩ | ⟨j, member, under⟩)
    · exact ⟨_, member, Under.refl _⟩
    · exact ⟨j, member, (under_parent_cases nonroot).mpr (.inr (.inl under))⟩
    · exact ⟨j, member, (under_parent_cases nonroot).mpr (.inr (.inr under))⟩

/-- Marking one more node changes occupancy only above it. -/
theorem occupied_insert {marked : Set Nat} {i k : Nat} :
    Occupied (insert k marked) i ↔ Under i k ∨ Occupied marked i := by
  simp [Occupied]

/-- A clear node may be marked without coming below or above another marked one. -/
theorem Apart.insert {marked : Set Nat} {k : Nat} (apart : Apart marked)
    (clear : Clear marked k) : Apart (insert k marked) := by
  -- Of two nodes, each is the new one or was marked before.
  intro i first j second under
  rcases first with rfl | first
  · rcases second with rfl | second
    · rfl
    · exact absurd under (clear j second).1
  · rcases second with rfl | second
    · exact absurd under (clear i first).2
    · exact apart i first j second under

/-- Fewer marked nodes are still apart. -/
theorem Apart.mono {marked fewer : Set Nat} (apart : Apart marked) (subset : fewer ⊆ marked) :
    Apart fewer := fun i first j second under => apart i (subset first) j (subset second) under

/-- A marked node is clear of all the others. -/
theorem Apart.clear_diff {marked : Set Nat} {k : Nat} (apart : Apart marked)
    (member : k ∈ marked) : Clear (marked \ {k}) k := by
  -- Marked nodes do not meet, whichever of the two is above.
  intro j other
  refine ⟨fun under => other.2 ?_, fun under => other.2 ?_⟩
  · exact (apart k member j other.1 under).symm
  · exact apart j other.1 k member under

/-- A clear node with a vacant sibling leaves the whole subtree of their parent vacant. -/
theorem Clear.vacant_parent {marked : Set Nat} {i : Nat} (clear : Clear marked i) (nonroot : 0 < i)
    (vacant : ¬ Occupied marked (sibling i)) : ¬ Occupied marked (parent i) := by
  rw [occupied_parent nonroot]
  -- What is marked would be the parent, below the node, or below the sibling.
  rintro (member | ⟨j, member, under⟩ | occupied)
  · exact (clear _ member).2 (Under.parent_self nonroot)
  · exact (clear j member).1 under
  · exact vacant occupied

/-- The parent of a clear node is clear as well if nothing is marked below it. -/
theorem Clear.parent {marked : Set Nat} {i : Nat} (clear : Clear marked i) (nonroot : 0 < i)
    (vacant : ¬ Occupied marked (parent i)) : Clear marked (parent i) := by
  intro j member
  constructor
  · exact fun under => vacant ⟨j, member, under⟩
  · exact fun under => (clear j member).2 (under.trans (Under.parent_self nonroot))

/-- Above a clear node with an occupied sibling, every node is occupied and none is marked. -/
theorem Clear.occupied_above {marked : Set Nat} {i j : Nat} (clear : Clear marked i)
    (nonroot : 0 < i) (occupied : Occupied marked (sibling i)) (under : Under j i)
    (strict : j ≠ i) : j ∉ marked ∧ Occupied marked j := by
  obtain ⟨k, member, below⟩ := occupied
  have ancestor := (under.of_parent strict).2
  -- What is marked below the sibling lies below every ancestor of both.
  have reaches : Under (Implicit.parent i) k :=
    (under_parent_cases nonroot).mpr (.inr (.inr below))
  exact ⟨fun also => (clear j also).2 under, k, member, ancestor.trans reaches⟩

/-- Every subtree reaches down to any deeper level. -/
theorem exists_under (i below : Nat) : ∃ k, Under i k ∧ level k = level i + below := by
  induction below generalizing i with
  | zero => exact ⟨i, Under.refl i, rfl⟩
  | succ below ih =>
    -- Any node that far below the left child is one level farther below the node itself.
    obtain ⟨k, under, deep⟩ := ih (2 * i + 1)
    refine ⟨k, (Under.left i).trans under, ?_⟩
    rw [deep, level_left]
    omega

/-- In a vacant subtree with nothing marked above it, nodes of every deeper level are clear. -/
theorem exists_clear {marked : Set Nat} {i : Nat} (exposed : ∀ a ∈ marked, Under a i → a = i)
    (vacant : ¬ Occupied marked i) (below : Nat) :
    ∃ k, Under i k ∧ level k = level i + below ∧ Clear marked k := by
  obtain ⟨k, under, deep⟩ := exists_under i below
  refine ⟨k, under, deep, fun j member => ⟨?_, ?_⟩⟩
  · exact fun lower => vacant ⟨j, member, under.trans lower⟩
  · -- A marked node above would be in the subtree, or above the whole of it.
    intro above
    apply vacant
    rcases Nat.le_total (level i) (level j) with deeper | shallower
    · exact ⟨j, member, under.comparable above deeper⟩
    · have upper := above.comparable under shallower
      exact ⟨j, member, exposed j member upper ▸ Under.refl j⟩

/-- On one level, the nodes below a left child come before those below the right one. -/
theorem lt_of_children {i left right : Nat} (first : Under (2 * i + 1) left)
    (second : Under (2 * i + 2) right) (levels : level left = level right) : left < right := by
  have reachedLeft := first.div_level.2
  have reachedRight := second.div_level.2
  rw [level_left] at reachedLeft
  rw [level_right, ← levels] at reachedRight
  -- Equally many halvings lead to different quotients, so the numbers were ordered before.
  by_contra reversed
  have := Nat.div_le_div_right (c := 2 ^ (level left - (level i + 1)))
    (by omega : right + 1 ≤ left + 1)
  omega

end Os1k.Implicit
