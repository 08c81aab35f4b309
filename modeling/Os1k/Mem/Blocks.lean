import Mathlib
import Os1k.Mem.Free

/-! The byte ranges that the nodes of the buddy tree stand for. -/

namespace Os1k

open Implicit

/-- The bytes of a block. An address without a size stands for none. -/
def PhysAddr.bytes (block : PhysAddr) : Set Nat :=
  Set.Ico block.addr (block.addr + block.size.getD 0)

namespace Memory

variable {memory : Memory} {depth : Nat}

/-- The bytes of a node's block are the leaves below it, counted from the start of the arena. -/
theorem mem_bytes_nodeBlock (shape : memory.Shape depth) {i a : Nat} (inside : level i ≤ depth) :
    a ∈ (memory.nodeBlock i).bytes ↔ memory.start.addr ≤ a ∧
      a - memory.start.addr < 2 ^ (depth + 12) ∧
      Covers (depth + 12) i (a - memory.start.addr) := by
  have last := covers_last (by omega : level i ≤ depth + 12)
  simp only [PhysAddr.bytes, nodeBlock, nodeAddr, shape.high, Option.getD_some, Set.mem_Ico]
  rw [Nat.add_mul] at last
  constructor
  · rintro ⟨low, high⟩
    -- An address inside the block is inside the arena, so it numbers a leaf.
    have within : a - memory.start.addr < 2 ^ (depth + 12) := by omega
    refine ⟨by omega, within, (covers_iff (by omega) within).mpr ⟨by omega, ?_⟩⟩
    rw [Nat.add_mul]
    omega
  · rintro ⟨low, within, covers⟩
    have bounds := (covers_iff (by omega) within).mp covers
    rw [Nat.add_mul] at bounds
    omega

/-- Every block holds its own first byte. -/
theorem first_mem_bytes (memory : Memory) (i : Nat) :
    memory.nodeAddr i ∈ (memory.nodeBlock i).bytes := by
  have positive : 0 < 2 ^ (memory.buddyHighOrder - level i) := Nat.two_pow_pos _
  simp only [PhysAddr.bytes, nodeBlock, Option.getD_some, Set.mem_Ico]
  omega

/-- A block covers the blocks of its subtree. -/
theorem bytes_subset_of_under (shape : memory.Shape depth) {i j : Nat} (inside : level j ≤ depth)
    (under : Under i j) : (memory.nodeBlock j).bytes ⊆ (memory.nodeBlock i).bytes := by
  have shallow := under.level_le
  -- A byte belongs to the block of a node when its leaf lies under the node.
  intro a member
  obtain ⟨low, within, covers⟩ := (mem_bytes_nodeBlock shape inside).mp member
  exact (mem_bytes_nodeBlock shape (by omega)).mpr ⟨low, within, under.trans covers⟩

/-- Blocks that share a byte belong to nested subtrees. -/
theorem under_of_common_byte (shape : memory.Shape depth) {i j a : Nat} (first : level i ≤ depth)
    (second : level j ≤ depth) (inFirst : a ∈ (memory.nodeBlock i).bytes)
    (inSecond : a ∈ (memory.nodeBlock j).bytes) : Under i j ∨ Under j i := by
  obtain ⟨_, _, coversFirst⟩ := (mem_bytes_nodeBlock shape first).mp inFirst
  obtain ⟨_, _, coversSecond⟩ := (mem_bytes_nodeBlock shape second).mp inSecond
  -- Both nodes are ancestors of the leaf that the byte numbers.
  rcases Nat.le_total (level i) (level j) with shallow | shallow
  · exact .inl (coversFirst.comparable coversSecond shallow)
  · exact .inr (coversSecond.comparable coversFirst shallow)

/-- Clear nodes stand for disjoint blocks. -/
theorem disjoint_bytes (shape : memory.Shape depth) {i j : Nat} (first : level i ≤ depth)
    (second : level j ≤ depth) (apart : ¬ Under i j) (reverse : ¬ Under j i) :
    Disjoint (memory.nodeBlock i).bytes (memory.nodeBlock j).bytes := by
  rw [Set.disjoint_left]
  intro a inFirst inSecond
  exact (under_of_common_byte shape first second inFirst inSecond).elim apart reverse

/-- The block of a node strictly covers another exactly when the other lies strictly below. -/
theorem bytes_ssubset_iff (shape : memory.Shape depth) {i j : Nat} (first : level i ≤ depth)
    (second : level j ≤ depth) :
    (memory.nodeBlock j).bytes ⊂ (memory.nodeBlock i).bytes ↔ Under i j ∧ i ≠ j := by
  constructor
  · rintro ⟨covered, strict⟩
    have start := first_mem_bytes memory j
    have different : i ≠ j := by
      rintro rfl
      exact strict (Set.Subset.refl _)
    rcases under_of_common_byte shape first second (covered start) start with under | under
    · exact ⟨under, different⟩
    · exact absurd (bytes_subset_of_under shape first under) strict
  · rintro ⟨under, different⟩
    refine ⟨bytes_subset_of_under shape second under, fun reverse => ?_⟩
    -- The deeper block is at most half as large, so it cannot cover the other.
    have deeper := under.level_lt different
    have smaller : 2 ^ (depth + 12 - level j) < 2 ^ (depth + 12 - level i) :=
      Nat.pow_lt_pow_right (by omega) (by omega)
    have positive : 0 < 2 ^ (depth + 12 - level i) := Nat.two_pow_pos _
    have low := reverse (first_mem_bytes memory i)
    have last : memory.nodeAddr i + 2 ^ (depth + 12 - level i) - 1 ∈ (memory.nodeBlock i).bytes := by
      simp only [PhysAddr.bytes, nodeBlock, shape.high, Option.getD_some, Set.mem_Ico]
      omega
    have high := reverse last
    simp only [PhysAddr.bytes, nodeBlock, shape.high, Option.getD_some, Set.mem_Ico]
      at low high
    omega

/-- Different nodes stand for different blocks. -/
theorem nodeBlock_injective (located : memory.Located depth) {i j : Nat} (first : level i ≤ depth)
    (second : level j ≤ depth) (same : memory.nodeBlock i = memory.nodeBlock j) : i = j := by
  simp only [nodeBlock, nodeAddr, located.high, PhysAddr.mk.injEq, Option.some.injEq] at same
  obtain ⟨addresses, sizes⟩ := same
  -- Equal sizes put the nodes on one level, and equal addresses on one position of it.
  have exponents := Nat.pow_right_injective (Nat.le_refl 2) sizes
  have levels : level i = level j := by omega
  rw [levels] at addresses
  have positions : slot i * 2 ^ (depth + 12 - level j) = slot j * 2 ^ (depth + 12 - level j) := by
    omega
  exact eq_of_level_slot levels (Nat.eq_of_mul_eq_mul_right (Nat.two_pow_pos _) positions)

/-- A node's block ends with the last leaf under the node, which is one of the tree. -/
theorem nodeBlock_end (located : memory.Located depth) {i : Nat} (inside : level i ≤ depth) :
    memory.nodeAddr i + 2 ^ (depth + 12 - level i) ≤ memory.start.addr + 2 ^ (depth + 12) := by
  -- The last leaf under the node is counted from the start of the arena.
  have last := covers_last (by omega : level i ≤ depth + 12)
  rw [Nat.add_mul] at last
  rw [nodeAddr, located.high]
  omega

/-- A node's block lies inside the arena. -/
theorem nodeBlock_inside (shape : memory.Shape depth) {i : Nat} (inside : level i ≤ depth) :
    memory.start.addr ≤ memory.nodeAddr i ∧
      memory.nodeAddr i + 2 ^ (depth + 12 - level i) ≤ memory.stop.addr := by
  have last := nodeBlock_end shape.located inside
  rw [← shape.stop] at last
  exact ⟨Nat.le_add_right _ _, last⟩

/-- Only the root's block is as large as the arena. -/
theorem root_iff_size (shape : memory.Shape depth) {i : Nat} (inside : level i ≤ depth) :
    2 ^ (depth + 12 - level i) < memory.memSize ↔ 0 < i := by
  -- Below the root, a level is at least one.
  rw [shape.size, Nat.pow_lt_pow_iff_right (by omega)]
  constructor
  · intro smaller
    rcases Nat.eq_zero_or_pos i with rfl | positive
    · simp at smaller
    · exact positive
  · intro nonroot
    have := level_pos nonroot
    omega

/-- Allocators over the same arena agree on which block a node stands for. -/
theorem nodeBlock_congr {other : Memory} (shape : memory.Shape depth) (otherShape : other.Shape depth)
    (start : other.start = memory.start) (i : Nat) : other.nodeBlock i = memory.nodeBlock i := by
  simp only [nodeBlock, nodeAddr, shape.high, otherShape.high, start]

end Memory

end Os1k
