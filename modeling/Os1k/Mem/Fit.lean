import Os1k.Mem.Reachable

/-! An allocation takes the lowest range of its size that is not in use. -/

namespace Os1k.Memory

open Implicit

/-- The bytes of range number `k`, when an arena is cut into ranges of one size from its start. -/
def rangeBytes (start size k : Nat) : Set Nat := Set.Ico (start + k * size) (start + (k + 1) * size)

/-- A range of the arena that no block in use meets. -/
def Vacant (ramStart ramEnd size : Nat) (live : List LiveBlock) (k : Nat) : Prop :=
  (k + 1) * size ≤ ramEnd - ramStart ∧
    ∀ used ∈ live, Disjoint used.block.bytes (rangeBytes ramStart size k)

/-- The block of a node is the range at the node's position. -/
theorem bytes_nodeBlock_eq {memory : Memory} {depth order i : Nat} (shape : memory.Shape depth)
    (levels : level i + order = depth + 12) :
    (memory.nodeBlock i).bytes = rangeBytes memory.start.addr (2 ^ order) (slot i) := by
  -- The size of a block is fixed by its level.
  have exponent : depth + 12 - level i = order := by omega
  simp only [PhysAddr.bytes, nodeBlock, nodeAddr, shape.high, exponent, Option.getD_some, rangeBytes]
  rw [Nat.add_mul, Nat.one_mul, Nat.add_assoc]

/-- The positions of a level are the ranges inside the arena. -/
theorem slot_lt_iff {depth order level k : Nat} (levels : level + order = depth + 12) :
    (k + 1) * 2 ^ order ≤ 2 ^ (depth + 12) ↔ k < 2 ^ level := by
  -- The arena is as many ranges as its level has nodes.
  have whole : 2 ^ (depth + 12) = 2 ^ level * 2 ^ order := by rw [← levels, Nat.pow_add]
  rw [whole]
  exact Nat.mul_le_mul_right_iff (Nat.two_pow_pos order)

namespace Invariant

variable {memory : Memory} {depth : Nat} {live : List LiveBlock}

/-- A node is clear of the nodes in use exactly when no block in use meets its range. -/
theorem clear_iff (invariant : Invariant memory depth live) {i : Nat} (inside : level i ≤ depth) :
    Clear (memory.liveNodes depth live) i ↔
      ∀ used ∈ live, Disjoint used.block.bytes (memory.nodeBlock i).bytes := by
  -- Blocks are apart when no node is below the other, and the bytes tell so.
  constructor
  · intro clear used member
    obtain ⟨j, deep, block, _⟩ := invariant.node used member
    obtain ⟨notBelow, notAbove⟩ := clear j (mem_liveNodes member deep block)
    rw [block]
    exact disjoint_bytes invariant.shape deep inside notAbove notBelow
  · intro disjoint j node
    obtain ⟨deep, found⟩ := node
    obtain ⟨used, member, block⟩ := List.mem_map.mp found
    have apart := disjoint used member
    rw [block, Set.disjoint_left] at apart
    -- Nested subtrees share the first byte of the inner block.
    refine ⟨fun under => ?_, fun under => ?_⟩
    · have first := first_mem_bytes memory j
      exact apart first (bytes_subset_of_under invariant.shape deep under first)
    · have first := first_mem_bytes memory i
      exact apart (bytes_subset_of_under invariant.shape inside under first) first

/-- Clear nodes of a level are the ranges of its size that are not in use. -/
theorem vacant_iff (invariant : Invariant memory depth live) {order i : Nat} (page : 12 ≤ order)
    (levels : level i + order = depth + 12) :
    Vacant memory.start.addr memory.stop.addr (2 ^ order) live (slot i) ↔
      Clear (memory.liveNodes depth live) i := by
  -- A position of the level is always inside, so only the blocks in use matter.
  have size : memory.stop.addr - memory.start.addr = 2 ^ (depth + 12) := by
    rw [invariant.shape.stop, Nat.add_sub_cancel_left]
  have inside := (slot_lt_iff levels).mpr (slot_lt i)
  rw [invariant.clear_iff (by omega : level i ≤ depth), bytes_nodeBlock_eq invariant.shape levels,
    Vacant, size]
  exact and_iff_right inside

end Invariant

/-- Rounding up gives the least power of two that holds the request and a page. -/
theorem Request.least {n depth order : Nat} (request : Request n depth order) {other : Nat}
    (holds : max n pageSize ≤ 2 ^ other) : 2 ^ order ≤ 2 ^ other := by
  by_contra smaller
  have tight := request.tight
  -- The next smaller power of two is already less than the request.
  have exponents : other < order := (Nat.pow_lt_pow_iff_right (by omega)).mp (Nat.not_le.mp smaller)
  have half : 2 ^ (other + 1) ≤ 2 ^ order := Nat.pow_le_pow_right (by omega) exponents
  rw [Nat.pow_succ] at half
  omega

variable {profile : Profile} {ramStart ramEnd : Nat} {boot memory : Memory} {live : List LiveBlock}

/--
An allocation is complete, takes the lowest range, and changes nothing when it fails.

The size is the least power of two that holds the request and a page. The allocation fails exactly
when every range of that size meets a block in use, and otherwise hands out the first that does not.
-/
theorem buddyAlloc_first_fit (arena : PowerArena profile ramStart ramEnd boot)
    (reach : Reach profile boot memory live) :
    (∀ n, 0 < n → n ≤ ramEnd - ramStart → ∃ size, (∃ order, size = 2 ^ order) ∧
      max n pageSize ≤ size ∧ (∀ order, max n pageSize ≤ 2 ^ order → size ≤ 2 ^ order) ∧
      ∃ result after, (buddyAlloc profile n).run memory = .ok result after ∧
        (result = .error .outOfMemory ↔ ∀ k, ¬ Vacant ramStart ramEnd size live k) ∧
        ((∃ k, Vacant ramStart ramEnd size live k) → ∃ k, Vacant ramStart ramEnd size live k ∧
          (∀ j, Vacant ramStart ramEnd size live j → k ≤ j) ∧
          result = .ok ⟨ramStart + k * size, some size⟩)) ∧
    ∀ n error after, (buddyAlloc profile n).run memory = .ok (.error error) after →
      after.buddyMeta.elems = memory.buddyMeta.elems := by
  -- The arena is one full tree, and in every run its nodes tell what is in use.
  obtain ⟨depth, shape, canonical, origin, limit⟩ := arena.shape
  obtain ⟨start, invariant⟩ := reach.invariant shape canonical
  have startAddr : memory.start.addr = ramStart := by rw [start, origin]
  have stopAddr : memory.stop.addr = ramEnd := by
    rw [invariant.shape.stop, start, ← shape.stop, limit]
  have arenaSize : ramEnd - ramStart = 2 ^ (depth + 12) := by
    rw [← startAddr, ← stopAddr, invariant.shape.stop, Nat.add_sub_cancel_left]
  refine ⟨fun n positive fits => ?_, fun n error after ran => (invariant.run_refused ran).2.1⟩
  rw [arenaSize, ← invariant.shape.size] at fits
  obtain ⟨order, request, spec⟩ := run_buddyAlloc invariant.shape invariant.canonical positive fits
    profile
  have page := request.page
  have inside := request.inside
  -- The request is rounded up to the size of one level.
  refine ⟨2 ^ order, ⟨order, rfl⟩, request.covers, fun other => request.least, ?_⟩
  -- Every range inside the arena belongs to a node of the requested level.
  have node : ∀ k, Vacant ramStart ramEnd (2 ^ order) live k →
      ∃ i, level i + order = depth + 12 ∧ slot i = k ∧
        Clear (memory.liveNodes depth live) i := by
    intro k vacant
    have levels : depth + 12 - order + order = depth + 12 := by omega
    have within := vacant.1
    rw [arenaSize] at within
    obtain ⟨i, deep, position⟩ := exists_level_slot ((slot_lt_iff levels).mp within)
    rw [← position, ← startAddr, ← stopAddr] at vacant
    exact ⟨i, by omega, position, (invariant.vacant_iff page (by omega)).mp vacant⟩
  generalize (buddyAlloc profile n).run memory = outcome at spec
  cases spec with
  -- The search takes the first clear node, and nodes of a level are ordered as their ranges.
  | @found i after _ _ deep clear first _ =>
    have vacant := (invariant.vacant_iff page deep).mpr clear
    rw [startAddr, stopAddr] at vacant
    refine ⟨_, after, rfl, ?_, fun _ => ⟨slot i, vacant, fun j other => ?_, ?_⟩⟩
    · exact iff_of_false (by simp only [reduceCtorEq, not_false_eq_true]) fun none => none _ vacant
    · obtain ⟨k, same, rfl, free⟩ := node j other
      exact (le_iff_slot_le (by omega)).mp (first k same free)
    · have exponent : depth + 12 - level i = order := by omega
      simp only [nodeBlock, nodeAddr, invariant.shape.high, exponent, startAddr]
  -- Without a clear node there is no range left.
  | @full after _ _ _ refused =>
    have none : ∀ k, ¬ Vacant ramStart ramEnd (2 ^ order) live k := by
      intro k vacant
      obtain ⟨i, same, _, free⟩ := node k vacant
      exact refused i same free
    exact ⟨_, after, rfl, iff_of_true rfl none, fun some => absurd some (not_exists.mpr none)⟩

/-- With the first page in use, a request for a byte is given the second. -/
theorem buddyAlloc_first_fit_page :
    ∃ after, (buddyAlloc .dev 1).run (twoPages [.split, .allocated, .free] [2, 1]) =
      .ok (.ok ⟨0x80001000, some 0x1000⟩) after := by
  obtain ⟨size, _, holds, least, result, after, ran, _, first⟩ :=
    (buddyAlloc_first_fit twoPages_arena twoPages_first).1 1 (by decide) (by decide)
  -- A byte needs a page, which is the least size.
  have page : size = 0x1000 := Nat.le_antisymm (least 12 (by decide)) holds
  subst page
  have second : Vacant 0x80000000 0x80002000 0x1000 [⟨100, ⟨0x80000000, some 0x1000⟩⟩] 1 := by
    refine ⟨by decide, fun used member => ?_⟩
    rw [List.mem_singleton.mp member, Set.disjoint_left]
    intro a inUse inRange
    simp only [PhysAddr.bytes, rangeBytes, Option.getD_some, Set.mem_Ico] at inUse inRange
    omega
  have taken : ¬ Vacant 0x80000000 0x80002000 0x1000 [⟨100, ⟨0x80000000, some 0x1000⟩⟩] 0 := by
    intro vacant
    have apart := vacant.2 _ List.mem_cons_self
    rw [Set.disjoint_left] at apart
    exact @apart 0x80000000 (by simp [PhysAddr.bytes]) (by simp [rangeBytes])
  obtain ⟨k, vacant, lowest, found⟩ := first ⟨1, second⟩
  -- The first page is in use, so the lowest range left is the second.
  have position : k = 1 := by
    have low := lowest 1 second
    have high : k ≠ 0 := by
      rintro rfl
      exact taken vacant
    omega
  subst position
  exact ⟨after, by rw [ran, found]⟩

end Os1k.Memory
