import Os1k.Lib.Packing
import Os1k.Mem.Fit

/-! How much of the arena the blocks in use take up, and what this says of the next request. -/

namespace Os1k.Memory

open Implicit

/-- The bytes of the blocks in use. -/
def bytesInUse (live : List LiveBlock) : Nat := (live.map fun used => used.block.size.getD 0).sum

/--
The bytes that the blocks in use keep from blocks of some size.

A smaller block keeps the whole one that it lies in.
-/
def bytesKept (size : Nat) (live : List LiveBlock) : Nat :=
  (live.map fun used => max (used.block.size.getD 0) size).sum

namespace Invariant

variable {memory : Memory} {depth : Nat} {live : List LiveBlock}

/-- The blocks in use are those of nodes, listed in the same order. -/
theorem exists_nodes (invariant : Invariant memory depth live) : ∃ nodes : List Nat,
    live.map LiveBlock.block = nodes.map memory.nodeBlock ∧ ∀ i ∈ nodes, level i ≤ depth := by
  have node := invariant.node
  clear invariant
  -- The induction is on the blocks in use, each of which has its node.
  induction live with
  | nil => exact ⟨[], rfl, nofun⟩
  | cons used rest ih =>
    obtain ⟨nodes, same, shallow⟩ := ih fun other member => node other (List.mem_cons_of_mem _ member)
    obtain ⟨i, inside, block, _⟩ := node used List.mem_cons_self
    refine ⟨i :: nodes, by rw [List.map_cons, List.map_cons, block, same], fun j member => ?_⟩
    rcases List.mem_cons.mp member with rfl | later
    · exact inside
    · exact shallow j later

variable {nodes : List Nat}

/-- The listed nodes are the nodes in use. -/
theorem liveNodes_eq (invariant : Invariant memory depth live)
    (blocks : live.map LiveBlock.block = nodes.map memory.nodeBlock)
    (shallow : ∀ i ∈ nodes, level i ≤ depth) : memory.liveNodes depth live = { i | i ∈ nodes } := by
  ext i
  show level i ≤ depth ∧ memory.nodeBlock i ∈ live.map LiveBlock.block ↔ i ∈ nodes
  rw [blocks, List.mem_map]
  constructor
  · -- Different nodes have different blocks.
    rintro ⟨inside, j, member, same⟩
    have equal := nodeBlock_injective invariant.shape.located (shallow j member) inside same
    rw [← equal]
    exact member
  · exact fun member => ⟨shallow i member, i, member, rfl⟩

/-- The bytes in use are the leaves below the nodes in use, each a byte. -/
theorem bytesInUse_eq (invariant : Invariant memory depth live)
    (blocks : live.map LiveBlock.block = nodes.map memory.nodeBlock) :
    bytesInUse live = weight (depth + 12) nodes := by
  -- The sizes of the blocks are read off their nodes.
  have sizes := congrArg (List.map fun block : PhysAddr => block.size.getD 0) blocks
  rw [List.map_map, List.map_map] at sizes
  show (List.map ((fun block : PhysAddr => block.size.getD 0) ∘ LiveBlock.block) live).sum = _
  rw [sizes, weight]
  congr 1
  apply List.map_congr_left
  intro i _
  simp only [Function.comp_apply, nodeBlock, invariant.shape.high, Option.getD_some]

/-- The bytes kept from blocks of a size are the nodes of its level that are taken up. -/
theorem bytesKept_eq (invariant : Invariant memory depth live)
    (blocks : live.map LiveBlock.block = nodes.map memory.nodeBlock) {order : Nat}
    (inside : order ≤ depth + 12) :
    bytesKept (2 ^ order) live = 2 ^ order * weight (depth + 12 - order) nodes := by
  have sizes := congrArg
    (List.map fun block : PhysAddr => max (block.size.getD 0) (2 ^ order)) blocks
  rw [List.map_map, List.map_map] at sizes
  show (List.map ((fun block : PhysAddr => max (block.size.getD 0) (2 ^ order)) ∘ LiveBlock.block)
    live).sum = _
  rw [sizes, weight, ← List.sum_map_mul_left]
  congr 1
  apply List.map_congr_left
  intro i _
  simp only [Function.comp_apply, nodeBlock, invariant.shape.high, Option.getD_some]
  rw [← Nat.pow_add]
  -- A node above the level has the larger block, and one below it the smaller one.
  rcases Nat.le_total (level i) (depth + 12 - order) with above | below
  · have exponent : order + (depth + 12 - order - level i) = depth + 12 - level i := by omega
    rw [exponent, Nat.max_eq_left]
    exact Nat.pow_le_pow_right (by omega) (by omega)
  · have exponent : order + (depth + 12 - order - level i) = order := by omega
    rw [exponent, Nat.max_eq_right]
    exact Nat.pow_le_pow_right (by omega) (by omega)

/-- The blocks in use take up no more than the arena. -/
theorem bytesInUse_le (invariant : Invariant memory depth live) :
    bytesInUse live ≤ memory.memSize := by
  obtain ⟨nodes, blocks, shallow⟩ := invariant.exists_nodes
  have same := invariant.liveNodes_eq blocks shallow
  have nodup : nodes.Nodup := by
    have distinct := invariant.nodup
    rw [blocks] at distinct
    exact distinct.of_map
  -- No block in use holds another, so together they weigh no more than the arena.
  have apart : Apart { i | i ∈ nodes } := by
    rw [← same]
    exact invariant.apart
  rw [invariant.bytesInUse_eq blocks, invariant.shape.size]
  exact weight_le nodup apart fun i member => (shallow i member).trans (by omega)

/-- If no node of a level is clear, the blocks in use keep the whole arena from its size. -/
theorem le_bytesKept (invariant : Invariant memory depth live) {order : Nat}
    (inside : order ≤ depth + 12)
    (none : ∀ k, level k + order = depth + 12 → ¬ Clear (memory.liveNodes depth live) k) :
    memory.memSize ≤ bytesKept (2 ^ order) live := by
  obtain ⟨nodes, blocks, shallow⟩ := invariant.exists_nodes
  rw [invariant.liveNodes_eq blocks shallow] at none
  -- No vacant node is left on the level, so the nodes in use cover all of it.
  have full : 2 ^ (depth + 12 - order) ≤ weight (depth + 12 - order) nodes :=
    le_weight fun k levels => none k (by omega)
  have split : 2 ^ (depth + 12) = 2 ^ order * 2 ^ (depth + 12 - order) := by
    rw [← Nat.pow_add]
    congr 1
    omega
  rw [invariant.bytesKept_eq blocks inside, invariant.shape.size, split]
  exact Nat.mul_le_mul_left _ full

/-- Blocks are a page or more, so that from a page each keeps just its own bytes. -/
theorem bytesKept_page (invariant : Invariant memory depth live) :
    bytesKept pageSize live = bytesInUse live := by
  unfold bytesKept bytesInUse
  congr 1
  apply List.map_congr_left
  intro used member
  obtain ⟨i, inside, block, request⟩ := invariant.node used member
  -- Every block is a page at least, so nothing is rounded up.
  have page : pageSize ≤ 2 ^ (depth + 12 - level i) :=
    Nat.pow_le_pow_right (n := 2) (by omega) request.page
  simp only [block, nodeBlock, invariant.shape.high, Option.getD_some]
  exact Nat.max_eq_left page

/-- Blocks that fit some size keep that size each. -/
theorem bytesKept_le (invariant : Invariant memory depth live) {size order : Nat}
    (fits : ∀ used ∈ live, max used.request pageSize ≤ 2 ^ order) (small : size ≤ 2 ^ order) :
    bytesKept size live ≤ 2 ^ order * live.length := by
  have node := invariant.node
  have high := invariant.shape.high
  clear invariant
  -- The induction is on the blocks in use, none of which is larger than it was rounded up to.
  induction live with
  | nil => exact Nat.zero_le _
  | cons used rest ih =>
    have later := ih (fun other member => fits other (List.mem_cons_of_mem _ member))
      fun other member => node other (List.mem_cons_of_mem _ member)
    obtain ⟨i, _, block, request⟩ := node used List.mem_cons_self
    have first : used.block.size.getD 0 ≤ 2 ^ order := by
      simp only [block, nodeBlock, high, Option.getD_some]
      exact request.least (fits used List.mem_cons_self)
    rw [List.length_cons, Nat.mul_succ, Nat.add_comm]
    exact Nat.add_le_add (Nat.max_le.mpr ⟨first, small⟩) later

/-- A request is met as long as the arena has room for one block more of the largest size. -/
theorem run_alloc_few (invariant : Invariant memory depth live) (profile : Profile) {n order : Nat}
    (positive : 0 < n) (asked : max n pageSize ≤ 2 ^ order)
    (fits : ∀ used ∈ live, max used.request pageSize ≤ 2 ^ order)
    (room : 2 ^ order * (live.length + 1) ≤ memory.memSize) :
    ∃ block after, (buddyAlloc profile n).run memory = .ok (.ok block) after := by
  rw [Nat.mul_succ] at room
  obtain ⟨own, request, spec⟩ := run_buddyAlloc invariant.shape invariant.canonical positive
    (by omega : n ≤ memory.memSize) profile
  generalize outcome : (buddyAlloc profile n).run memory = final at spec
  cases spec with
  | @found node after _ _ _ _ _ _ => exact ⟨_, after, rfl⟩
  | @full after _ _ _ refused =>
    -- Otherwise the blocks in use would keep the whole arena from it.
    have kept := invariant.le_bytesKept request.inside refused
    have bound := invariant.bytesKept_le fits (request.least asked)
    have some : 0 < 2 ^ order := Nat.two_pow_pos order
    omega

end Invariant

/-- A request asks for blocks of one size. -/
theorem Request.order_eq {n depth order other : Nat} (request : Request n depth order)
    (second : Request n depth other) : order = other := by
  -- Each of the two is the least power of two that holds the request.
  have low := request.least second.covers
  have high := second.least request.covers
  exact Nat.pow_right_injective (Nat.le_refl 2) (Nat.le_antisymm low high)

variable {profile : Profile} {ramStart ramEnd : Nat} {boot memory : Memory} {live : List LiveBlock}

/--
Whether a request is met is a matter of how many bytes are in use.

What is in use never exceeds the arena. A request is met if the blocks in use, each counted as no
smaller than the block asked for, leave room for it, and only if their own bytes do. For a request
of a page or less, the two are the same.
-/
theorem buddyAlloc_capacity (arena : PowerArena profile ramStart ramEnd boot)
    (reach : Reach profile boot memory live) :
    bytesInUse live ≤ ramEnd - ramStart ∧
    ∀ n size, 0 < n → n ≤ ramEnd - ramStart →
      nextPowerOfTwo usizeBits (max n pageSize) = some size →
      ∃ result after, (buddyAlloc profile n).run memory = .ok result after ∧
        (bytesKept size live + size ≤ ramEnd - ramStart → ∃ block, result = .ok block) ∧
        ((∃ block, result = .ok block) → bytesInUse live + size ≤ ramEnd - ramStart) ∧
        (n ≤ pageSize → ((∃ block, result = .ok block) ↔
          bytesInUse live + pageSize ≤ ramEnd - ramStart)) := by
  obtain ⟨depth, shape, canonical, origin, limit⟩ := arena.shape
  obtain ⟨start, invariant⟩ := reach.invariant shape canonical
  have arenaSize : ramEnd - ramStart = memory.memSize := by
    rw [invariant.shape.size, ← origin, ← limit, shape.stop, Nat.add_sub_cancel_left]
  rw [arenaSize]
  refine ⟨invariant.bytesInUse_le, fun n size positive fits rounded => ?_⟩
  obtain ⟨order, request, spec⟩ := run_buddyAlloc invariant.shape invariant.canonical positive fits
    profile
  -- The size that is rounded up to is that of the level searched.
  have exact : size = 2 ^ order := by
    obtain ⟨other, second, chosen⟩ := exists_request invariant.shape fits
    have same : (if n < pageSize then pageSize else n) = max n pageSize := by split <;> omega
    rw [same, rounded, Option.some.injEq] at chosen
    rw [chosen, second.order_eq request]
  subst exact
  have positiveSize : 0 < 2 ^ order := Nat.two_pow_pos order
  -- What is handed out is in use afterwards, and then all of it still fits.
  have fitting : ∀ {block after}, (buddyAlloc profile n).run memory = .ok (.ok block) after →
      bytesInUse live + block.size.getD 0 ≤ memory.memSize := by
    intro block after ran
    obtain ⟨same, kept⟩ := invariant.run_alloc ran
    have bound := kept.bytesInUse_le
    rw [kept.shape.size, ← invariant.shape.size] at bound
    simp only [bytesInUse, List.map_cons, List.sum_cons] at bound ⊢
    omega
  -- For a page, the blocks in use keep nothing but their own bytes.
  have page : n ≤ pageSize → 2 ^ order = pageSize := by
    intro small
    have least : 2 ^ order ≤ 2 ^ 12 := request.least (by rw [Nat.max_eq_right small]; rfl)
    have holds : max n pageSize ≤ 2 ^ order := request.covers
    have known : pageSize = 2 ^ 12 := rfl
    omega
  generalize outcome : (buddyAlloc profile n).run memory = final at spec
  cases spec with
  | @found node after _ _ deep _ _ _ =>
    have bytes : (memory.nodeBlock node).size.getD 0 = 2 ^ order := by
      have exponent : depth + 12 - level node = order := by omega
      simp only [nodeBlock, invariant.shape.high, exponent, Option.getD_some]
    have room := fitting outcome
    rw [bytes] at room
    refine ⟨_, after, rfl, fun _ => ⟨_, rfl⟩, fun _ => room, fun small => ?_⟩
    rw [← page small]
    exact iff_of_true ⟨_, rfl⟩ room
  -- Refused for want of a vacant node: what is in use covers the level.
  | @full after _ _ _ refused =>
    have kept := invariant.le_bytesKept request.inside refused
    have none : ¬ ∃ block, (Except.error MemError.outOfMemory : Except MemError PhysAddr)
        = .ok block := by
      rintro ⟨block, same⟩
      cases same
    refine ⟨_, after, rfl, fun room => by omega, fun some => absurd some none, fun small => ?_⟩
    refine iff_of_false none ?_
    rw [page small, invariant.bytesKept_page] at kept
    rw [page small] at positiveSize
    omega

/-- With one of two pages in use, another page is there to be had, and the arena is not. -/
theorem buddyAlloc_capacity_page :
    (∃ result after, (buddyAlloc .dev 1).run (twoPages [.split, .allocated, .free] [2, 1])
      = .ok result after ∧ ∃ block, result = .ok block) ∧
    ∃ result after, (buddyAlloc .dev 8192).run (twoPages [.split, .allocated, .free] [2, 1])
      = .ok result after ∧ ¬ ∃ block, result = .ok block := by
  obtain ⟨_, requests⟩ := buddyAlloc_capacity twoPages_arena twoPages_first
  -- One page of two is in use, so a page fits and the whole arena does not.
  obtain ⟨page, afterPage, ranPage, _, _, exact⟩ :=
    requests 1 4096 (by decide) (by decide) (by decide)
  obtain ⟨whole, afterWhole, ranWhole, _, room, _⟩ :=
    requests 8192 8192 (by decide) (by decide) (by decide)
  refine ⟨⟨page, afterPage, ranPage, (exact (by decide)).mpr (by decide)⟩,
    whole, afterWhole, ranWhole, fun granted => ?_⟩
  exact absurd (room granted) (by decide)

end Os1k.Memory
