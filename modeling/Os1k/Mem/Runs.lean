import Os1k.Mem.Blocks
import Os1k.Mem.Bootstrap

/-! Whole runs of allocations and frees, from the allocator that boot builds. -/

namespace Os1k

open Implicit

namespace Memory

/--
The allocator that `Memory::new` builds over a RAM range whose size is a power of two.

The range is at least a page, as the linker script provides it.
-/
structure PowerArena (profile : Profile) (ramStart ramEnd : Nat) (memory : Memory) : Prop where
  ordered : ramStart ≤ ramEnd
  word : ramEnd < wordLimit
  built : ∃ allocMemStart allocMemEnd written,
    (new profile (some ramStart) (some ramEnd) (some allocMemStart) (some allocMemEnd)).run []
      = .ok memory written
  power : ∃ order, ramEnd - ramStart = 2 ^ order
  page : pageSize ≤ ramEnd - ramStart

/-- A power-of-two arena is managed by a full tree, all of it free. -/
theorem PowerArena.shape {profile : Profile} {ramStart ramEnd : Nat} {memory : Memory}
    (arena : PowerArena profile ramStart ramEnd memory) :
    ∃ depth, memory.Shape depth ∧ memory.Canonical depth ∅ ∧ memory.start.addr = ramStart ∧
      memory.stop.addr = ramEnd := by
  have limit : wordLimit = 2 ^ 32 := rfl
  have pages : pageSize = 2 ^ 12 := rfl
  obtain ⟨_, _, _, built⟩ := arena.built
  obtain ⟨order, power⟩ := arena.power
  have page := arena.page
  have word := arena.word
  have ordered := arena.ordered
  obtain ⟨_, _, _, _, rfl, _⟩ := new_ok ordered word page built
  -- The arena has between one page and half of the address space.
  rw [power] at page
  have low : 12 ≤ order := (Nat.pow_le_pow_iff_right (by omega)).mp (pages ▸ page)
  have bounded : order < 32 := (Nat.pow_lt_pow_iff_right (by omega : 1 < 2)).mp (by omega)
  obtain ⟨depth, rfl⟩ := Nat.exists_eq_add_of_le' low
  have high : findOrder (ramEnd - ramStart) = depth + 12 := by
    rw [power]
    exact findOrder_two_pow (by omega) bounded
  -- Each page of the arena is a leaf, and a full tree has one node less than twice its leaves.
  have nodes : nodesFor (ramEnd - ramStart) = 2 ^ (depth + 1) - 1 := by
    rw [nodesFor, power, pages, Nat.pow_add, Nat.mul_div_cancel _ (Nat.two_pow_pos 12),
      Nat.pow_succ, Nat.mul_comm]
  refine ⟨depth, ⟨by omega, high, power, nodes, ?_, ?_, ?_, word⟩, ?_, rfl, rfl⟩
  · simp [Memory.states, laidOut, nodes]
  · simp [laidOut, high]
  · simp only [laidOut]
    omega
  · intro j inside
    have vacant : label ∅ j = .free := label_eq_free.mpr (by simp [Occupied])
    rw [vacant]
    simp only [Memory.states, laidOut, nodes]
    exact List.getElem?_replicate_of_lt (lt_of_level_le inside)

/-- A block in use, with the number of bytes it was requested for. -/
structure LiveBlock where
  request : Nat
  block : PhysAddr
  deriving DecidableEq, Repr

/--
The states that runs of the allocator reach, with the blocks in use.

Every call of a run returns, and only blocks in use are given back.
-/
inductive Reach (profile : Profile) (boot : Memory) : Memory → List LiveBlock → Prop where
  | boot : Reach profile boot boot []
  | alloc {memory after : Memory} {live : List LiveBlock} {n : Nat} {block : PhysAddr}
      (before : Reach profile boot memory live)
      (ran : (buddyAlloc profile n).run memory = .ok (.ok block) after) :
      Reach profile boot after (⟨n, block⟩ :: live)
  | refused {memory after : Memory} {live : List LiveBlock} {n : Nat} {error : MemError}
      (before : Reach profile boot memory live)
      (ran : (buddyAlloc profile n).run memory = .ok (.error error) after) :
      Reach profile boot after live
  | free {memory after : Memory} {live : List LiveBlock} {used : LiveBlock}
      (before : Reach profile boot memory live) (member : used ∈ live)
      (ran : (buddyFree profile used.block).run memory = .ok () after) :
      Reach profile boot after (live.erase used)

/-- The nodes whose blocks are in use. -/
def liveNodes (memory : Memory) (depth : Nat) (live : List LiveBlock) : Set Nat :=
  { i | level i ≤ depth ∧ memory.nodeBlock i ∈ live.map LiveBlock.block }

/-- The states are canonical for the blocks in use, and every one of these is a block of the tree. -/
structure Invariant (memory : Memory) (depth : Nat) (live : List LiveBlock) : Prop where
  shape : memory.Shape depth
  node : ∀ used ∈ live, ∃ i, level i ≤ depth ∧ used.block = memory.nodeBlock i ∧
    Request used.request depth (depth + 12 - level i)
  nodup : (live.map LiveBlock.block).Nodup
  apart : Apart (memory.liveNodes depth live)
  canonical : memory.Canonical depth (memory.liveNodes depth live)

namespace Invariant

variable {memory after : Memory} {depth : Nat} {live : List LiveBlock}

/-- An allocator with nothing in use satisfies the invariant when all of it is free. -/
theorem boot (shape : memory.Shape depth) (canonical : memory.Canonical depth ∅) :
    Invariant memory depth [] := by
  -- Nothing in use is no node in use.
  have none : memory.liveNodes depth [] = ∅ := by simp [liveNodes]
  refine ⟨shape, by simp, by simp, ?_, none ▸ canonical⟩
  rw [none]
  exact fun i member => absurd member (Set.notMem_empty i)

/-- The nodes in use depend on the arena and the blocks alone. -/
theorem liveNodes_congr (shape : memory.Shape depth) (otherShape : after.Shape depth)
    (start : after.start = memory.start) (live : List LiveBlock) :
    after.liveNodes depth live = memory.liveNodes depth live := by
  simp only [liveNodes, nodeBlock_congr shape otherShape start]

/-- A successful allocation keeps the invariant, with the new block in use. -/
theorem alloc (invariant : Invariant memory depth live) {order n node : Nat}
    (request : Request n depth order) (shape : after.Shape depth)
    (start : after.start = memory.start) (deep : level node + order = depth + 12)
    (clear : Clear (memory.liveNodes depth live) node)
    (canonical : after.Canonical depth (insert node (memory.liveNodes depth live))) :
    Invariant after depth (⟨n, memory.nodeBlock node⟩ :: live) := by
  have page := request.page
  have same := nodeBlock_congr invariant.shape shape start
  -- One more block in use is one more node in use.
  have grown : after.liveNodes depth (⟨n, memory.nodeBlock node⟩ :: live)
      = insert node (memory.liveNodes depth live) := by
    rw [liveNodes_congr invariant.shape shape start]
    ext i
    simp only [liveNodes, List.map_cons, List.mem_cons, Set.mem_ofPred_eq, Set.mem_insert_iff]
    constructor
    · rintro ⟨inside, block | block⟩
      · exact .inl (nodeBlock_injective invariant.shape.located inside (by omega) block)
      · exact .inr ⟨inside, block⟩
    · rintro (rfl | ⟨inside, block⟩)
      · exact ⟨by omega, .inl rfl⟩
      · exact ⟨inside, .inr block⟩
  refine ⟨shape, ?_, ?_, ?_, grown ▸ canonical⟩
  · -- The new block is that of the node found, and the old ones did not move.
    intro used member
    rcases List.mem_cons.mp member with rfl | member
    · refine ⟨node, by omega, (same node).symm, ?_⟩
      have exponent : depth + 12 - level node = order := by omega
      rw [exponent]
      exact request
    · obtain ⟨i, inside, block, bounds⟩ := invariant.node used member
      exact ⟨i, inside, block.trans (same i).symm, bounds⟩
  · -- A node that is clear is not in use yet.
    rw [List.map_cons, List.nodup_cons]
    refine ⟨fun member => ?_, invariant.nodup⟩
    exact (clear node ⟨by omega, member⟩).1 (Under.refl node)
  · rw [grown]
    exact invariant.apart.insert clear

/-- Giving back the block of a node leaves the other nodes in use. -/
theorem liveNodes_erase (invariant : Invariant memory depth live) {used : LiveBlock} {i : Nat}
    (member : used ∈ live) (inside : level i ≤ depth) (block : used.block = memory.nodeBlock i) :
    memory.liveNodes depth (live.erase used) = memory.liveNodes depth live \ {i} := by
  have nodup := invariant.nodup
  ext j
  simp only [liveNodes, Set.mem_ofPred_eq, Set.mem_sdiff, Set.mem_singleton_iff, List.mem_map]
  constructor
  · rintro ⟨shallow, other, kept, same⟩
    refine ⟨⟨shallow, other, List.mem_of_mem_erase kept, same⟩, ?_⟩
    -- No other block in use is the same block, so what was kept is not what was given back.
    rintro rfl
    have equal : other = used := List.inj_on_of_nodup_map nodup (List.mem_of_mem_erase kept) member
      (same.trans block.symm)
    subst equal
    exact (List.Nodup.of_map _ nodup).not_mem_erase kept
  · rintro ⟨⟨shallow, other, was, same⟩, different⟩
    refine ⟨shallow, other, (List.mem_erase_of_ne ?_).mpr was, same⟩
    rintro rfl
    exact different (nodeBlock_injective invariant.shape.located shallow inside (same.symm.trans block))

/-- Giving back a block in use keeps the invariant, with one block less in use. -/
theorem free (invariant : Invariant memory depth live) {used : LiveBlock} {i : Nat}
    {states : List BlockState} (member : used ∈ live) (inside : level i ≤ depth)
    (block : used.block = memory.nodeBlock i) (shape : (memory.withStates states).Shape depth)
    (canonical : (memory.withStates states).Canonical depth (memory.liveNodes depth live \ {i})) :
    Invariant (memory.withStates states) depth (live.erase used) := by
  -- One block less in use is one node less in use.
  have shrunk : (memory.withStates states).liveNodes depth (live.erase used)
      = memory.liveNodes depth live \ {i} := by
    rw [liveNodes_congr invariant.shape shape rfl, invariant.liveNodes_erase member inside block]
  refine ⟨shape, ?_, ?_, ?_, shrunk ▸ canonical⟩
  · intro other kept
    exact invariant.node other (List.mem_of_mem_erase kept)
  · exact invariant.nodup.sublist (List.erase_sublist.map _)
  · rw [shrunk]
    exact invariant.apart.mono Set.sdiff_subset

/-- The invariant does not see the search stack. -/
theorem congr (invariant : Invariant memory depth live) (shape : after.Shape depth)
    (start : after.start = memory.start) (states : after.states = memory.states) :
    Invariant after depth live := by
  -- The nodes in use are given by the blocks and the start of the arena.
  have nodes := liveNodes_congr invariant.shape shape start live
  refine ⟨shape, ?_, invariant.nodup, nodes ▸ invariant.apart, ?_⟩
  · intro used member
    obtain ⟨i, inside, block, bounds⟩ := invariant.node used member
    exact ⟨i, inside, block.trans (nodeBlock_congr invariant.shape shape start i).symm, bounds⟩
  · intro j inside
    rw [states, nodes]
    exact invariant.canonical j inside

/-- An allocation that returns keeps the invariant, with the block it handed out in use. -/
theorem run_alloc (invariant : Invariant memory depth live) {profile : Profile} {n : Nat}
    {block : PhysAddr} (ran : (buddyAlloc profile n).run memory = .ok (.ok block) after) :
    after.start = memory.start ∧ Invariant after depth (⟨n, block⟩ :: live) := by
  by_cases bad : n = 0 ∨ memory.memSize < n
  · -- Such a request is refused, so it did not return a block.
    obtain ⟨error, refused⟩ := run_buddyAlloc_refused bad profile
    rw [ran] at refused
    simp at refused
  · obtain ⟨order, request, spec⟩ := run_buddyAlloc invariant.shape invariant.canonical
      (by omega : 0 < n) (by omega) profile
    rw [ran] at spec
    cases spec with
    | found shape start deep clear first canonical =>
      exact ⟨start, invariant.alloc request shape start deep clear canonical⟩

/-- An allocation that fails keeps the invariant and every state. -/
theorem run_refused (invariant : Invariant memory depth live) {profile : Profile} {n : Nat}
    {error : MemError} (ran : (buddyAlloc profile n).run memory = .ok (.error error) after) :
    after.start = memory.start ∧ after.states = memory.states ∧ Invariant after depth live := by
  -- A request fails because of its size, or because the search finds nothing.
  by_cases bad : n = 0 ∨ memory.memSize < n
  · obtain ⟨_, refused⟩ := run_buddyAlloc_refused bad profile
    rw [ran] at refused
    simp only [EStateM.Result.ok.injEq] at refused
    obtain ⟨_, rfl⟩ := refused
    exact ⟨rfl, rfl, invariant⟩
  · obtain ⟨order, request, spec⟩ := run_buddyAlloc invariant.shape invariant.canonical
      (by omega : 0 < n) (by omega) profile
    rw [ran] at spec
    cases spec with
    | full shape start states _ => exact ⟨start, states, invariant.congr shape start states⟩

/-- The block of a node in use is in use as a node. -/
theorem mem_liveNodes {used : LiveBlock} {i : Nat} (member : used ∈ live)
    (inside : level i ≤ depth) (block : used.block = memory.nodeBlock i) :
    i ∈ memory.liveNodes depth live :=
  ⟨inside, block ▸ List.mem_map_of_mem (f := LiveBlock.block) member⟩

/-- Every block in use can be given back, unless it is the whole arena. -/
theorem run_free (invariant : Invariant memory depth live) (profile : Profile) {used : LiveBlock}
    (member : used ∈ live) (smaller : used.block.size ≠ some memory.memSize) :
    ∃ states, (buddyFree profile used.block).run memory = .ok () (memory.withStates states) ∧
      Invariant (memory.withStates states) depth (live.erase used) := by
  -- A block that is smaller than the arena is not that of the root.
  obtain ⟨i, inside, block, _⟩ := invariant.node used member
  have nonroot : 0 < i := by
    rcases Nat.eq_zero_or_pos i with rfl | positive
    · simp [block, nodeBlock, invariant.shape.high, invariant.shape.size] at smaller
    · exact positive
  obtain ⟨states, ran, shape, canonical⟩ := run_buddyFree invariant.shape invariant.canonical
    invariant.apart (mem_liveNodes member inside block) inside nonroot profile
  exact ⟨states, block ▸ ran, invariant.free member inside block shape canonical⟩

/-- The whole arena cannot be given back. -/
theorem run_free_whole (invariant : Invariant memory depth live) (profile : Profile)
    {used : LiveBlock} (member : used ∈ live) (whole : used.block.size = some memory.memSize) :
    ∃ fault halted, (buddyFree profile used.block).run memory = .error fault halted := by
  -- Only the block of the root is as large as the arena.
  obtain ⟨i, inside, block, _⟩ := invariant.node used member
  have root : i = 0 := by
    rcases Nat.eq_zero_or_pos i with zero | positive
    · exact zero
    · have less := (root_iff_size invariant.shape inside).mpr positive
      rw [block] at whole
      simp only [nodeBlock, invariant.shape.high, Option.some.injEq] at whole
      omega
  subst root
  rw [block]
  exact run_buddyFree_root invariant.shape invariant.canonical invariant.apart
    (mem_liveNodes member inside block) profile

/-- The order in which blocks in use are listed does not matter. -/
theorem perm (invariant : Invariant memory depth live) {other : List LiveBlock}
    (perm : other.Perm live) : Invariant memory depth other := by
  -- The nodes in use are a set, which has no order.
  have nodes : memory.liveNodes depth other = memory.liveNodes depth live := by
    ext i
    exact and_congr_right fun _ => (perm.map LiveBlock.block).mem_iff
  refine ⟨invariant.shape, fun used member => invariant.node used (perm.subset member), ?_, ?_, ?_⟩
  · exact (perm.map LiveBlock.block).nodup_iff.mpr invariant.nodup
  · rw [nodes]
    exact invariant.apart
  · rw [nodes]
    exact invariant.canonical

/-- The node states of an arena depend on its blocks in use alone. -/
theorem states_eq {other : Memory} {otherLive : List LiveBlock}
    (invariant : Invariant memory depth live) (otherInvariant : Invariant other depth otherLive)
    (start : other.start = memory.start)
    (same : ∀ block, block ∈ live.map LiveBlock.block ↔ block ∈ otherLive.map LiveBlock.block) :
    memory.states = other.states := by
  -- The same blocks are the same nodes, and the nodes in use determine every state.
  have nodes : other.liveNodes depth otherLive = memory.liveNodes depth live := by
    rw [liveNodes_congr invariant.shape otherInvariant.shape start]
    ext i
    exact and_congr_right fun _ => (same _).symm
  exact Canonical.states_eq invariant.shape otherInvariant.shape invariant.canonical
    (nodes ▸ otherInvariant.canonical)

/-- A block in use holds what it was requested for and lies inside the arena. -/
theorem room (invariant : Invariant memory depth live) {used : LiveBlock} (member : used ∈ live) :
    ∃ size, used.block.size = some size ∧ used.request ≤ size ∧
      memory.start.addr ≤ used.block.addr ∧ used.block.addr + size ≤ memory.stop.addr := by
  -- A block in use is that of a node, whose size was chosen for the request.
  obtain ⟨i, inside, block, request⟩ := invariant.node used member
  obtain ⟨low, high⟩ := nodeBlock_inside invariant.shape inside
  refine ⟨2 ^ (depth + 12 - level i), by simp [block, nodeBlock, invariant.shape.high],
    (le_max_left _ _).trans request.covers, ?_, ?_⟩
  · rw [block]
    exact low
  · rw [block]
    exact high

/-- Blocks in use do not overlap. -/
theorem disjoint (invariant : Invariant memory depth live) :
    live.Pairwise fun first second => Disjoint first.block.bytes second.block.bytes := by
  have nodup := invariant.nodup
  rw [List.Nodup, List.pairwise_map] at nodup
  refine nodup.imp_of_mem ?_
  intro first second memberFirst memberSecond different
  -- Different entries are different blocks, and different nodes in use are not nested.
  obtain ⟨i, insideFirst, blockFirst, _⟩ := invariant.node first memberFirst
  obtain ⟨j, insideSecond, blockSecond, _⟩ := invariant.node second memberSecond
  have liveFirst := mem_liveNodes memberFirst insideFirst blockFirst
  have liveSecond := mem_liveNodes memberSecond insideSecond blockSecond
  rw [blockFirst, blockSecond] at different ⊢
  refine disjoint_bytes invariant.shape insideFirst insideSecond ?_ ?_
  · intro under
    exact different (by rw [invariant.apart i liveFirst j liveSecond under])
  · intro under
    exact different (by rw [invariant.apart j liveSecond i liveFirst under])

end Invariant

/-- Every state that a run reaches satisfies the invariant. -/
theorem Reach.invariant {profile : Profile} {boot memory : Memory} {depth : Nat}
    {live : List LiveBlock} (shape : boot.Shape depth) (canonical : boot.Canonical depth ∅)
    (reach : Reach profile boot memory live) :
    memory.start = boot.start ∧ Invariant memory depth live := by
  induction reach with
  | boot => exact ⟨rfl, Invariant.boot shape canonical⟩
  | alloc before ran ih =>
    obtain ⟨start, kept⟩ := ih.2.run_alloc ran
    exact ⟨start.trans ih.1, kept⟩
  | refused before ran ih =>
    obtain ⟨start, _, kept⟩ := ih.2.run_refused ran
    exact ⟨start.trans ih.1, kept⟩
  | free before member ran ih =>
    obtain ⟨start, invariant⟩ := ih
    -- A free that returned was not a free of the whole arena.
    rename_i held _ _ used
    by_cases whole : used.block.size = some held.memSize
    · obtain ⟨fault, halted, stopped⟩ := invariant.run_free_whole profile member whole
      rw [ran] at stopped
      simp at stopped
    · obtain ⟨states, returned, kept⟩ := invariant.run_free profile member whole
      rw [ran, EStateM.Result.ok.injEq] at returned
      rw [returned.2]
      exact ⟨start, kept⟩

end Memory

end Os1k
