import Os1k.Mem.Runs

/-! What holds of the buddy allocator in every state that its runs reach. -/

namespace Os1k.Memory

open Implicit

variable {profile : Profile} {ramStart ramEnd : Nat} {boot memory : Memory} {live : List LiveBlock}

/-- The allocator of an arena of two pages, with the given node states and search stack. -/
def twoPages (states : List BlockState) (stack : List Nat) : Memory where
  start := ⟨0x80000000, none⟩
  stop := ⟨0x80002000, none⟩
  memSize := 0x2000
  buddyNodeCount := 3
  buddyHighOrder := 13
  buddyLowOrder := 12
  buddyStackSize := 12
  buddyStack := { addr := 0x70001000, elems := stack }
  buddyMeta := { addr := 0x70000000, elems := states }

/-- Boot builds the allocator of two pages with both of them free. -/
theorem twoPages_arena :
    PowerArena .dev 0x80000000 0x80002000 (twoPages [.free, .free, .free] [0, 0]) where
  ordered := by decide
  word := by decide
  built := ⟨0x70000000, 0x70080000, _, rfl⟩
  power := ⟨13, rfl⟩
  page := by decide

/-- A small request takes the first of the two pages. -/
theorem twoPages_first : Reach .dev (twoPages [.free, .free, .free] [0, 0])
    (twoPages [.split, .allocated, .free] [2, 1]) [⟨100, ⟨0x80000000, some 0x1000⟩⟩] :=
  .alloc .boot rfl

/-- A strict ancestor of a node in use is exactly a block that strictly covers one in use. -/
theorem Invariant.occupied_iff {depth : Nat} (invariant : Invariant memory depth live) {i : Nat}
    (inside : level i ≤ depth) :
    (i ∉ memory.liveNodes depth live ∧ Occupied (memory.liveNodes depth live) i) ↔
      ∃ used ∈ live, used.block.bytes ⊂ (memory.nodeBlock i).bytes := by
  constructor
  · -- Blocks below a node lie inside its block.
    rintro ⟨spare, j, ⟨deep, found⟩, under⟩
    obtain ⟨used, member, block⟩ := List.mem_map.mp found
    refine ⟨used, member, ?_⟩
    rw [block, bytes_ssubset_iff invariant.shape inside deep]
    refine ⟨under, ?_⟩
    rintro rfl
    exact spare ⟨deep, found⟩
  · -- A block that covers another belongs to a node above it.
    rintro ⟨used, member, covered⟩
    obtain ⟨j, deep, block, _⟩ := invariant.node used member
    rw [block, bytes_ssubset_iff invariant.shape inside deep] at covered
    have mine := Invariant.mem_liveNodes member deep block
    refine ⟨fun also => covered.2 ?_, j, mine, covered.1⟩
    exact invariant.apart i also j mine covered.1

/--
The node states are a function of the blocks in use.

A node is allocated when its block is in use, split when its block strictly covers one in use, and
free otherwise. Runs that end with the same blocks in use end with the same states.
-/
theorem buddyMeta_canonical (arena : PowerArena profile ramStart ramEnd boot)
    (reach : Reach profile boot memory live) :
    (∀ i < memory.buddyNodeCount, ∃ state, memory.buddyMeta.elems[i]? = some state ∧
      (state = .allocated ↔ memory.nodeBlock i ∈ live.map LiveBlock.block) ∧
      (state = .split ↔ ∃ used ∈ live, used.block.bytes ⊂ (memory.nodeBlock i).bytes) ∧
      (state = .free ↔ memory.nodeBlock i ∉ live.map LiveBlock.block ∧
        ¬ ∃ used ∈ live, used.block.bytes ⊂ (memory.nodeBlock i).bytes)) ∧
    (∀ {other : Memory} {otherLive : List LiveBlock}, Reach profile boot other otherLive →
      (∀ block, block ∈ live.map LiveBlock.block ↔ block ∈ otherLive.map LiveBlock.block) →
      memory.buddyMeta.elems = other.buddyMeta.elems) ∧
    (live = [] → memory.buddyMeta.elems = List.replicate memory.buddyNodeCount .free) := by
  obtain ⟨depth, shape, canonical, _⟩ := arena.shape
  obtain ⟨start, invariant⟩ := reach.invariant shape canonical
  refine ⟨?_, ?_, ?_⟩
  · -- The labels say the same of nodes as the blocks in use do of bytes.
    intro i index
    rw [invariant.shape.nodes] at index
    have inside := level_le_of_lt index
    have allocated : i ∈ memory.liveNodes depth live ↔
        memory.nodeBlock i ∈ live.map LiveBlock.block := ⟨fun member => member.2, (⟨inside, ·⟩)⟩
    refine ⟨_, invariant.canonical i inside, ?_, ?_, ?_⟩
    · rw [label_eq_allocated, allocated]
    · rw [label_eq_split, invariant.occupied_iff inside]
    · rw [← invariant.occupied_iff inside, ← allocated, label_eq_free]
      constructor
      · exact fun vacant => ⟨fun member => vacant ⟨i, member, Under.refl i⟩, fun both => vacant both.2⟩
      · exact fun both occupied => both.2 ⟨both.1, occupied⟩
  · -- Labels depend on the nodes in use alone.
    intro other otherLive otherReach same
    obtain ⟨otherStart, otherInvariant⟩ := otherReach.invariant shape canonical
    exact invariant.states_eq otherInvariant (otherStart.trans start.symm) same
  · rintro rfl
    have none : memory.liveNodes depth [] = ∅ := by simp [liveNodes]
    have vacant := invariant.canonical
    rw [none] at vacant
    -- With nothing in use every node has the state it was built with.
    apply List.ext_getElem?
    intro i
    by_cases index : i < memory.buddyNodeCount
    · rw [List.getElem?_replicate_of_lt index]
      rw [invariant.shape.nodes] at index
      have free : label ∅ i = .free := label_eq_free.mpr (by simp [Occupied])
      rw [← free]
      exact vacant i (level_le_of_lt index)
    · have length : memory.buddyMeta.elems.length = memory.buddyNodeCount :=
        invariant.shape.states.trans invariant.shape.nodes.symm
      rw [List.getElem?_eq_none (by omega), List.getElem?_eq_none (by simpa using index)]

/-- The node of the first page is allocated, since its block is in use. -/
theorem buddyMeta_first_page :
    PowerArena .dev 0x80000000 0x80002000 (twoPages [.free, .free, .free] [0, 0]) ∧
    Reach .dev (twoPages [.free, .free, .free] [0, 0])
      (twoPages [.split, .allocated, .free] [2, 1]) [⟨100, ⟨0x80000000, some 0x1000⟩⟩] ∧
    (twoPages [.split, .allocated, .free] [2, 1]).nodeBlock 1
      ∈ [(⟨100, ⟨0x80000000, some 0x1000⟩⟩ : LiveBlock)].map LiveBlock.block := by
  refine ⟨twoPages_arena, twoPages_first, ?_⟩
  obtain ⟨state, found, allocated, _⟩ :=
    (buddyMeta_canonical twoPages_arena twoPages_first).1 1 (by decide)
  have first : state = .allocated := by simpa [twoPages] using found.symm
  exact allocated.mp first

/--
Blocks in use are page-aligned powers of two that fit their requests, inside the arena and disjoint.
-/
theorem live_blocks_disjoint (arena : PowerArena profile ramStart ramEnd boot)
    (aligned : ramStart % pageSize = 0) (reach : Reach profile boot memory live) :
    (∀ used ∈ live, ∃ size, used.block.size = some size ∧ (∃ order, size = 2 ^ order) ∧
      max used.request pageSize ≤ size ∧ size < 2 * max used.request pageSize ∧
      used.block.addr % pageSize = 0 ∧ size ∣ used.block.addr - ramStart ∧
      ramStart ≤ used.block.addr ∧ used.block.addr + size ≤ ramEnd) ∧
    live.Pairwise (fun first second => Disjoint first.block.bytes second.block.bytes) := by
  obtain ⟨depth, shape, canonical, origin, limit⟩ := arena.shape
  obtain ⟨start, invariant⟩ := reach.invariant shape canonical
  have stop : memory.stop.addr = ramEnd := by
    rw [invariant.shape.stop, start, ← shape.stop, limit]
  refine ⟨?_, invariant.disjoint⟩
  intro used member
  -- Each block in use is that of a node on the level of its request.
  obtain ⟨i, inside, block, request⟩ := invariant.node used member
  obtain ⟨low, high⟩ := nodeBlock_inside invariant.shape inside
  have page : pageSize ∣ 2 ^ (depth + 12 - level i) := Nat.pow_dvd_pow 2 request.page
  refine ⟨2 ^ (depth + 12 - level i), by simp [block, nodeBlock, invariant.shape.high],
    ⟨_, rfl⟩, request.covers, request.tight, ?_⟩
  rw [start, origin] at low
  rw [block]
  simp only [nodeBlock]
  -- The block lies a whole number of its own sizes past the start.
  have offset : memory.nodeAddr i = ramStart + slot i * 2 ^ (depth + 12 - level i) := by
    simp only [nodeAddr, invariant.shape.high, start, origin]
  refine ⟨?_, ?_, low, stop ▸ high⟩
  · rw [offset]
    exact Nat.mod_eq_zero_of_dvd (Nat.dvd_add (Nat.dvd_of_mod_eq_zero aligned)
      (page.trans (Nat.dvd_mul_left _ _)))
  · rw [offset, Nat.add_sub_cancel_left]
    exact Nat.dvd_mul_left _ _

/-- The blocks of a request for a few bytes and of one for a page do not overlap. -/
theorem live_blocks_disjoint_pages :
    Disjoint (PhysAddr.bytes ⟨0x80001000, some 0x1000⟩)
      (PhysAddr.bytes ⟨0x80000000, some 0x1000⟩) := by
  -- A second request is served from the buddy of the first.
  have both : Reach .dev (twoPages [.free, .free, .free] [0, 0])
      (twoPages [.split, .allocated, .allocated] [2, 1])
      [⟨0x1000, ⟨0x80001000, some 0x1000⟩⟩, ⟨100, ⟨0x80000000, some 0x1000⟩⟩] :=
    .alloc twoPages_first rfl
  exact List.rel_of_pairwise_cons (live_blocks_disjoint twoPages_arena (by decide) both).2
    List.mem_cons_self

/-- A block in use can be given back exactly when it is not the whole arena. -/
theorem buddyFree_returns_iff (arena : PowerArena profile ramStart ramEnd boot)
    (reach : Reach profile boot memory live) {used : LiveBlock} (member : used ∈ live) :
    (∃ after, (buddyFree profile used.block).run memory = .ok () after) ↔
      used.block.size ≠ some (ramEnd - ramStart) := by
  obtain ⟨depth, shape, canonical, origin, limit⟩ := arena.shape
  obtain ⟨start, invariant⟩ := reach.invariant shape canonical
  have size : memory.memSize = ramEnd - ramStart := by
    have stop := shape.stop
    rw [origin, limit] at stop
    rw [invariant.shape.size, stop, Nat.add_sub_cancel_left]
  rw [← size]
  constructor
  · -- Only the root has the size of the arena.
    rintro ⟨after, ran⟩ whole
    obtain ⟨fault, halted, stopped⟩ := invariant.run_free_whole profile member whole
    rw [ran] at stopped
    simp at stopped
  · intro smaller
    obtain ⟨states, ran, _⟩ := invariant.run_free profile member smaller
    exact ⟨_, ran⟩

/-- The first page can be given back while it is in use. -/
theorem buddyFree_returns_page :
    ∃ after, (buddyFree .dev ⟨0x80000000, some 0x1000⟩).run
      (twoPages [.split, .allocated, .free] [2, 1]) = .ok () after :=
  (buddyFree_returns_iff twoPages_arena twoPages_first List.mem_cons_self).mpr (by simp)

/-- A request for both pages is met, and giving its block back panics. -/
theorem buddyFree_whole_panics :
    PowerArena .dev 0x80000000 0x80002000 (twoPages [.free, .free, .free] [0, 0]) ∧
    Reach .dev (twoPages [.free, .free, .free] [0, 0]) (twoPages [.allocated, .free, .free] [0, 0])
      [⟨0x2000, ⟨0x80000000, some 0x2000⟩⟩] ∧
    (buddyFree .dev ⟨0x80000000, some 0x2000⟩).run (twoPages [.allocated, .free, .free] [0, 0]) =
      .error (.overflow .subtract) (twoPages [.free, .free, .free] [0, 0]) := by
  -- The whole arena is handed out; its node has no parent to merge into.
  refine ⟨twoPages_arena, .alloc .boot ?_, ?_⟩
  · have power : nextPowerOfTwo usizeBits 0x2000 = some 0x2000 := rfl
    have order : findOrder 0x2000 = 13 := rfl
    simp [buddyAlloc, twoPages, EStateM.run_bind, EStateM.run_get, pageSize, power, expect, order]
    rfl
  · simp [buddyFree, twoPages]
    rfl

end Os1k.Memory
