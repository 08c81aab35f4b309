import Mathlib
import Os1k.Mem.Geometry

/-! How boot lays out the allocator's own data in the region reserved for it. -/

namespace Os1k

/-- The bytes of a range. -/
def ByteRange.bytes (range : ByteRange) : Set Nat :=
  Set.Ico range.first (range.first + range.length)

/-- A range that starts and ends inside another one is part of it. -/
theorem ByteRange.bytes_subset {inner outer : ByteRange} (low : outer.first ≤ inner.first)
    (high : inner.first + inner.length ≤ outer.first + outer.length) :
    inner.bytes ⊆ outer.bytes := Set.Ico_subset_Ico low high

/-- A range that starts with another one and is not longer is part of it. -/
theorem ByteRange.bytes_mono {first short long : Nat} (fits : short ≤ long) :
    (ByteRange.mk first short).bytes ⊆ (ByteRange.mk first long).bytes :=
  bytes_subset (Nat.le_refl first) (Nat.add_le_add_left fits first)

/-- A range that ends where another one starts has nothing in common with it. -/
theorem ByteRange.bytes_disjoint {first second : ByteRange}
    (before : first.first + first.length ≤ second.first) : Disjoint first.bytes second.bytes := by
  unfold bytes
  rw [Set.Ico_disjoint_Ico]
  exact (Nat.min_le_left _ _).trans (before.trans (Nat.le_max_right _ _))

/-- The size of the whole pages that hold a number of bytes. -/
def wholePages (bytes : Nat) : Nat := divCeil bytes pageSize * pageSize

/-- Whole pages hold the bytes, with less than a page to spare. -/
theorem wholePages_bounds (bytes : Nat) :
    bytes ≤ wholePages bytes ∧ wholePages bytes < bytes + pageSize := by
  unfold wholePages divCeil pageSize
  split
  · omega
  · omega

namespace InitialAlloc

variable {profile : Profile} {alloc rest : InitialAlloc} {n : Nat} {log after : List ByteRange}
  {block : PhysAddr}

/-- Pages that the region still holds are handed out in either profile. -/
theorem run_pageAlloc (profile : Profile) (log : List ByteRange)
    (fits : alloc.next + n * pageSize ≤ alloc.stop) (word : alloc.stop < wordLimit) :
    (alloc.pageAlloc profile n).run log =
      .ok (⟨alloc.next, some (n * pageSize)⟩, { alloc with next := alloc.next + n * pageSize })
        log := by
  unfold pageAlloc
  simp only [profile.mul_eq (by omega : n * pageSize < wordLimit), pure_bind,
    profile.add_eq (by omega : alloc.next + n * pageSize < wordLimit), if_pos fits,
    EStateM.run_pure]

/-- What was handed out lies from the next address on, whose successor is reduced to a word. -/
theorem pageAlloc_ok (small : n * pageSize < wordLimit)
    (ran : (alloc.pageAlloc profile n).run log = .ok (block, rest) after) :
    block.addr = alloc.next ∧ rest.stop = alloc.stop ∧
      rest.next = (alloc.next + n * pageSize) % wordLimit ∧ rest.next ≤ alloc.stop ∧
      after = log := by
  unfold pageAlloc at ran
  simp only [profile.mul_eq small, pure_bind] at ran
  obtain ⟨top, _, sum, tested⟩ := Exec.run_bind_ok.mp ran
  obtain ⟨rfl, rfl⟩ := profile.add_wrap sum
  -- The limit is tested on the reduced sum, and the next address is the same sum once more.
  split at tested
  · next fits =>
    obtain ⟨next, _, again, returned⟩ := Exec.run_bind_ok.mp tested
    obtain ⟨rfl, rfl⟩ := profile.add_wrap again
    simp only [EStateM.run_pure, EStateM.Result.ok.injEq, Prod.mk.injEq] at returned
    obtain ⟨⟨rfl, rfl⟩, rfl⟩ := returned
    exact ⟨rfl, rfl, rfl, fits, rfl⟩
  · exact absurd tested nofun

end InitialAlloc

/-- The order of a number of pages is its logarithm rounded down. -/
theorem findOrder_pages {size : Nat} (positive : 0 < size) (pages : size % 4096 = 0) :
    findOrder size = Nat.log2 size := by
  have limit : wordLimit = 4294967296 := rfl
  have bounds : 2 ^ Nat.log2 size ≤ size ∧ size < 2 ^ (Nat.log2 size + 1) :=
    ⟨Nat.log2_self_le (by omega), Nat.lt_log2_self⟩
  unfold findOrder
  rw [if_neg (by omega)]
  -- Neither a number of pages nor a power of two is odd, so adding one crosses no power.
  refine (Nat.log2_eq_iff (by omega)).mpr ⟨by omega, ?_⟩
  have even : 2 ^ (Nat.log2 size + 1) % 2 = 0 := by
    rw [Nat.pow_succ]
    omega
  omega

/-- The order of a word is between that of a page and the width of words. -/
theorem findOrder_bounds {size : Nat} (page : pageSize ≤ size) (word : size < wordLimit) :
    12 ≤ findOrder size ∧ findOrder size ≤ 32 := by
  have limit : wordLimit = 4294967296 := rfl
  have pages : pageSize = 4096 := rfl
  unfold findOrder usizeBits
  -- The order is the logarithm, which is between those of a page and of the limit.
  split
  · omega
  · exact ⟨(Nat.le_log2 (by omega)).mpr (by omega),
      Nat.le_of_lt_succ ((Nat.log2_lt (by omega)).mpr (by omega))⟩

/-- The pages of a range fill the leaves of a tree of its order, but not those of a deeper one. -/
theorem findOrder_leaves {size : Nat} (page : pageSize ≤ size) (pages : size % pageSize = 0) :
    2 ^ (findOrder size - 12) ≤ size / pageSize ∧
      size / pageSize < 2 ^ (findOrder size - 12 + 1) := by
  unfold pageSize at *
  have bounds : 2 ^ Nat.log2 size ≤ size ∧ size < 2 ^ (Nat.log2 size + 1) :=
    ⟨Nat.log2_self_le (by omega), Nat.lt_log2_self⟩
  have low : 12 ≤ Nat.log2 size := (Nat.le_log2 (by omega)).mpr page
  rw [findOrder_pages (by omega) pages]
  -- The size of the tree is that of its leaves times the size of a page.
  obtain ⟨depth, exact⟩ := Nat.exists_eq_add_of_le' low
  have split : 2 ^ (depth + 12) = 2 ^ depth * 4096 := Nat.pow_add 2 depth 12
  have double : 2 ^ (depth + 12 + 1) = 2 ^ (depth + 12) * 2 := Nat.pow_succ _ _
  rw [exact, double, split] at bounds
  rw [exact, Nat.add_sub_cancel, Nat.pow_succ]
  omega

namespace Memory

/-- The number of nodes that are kept for a size of memory. -/
def nodesFor (size : Nat) : Nat := 2 * (size / pageSize) - 1

/-- Even memory as large as the address space has few nodes. -/
theorem nodesFor_lt {size : Nat} (word : size < wordLimit) : nodesFor size < 2 ^ 21 := by
  have limit : wordLimit = 4294967296 := rfl
  unfold nodesFor pageSize
  omega

/-- The allocator of a RAM range, all of it free, with its own data at two addresses. -/
def laidOut (ramStart ramEnd metaAddr stackAddr : Nat) : Memory where
  start := ⟨ramStart, none⟩
  stop := ⟨ramEnd, none⟩
  memSize := ramEnd - ramStart
  buddyNodeCount := nodesFor (ramEnd - ramStart)
  buddyHighOrder := findOrder (ramEnd - ramStart)
  buddyLowOrder := 12
  buddyStackSize := nodesFor (ramEnd - ramStart) * 4
  buddyStack :=
    { addr := stackAddr, elems := List.replicate (findOrder (ramEnd - ramStart) - 12 + 1) 0 }
  buddyMeta :=
    { addr := metaAddr, elems := List.replicate (nodesFor (ramEnd - ramStart)) .free }

/-- What boot writes, the latest first: the stack, the states, and the whole region before them. -/
def bootWrites (nodes allocMemStart allocMemEnd stackAddr : Nat) : List ByteRange :=
  [⟨stackAddr, 4 * nodes⟩, ⟨allocMemStart, nodes⟩,
    ⟨allocMemStart, (((allocMemEnd : Int) - allocMemStart) % wordLimit).toNat⟩]

section Layout

variable {ramStart ramEnd allocMemStart allocMemEnd : Nat}

/-- The arithmetic on sizes is exact in either profile, which leaves the two reservations. -/
theorem new_eq (profile : Profile) (ordered : ramStart ≤ ramEnd) (word : ramEnd < wordLimit)
    (page : pageSize ≤ ramEnd - ramStart) :
    new profile (some ramStart) (some ramEnd) (some allocMemStart) (some allocMemEnd) = do
      let scAlloc ← InitialAlloc.new allocMemStart allocMemEnd
      let (metaAddr, scAlloc) ← scAlloc.pageAlloc profile
        (divCeil (nodesFor (ramEnd - ramStart)) pageSize)
      writeBytes metaAddr.addr (nodesFor (ramEnd - ramStart))
      let (stackAddr, _) ← scAlloc.pageAlloc profile
        (divCeil (nodesFor (ramEnd - ramStart) * 4) pageSize)
      writeBytes stackAddr.addr (4 * nodesFor (ramEnd - ramStart))
      return laidOut ramStart ramEnd metaAddr.addr stackAddr.addr := by
  have limit : wordLimit = 4294967296 := rfl
  have pages : pageSize = 4096 := rfl
  have low : findOrder pageSize = 12 := by decide
  -- The bounds that keep every sum and product of the function below the limit.
  have orders := findOrder_bounds page (by omega)
  have few := nodesFor_lt (by omega : ramEnd - ramStart < wordLimit)
  have positive : 1 ≤ (ramEnd - ramStart) / pageSize := (Nat.one_le_div_iff (by omega)).mpr page
  have twice : 2 * ((ramEnd - ramStart) / pageSize) < wordLimit := by
    rw [pages]
    omega
  have nodes : 2 * ((ramEnd - ramStart) / pageSize) - 1 = nodesFor (ramEnd - ramStart) := rfl
  -- With them no operation overflows, so both profiles compute the same numbers.
  unfold new
  simp only [expect, pure_bind, low, profile.sub_eq ordered word, profile.mul_eq twice,
    profile.sub_eq (by omega : 1 ≤ 2 * ((ramEnd - ramStart) / pageSize)) twice, nodes,
    profile.mul_eq (by omega : nodesFor (ramEnd - ramStart) * 1 < wordLimit), Nat.mul_one,
    profile.sub_eq orders.1 (by omega),
    profile.add_eq (by omega : findOrder (ramEnd - ramStart) - 12 + 1 < wordLimit),
    profile.mul_eq (by omega : nodesFor (ramEnd - ramStart) * 4 < wordLimit)]
  rfl

/--
What a bootstrap that returned has built, and what it has written.

Nothing is assumed of the reserved region, so that addresses in it may have wrapped around.
-/
theorem new_ok {profile : Profile} {memory : Memory} {written : List ByteRange}
    (ordered : ramStart ≤ ramEnd) (word : ramEnd < wordLimit)
    (page : pageSize ≤ ramEnd - ramStart)
    (built : (new profile (some ramStart) (some ramEnd) (some allocMemStart)
      (some allocMemEnd)).run [] = .ok memory written) :
    ∃ stackAddr, stackAddr = (allocMemStart + wholePages (nodesFor (ramEnd - ramStart))) % wordLimit ∧
      (stackAddr + wholePages (nodesFor (ramEnd - ramStart) * 4)) % wordLimit ≤ allocMemEnd ∧
      stackAddr ≤ allocMemEnd ∧ memory = laidOut ramStart ramEnd allocMemStart stackAddr ∧
      written = bootWrites (nodesFor (ramEnd - ramStart)) allocMemStart allocMemEnd stackAddr := by
  have limit : wordLimit = 4294967296 := rfl
  have pages : pageSize = 4096 := rfl
  have few := nodesFor_lt (by omega : ramEnd - ramStart < wordLimit)
  have metaPages := wholePages_bounds (nodesFor (ramEnd - ramStart))
  have stackPages := wholePages_bounds (nodesFor (ramEnd - ramStart) * 4)
  unfold wholePages at metaPages stackPages
  rw [new_eq profile ordered word page] at built
  -- Each of the five steps returned.
  obtain ⟨scAlloc, _, zeroed, built⟩ := Exec.run_bind_ok.mp built
  cases zeroed
  obtain ⟨⟨metaAddr, rest⟩, _, states, built⟩ := Exec.run_bind_ok.mp built
  obtain ⟨first, stop, next, fits, rfl⟩ := InitialAlloc.pageAlloc_ok (by omega) states
  obtain ⟨_, _, marked, built⟩ := Exec.run_bind_ok.mp built
  cases marked
  obtain ⟨⟨stackAddr, last⟩, _, stack, built⟩ := Exec.run_bind_ok.mp built
  obtain ⟨second, _, lastNext, lastFits, rfl⟩ := InitialAlloc.pageAlloc_ok (by omega) stack
  obtain ⟨_, _, cleared, built⟩ := Exec.run_bind_ok.mp built
  cases cleared
  cases built
  -- The second reservation starts where the first one ended.
  refine ⟨stackAddr.addr, second.trans next, ?_, ?_, ?_, ?_⟩
  · rw [second]
    exact lastNext.symm.trans_le (lastFits.trans_eq stop)
  · rw [second]
    exact fits
  · rw [first]
  · rw [first]
    rfl

/-- A region that holds both reservations is enough for the bootstrap, in either profile. -/
theorem run_new (profile : Profile) (ordered : ramStart ≤ ramEnd) (word : ramEnd < wordLimit)
    (page : pageSize ≤ ramEnd - ramStart) (top : allocMemEnd < wordLimit)
    (fits : allocMemStart + wholePages (nodesFor (ramEnd - ramStart)) +
      wholePages (nodesFor (ramEnd - ramStart) * 4) ≤ allocMemEnd) :
    (new profile (some ramStart) (some ramEnd) (some allocMemStart) (some allocMemEnd)).run [] =
      .ok (laidOut ramStart ramEnd allocMemStart
          (allocMemStart + wholePages (nodesFor (ramEnd - ramStart))))
        (bootWrites (nodesFor (ramEnd - ramStart)) allocMemStart allocMemEnd
          (allocMemStart + wholePages (nodesFor (ramEnd - ramStart)))) := by
  unfold wholePages at fits ⊢
  -- One step for each of the two areas: take its pages, then fill it.
  rw [new_eq profile ordered word page]
  refine Exec.run_bind_ok.mpr ⟨_, _, rfl, ?_⟩
  refine Exec.run_bind_ok.mpr ⟨_, _, InitialAlloc.run_pageAlloc profile _ ?_ top, ?_⟩
  · exact Nat.le_of_add_right_le fits
  refine Exec.run_bind_ok.mpr ⟨_, _, rfl, ?_⟩
  refine Exec.run_bind_ok.mpr ⟨_, _, InitialAlloc.run_pageAlloc profile _ fits top, ?_⟩
  exact Exec.run_bind_ok.mpr ⟨_, _, rfl, rfl⟩

end Layout

/-- Every node of a full tree of the arena's order is kept. -/
theorem fullTree_le_nodesFor {size : Nat} (page : pageSize ≤ size) (pages : size % pageSize = 0) :
    2 ^ (findOrder size - 12 + 1) - 1 ≤ nodesFor size := by
  -- A full tree has one node less than twice its leaves, and there is a page for each leaf.
  have leaves := (findOrder_leaves page pages).1
  unfold nodesFor
  rw [Nat.pow_succ]
  omega

/-- The bytes that hold the states of the nodes, one for each. -/
def metaRange (memory : Memory) : ByteRange :=
  ⟨memory.buddyMeta.addr, memory.buddyMeta.elems.length⟩

/-- The bytes that hold the search stack, in words of four. -/
def stackRange (memory : Memory) : ByteRange :=
  ⟨memory.buddyStack.addr, 4 * memory.buddyStack.elems.length⟩

/--
The allocator's own data and all that boot wrote have their place in the reserved region.

The states and the stack have pages of their own. What is written to set up one of them stays in its
pages, and before that the whole region has been zeroed.
-/
structure Housed (memory : Memory) (written : List ByteRange)
    (reserved metaPages stackPages : ByteRange) : Prop where
  metaInside : metaPages.bytes ⊆ reserved.bytes
  stackInside : stackPages.bytes ⊆ reserved.bytes
  apart : Disjoint metaPages.bytes stackPages.bytes
  states : memory.metaRange.bytes ⊆ metaPages.bytes
  stack : memory.stackRange.bytes ⊆ stackPages.bytes
  writes : ∃ cleared marked, written = [cleared, marked, reserved] ∧
    cleared.bytes ⊆ stackPages.bytes ∧ marked.bytes ⊆ metaPages.bytes

/-- Data laid out behind one another is housed, if the region holds the pages of both. -/
theorem housed_laidOut {ramStart ramEnd allocMemStart allocMemEnd stackAddr : Nat}
    (page : pageSize ≤ ramEnd - ramStart) (pages : (ramEnd - ramStart) % pageSize = 0)
    (top : allocMemEnd < wordLimit)
    (place : stackAddr = allocMemStart + wholePages (nodesFor (ramEnd - ramStart)))
    (fits : stackAddr + wholePages (nodesFor (ramEnd - ramStart) * 4) ≤ allocMemEnd) :
    (laidOut ramStart ramEnd allocMemStart stackAddr).Housed
      (bootWrites (nodesFor (ramEnd - ramStart)) allocMemStart allocMemEnd stackAddr)
      ⟨allocMemStart, allocMemEnd - allocMemStart⟩
      ⟨allocMemStart, wholePages (nodesFor (ramEnd - ramStart))⟩
      ⟨stackAddr, wholePages (nodesFor (ramEnd - ramStart) * 4)⟩ := by
  have metaPages := (wholePages_bounds (nodesFor (ramEnd - ramStart))).1
  have stackPages := (wholePages_bounds (nodesFor (ramEnd - ramStart) * 4)).1
  -- The stack has an entry for each level, which are fewer than the nodes.
  have levels : findOrder (ramEnd - ramStart) - 12 + 1 ≤ nodesFor (ramEnd - ramStart) := by
    have grows := Nat.lt_two_pow_self (n := findOrder (ramEnd - ramStart) - 12 + 1)
    have full := fullTree_le_nodesFor page pages
    omega
  -- The region ends after it starts, so its length as a word is the difference.
  have length : (((allocMemEnd : Int) - allocMemStart) % wordLimit).toNat
      = allocMemEnd - allocMemStart := by
    rw [Int.emod_eq_of_lt (by omega) (by omega)]
    omega
  constructor
  case metaInside =>
    apply ByteRange.bytes_mono
    omega
  case stackInside =>
    apply ByteRange.bytes_subset
    · simp only
      omega
    · simp only
      omega
  case apart =>
    apply ByteRange.bytes_disjoint
    exact place.ge
  case states =>
    apply ByteRange.bytes_mono
    simp only [laidOut, List.length_replicate]
    exact metaPages
  case stack =>
    apply ByteRange.bytes_mono
    simp only [laidOut, List.length_replicate]
    omega
  case writes =>
    -- Clearing the stack writes a word for each node, far more than the stack has entries.
    refine ⟨_, _, by rw [bootWrites, length], ?_, ?_⟩
    · apply ByteRange.bytes_mono
      omega
    · apply ByteRange.bytes_mono
      exact metaPages

/--
A bootstrap that returns keeps to the region reserved for it, whichever profile it was built in.

The states and the stack lie in pages of their own there, and so does all that is written to set
them up. The profile that panics on overflow returns the same, so no product, sum or difference on
the way left the word range. There is a state for each node of a full tree from the order of the
arena down to that of a page, and an entry of the stack for each of its levels.
-/
theorem bootstrap_inside {profile : Profile} {ramStart ramEnd allocMemStart allocMemEnd : Nat}
    {memory : Memory} {written : List ByteRange} (region : allocMemStart ≤ allocMemEnd)
    (room : allocMemEnd + 16 * 2 ^ 20 ≤ wordLimit) (ordered : ramStart ≤ ramEnd)
    (word : ramEnd < wordLimit) (pages : (ramEnd - ramStart) % pageSize = 0)
    (page : pageSize ≤ ramEnd - ramStart)
    (built : (new profile (some ramStart) (some ramEnd) (some allocMemStart)
      (some allocMemEnd)).run [] = .ok memory written) :
    (∃ metaPages stackPages, memory.Housed written ⟨allocMemStart, allocMemEnd - allocMemStart⟩
      metaPages stackPages) ∧
    (new .dev (some ramStart) (some ramEnd) (some allocMemStart) (some allocMemEnd)).run [] =
      .ok memory written ∧
    memory.buddyMeta.elems.length = memory.buddyNodeCount ∧
    ∃ height, memory.buddyHighOrder = memory.buddyLowOrder + height ∧
      memory.buddyStack.elems.length = height + 1 ∧
      2 ^ (height + 1) - 1 ≤ memory.buddyNodeCount := by
  have pageBytes : pageSize = 4096 := rfl
  have few := nodesFor_lt (by omega : ramEnd - ramStart < wordLimit)
  have metaPages := wholePages_bounds (nodesFor (ramEnd - ramStart))
  have stackPages := wholePages_bounds (nodesFor (ramEnd - ramStart) * 4)
  obtain ⟨stackAddr, wrapped, lastFits, fits, rfl, rfl⟩ := new_ok ordered word page built
  -- Both reservations take less than the room behind the region, so that neither sum wraps around.
  have place : stackAddr = allocMemStart + wholePages (nodesFor (ramEnd - ramStart)) := by
    rw [wrapped]
    apply Nat.mod_eq_of_lt
    omega
  rw [Nat.mod_eq_of_lt (by omega)] at lastFits
  have top : allocMemEnd < wordLimit := by omega
  refine ⟨⟨_, _, housed_laidOut page pages top place lastFits⟩, ?_, ?_, ?_⟩
  · -- What fits without wrapping around also fits where overflow is checked.
    subst place
    exact run_new .dev ordered word page top lastFits
  · simp [laidOut]
  · have low := (findOrder_bounds page (by omega)).1
    refine ⟨findOrder (ramEnd - ramStart) - 12, ?_, ?_, fullTree_le_nodesFor page pages⟩
    · simp only [laidOut]
      omega
    · simp [laidOut]

/-- The linked layout houses the allocator of its sixty-four megabytes in 512 kilobytes. -/
theorem bootstrap_inside_linked :
    ∃ memory written,
      (new .release (some 0x802b0000) (some 0x842b0000) (some 0x80230000) (some 0x802b0000)).run []
        = .ok memory written ∧
      (∃ metaPages stackPages,
        memory.Housed written ⟨0x80230000, 0x80000⟩ metaPages stackPages) ∧
      memory.buddyNodeCount = 32767 ∧ memory.buddyHighOrder = 26 := by
  -- 64 MiB of free RAM need room for 32767 nodes and as many words.
  have built := run_new .release (by decide : 0x802b0000 ≤ 0x842b0000) (by decide) (by decide)
    (by decide : 0x802b0000 < wordLimit) (by decide : 0x80230000 +
      wholePages (nodesFor (0x842b0000 - 0x802b0000)) +
      wholePages (nodesFor (0x842b0000 - 0x802b0000) * 4) ≤ 0x802b0000)
  obtain ⟨housed, _⟩ := bootstrap_inside (by decide) (by decide) (by decide) (by decide) (by decide)
    (by decide) built
  exact ⟨_, _, built, housed, by decide, by decide⟩

end Memory

end Os1k
