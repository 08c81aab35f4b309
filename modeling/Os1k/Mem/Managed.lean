import Os1k.Mem.Ragged

/-! What holds of the blocks in use in an arena of any number of pages. -/

namespace Os1k.Memory

open Implicit

/--
An allocator that manages the pages of an arena, some of whose blocks are in use.

The blocks are those of a tree at the start of the arena, and what lies beyond it is not touched.
-/
structure Managed (ramStart ramEnd : Nat) (memory : Memory) (live : List LiveBlock) : Prop where
  aligned : ramStart % pageSize = 0
  word : ramEnd < wordLimit
  tree : ∃ depth beyond small, memory = widen beyond small ∧ beyond.Fits depth ∧
    Invariant small depth live ∧ small.start.addr = ramStart ∧ ramStart + 2 ^ (depth + 12) ≤ ramEnd

variable {profile : Profile} {ramStart ramEnd : Nat} {memory after : Memory} {live : List LiveBlock}

/-- Boot leaves an arena with nothing in use. -/
theorem PageArena.managed (arena : PageArena profile ramStart ramEnd memory) :
    Managed ramStart ramEnd memory [] := by
  -- An arena of any number of pages is a tree of a power of two of them, and the rest.
  obtain ⟨depth, beyond, small, root, fits, size, shape, canonical, rfl⟩ := arena.split
  obtain ⟨_, _, _, built⟩ := arena.built
  obtain ⟨count, positive, pages⟩ := arena.pages
  have large := fits.size_le
  have ordered := arena.ordered
  have page : pageSize ≤ ramEnd - ramStart := pages ▸ Nat.le_mul_of_pos_left _ positive
  obtain ⟨_, _, _, _, laid, _⟩ := new_ok ordered arena.word page built
  have start : small.start = ⟨ramStart, none⟩ := congrArg Memory.start laid
  exact ⟨arena.aligned, arena.word, depth, beyond, small, rfl, fits, .boot shape canonical,
    congrArg PhysAddr.addr start, by omega⟩

namespace Managed

/-- A request that returns keeps the arena, with what it handed out in use. -/
theorem request (managed : Managed ramStart ramEnd memory live) {n : Nat}
    {result : Except MemError PhysAddr}
    (ran : (buddyAlloc profile n).run memory = .ok result after) :
    Managed ramStart ramEnd after (inUse n live result) := by
  obtain ⟨depth, beyond, small, rfl, fits, invariant, start, inside⟩ := managed.tree
  obtain ⟨next, rfl, same, kept⟩ := inUse_of_run fits invariant ran
  exact ⟨managed.aligned, managed.word, depth, beyond, next, rfl, fits, kept, same ▸ start, inside⟩

/-- A block that is given back is in use no more. -/
theorem release (managed : Managed ramStart ramEnd memory live) {used : LiveBlock}
    (member : used ∈ live) (ran : (buddyFree profile used.block).run memory = .ok () after) :
    Managed ramStart ramEnd after (live.erase used) := by
  obtain ⟨depth, beyond, small, rfl, fits, invariant, start, inside⟩ := managed.tree
  obtain ⟨next, rfl, same, kept⟩ := erased_of_run fits invariant member ran
  exact ⟨managed.aligned, managed.word, depth, beyond, next, rfl, fits, kept, same ▸ start, inside⟩

/-- The order of the blocks in use does not matter. -/
theorem perm (managed : Managed ramStart ramEnd memory live) {other : List LiveBlock}
    (same : other.Perm live) : Managed ramStart ramEnd memory other := by
  obtain ⟨depth, beyond, small, rfl, fits, invariant, start, inside⟩ := managed.tree
  exact ⟨managed.aligned, managed.word, depth, beyond, small, rfl, fits, invariant.perm same, start,
    inside⟩

/-- A block in use is made of pages of the arena, and holds what it was requested for. -/
theorem room (managed : Managed ramStart ramEnd memory live) {used : LiveBlock}
    (member : used ∈ live) :
    ∃ size, used.block.size = some size ∧ used.request ≤ size ∧ used.block.addr % pageSize = 0 ∧
      ramStart ≤ used.block.addr ∧ used.block.addr + size ≤ ramEnd := by
  obtain ⟨depth, beyond, small, rfl, fits, invariant, start, inside⟩ := managed.tree
  obtain ⟨i, deep, block, request⟩ := invariant.node used member
  obtain ⟨low, high⟩ := nodeBlock_inside invariant.shape deep
  -- Nodes that hold blocks in use are no smaller than a page, so that their offsets are pages.
  have page : pageSize ∣ 2 ^ (depth + 12 - level i) := Nat.pow_dvd_pow 2 request.page
  have offset : small.nodeAddr i = ramStart + slot i * 2 ^ (depth + 12 - level i) := by
    simp only [nodeAddr, invariant.shape.high, start]
  rw [invariant.shape.stop, start] at high
  rw [start] at low
  refine ⟨2 ^ (depth + 12 - level i), by simp [block, nodeBlock, invariant.shape.high],
    (le_max_left _ _).trans request.covers, ?_, block ▸ low, ?_⟩
  · rw [block]
    simp only [nodeBlock, offset]
    exact Nat.mod_eq_zero_of_dvd (Nat.dvd_add (Nat.dvd_of_mod_eq_zero managed.aligned)
      (page.trans (Nat.dvd_mul_left _ _)))
  · rw [block]
    exact high.trans inside

/-- Blocks in use do not overlap. -/
theorem disjoint (managed : Managed ramStart ramEnd memory live) :
    live.Pairwise fun first second => Disjoint first.block.bytes second.block.bytes := by
  obtain ⟨_, _, _, _, _, invariant, _⟩ := managed.tree
  exact invariant.disjoint

/-- Where the tree is the whole arena, nothing lies beyond it. -/
theorem invariant (managed : Managed ramStart ramEnd memory live) {depth : Nat}
    (shape : memory.Shape depth) : Invariant memory depth live := by
  obtain ⟨other, beyond, small, rfl, fits, invariant, _⟩ := managed.tree
  have high : small.buddyHighOrder = depth + 12 := shape.high
  have same : other = depth := by
    have order := invariant.shape.high
    omega
  subst same
  -- There are no more states than the tree has nodes.
  have states : small.states ++ beyond.spare = small.states := by
    have length := shape.states
    have nodes := invariant.shape.states
    have whole : (small.states ++ beyond.spare).length = 2 ^ (other + 1) - 1 := length
    rw [List.length_append, nodes] at whole
    rw [List.eq_nil_of_length_eq_zero (by omega : beyond.spare.length = 0), List.append_nil]
  exact invariant.congr shape rfl states

end Managed

end Os1k.Memory
