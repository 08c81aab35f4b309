import Os1k.Mem.Managed
import Os1k.Vm.Arrays

/-! Whether the blocks of owned arrays hold all the elements that their capacities promise. -/

namespace Os1k

open Memory (LiveBlock Managed PageArena)

/-- An array in use, of whatever elements. -/
structure LiveVec where
  {α : Type}
  [elem : Elem α]
  vec : FixedVec α

namespace LiveVec

attribute [instance] LiveVec.elem

/-- The bytes of one element. -/
def size (live : LiveVec) : Nat := Elem.size live.α

/-- The block that an array was handed, with the size that was asked for. -/
def block (live : LiveVec) : LiveBlock := ⟨live.vec.cap * live.size % wordLimit, live.vec.physAddr⟩

/-- The bytes that are accessed for an index. -/
def slotBytes (live : LiveVec) (i : Nat) : Set Nat :=
  Set.Ico (live.vec.slotAddr i) (live.vec.slotAddr i + live.size)

/-- The block of an array holds all its elements, each in bytes of its own. -/
structure Covered (live : LiveVec) : Prop where
  fits : ∃ bytes, live.vec.physAddr.size = some bytes ∧ live.vec.cap * live.size ≤ bytes
  inside : ∀ i < live.vec.cap, live.slotBytes i ⊆ live.vec.physAddr.bytes
  apart : ∀ i < live.vec.cap, ∀ j < live.vec.cap, i ≠ j → Disjoint (live.slotBytes i) (live.slotBytes j)

/-- No element of one array shares a byte with one of another. -/
def Separate (live other : LiveVec) : Prop :=
  ∀ i < live.vec.cap, ∀ j < other.vec.cap, Disjoint (live.slotBytes i) (other.slotBytes j)

end LiveVec

/--
The states that runs reach in which arrays come into use and go out of use again.

Other users of the allocator may hold blocks as well, and anything may be written to RAM. An array
goes out of use by giving its block back, which it does once its elements are dropped.
-/
inductive ArrayRun (boot : Memory) : Kernel → List LiveBlock → List LiveVec → Prop where
  | boot (ram : Nat → Nat) : ArrayRun boot ⟨boot, ram, []⟩ [] []
  | new {α : Type} [Elem α] {kernel after : Kernel} {loose : List LiveBlock} {vecs : List LiveVec}
      {cap : Nat} {vec : FixedVec α} (before : ArrayRun boot kernel loose vecs)
      (ran : (FixedVec.new .release cap).run kernel = .ok vec after) :
      ArrayRun boot after loose (⟨vec⟩ :: vecs)
  | drop {kernel after : Kernel} {loose : List LiveBlock} {front back : List LiveVec}
      {live : LiveVec} (before : ArrayRun boot kernel loose (front ++ live :: back))
      (ran : (phree .release live.vec.physAddr).run kernel = .ok () after) :
      ArrayRun boot after loose (front ++ back)
  | take {kernel after : Kernel} {loose : List LiveBlock} {vecs : List LiveVec} {n : Nat}
      {block : PhysAddr} (before : ArrayRun boot kernel loose vecs)
      (ran : (phalloc .release n).run kernel = .ok (.ok block) after) :
      ArrayRun boot after (⟨n, block⟩ :: loose) vecs
  | give {kernel after : Kernel} {loose : List LiveBlock} {vecs : List LiveVec} {used : LiveBlock}
      (before : ArrayRun boot kernel loose vecs) (member : used ∈ loose)
      (ran : (phree .release used.block).run kernel = .ok () after) :
      ArrayRun boot after (loose.erase used) vecs
  | refused {kernel after : Kernel} {loose : List LiveBlock} {vecs : List LiveVec} {n : Nat}
      {error : MemError} (before : ArrayRun boot kernel loose vecs)
      (ran : (phalloc .release n).run kernel = .ok (.error error) after) :
      ArrayRun boot after loose vecs
  | write {kernel : Kernel} {loose : List LiveBlock} {vecs : List LiveVec} (ram : Nat → Nat)
      (before : ArrayRun boot kernel loose vecs) :
      ArrayRun boot { kernel with ram } loose vecs

/-- The blocks in use are those of the arrays and the loose ones, and each array starts its own. -/
structure Stocked (ramStart ramEnd : Nat) (kernel : Kernel) (loose : List LiveBlock)
    (vecs : List LiveVec) : Prop where
  managed : Managed ramStart ramEnd kernel.memory (vecs.map LiveVec.block ++ loose)
  start : ∀ live ∈ vecs, live.vec.ptr = live.vec.physAddr.addr
  sized : ∀ live ∈ vecs, live.size ≠ 0

variable {ramStart ramEnd : Nat} {boot : Memory} {kernel : Kernel} {loose : List LiveBlock}
  {vecs : List LiveVec}

/-- In every run the blocks in use are those of the arrays and the loose ones. -/
theorem ArrayRun.stocked (arena : PageArena .release ramStart ramEnd boot)
    (run : ArrayRun boot kernel loose vecs) : Stocked ramStart ramEnd kernel loose vecs := by
  -- Each step takes at most one block into use or out of use, wherever it stands in the list.
  induction run with
  | boot ram => exact ⟨arena.managed, by simp, by simp⟩
  | new before ran ih =>
    -- The size that is asked for is the product as a word.
    obtain ⟨block, memory, given, nonzero, rfl, rfl⟩ := FixedVec.run_new_wrap ran
    refine ⟨ih.managed.request given, ?_, ?_⟩
    · intro live member
      rcases List.mem_cons.mp member with rfl | earlier
      · rfl
      · exact ih.start live earlier
    · intro live member
      rcases List.mem_cons.mp member with rfl | earlier
      · exact nonzero
      · exact ih.sized live earlier
  -- A list is put in order with the released block in front.
  | @drop _ _ loose front back live before ran ih =>
    have first : ((front ++ live :: back).map LiveVec.block ++ loose).Perm
        (live.block :: ((front ++ back).map LiveVec.block ++ loose)) := by
      rw [List.map_append, List.map_cons, List.map_append, List.append_assoc, List.append_assoc,
        List.cons_append]
      exact List.perm_middle
    have rest := (ih.managed.perm first.symm).release List.mem_cons_self (run_phree_ok ran).1
    rw [List.erase_cons_head] at rest
    have fewer : ∀ other ∈ front ++ back, other ∈ front ++ live :: back := by
      intro other among
      rw [List.mem_append] at among ⊢
      exact among.imp_right (List.mem_cons_of_mem _)
    exact ⟨rest, fun other among => ih.start other (fewer other among),
      fun other among => ih.sized other (fewer other among)⟩
  -- Other callers of the allocator take blocks and give them back as well.
  | @take _ _ loose vecs n block before ran ih =>
    have last : (vecs.map LiveVec.block ++ ⟨n, block⟩ :: loose).Perm
        (⟨n, block⟩ :: (vecs.map LiveVec.block ++ loose)) := List.perm_middle
    exact ⟨(ih.managed.request (run_phalloc_memory ran)).perm last, ih.start, ih.sized⟩
  | @give _ _ loose vecs used before member ran ih =>
    have last : (vecs.map LiveVec.block ++ loose).Perm
        (used :: (vecs.map LiveVec.block ++ loose.erase used)) :=
      ((List.perm_cons_erase member).append_left _).trans List.perm_middle
    have rest := (ih.managed.perm last.symm).release List.mem_cons_self (run_phree_ok ran).1
    rw [List.erase_cons_head] at rest
    exact ⟨rest, ih.start, ih.sized⟩
  | refused before ran ih =>
    exact ⟨ih.managed.request (run_phalloc_memory ran), ih.start, ih.sized⟩
  | write ram before ih => exact ⟨ih.managed, ih.start, ih.sized⟩

namespace Stocked

variable {live other : LiveVec}

/-- The block of an array has the size that was asked for, and ends inside the address space. -/
theorem room (stocked : Stocked ramStart ramEnd kernel loose vecs) (member : live ∈ vecs) :
    ∃ bytes, live.vec.physAddr.size = some bytes ∧ live.vec.cap * live.size % wordLimit ≤ bytes ∧
      live.vec.ptr + bytes < wordLimit := by
  -- The block is one of those in use, which was requested for the size as a word.
  have among : live.block ∈ vecs.map LiveVec.block ++ loose :=
    List.mem_append_left _ (List.mem_map_of_mem member)
  obtain ⟨bytes, sized, covers, _, _, high⟩ := stocked.managed.room among
  have word := stocked.managed.word
  have start : live.vec.ptr = live.block.block.addr := stocked.start live member
  exact ⟨bytes, sized, covers, by omega⟩

/-- An array whose size is a word has each of its elements in its block, behind the one before. -/
theorem slotBytes_eq (stocked : Stocked ramStart ramEnd kernel loose vecs) (member : live ∈ vecs)
    (word : live.vec.cap * live.size < wordLimit) {i : Nat} (inside : i < live.vec.cap) :
    live.slotBytes i = Set.Ico (live.vec.ptr + i * live.size) (live.vec.ptr + (i + 1) * live.size) ∧
      live.slotBytes i ⊆ live.vec.physAddr.bytes := by
  obtain ⟨bytes, sized, covers, high⟩ := stocked.room member
  rw [Nat.mod_eq_of_lt word] at covers
  -- The last element ends where the array does, which is inside the block.
  have last : (i + 1) * live.size ≤ live.vec.cap * live.size := Nat.mul_le_mul_right _ inside
  have next : (i + 1) * live.size = i * live.size + live.size := Nat.succ_mul _ _
  have nonzero := stocked.sized live member
  have place : live.vec.slotAddr i = live.vec.ptr + i * live.size :=
    FixedVec.slotAddr_eq (by rw [← LiveVec.size]; omega)
  have bytesEq : live.slotBytes i =
      Set.Ico (live.vec.ptr + i * live.size) (live.vec.ptr + (i + 1) * live.size) := by
    rw [LiveVec.slotBytes, place, next, Nat.add_assoc]
  refine ⟨bytesEq, ?_⟩
  rw [bytesEq]
  intro a within
  have start := stocked.start live member
  simp only [PhysAddr.bytes, sized, Option.getD_some, Set.mem_Ico] at within ⊢
  omega

/-- An array whose size is a word is covered by its block. -/
theorem covered (stocked : Stocked ramStart ramEnd kernel loose vecs) (member : live ∈ vecs)
    (word : live.vec.cap * live.size < wordLimit) : live.Covered := by
  obtain ⟨bytes, sized, covers, _⟩ := stocked.room member
  rw [Nat.mod_eq_of_lt word] at covers
  refine ⟨⟨bytes, sized, covers⟩, fun i inside => (stocked.slotBytes_eq member word inside).2, ?_⟩
  -- The lower of two indices ends where the higher one starts, or before.
  have below : ∀ {i j : Nat}, i < live.vec.cap → j < live.vec.cap → i < j →
      Disjoint (live.slotBytes i) (live.slotBytes j) := by
    intro i j insideFirst insideSecond less
    have ends : (i + 1) * live.size ≤ j * live.size := Nat.mul_le_mul_right _ less
    rw [(stocked.slotBytes_eq member word insideFirst).1,
      (stocked.slotBytes_eq member word insideSecond).1]
    rw [Set.disjoint_left]
    intro a first second
    rw [Set.mem_Ico] at first second
    omega
  intro i insideFirst j insideSecond different
  rcases Nat.lt_or_gt_of_ne different with less | greater
  · exact below insideFirst insideSecond less
  · exact (below insideSecond insideFirst greater).symm

/-- Arrays whose sizes are words have nothing in common. -/
theorem separate (stocked : Stocked ramStart ramEnd kernel loose vecs)
    (words : ∀ live ∈ vecs, live.vec.cap * live.size < wordLimit) :
    vecs.Pairwise LiveVec.Separate := by
  -- Blocks in use do not overlap, and elements are inside the blocks of their arrays.
  have disjoint := (List.pairwise_append.mp stocked.managed.disjoint).1
  rw [List.pairwise_map] at disjoint
  refine disjoint.imp_of_mem ?_
  intro first second memberFirst memberSecond apart i insideFirst j insideSecond
  have within := (stocked.slotBytes_eq memberFirst (words first memberFirst) insideFirst).2
  have also := (stocked.slotBytes_eq memberSecond (words second memberSecond) insideSecond).2
  exact apart.mono within also

end Stocked

end Os1k
