import Os1k.Vm.Ownership

/-! The life of one page table among other users of the allocator, up to the moment it is dropped. -/

namespace Os1k

open Memory (LiveBlock)

/-- The addresses given back, the latest first. -/
def freed (trace : List Event) : List PhysAddr :=
  trace.filterMap fun
    | .free addr => some addr
    | _ => none

section Tables

variable [layout : VecLayout]

/--
The states that one page table goes through, with the calls made on it and the blocks in use.

It is created where some blocks are held by others, out of memory that is all zero. Others may use
the allocator between its calls, and may write outside its blocks.
-/
inductive Life (profile : Profile) (boot : Memory) (start : Kernel) (held : List LiveBlock)
    (table : PageTable) : List Mapping → List LiveBlock → List LiveBlock → Kernel → Prop where
  | new {kernel : Kernel} (reach : Memory.Reach profile boot start.memory held)
      (zero : NextBlocksZero profile start)
      (ran : (PageTable.new profile).run start.quiet = .ok table kernel) :
      Life profile boot start held table [] (handedOut kernel.trace) held kernel
  | map {calls : List Mapping} {owned others : List LiveBlock} {kernel after : Kernel}
      {call : Mapping} (before : Life profile boot start held table calls owned others kernel)
      (ran : (table.mapPage profile call.vaddr call.paddr call.flags).run kernel.quiet
        = .ok () after) :
      Life profile boot start held table (calls ++ [call]) (handedOut after.trace ++ owned) others
        after
  | otherAlloc {calls : List Mapping} {owned others : List LiveBlock} {kernel : Kernel}
      {memory : Memory} {n : Nat} {block : PhysAddr}
      (before : Life profile boot start held table calls owned others kernel)
      (ran : (Memory.buddyAlloc profile n).run kernel.memory = .ok (.ok block) memory) :
      Life profile boot start held table calls owned (⟨n, block⟩ :: others) { kernel with memory }
  | otherRefused {calls : List Mapping} {owned others : List LiveBlock} {kernel : Kernel}
      {memory : Memory} {n : Nat} {error : MemError}
      (before : Life profile boot start held table calls owned others kernel)
      (ran : (Memory.buddyAlloc profile n).run kernel.memory = .ok (.error error) memory) :
      Life profile boot start held table calls owned others { kernel with memory }
  | otherFree {calls : List Mapping} {owned others : List LiveBlock} {kernel : Kernel}
      {memory : Memory} {used : LiveBlock}
      (before : Life profile boot start held table calls owned others kernel)
      (member : used ∈ others)
      (ran : (Memory.buddyFree profile used.block).run kernel.memory = .ok () memory) :
      Life profile boot start held table calls owned (others.erase used) { kernel with memory }
  | otherStores {calls : List Mapping} {owned others : List LiveBlock} {kernel : Kernel}
      {ram : Nat → Nat} (before : Life profile boot start held table calls owned others kernel)
      (agree : ∀ used ∈ owned, ∀ a ∈ used.block.bytes, ram a = kernel.ram a) :
      Life profile boot start held table calls owned others { kernel with ram }

/-- A table is created in a state that the allocator reaches. -/
theorem Life.reach {profile : Profile} {boot : Memory} {start kernel : Kernel}
    {held owned others : List LiveBlock} {table : PageTable} {calls : List Mapping}
    (life : Life profile boot start held table calls owned others kernel) :
    Memory.Reach profile boot start.memory held := by
  -- The state that a table is created in does not change while the table lives.
  induction life with
  | new reach zero ran => exact reach
  | map before ran ih => exact ih
  | otherAlloc before ran ih => exact ih
  | otherRefused before ran ih => exact ih
  | otherFree before member ran ih => exact ih
  | otherStores before agree ih => exact ih

/-- The root indices that some calls mapped a page under, each once. -/
def rootIndices (calls : List Mapping) : List Nat :=
  (calls.map fun call => Sv32.vpn1 call.vaddr).dedup

/-- A table in the middle of its life owns its blocks, one for each root index mapped so far. -/
structure Alive (boot : Memory) (depth : Nat) (table : PageTable) (calls : List Mapping)
    (owned others : List LiveBlock) (kernel : Kernel) (frames : Frames) : Prop where
  owns : ∃ live, Owns kernel depth live table owned others frames
  start : kernel.memory.start = boot.start
  leaves : ∀ vpn1, frames.leaf vpn1 = none ↔ vpn1 ∉ rootIndices calls

/-- Every state of a table's life. -/
theorem Life.alive {profile : Profile} {boot : Memory} {depth : Nat} {start kernel : Kernel}
    {held owned others : List LiveBlock} {table : PageTable} {calls : List Mapping}
    (shape : boot.Shape depth) (canonical : boot.Canonical depth ∅)
    (life : Life profile boot start held table calls owned others kernel) :
    ∃ frames, Alive boot depth table calls owned others kernel frames := by
  induction life with
  -- A new table has no second-level tables, and no page was mapped.
  | new reach zero ran =>
    obtain ⟨origin, invariant⟩ := reach.invariant shape canonical
    obtain ⟨frames, owns, _, same, empty⟩ := Owns.new invariant zero ran
    exact ⟨frames, ⟨_, owns⟩, same.trans origin, fun vpn1 => by simp [empty, rootIndices]⟩
  -- A page mapped under a new root index adds one table, for that index.
  | map before ran ih =>
    obtain ⟨frames, ⟨live, owns⟩, origin, leaves⟩ := ih
    obtain ⟨grown, grownOwns, _, _, same, grownLeaves⟩ := owns.map ran
    refine ⟨grown, ⟨_, grownOwns⟩, same.trans origin, fun vpn1 => ?_⟩
    rw [grownLeaves, leaves]
    simp [rootIndices]
  -- A block for someone else is one more among the others.
  | otherAlloc before ran ih =>
    obtain ⟨frames, ⟨live, owns⟩, origin, leaves⟩ := ih
    obtain ⟨same, invariant⟩ := owns.invariant.run_alloc ran
    refine ⟨frames, ⟨_, owns.frame invariant ?_ fun _ _ _ _ => rfl⟩, same.trans origin, leaves⟩
    exact (owns.perm.cons _).trans List.perm_middle.symm
  | otherRefused before ran ih =>
    obtain ⟨frames, ⟨live, owns⟩, origin, leaves⟩ := ih
    obtain ⟨same, _, invariant⟩ := owns.invariant.run_refused ran
    exact ⟨frames, ⟨_, owns.frame invariant owns.perm fun _ _ _ _ => rfl⟩, same.trans origin, leaves⟩
  -- The table has a block of its own, so no other block is the whole arena.
  | @otherFree calls owned others kernel memory used before member ran ih =>
    obtain ⟨frames, ⟨live, owns⟩, origin, leaves⟩ := ih
    have mine : used ∈ live := owns.perm.symm.subset (List.mem_append_right _ member)
    have root : (⟨4096, frames.root⟩ : LiveBlock) ∈ frames.blocks := List.mem_cons_self
    have smaller := owns.invariant.smaller mine
      (owns.perm.symm.subset (List.mem_append_left _ root)) (owns.apart root member).symm
      (by simp only; omega)
    obtain ⟨states, returned, invariant⟩ := owns.invariant.run_free profile mine smaller
    rw [ran, EStateM.Result.ok.injEq] at returned
    obtain ⟨_, rfl⟩ := returned
    -- One block less among the others is one block less in use.
    have fewer : (live.erase used).Perm (frames.blocks ++ others.erase used) := by
      have front : live.Perm (used :: (frames.blocks ++ others.erase used)) :=
        owns.perm.trans (((List.perm_cons_erase member).append_left _).trans List.perm_middle)
      have shrunk := front.erase used
      rwa [List.erase_cons_head] at shrunk
    exact ⟨frames, ⟨_, owns.frame invariant fewer fun _ _ _ _ => rfl⟩, origin, leaves⟩
  -- Others write outside the table's blocks.
  | otherStores before agree ih =>
    obtain ⟨frames, ⟨live, owns⟩, origin, leaves⟩ := ih
    refine ⟨frames, ⟨_, owns.frame owns.invariant owns.perm fun used found => ?_⟩, origin, leaves⟩
    exact agree used (owns.owned.symm.subset found)

omit layout in
/-- The second-level tables of some frames, listed by the root indices that have one. -/
theorem leaves_perm {frames : Frames} {calls : List Mapping}
    (leaves : ∀ vpn1, frames.leaf vpn1 = none ↔ vpn1 ∉ rootIndices calls) :
    frames.leaves.Perm ((rootIndices calls).map fun vpn1 => (frames.leaf vpn1).getD ⟨0, none⟩) := by
  -- Listing the tables is listing the root indices that have one.
  have listed : ∀ indices : List Nat, indices.filterMap frames.leaf =
      (indices.filter fun vpn1 => (frames.leaf vpn1).isSome).map
        fun vpn1 => (frames.leaf vpn1).getD ⟨0, none⟩ := by
    intro indices
    induction indices with
    | nil => rfl
    | cons vpn1 indices ih =>
      cases leaf : frames.leaf vpn1 with
      | none => simp [leaf, ih]
      | some block => simp [leaf, ih]
  rw [Frames.leaves, listed]
  apply List.Perm.map
  -- Both lists name each root index with a table exactly once.
  have once : (rootIndices calls).Nodup := List.nodup_dedup _
  rw [List.perm_ext_iff_of_nodup (List.nodup_range.filter _) once]
  intro vpn1
  have known := not_congr (leaves vpn1)
  rw [not_not] at known
  rw [List.mem_filter, List.mem_range, ← Option.ne_none_iff_isSome, ne_eq, known]
  refine ⟨fun both => both.2, fun member => ⟨?_, member⟩⟩
  obtain ⟨call, _, rfl⟩ := List.mem_map.mp (List.mem_dedup.mp member)
  exact Sv32.vpn1_lt _

/--
Dropping a page table gives each of its blocks back exactly once, and no other.

Its blocks are the root, the array of arrays, and one for each root index under which a page was
mapped. If the others hold what they held when the table was created, the allocator is as it was.
-/
theorem drop_gives_back {profile : Profile} {ramStart ramEnd : Nat} {boot : Memory}
    {start kernel : Kernel} {held owned others : List LiveBlock} {table : PageTable}
    {calls : List Mapping} (arena : Memory.PowerArena profile ramStart ramEnd boot)
    (life : Life profile boot start held table calls owned others kernel) :
    (owned.map LiveBlock.block).Nodup ∧
    (∃ leaf : Nat → PhysAddr, (owned.map LiveBlock.block).Perm
      (table.rootPt.physAddr :: table.secondPts.physAddr :: (rootIndices calls).map leaf)) ∧
    ∃ after, (table.drop profile).run kernel.quiet = .ok () after ∧
      ((freed after.trace).filter (·.size.isSome)).Perm (owned.map LiveBlock.block) ∧
      (others.Perm held → after.memory.buddyMeta.elems = start.memory.buddyMeta.elems) := by
  obtain ⟨depth, shape, canonical, _⟩ := arena.shape
  -- At the end of its life, the table owns exactly its blocks.
  obtain ⟨frames, ⟨live, owns⟩, origin, leaves⟩ := life.alive shape canonical
  have blocks : (owned.map LiveBlock.block).Perm
      (frames.root :: frames.second :: frames.leaves) := by
    have mapped := owns.owned.map LiveBlock.block
    simpa [Frames.blocks, Function.comp_def] using mapped
  refine ⟨?_, ⟨fun vpn1 => (frames.leaf vpn1).getD ⟨0, none⟩, ?_⟩, ?_⟩
  · have all := (owns.invariant.perm owns.perm.symm).nodup
    rw [List.map_append] at all
    exact (owns.owned.map LiveBlock.block).nodup_iff.mpr (List.Nodup.of_append_left all)
  · -- One table for each root index under which a page was mapped.
    rw [owns.represents.root, owns.represents.second]
    exact blocks.trans (((leaves_perm leaves).cons _).cons _)
  · obtain ⟨after, states, ran, _, memory, trace, invariant, left⟩ := owns.drop profile
    refine ⟨after, ran, ?_, fun same => ?_⟩
    · have addrs : freed after.trace = (frames.dropOrder kernel.ram).reverse := by
        rw [trace, ← List.map_reverse, freed, List.filterMap_map]
        exact List.filterMap_some
      rw [addrs, List.filter_reverse, dropOrder_sized owns.represents owns.placed]
      refine (List.reverse_perm _).trans (.trans ?_ blocks.symm)
      exact List.Perm.cons _ (List.perm_append_singleton _ _)
    · -- The same blocks in use leave the same states.
      obtain ⟨startOrigin, startInvariant⟩ := life.reach.invariant shape canonical
      refine invariant.states_eq startInvariant ?_ fun block => ?_
      · rw [startOrigin, memory]
        exact origin.symm
      · exact ((left.trans same).map LiveBlock.block).mem_iff

end Tables

/-- A table with one page mapped in it is dropped, and all sixteen pages are free again. -/
theorem drop_gives_back_all : letI := declaredLayout
    ∃ (table : PageTable) (created mapped after : Kernel),
      (PageTable.new .dev).run bootKernel.quiet = .ok table created ∧
      (table.mapPage .dev 0x400000 0x80005000 (pageR ||| pageW)).run created.quiet
        = .ok () mapped ∧
      (table.drop .dev).run mapped.quiet = .ok () after ∧
      after.memory.buddyMeta.elems = List.replicate 31 .free := by
  -- A table is created and a page mapped in it, with nobody else around.
  let := declaredLayout
  have seen : Exec.observe (do
      let table ← PageTable.new .dev
      modify Kernel.quiet
      table.mapPage .dev 0x400000 0x80005000 (pageR ||| pageW) : Exec Fault Kernel Unit)
      bootKernel.quiet (fun _ _ => ()) = some () := by decide +kernel
  obtain ⟨_, mapped, ran, _⟩ := Exec.observe_eq_some.mp seen
  obtain ⟨table, created, newRan, mapRan⟩ := Exec.run_bind_ok.mp ran
  rw [Kernel.run_quiet] at mapRan
  have zero : NextBlocksZero .dev bootKernel := fun _ _ _ _ _ _ => ⟨fun _ _ => rfl, fun _ _ => rfl⟩
  have life : Life .dev sixteenPages bootKernel [] table
      ([] ++ [⟨0x400000, 0x80005000, pageR ||| pageW⟩])
      (handedOut mapped.trace ++ handedOut created.trace) [] mapped :=
    .map (.new .boot zero newRan) mapRan
  obtain ⟨_, _, after, dropRan, _, restored⟩ := drop_gives_back sixteenPages_arena life
  exact ⟨table, created, mapped, after, newRan, mapRan, dropRan, restored (List.Perm.refl _)⟩

end Os1k
