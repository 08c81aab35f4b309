import Os1k.Vm.Mapping

/-! Dropping a page table gives back the blocks it is made of, and nothing else. -/

namespace Os1k

open Memory (LiveBlock)

/-- The blocks in use after some events, the latest first, given those in use before. -/
def replay : List Event → List LiveBlock → List LiveBlock
  | [], live => live
  | .alloc request block :: trace, live => ⟨request, block⟩ :: replay trace live
  | .free addr :: trace, live => (replay trace live).eraseP (·.block = addr)
  | .store _ :: trace, live => replay trace live

/-- Events after events. -/
theorem replay_append (later earlier : List Event) (live : List LiveBlock) :
    replay (later ++ earlier) live = replay later (replay earlier live) := by
  -- Each event changes the blocks in use in its own way, whatever came before.
  induction later with
  | nil => rfl
  | cons event later ih =>
    cases event with
    | alloc request block => simp only [List.cons_append, replay, ih]
    | free addr => simp only [List.cons_append, replay, ih]
    | store addr => simp only [List.cons_append, replay, ih]

namespace Memory.Invariant

variable {depth : Nat} {live given others : List LiveBlock} {kernel : Kernel}

/-- The one block in use at an address is taken out of use when the address is given back. -/
theorem eraseP_eq {memory : Memory} (invariant : Invariant memory depth live) {used : LiveBlock}
    (member : used ∈ live) : live.eraseP (·.block = used.block) = live.erase used := by
  have nodup := invariant.nodup
  clear invariant
  induction live with
  | nil => simp at member
  | cons first live ih =>
    rw [List.map_cons, List.nodup_cons] at nodup
    by_cases same : first.block = used.block
    · -- A later entry would list the block a second time.
      have equal : first = used := by
        rcases List.mem_cons.mp member with rfl | later
        · rfl
        · exact absurd (same ▸ List.mem_map_of_mem later) nodup.1
      subst equal
      simp
    · have different : first ≠ used := fun equal => same (congrArg LiveBlock.block equal)
      rw [List.eraseP_cons_of_neg (by simpa using same), List.erase_cons_tail (by simpa using different),
        ih ((List.mem_cons.mp member).resolve_left different.symm) nodup.2]

/-- No block in use is without a size. -/
theorem eraseP_unsized {memory : Memory} (invariant : Invariant memory depth live)
    {addr : PhysAddr} (unsized : addr.size = none) : live.eraseP (·.block = addr) = live := by
  apply List.eraseP_of_forall_not
  -- A block in use has a size.
  intro used member same
  obtain ⟨size, sized, _⟩ := invariant.room member
  simp only [decide_eq_true_eq] at same
  rw [same, unsized] at sized
  simp at sized

/--
Addresses are given back one after the other, those with a size being blocks in use.

Addresses without a size are passed over.
-/
theorem run_frees (invariant : Invariant kernel.memory depth live) (profile : Profile)
    {addrs : List PhysAddr} (sized : addrs.filter (·.size.isSome) = given.map LiveBlock.block)
    (perm : live.Perm (given ++ others))
    (smaller : ∀ used ∈ given, used.block.size ≠ some kernel.memory.memSize) :
    ∃ states, EStateM.run (forM addrs (phree profile)) kernel = .ok ()
        { kernel with
          memory := kernel.memory.withStates states
          trace := (addrs.map Event.free).reverse ++ kernel.trace } ∧
      Invariant (kernel.memory.withStates states) depth
        (replay (addrs.map Event.free).reverse live) ∧
      (replay (addrs.map Event.free).reverse live).Perm others := by
  -- One address is given back at a time, which leaves the others in use.
  induction addrs generalizing kernel live given with
  | nil =>
    have none : given = [] := by simpa using sized.symm
    subst none
    exact ⟨kernel.memory.states, by simp [withStates_self], by simpa [replay, withStates_self] using
      invariant, perm⟩
  | cons addr addrs ih =>
    have events : ((addr :: addrs).map Event.free).reverse
        = (addrs.map Event.free).reverse ++ [Event.free addr] := by simp
    rw [events, replay_append, List.forM_cons, EStateM.run_bind]
    cases size : addr.size with
    -- An address without a size was never allocated.
    | none =>
      have unsized : replay [Event.free addr] live = live := invariant.eraseP_unsized size
      rw [List.filter_cons_of_neg (by simp [size])] at sized
      rw [run_phree_none size, unsized]
      let noted : Kernel := { kernel with trace := .free addr :: kernel.trace }
      have same : Invariant noted.memory depth live := invariant
      obtain ⟨states, ran, kept, rest⟩ := ih same sized perm smaller
      exact ⟨states, by simpa using ran, kept, rest⟩
    | some bytes =>
      rw [List.filter_cons_of_pos (by simp [size])] at sized
      -- The first block still to be given back is the one at this address.
      cases given with
      | nil => simp at sized
      | cons used given =>
        rw [List.map_cons, List.cons.injEq] at sized
        obtain ⟨rfl, sized⟩ := sized
        have member : used ∈ live := perm.symm.subset List.mem_cons_self
        obtain ⟨states, freed, after⟩ := invariant.run_free profile member
          (smaller used List.mem_cons_self)
        have erased : replay [Event.free used.block] live = live.erase used :=
          invariant.eraseP_eq member
        have fewer : (live.erase used).Perm (given ++ others) := by
          have shrunk := perm.erase used
          rwa [List.cons_append, List.erase_cons_head] at shrunk
        rw [run_phree freed, erased]
        let noted : Kernel := { kernel with
          memory := kernel.memory.withStates states
          trace := .free used.block :: kernel.trace }
        have left : Invariant noted.memory depth (live.erase used) := after
        obtain ⟨final, ran, kept, rest⟩ := ih left sized fewer
          fun later found => smaller later (List.mem_cons_of_mem _ found)
        simp only [noted, withStates_twice] at ran kept
        exact ⟨final, by simpa using ran, kept, rest⟩

end Memory.Invariant

section Tables

variable [layout : VecLayout] {profile : Profile} {kernel : Kernel} {table : PageTable}
  {frames : Frames}

/-- The addresses that dropping a table gives back, in their order. -/
def Frames.dropOrder (frames : Frames) (ram : Nat → Nat) : List PhysAddr :=
  frames.root :: ((List.range 1024).map fun i =>
    (Elem.read ram (frames.second.addr + 20 * i) : FixedVec Nat).physAddr) ++ [frames.second]

/-- A loop over arrays of words gives back their blocks. -/
theorem run_dropEach {vec : FixedVec (FixedVec Nat)} {ram : Nat → Nat} (indices : List Nat)
    (same : kernel.ram = ram) :
    EStateM.run (forM indices fun i => (do
      Elem.dropInPlace profile (Elem.read (← get).ram (vec.slotAddr i) : FixedVec Nat) :
        Exec Fault Kernel Unit)) kernel =
    EStateM.run (forM (indices.map fun i =>
      (Elem.read ram (vec.slotAddr i) : FixedVec Nat).physAddr) (phree profile)) kernel := by
  -- The arrays are read from RAM as the loop comes to them.
  induction indices generalizing kernel with
  | nil => rfl
  | cons i indices ih =>
    rw [List.forM_cons, List.map_cons, List.forM_cons, EStateM.run_bind, EStateM.run_bind,
      EStateM.run_bind, EStateM.run_get]
    simp only [same]
    have first : EStateM.run (Elem.dropInPlace profile
        (Elem.read ram (vec.slotAddr i) : FixedVec Nat)) kernel =
        (phree profile (Elem.read ram (vec.slotAddr i) : FixedVec Nat).physAddr).run kernel :=
      FixedVec.run_drop_words profile _ kernel
    rw [first]
    cases ran : (phree profile (Elem.read ram (vec.slotAddr i) : FixedVec Nat).physAddr).run
      kernel with
    | error fault halted => rfl
    | ok value after =>
      -- RAM is as it was, so the later arrays are read as they were.
      exact ih ((run_phree_ok ran).2.trans same)

/-- Dropping a table gives back its root, then each array it owns, then the array of arrays. -/
theorem run_drop (represents : Represents kernel.ram table frames)
    (placed : Placed frames.blocks) :
    (table.drop profile).run kernel =
      EStateM.run (forM (frames.dropOrder kernel.ram) (phree profile)) kernel := by
  have cap : table.secondPts.cap = 1024 := by rw [represents.second]
  -- The array of arrays holds one record for each root index.
  have addrs : ((List.range table.secondPts.cap).map fun i =>
      (Elem.read kernel.ram (table.secondPts.slotAddr i) : FixedVec Nat).physAddr) =
      (List.range 1024).map fun i =>
        (Elem.read kernel.ram (frames.second.addr + 20 * i) : FixedVec Nat).physAddr := by
    rw [cap]
    apply List.map_congr_left
    intro i member
    rw [represents.second_slot placed (List.mem_range.mp member)]
  unfold PageTable.drop Frames.dropOrder
  rw [List.cons_append, List.forM_cons, EStateM.run_bind, EStateM.run_bind,
    FixedVec.run_drop_words, represents.root]
  cases ran : (phree profile frames.root).run kernel with
  | error fault halted => rfl
  | ok value after =>
    simp only
    rw [List.forM_append, List.forM_cons, List.forM_nil, ← addrs, FixedVec.drop, EStateM.run_bind,
      EStateM.run_bind, run_dropEach _ (run_phree_ok ran).2, represents.second]
    simp

/-- The addresses with a size are the blocks of the table. -/
theorem dropOrder_sized (represents : Represents kernel.ram table frames)
    (placed : Placed frames.blocks) :
    (frames.dropOrder kernel.ram).filter (·.size.isSome) =
      frames.root :: frames.leaves ++ [frames.second] := by
  -- The blocks of the table all have a size.
  have sized : ∀ used ∈ frames.blocks, used.block.size.isSome = true := by
    intro used member
    obtain ⟨size, same, _⟩ := placed.room used member
    simp [same]
  have root := sized ⟨4096, frames.root⟩ List.mem_cons_self
  have second := sized ⟨20480, frames.second⟩ (List.mem_cons_of_mem _ List.mem_cons_self)
  simp only at root second
  -- The record at an index has a size exactly when it owns a table.
  have records : ∀ indices : List Nat, (∀ i ∈ indices, i < 1024) →
      (indices.map fun i => (Elem.read kernel.ram (frames.second.addr + 20 * i) :
        FixedVec Nat).physAddr).filter (·.size.isSome) = indices.filterMap frames.leaf := by
    intro indices inside
    induction indices with
    | nil => rfl
    | cons i indices ih =>
      have small := inside i List.mem_cons_self
      rw [List.map_cons, List.filterMap_cons, ← ih fun j later =>
        inside j (List.mem_cons_of_mem _ later)]
      cases leaf : frames.leaf i with
      | none =>
        have unsized := (represents.absent i small leaf).2
        rw [List.filter_cons_of_neg (by simp [unsized])]
      | some block =>
        have owns := (represents.present i small block leaf).2
        have blockSized := sized ⟨4096, block⟩ (Frames.leaf_mem small leaf)
        rw [owns, List.filter_cons_of_pos (by simpa [tableVec] using blockSized)]
        rfl
  unfold Frames.dropOrder
  rw [List.filter_append, List.filter_cons_of_pos (by simpa using root),
    records _ fun i member => List.mem_range.mp member, List.filter_cons_of_pos (by simpa using second)]
  rfl

omit layout in
/-- Blocks in use are placed. -/
theorem Memory.Invariant.placed {depth : Nat} {live : List LiveBlock} {memory : Memory}
    (invariant : Invariant memory depth live) : Placed live := by
  refine ⟨fun used member => ?_, invariant.disjoint⟩
  obtain ⟨size, sized, covers, low, high⟩ := invariant.room member
  exact ⟨size, sized, covers, high.trans invariant.shape.fits.le⟩

omit layout in
/-- Of two blocks in use, neither is the whole arena. -/
theorem Memory.Invariant.smaller {depth : Nat} {live : List LiveBlock} {memory : Memory}
    (invariant : Invariant memory depth live) {used other : LiveBlock} (member : used ∈ live)
    (also : other ∈ live) (apart : Disjoint used.block.bytes other.block.bytes)
    (positive : 0 < other.request) : used.block.size ≠ some memory.memSize := by
  intro whole
  obtain ⟨size, sized, _, low, high⟩ := invariant.room member
  obtain ⟨otherSize, otherSized, covers, otherLow, otherHigh⟩ := invariant.room also
  rw [whole, Option.some.injEq] at sized
  rw [invariant.shape.stop, ← invariant.shape.size] at high otherHigh
  -- The first byte of the other block would be a byte of the whole arena.
  refine Set.disjoint_left.mp apart (?_ : other.block.addr ∈ used.block.bytes) ?_
  · simp only [PhysAddr.bytes, whole, Option.getD_some, Set.mem_Ico]
    omega
  · simp only [PhysAddr.bytes, otherSized, Option.getD_some, Set.mem_Ico]
    omega

/-- A table among other blocks in use is dropped without a fault, which leaves the other blocks. -/
theorem Memory.Invariant.run_drop {depth : Nat} {live others : List LiveBlock}
    (invariant : Invariant kernel.memory depth live) (profile : Profile)
    (represents : Represents kernel.ram table frames)
    (perm : live.Perm (frames.blocks ++ others)) :
    ∃ states, (table.drop profile).run kernel = .ok ()
        { kernel with
          memory := kernel.memory.withStates states
          trace := ((frames.dropOrder kernel.ram).map Event.free).reverse ++ kernel.trace } ∧
      Invariant (kernel.memory.withStates states) depth
        (replay ((frames.dropOrder kernel.ram).map Event.free).reverse live) ∧
      (replay ((frames.dropOrder kernel.ram).map Event.free).reverse live).Perm others := by
  have placed := (invariant.perm perm.symm).placed.sublist (List.sublist_append_left _ _)
  obtain ⟨rootSecond, rootLeaf, _⟩ := Frames.apart placed
  have live_of_mem : ∀ used ∈ frames.blocks, used ∈ live := fun used member =>
    perm.symm.subset (List.mem_append_left _ member)
  have rootLive := live_of_mem ⟨4096, frames.root⟩ List.mem_cons_self
  have secondLive := live_of_mem ⟨20480, frames.second⟩ (List.mem_cons_of_mem _ List.mem_cons_self)
  -- The blocks in the order in which they are given back.
  let given : List LiveBlock :=
    ⟨4096, frames.root⟩ :: frames.leaves.map (⟨4096, ·⟩) ++ [⟨20480, frames.second⟩]
  have order : given.Perm frames.blocks :=
    List.Perm.cons _ (List.perm_append_singleton _ _)
  have sized : (frames.dropOrder kernel.ram).filter (·.size.isSome)
      = given.map LiveBlock.block := by
    rw [dropOrder_sized represents placed]
    simp [given, Function.comp_def]
  have smaller : ∀ used ∈ given, used.block.size ≠ some kernel.memory.memSize := by
    intro used member
    have mine := live_of_mem used (order.subset member)
    simp only [given, List.cons_append, List.mem_cons, List.mem_append, List.mem_map,
      List.not_mem_nil, or_false, Frames.leaves, List.mem_filterMap, List.mem_range] at member
    -- The root is beside the array of arrays, and every other block is beside the root.
    rcases member with rfl | ⟨block, ⟨vpn1, small, known⟩, rfl⟩ | rfl
    · exact invariant.smaller mine secondLive rootSecond (by simp only; omega)
    · exact invariant.smaller mine rootLive (rootLeaf vpn1 small block known).1.symm
        (by simp only; omega)
    · exact invariant.smaller mine rootLive rootSecond.symm (by simp only; omega)
  rw [Os1k.run_drop represents placed]
  exact invariant.run_frees profile sized (perm.trans (order.symm.append_right _)) smaller

end Tables

end Os1k
