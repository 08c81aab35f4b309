import Os1k.Mem.Accounting
import Os1k.Vm.Ownership

/-! Calls on page tables that return because the allocator has the blocks they ask for. -/

namespace Os1k

open Memory (LiveBlock)

namespace FixedVec

/-- A new array is made of the block that is handed out for it. -/
theorem run_new {α : Type} [Elem α] {profile : Profile} {cap : Nat} {kernel : Kernel}
    {block : PhysAddr} {memory : Memory} (sized : Elem.size α ≠ 0)
    (small : cap * Elem.size α ≤ isizeMax)
    (given : (Memory.buddyAlloc profile (cap * Elem.size α)).run kernel.memory =
      .ok (.ok block) memory) (placed : block.addr ≠ 0) :
    (new profile cap).run kernel = .ok (⟨block.addr, cap, block⟩ : FixedVec α)
      { kernel with memory, trace := .alloc (cap * Elem.size α) block :: kernel.trace } := by
  have limit : wordLimit = 4294967296 := rfl
  have largest : isizeMax = 2147483647 := rfl
  have allocated := run_phalloc_ok.mpr ⟨memory, given, rfl⟩
  unfold new
  rw [if_neg sized, profile.mul_eq (by omega : cap * Elem.size α < wordLimit)]
  simp only [pure_bind, if_neg (Nat.not_lt.mpr small)]
  -- None of the checks fails, so what is left is the request.
  rw [EStateM.run_bind, allocated]
  simp only [if_neg placed, EStateM.run_pure]

end FixedVec

variable [layout : VecLayout]

namespace PageTable

variable {profile : Profile} {kernel : Kernel} {table : PageTable} {frames : Frames}

/-- Mapping an aligned page returns if a block is handed out for the table that may be missing. -/
theorem mapPage_returns {vaddr paddr : Nat} (flags : Nat)
    (represents : Represents kernel.ram table frames) (placed : Placed frames.blocks)
    (valigned : vaddr % pageSize = 0) (paligned : paddr % pageSize = 0)
    (supply : frames.leaf (Sv32.vpn1 vaddr) = none → ∃ block memory,
      (Memory.buddyAlloc profile 4096).run kernel.memory = .ok (.ok block) memory ∧
        block.addr ≠ 0) :
    ∃ after, (table.mapPage profile vaddr paddr flags).run kernel = .ok () after := by
  have small := Sv32.vpn1_lt vaddr
  have low := Sv32.vpn0_lt vaddr
  have rootCap : table.rootPt.cap = 1024 := by rw [represents.root]
  have secondCap : table.secondPts.cap = 1024 := by rw [represents.second]
  have rootSlot := represents.root_slot placed small
  have secondSlot := represents.second_slot placed small
  unfold mapPage
  simp only [if_neg (not_not.mpr valigned), if_neg (not_not.mpr paligned), Sv32.vpn1_eq,
    Sv32.vpn0_eq]
  rw [EStateM.run_bind, FixedVec.run_index (by omega), rootSlot]
  simp only [Elem.read]
  cases leaf : frames.leaf (Sv32.vpn1 vaddr) with
  -- The root entry is valid, and its table is owned.
  | some block =>
    obtain ⟨points, owns⟩ := represents.present _ small block leaf
    have valid : ¬ kernel.ram (frames.root.addr + 4 * Sv32.vpn1 vaddr) &&& pageV = 0 := by
      rw [points]
      exact tableEntry_valid block
    rw [if_neg valid]
    exact ⟨_, represents.run_enter placed small low owns profile _⟩
  -- A new table is made of the block that is handed out.
  | none =>
    obtain ⟨invalid, unsized⟩ := represents.absent _ small leaf
    obtain ⟨block, memory, given, nonzero⟩ := supply leaf
    have made : (FixedVec.new profile 1024).run kernel = .ok (tableVec block)
        { kernel with memory, trace := .alloc 4096 block :: kernel.trace } :=
      FixedVec.run_new (by decide : Elem.size Nat ≠ 0) (by decide) given nonzero
    have owns := Kernel.installed_owns placed small given
    rw [if_pos invalid, EStateM.run_bind, made]
    simp only
    rw [EStateM.run_bind, FixedVec.run_assign_vec (by omega) (by rw [secondSlot]) unsized,
      secondSlot]
    simp only
    rw [EStateM.run_bind, FixedVec.run_assign_word (by omega), rootSlot]
    exact ⟨_, represents.run_enter placed small low owns profile _⟩

end PageTable

/-- How many of the second-level tables in a range of root indices are still missing. -/
def Frames.missing (frames : Frames) (low high : Nat) : Nat :=
  ((Finset.Icc low high).filter fun i => frames.leaf i = none).card

omit layout in
/-- A table that is installed in the range is not missing any more. -/
theorem Frames.missing_step {frames grown : Frames} {low high vpn1 : Nat}
    (member : low ≤ vpn1 ∧ vpn1 ≤ high) (unknown : frames.leaf vpn1 = none)
    (leaves : ∀ i, grown.leaf i = none ↔ frames.leaf i = none ∧ i ≠ vpn1) :
    grown.missing low high + 1 = frames.missing low high := by
  have among : vpn1 ∈ (Finset.Icc low high).filter fun i => frames.leaf i = none :=
    Finset.mem_filter.mpr ⟨Finset.mem_Icc.mpr member, unknown⟩
  -- What is missing afterwards is what was missing, without the entry that got its table.
  have fewer : ((Finset.Icc low high).filter fun i => grown.leaf i = none) =
      ((Finset.Icc low high).filter fun i => frames.leaf i = none).erase vpn1 := by
    ext i
    simp only [Finset.mem_filter, Finset.mem_erase, leaves]
    tauto
  rw [missing, missing, fewer, Finset.card_erase_add_one among]

namespace Owns

variable {profile : Profile} {kernel : Kernel} {depth order low high : Nat}
  {live others : List LiveBlock} {table : PageTable} {frames : Frames}

/-- As long as the arena has room for the tables that are missing, it has a block for each. -/
theorem supply (profile : Profile)
    (owns : Owns kernel depth live table (handedOut kernel.trace) others frames)
    (start : 0 < kernel.memory.start.addr) (page : pageSize ≤ 2 ^ order)
    (fits : ∀ used ∈ live, max used.request pageSize ≤ 2 ^ order)
    (room : 2 ^ order * (live.length + frames.missing low high) ≤ kernel.memory.memSize)
    {vpn1 : Nat} (member : low ≤ vpn1 ∧ vpn1 ≤ high) (unknown : frames.leaf vpn1 = none) :
    ∃ block memory, (Memory.buddyAlloc profile 4096).run kernel.memory = .ok (.ok block) memory ∧
      block.addr ≠ 0 := by
  -- The table itself is one of those that there is room for.
  have some : 1 ≤ frames.missing low high := Finset.card_pos.mpr
    ⟨_, Finset.mem_filter.mpr ⟨Finset.mem_Icc.mpr member, unknown⟩⟩
  have enough := Nat.mul_le_mul_left (2 ^ order) (Nat.add_le_add_left some live.length)
  obtain ⟨block, memory, given⟩ := owns.invariant.run_alloc_few profile
    (by decide : 0 < 4096) page fits (enough.trans room)
  obtain ⟨same, kept⟩ := owns.invariant.run_alloc given
  obtain ⟨_, _, _, above, _⟩ := kept.room List.mem_cons_self
  rw [same] at above
  exact ⟨block, memory, given, by simp only at above; omega⟩

/--
Mapping aligned pages returns as long as the arena has room for the tables that are missing.

Every block in use is counted as one of the largest size.
-/
theorem mapPages_returns {calls : List Mapping} (profile : Profile)
    (owns : Owns kernel depth live table (handedOut kernel.trace) others frames)
    (start : 0 < kernel.memory.start.addr)
    (aligned : ∀ call ∈ calls, call.vaddr % pageSize = 0 ∧ call.paddr % pageSize = 0)
    (range : ∀ call ∈ calls, low ≤ Sv32.vpn1 call.vaddr ∧ Sv32.vpn1 call.vaddr ≤ high)
    (page : pageSize ≤ 2 ^ order) (fits : ∀ used ∈ live, max used.request pageSize ≤ 2 ^ order)
    (room : 2 ^ order * (live.length + frames.missing low high) ≤ kernel.memory.memSize) :
    ∃ after taken, (table.mapPages profile calls).run kernel = .ok () after ∧
      handedOut after.trace = taken ++ handedOut kernel.trace ∧
      taken.length ≤ frames.missing low high ∧ ∀ used ∈ taken, used.request = 4096 := by
  -- The induction is on the calls, and what a call takes is missing no more for the next ones.
  induction calls generalizing kernel live frames with
  | nil => exact ⟨kernel, [], rfl, rfl, Nat.zero_le _, nofun⟩
  | cons call calls ih =>
    have small := Sv32.vpn1_lt call.vaddr
    have below := Sv32.vpn0_lt call.vaddr
    obtain ⟨valigned, paligned⟩ := aligned call List.mem_cons_self
    have member := range call List.mem_cons_self
    -- The first call finds the page that it may need.
    obtain ⟨middle, mapped⟩ := PageTable.mapPage_returns call.flags owns.represents owns.placed
      valigned paligned (owns.supply profile start page fits room member)
    obtain ⟨_, _, grown, step⟩ := run_mapPage owns.represents owns.placed mapped
    obtain ⟨taken, between, middleStart, leaves, shape⟩ := owns.step step small below
    -- What was taken is on record, and what is missing became fewer by as much.
    have handed : handedOut middle.trace = taken ++ handedOut kernel.trace ∧
        taken.length + grown.missing low high = frames.missing low high ∧
        ∀ used ∈ taken, used.request = 4096 := by
      rcases shape with ⟨rfl, known⟩ | ⟨block, memory, rfl, unknown, rfl⟩
      · cases step with
        | known _ => exact ⟨rfl, Nat.zero_add _, nofun⟩
        | fresh unknown _ => exact absurd unknown known
      · refine ⟨?_, ?_, by simp⟩
        · simp [handedOut, Kernel.entered, Kernel.installed, List.filterMap_map]
        · rw [List.length_singleton, Nat.add_comm]
          exact Frames.missing_step member unknown leaves
    obtain ⟨recorded, counted, pages⟩ := handed
    rw [← recorded] at between
    have size : middle.memory.memSize = kernel.memory.memSize := by
      rw [between.invariant.shape.size, owns.invariant.shape.size]
    obtain ⟨after, later, ran, laterRecorded, few, laterPages⟩ := ih between
      (by rw [middleStart]; exact start)
      (fun other found => aligned other (List.mem_cons_of_mem _ found))
      (fun other found => range other (List.mem_cons_of_mem _ found))
      (fun used found => by
        rcases List.mem_append.mp found with new | old
        · rw [pages used new]
          exact page
        · exact fits used old)
      (by rw [List.length_append, size]; exact le_trans (Nat.mul_le_mul_left _ (by omega)) room)
    refine ⟨after, later ++ taken, ?_, ?_, ?_, ?_⟩
    · simp only [PageTable.mapPages, List.forM_cons]
      rw [EStateM.run_bind, mapped]
      exact ran
    · rw [laterRecorded, recorded, List.append_assoc]
    · rw [List.length_append]
      omega
    · intro used found
      rcases List.mem_append.mp found with new | old
      · exact laterPages used new
      · exact pages used old

end Owns

end Os1k
