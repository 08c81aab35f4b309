import Os1k.Vm.Teardown
import Os1k.Vm.Translation

/-! Page tables among other users of the allocator: which blocks are theirs, step by step. -/

namespace Os1k

open Memory (LiveBlock)

/-- The two blocks that a new page table would be handed are all zero. -/
def NextBlocksZero (profile : Profile) (kernel : Kernel) : Prop :=
  ∀ root middle second memory,
    (Memory.buddyAlloc profile 4096).run kernel.memory = .ok (.ok root) middle →
    (Memory.buddyAlloc profile 20480).run middle = .ok (.ok second) memory →
    (∀ a ∈ root.bytes, kernel.ram a = 0) ∧ ∀ a ∈ second.bytes, kernel.ram a = 0

/-- RAM that is managed and not in use is all zero, as boot left it. -/
def FreeZero (kernel : Kernel) (live : List LiveBlock) : Prop :=
  ∀ a, kernel.memory.start.addr ≤ a → a < kernel.memory.stop.addr →
    (∀ used ∈ live, a ∉ used.block.bytes) → kernel.ram a = 0

namespace FreeZero

variable {profile : Profile} {kernel after : Kernel} {depth : Nat} {live more : List LiveBlock}

/-- A block that is handed out is still all zero. -/
theorem given {memory : Memory} {n : Nat} {block : PhysAddr} (zero : FreeZero kernel live)
    (taken : List LiveBlock) (start : memory.start = kernel.memory.start)
    (stop : memory.stop.addr = kernel.memory.stop.addr)
    (given : Memory.Invariant memory depth (taken ++ ⟨n, block⟩ :: live)) :
    ∀ a ∈ block.bytes, kernel.ram a = 0 := by
  -- The block overlaps none that was in use before, so it was free RAM.
  have member : (⟨n, block⟩ : LiveBlock) ∈ taken ++ ⟨n, block⟩ :: live := by simp
  obtain ⟨size, sized, _, low, high⟩ := given.room member
  simp only at sized
  have apart := (List.pairwise_cons.mp (List.pairwise_append.mp given.disjoint).2.1).1
  intro a inside
  have bounds := inside
  simp only [PhysAddr.bytes, sized, Option.getD_some, Set.mem_Ico] at bounds
  rw [start] at low
  simp only at low high
  refine zero a (by omega) (by omega) fun used found also => ?_
  exact Set.disjoint_left.mp (apart used found) inside also

/-- The blocks that a new table is handed are zero. -/
theorem nextBlocks (zero : FreeZero kernel live)
    (invariant : Memory.Invariant kernel.memory depth live) : NextBlocksZero profile kernel := by
  intro root middle second memory rootGiven secondGiven
  obtain ⟨middleStart, middleKept⟩ := invariant.run_alloc rootGiven
  obtain ⟨memoryStart, kept⟩ := middleKept.run_alloc secondGiven
  have start : memory.start = kernel.memory.start := memoryStart.trans middleStart
  have stop : memory.stop.addr = kernel.memory.stop.addr := by
    rw [kept.shape.stop, invariant.shape.stop, start]
  -- With more in use there is less that has to be zero.
  have fewer : FreeZero kernel (⟨4096, root⟩ :: live) := fun a low high unused =>
    zero a low high fun used member => unused used (List.mem_cons_of_mem _ member)
  exact ⟨zero.given [⟨20480, second⟩] start stop kept, fewer.given [] start stop kept⟩

/-- Where more is in use and only blocks in use were written, the rest is as zero as before. -/
theorem frame (zero : FreeZero kernel live) (invariant : Memory.Invariant kernel.memory depth live)
    (kept : Memory.Invariant after.memory depth more)
    (start : after.memory.start = kernel.memory.start) (sub : ∀ used ∈ live, used ∈ more)
    (agree : ∀ a, (∀ used ∈ more, a ∉ used.block.bytes) → after.ram a = kernel.ram a) :
    FreeZero after more := by
  have stop : after.memory.stop.addr = kernel.memory.stop.addr := by
    rw [kept.shape.stop, invariant.shape.stop, start]
  intro a low high unused
  rw [start] at low
  rw [stop] at high
  rw [agree a unused]
  -- Every block that is in use later was in use before.
  exact zero a low high fun used member => unused used (sub used member)

end FreeZero

variable [layout : VecLayout]

/--
A page table owns some of the blocks in use.

The frames say what each of its blocks is for, and the other blocks in use are not its own.
-/
structure Owns (kernel : Kernel) (depth : Nat) (live : List LiveBlock) (table : PageTable)
    (owned others : List LiveBlock) (frames : Frames) : Prop where
  invariant : Memory.Invariant kernel.memory depth live
  perm : live.Perm (frames.blocks ++ others)
  owned : owned.Perm frames.blocks
  represents : Represents kernel.ram table frames

namespace Owns

variable {kernel after : Kernel} {depth : Nat} {live owned others : List LiveBlock}
  {table : PageTable} {frames : Frames} {profile : Profile}

/-- The blocks of the table are placed. -/
theorem placed (owns : Owns kernel depth live table owned others frames) :
    Placed frames.blocks :=
  (owns.invariant.perm owns.perm.symm).placed.sublist (List.sublist_append_left _ _)

/-- A block of the table overlaps no block that is not its own. -/
theorem apart (owns : Owns kernel depth live table owned others frames) {mine other : LiveBlock}
    (member : mine ∈ frames.blocks) (also : other ∈ others) :
    Disjoint mine.block.bytes other.block.bytes := by
  have disjoint := (owns.invariant.perm owns.perm.symm).disjoint
  exact (List.pairwise_append.mp disjoint).2.2 mine member other also

/-- The two blocks that were handed out for a table make up an empty one. -/
theorem created {root second : PhysAddr} {middle memory : Memory}
    (invariant : Memory.Invariant kernel.memory depth live)
    (rootGiven : (Memory.buddyAlloc profile 4096).run kernel.memory = .ok (.ok root) middle)
    (secondGiven : (Memory.buddyAlloc profile 20480).run middle = .ok (.ok second) memory)
    (same : after.memory = memory) (rootZero : ∀ a ∈ root.bytes, after.ram a = 0)
    (secondZero : ∀ a ∈ second.bytes, after.ram a = 0) :
    after.memory.start = kernel.memory.start ∧
    Owns after depth (⟨20480, second⟩ :: ⟨4096, root⟩ :: live)
      ⟨⟨root.addr, 1024, root⟩, ⟨second.addr, 1024, second⟩⟩ [⟨20480, second⟩, ⟨4096, root⟩] live
      ⟨root, second, fun _ => none⟩ := by
  -- The two blocks are handed out one after the other, the root first.
  obtain ⟨rootStart, rootKept⟩ := invariant.run_alloc rootGiven
  obtain ⟨secondStart, kept⟩ := rootKept.run_alloc secondGiven
  rw [← same] at secondStart kept
  have perm : (⟨20480, second⟩ :: ⟨4096, root⟩ :: live : List LiveBlock).Perm
      (Frames.blocks ⟨root, second, fun _ => none⟩ ++ live) := by
    rw [Frames.blocks_empty]
    exact List.Perm.swap _ _ _
  have placed : Placed (Frames.blocks ⟨root, second, fun _ => none⟩) :=
    (kept.perm perm.symm).placed.sublist (List.sublist_append_left _ _)
  refine ⟨secondStart.trans rootStart, kept, perm, ?_, .empty placed rootZero secondZero⟩
  rw [Frames.blocks_empty]
  exact List.Perm.swap _ _ _

/-- A new table owns the two blocks it was handed. -/
theorem new (invariant : Memory.Invariant kernel.memory depth live)
    (zero : NextBlocksZero profile kernel)
    (ran : (PageTable.new profile).run kernel.quiet = .ok table after) :
    ∃ frames, Owns after depth (replay after.trace live) table (handedOut after.trace) live frames ∧
      after.ram = kernel.ram ∧ after.memory.start = kernel.memory.start ∧
      ∀ vpn1, frames.leaf vpn1 = none := by
  -- Nothing is written for a new table.
  obtain ⟨root, second, middle, memory, rootGiven, secondGiven, rfl, rfl⟩ := run_new_ok ran
  obtain ⟨rootZero, secondZero⟩ := zero root middle second memory rootGiven secondGiven
  let built : Kernel := { kernel with memory, trace := [.alloc 20480 second, .alloc 4096 root] }
  have same : built.memory = memory := rfl
  obtain ⟨start, owns⟩ := created invariant rootGiven secondGiven same rootZero secondZero
  exact ⟨_, owns, rfl, start, fun _ => rfl⟩

/-- A page mapped in a table takes at most one block more into use, for the table. -/
theorem step {vpn1 vpn0 value : Nat} {grown : Frames}
    (owns : Owns kernel depth live table owned others frames)
    (step : MapStep profile kernel frames vpn1 vpn0 value after grown) (small : vpn1 < 1024)
    (low : vpn0 < 1024) :
    ∃ taken, Owns after depth (taken ++ live) table (taken ++ owned) others grown ∧
      after.memory.start = kernel.memory.start ∧
      (∀ i, grown.leaf i = none ↔ frames.leaf i = none ∧ i ≠ vpn1) ∧
      ((taken = [] ∧ frames.leaf vpn1 ≠ none) ∨
        ∃ block memory, taken = [⟨4096, block⟩] ∧ frames.leaf vpn1 = none ∧
          after = (kernel.installed frames vpn1 block memory).entered block vpn0 value) := by
  have kept : ∃ taken, Memory.Invariant after.memory depth (taken ++ live) ∧
      (taken ++ live).Perm (grown.blocks ++ others) ∧ (taken ++ owned).Perm grown.blocks ∧
      after.memory.start = kernel.memory.start ∧
      (∀ i, grown.leaf i = none ↔ frames.leaf i = none ∧ i ≠ vpn1) ∧
      ((taken = [] ∧ frames.leaf vpn1 ≠ none) ∨
        ∃ block memory, taken = [⟨4096, block⟩] ∧ frames.leaf vpn1 = none ∧
          after = (kernel.installed frames vpn1 block memory).entered block vpn0 value) := by
    -- Only a root index without a table takes a block into use.
    cases step with
    | known known =>
      refine ⟨[], owns.invariant, owns.perm, owns.owned, rfl, fun i => ?_, .inl ⟨rfl, by simp [known]⟩⟩
      refine ⟨fun unknown => ⟨unknown, ?_⟩, fun both => both.1⟩
      rintro rfl
      simp [known] at unknown
    | @fresh block memory unknown given =>
      obtain ⟨start, grownKept⟩ := owns.invariant.run_alloc given
      have inserted : (frames.insert vpn1 block).blocks.Perm (⟨4096, block⟩ :: frames.blocks) :=
        Frames.insert_perm small unknown
      refine ⟨[⟨4096, block⟩], grownKept, ?_, ?_, start, fun i => ?_,
        .inr ⟨block, memory, rfl, unknown, rfl⟩⟩
      · exact (owns.perm.cons _).trans (inserted.symm.append_right others)
      · exact (owns.owned.cons _).trans inserted.symm
      · by_cases here : i = vpn1 <;> simp [Frames.insert, here]
  obtain ⟨taken, invariant, perm, mine, start, leaves, shape⟩ := kept
  have placed : Placed grown.blocks :=
    (invariant.perm perm.symm).placed.sublist (List.sublist_append_left _ _)
  exact ⟨taken, ⟨invariant, perm, mine, step.represents owns.represents small low owns.placed placed⟩,
    start, leaves, shape⟩

/--
A page mapped in a table is a matter of that table's blocks alone.

What is written lies in them, the other blocks in use stay as they are, and the table owns one more
block exactly when the page is the first one with its root index.
-/
theorem map {vaddr paddr flags : Nat} (owns : Owns kernel depth live table owned others frames)
    (ran : (table.mapPage profile vaddr paddr flags).run kernel.quiet = .ok () after) :
    ∃ grown, Owns after depth (replay after.trace live) table (handedOut after.trace ++ owned)
        others grown ∧
      (∀ a, (∀ used ∈ grown.blocks, a ∉ used.block.bytes) → after.ram a = kernel.ram a) ∧
      (∀ a, Event.store a ∈ after.trace → ∃ used ∈ grown.blocks, a ∈ used.block.bytes) ∧
      after.memory.start = kernel.memory.start ∧
      ∀ vpn1, grown.leaf vpn1 = none ↔ frames.leaf vpn1 = none ∧ vpn1 ≠ Sv32.vpn1 vaddr := by
  have small := Sv32.vpn1_lt vaddr
  have low := Sv32.vpn0_lt vaddr
  -- What was recorded before is of no account.
  have quiet : Owns kernel.quiet depth live table owned others frames :=
    ⟨owns.invariant, owns.perm, owns.owned, owns.represents⟩
  obtain ⟨_, _, grown, mapped⟩ := run_mapPage quiet.represents quiet.placed ran
  obtain ⟨taken, grownOwns, start, leaves, shape⟩ := quiet.step mapped small low
  obtain ⟨framed, stored⟩ := mapped.writes small low grownOwns.placed
  -- The events of the step say which block was taken.
  have events : replay after.trace live = taken ++ live ∧ handedOut after.trace = taken := by
    rcases shape with ⟨rfl, known⟩ | ⟨block, memory, rfl, unknown, rfl⟩
    · cases mapped with
      | known _ => exact ⟨rfl, rfl⟩
      | fresh unknown _ => exact absurd unknown known
    · have unsized := (owns.represents.absent _ small unknown).2
      refine ⟨?_, by simp [handedOut, Kernel.entered, Kernel.installed, List.filterMap_map,
        Kernel.quiet]⟩
      have stores : ∀ (words : List (Nat × Nat)) (addr : Nat) (rest : List Event),
          replay ((words.map fun word => Event.store (addr + word.1)).reverse ++ rest) live
            = replay rest live := by
        intro words addr rest
        rw [← List.map_reverse]
        induction words.reverse with
        | nil => rfl
        | cons word words ih => exact ih
      simp only [Kernel.entered, Kernel.installed, List.cons_append, replay, stores]
      -- The record that is replaced owns nothing, so giving it back takes nothing out of use.
      exact grownOwns.invariant.eraseP_unsized unsized
  rw [events.1, events.2]
  refine ⟨grown, ?_, framed, ?_, start, leaves⟩
  · exact grownOwns
  · intro a event
    rcases stored a event with before | inside
    · simp [Kernel.quiet] at before
    · exact inside

/-- Pages mapped in a table one after the other are a matter of that table's blocks alone. -/
theorem mapPages {calls : List Mapping} (owns : Owns kernel depth live table owned others frames)
    (ran : (table.mapPages profile calls).run kernel = .ok () after) :
    ∃ taken grown, Owns after depth (taken ++ live) table (taken ++ owned) others grown ∧
      (∀ a, (∀ used ∈ grown.blocks, a ∉ used.block.bytes) → after.ram a = kernel.ram a) ∧
      after.memory.start = kernel.memory.start := by
  -- The blocks taken so far are those of the table for the calls to come.
  induction calls generalizing kernel live owned frames with
  | nil =>
    obtain ⟨_, rfl⟩ : () = () ∧ kernel = after := by simpa [PageTable.mapPages] using ran
    exact ⟨[], frames, owns, fun _ _ => rfl, rfl⟩
  | cons call calls ih =>
    simp only [PageTable.mapPages, List.forM_cons] at ran
    obtain ⟨_, middle, mapped, rest⟩ := Exec.run_bind_ok.mp ran
    have small := Sv32.vpn1_lt call.vaddr
    have low := Sv32.vpn0_lt call.vaddr
    obtain ⟨_, _, between, step⟩ := run_mapPage owns.represents owns.placed mapped
    obtain ⟨taken, middleOwns, middleStart, _, _⟩ := owns.step step small low
    obtain ⟨later, grown, finalOwns, framed, finalStart⟩ := ih middleOwns rest
    refine ⟨later ++ taken, grown, by simpa using finalOwns, ?_, finalStart.trans middleStart⟩
    intro a outside
    rw [framed a outside]
    refine (step.writes small low middleOwns.placed).1 a fun used member inside => ?_
    -- A block that the table has after the first call is one it has in the end.
    have kept : used ∈ grown.blocks := finalOwns.owned.subset
      (List.mem_append_right _ (middleOwns.owned.symm.subset member))
    exact outside used kept inside

/-- Changes elsewhere leave a table in possession of its blocks. -/
theorem frame (owns : Owns kernel depth live table owned others frames) {newLive : List LiveBlock}
    {newOthers : List LiveBlock} (invariant : Memory.Invariant after.memory depth newLive)
    (perm : newLive.Perm (frames.blocks ++ newOthers))
    (agree : ∀ used ∈ frames.blocks, ∀ a ∈ used.block.bytes, after.ram a = kernel.ram a) :
    Owns after depth newLive table owned newOthers frames :=
  ⟨invariant, perm, owns.owned, owns.represents.frame owns.placed agree⟩

/-- A table is dropped without a fault, which leaves the blocks that are not its own. -/
theorem drop (owns : Owns kernel depth live table owned others frames) (profile : Profile) :
    ∃ after states, (table.drop profile).run kernel.quiet = .ok () after ∧
      after.ram = kernel.ram ∧ after.memory = kernel.memory.withStates states ∧
      after.trace = ((frames.dropOrder kernel.ram).map Event.free).reverse ∧
      Memory.Invariant after.memory depth (replay after.trace live) ∧
      (replay after.trace live).Perm others := by
  have quiet : Memory.Invariant kernel.quiet.memory depth live := owns.invariant
  -- What is given back is a part of what is in use, and the rest is left.
  obtain ⟨states, ran, kept, left⟩ := quiet.run_drop profile owns.represents owns.perm
  have order : frames.dropOrder kernel.quiet.ram = frames.dropOrder kernel.ram := rfl
  rw [order] at ran kept left
  generalize frames.dropOrder kernel.ram = addrs at ran kept left ⊢
  simp only [Kernel.quiet, List.append_nil] at ran kept left
  exact ⟨_, states, ran, rfl, rfl, rfl, kept, left⟩

end Owns

end Os1k
