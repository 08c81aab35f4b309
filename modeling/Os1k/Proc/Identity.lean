import Os1k.Mem.Managed
import Os1k.Proc.Resumption

/-! Every process sees the kernel and free RAM mapped to themselves, and nothing else. -/

namespace Os1k

open Memory (LiveBlock)

/-- What the linker script promises: the kernel below free RAM, in whole pages that end early. -/
structure Linked (image : Image) : Prop where
  base : image.kernelBase % pageSize = 0
  ram : image.freeRam % pageSize = 0
  stop : image.freeRamEnd % pageSize = 0
  below : image.kernelBase ≤ image.freeRam
  ordered : image.freeRam ≤ image.freeRamEnd
  word : image.freeRamEnd + pageSize < wordLimit

/-- A page is mapped to itself when it starts below the limit. -/
theorem mem_identityPages {base limit : Nat} {call : Mapping} :
    call ∈ identityPages base limit ↔ ∃ i, base + i * pageSize < limit ∧
      call = ⟨base + i * pageSize, base + i * pageSize, pageR ||| pageW ||| pageX⟩ := by
  have pages : pageSize = 4096 := rfl
  simp only [identityPages, List.mem_map, List.mem_range]
  -- The number of pages is rounded up, so the last one may go past the limit.
  constructor
  · rintro ⟨i, inside, rfl⟩
    refine ⟨i, ?_, rfl⟩
    rw [pages] at inside ⊢
    omega
  · rintro ⟨i, inside, rfl⟩
    refine ⟨i, ?_, rfl⟩
    rw [pages] at inside ⊢
    omega

/-- Of the pages of an image, the address counts up to the next one without an overflow. -/
theorem Linked.next_page {image : Image} (linked : Linked image) {σ : Type} (profile : Profile)
    {call : Mapping} (member : call ∈ identityPages image.kernelBase image.freeRamEnd) :
    (profile.add call.vaddr pageSize : Exec Fault σ Nat) = pure (call.vaddr + pageSize) := by
  obtain ⟨i, inside, rfl⟩ := mem_identityPages.mp member
  have word := linked.word
  exact Profile.add_eq profile (by simp only; omega)

/-- The last call for an address is that of its own page, if there is one. -/
theorem lastCall_identityPages {base limit : Nat} (low : base % pageSize = 0)
    (high : limit % pageSize = 0) (v : Nat) :
    lastCall (identityPages base limit) v =
      if base ≤ v ∧ v < limit then
        some ⟨v - v % pageSize, v - v % pageSize, pageR ||| pageW ||| pageX⟩
      else none := by
  have pages : pageSize = 4096 := rfl
  rw [pages] at low high
  cases last : lastCall (identityPages base limit) v with
  -- A call that is found is for the page of the address, which then is in the range.
  | some call =>
    have made := List.mem_reverse.mp (List.mem_of_find?_eq_some last)
    have found := List.find?_some last
    obtain ⟨i, inside, rfl⟩ := mem_identityPages.mp made
    simp only [decide_eq_true_eq] at found
    rw [pages] at inside found
    have start : base + i * pageSize = v - v % pageSize := by
      rw [pages]
      omega
    rw [if_pos (by omega), start]
  -- The page of an address in the range is among those mapped.
  | none =>
    have absent := List.find?_eq_none.mp last
    rw [if_neg]
    rintro ⟨above, below⟩
    have made : (⟨v - v % pageSize, v - v % pageSize, pageR ||| pageW ||| pageX⟩ : Mapping) ∈
        identityPages base limit := by
      refine mem_identityPages.mpr ⟨(v - base) / pageSize, ?_, ?_⟩
      · rw [pages]
        omega
      · have start : v - v % pageSize = base + (v - base) / pageSize * pageSize := by
          rw [pages]
          omega
        rw [start]
    have other := absent _ (List.mem_reverse.mpr made)
    simp only [decide_eq_true_eq] at other
    rw [pages] at other
    omega

/-- What a process sees of an image: the kernel and free RAM, at the addresses that they have. -/
def Image.sees (image : Image) (v : Nat) : Sv32.Outcome :=
  if image.kernelBase ≤ v ∧ v < image.freeRamEnd then .leaf v (pageV ||| pageR ||| pageW ||| pageX)
  else .invalid

/-- The root of a page table and the second-level tables it points to lie in a range. -/
def PageTable.LiesIn (table : PageTable) (ram : Nat → Nat) (low high : Nat) : Prop :=
  (low ≤ table.rootPtAddr ∧ table.rootPtAddr + pageSize ≤ high) ∧
  ∀ vpn1 < 1024, ∀ entry, ram (table.rootPtAddr + 4 * vpn1) = entry → entry &&& pageV ≠ 0 →
    low ≤ Sv32.ppn entry * pageSize ∧ Sv32.ppn entry * pageSize + pageSize ≤ high

/-- Blocks in use in an arena are placed. -/
theorem Memory.Managed.placed {ramStart ramEnd : Nat} {memory : Memory} {live : List LiveBlock}
    (managed : memory.Managed ramStart ramEnd live) : Placed live := by
  have word := managed.word
  -- A block ends inside the arena, which ends below the limit.
  refine ⟨fun used member => ?_, managed.disjoint⟩
  obtain ⟨size, sized, covers, _, _, high⟩ := managed.room member
  exact ⟨size, sized, covers, by omega⟩

/-- Every byte of a block in use is one of the arena. -/
theorem Memory.Managed.bytes_inside {ramStart ramEnd : Nat} {memory : Memory}
    {live : List LiveBlock} (managed : memory.Managed ramStart ramEnd live) {used : LiveBlock}
    (member : used ∈ live) {a : Nat} (inside : a ∈ used.block.bytes) :
    ramStart ≤ a ∧ a < ramEnd := by
  obtain ⟨size, sized, _, _, low, high⟩ := managed.room member
  simp only [PhysAddr.bytes, sized, Option.getD_some, Set.mem_Ico] at inside
  omega

section Layout

variable [VecLayout]

/-- What is written outside of the blocks of a table does not change how it translates. -/
theorem Represents.walk_frame {ram other : Nat → Nat} {table : PageTable} {frames : Frames}
    (represents : Represents ram table frames) (placed : Placed frames.blocks)
    (aligned : ∀ used ∈ frames.blocks, used.block.addr % pageSize = 0)
    (agree : ∀ used ∈ frames.blocks, ∀ a ∈ used.block.bytes, other a = ram a) (v : Nat) :
    Sv32.walk other table.satp v = Sv32.walk ram table.satp v := by
  have small := Sv32.vpn1_lt v
  have low := Sv32.vpn0_lt v
  rw [(represents.frame placed agree).walk placed aligned, represents.walk placed aligned]
  cases known : frames.leaf (Sv32.vpn1 v) with
  | none => rfl
  | some block =>
    -- The entry that decides is a word of the second-level table.
    have member := Frames.leaf_mem small known
    have word := (placed.mem_bytes member (by simp only; omega : 4 * Sv32.vpn0 v < _)).1
    simp only [agree _ member _ word]

variable {profile : Profile} {ramStart ramEnd : Nat} {kernel after : Kernel} {table : PageTable}
  {frames : Frames} {live : List LiveBlock}

/-- Mapping pages keeps the arena, with the blocks handed out for the table in use. -/
theorem managed_mapPages {calls : List Mapping} (represents : Represents kernel.ram table frames)
    (owned : (handedOut kernel.trace).Perm frames.blocks)
    (managed : kernel.memory.Managed ramStart ramEnd (handedOut kernel.trace ++ live))
    (ran : (table.mapPages profile calls).run kernel = .ok () after) :
    after.memory.Managed ramStart ramEnd (handedOut after.trace ++ live) := by
  -- The blocks of the table are those handed out so far, call after call.
  induction calls generalizing kernel frames with
  | nil =>
    obtain ⟨_, rfl⟩ : () = () ∧ kernel = after := by simpa [PageTable.mapPages] using ran
    exact managed
  | cons call calls ih =>
    simp only [PageTable.mapPages, List.forM_cons] at ran
    obtain ⟨_, middle, mapped, rest⟩ := Exec.run_bind_ok.mp ran
    have small := Sv32.vpn1_lt call.vaddr
    have low := Sv32.vpn0_lt call.vaddr
    have was : Placed frames.blocks :=
      (managed.placed.sublist (List.sublist_append_left _ _)).perm owned.symm
    obtain ⟨_, _, grown, step⟩ := run_mapPage represents was mapped
    have grownOwned := step.handedOut_perm small owned
    have kept : middle.memory.Managed ramStart ramEnd (handedOut middle.trace ++ live) := by
      cases step with
      | known known => simpa [handedOut, Kernel.entered] using managed
      | fresh unknown given =>
        simpa [handedOut, Kernel.entered, Kernel.installed, List.filterMap_map, Memory.inUse] using
          managed.request given
    have placed : Placed grown.blocks :=
      (kept.placed.sublist (List.sublist_append_left _ _)).perm grownOwned.symm
    exact ih (step.represents represents small low was placed) grownOwned kept rest

end Layout

section Processes

variable [VecLayout] [layout : ProcLayout]

/-- The process in a slot. -/
def ProcTable.process (procs : ProcTable) (ram : Nat → Nat) (i : Nat) : Process :=
  Elem.read ram (procs.table.slotAddr i)

/--
A process table in managed RAM, which may hold processes already.

It owns one of the blocks in use, and the page table of each slot that is taken is made of others.
Slots that are not taken are all zero.
-/
structure Tenanted (image : Image) (kernel : Kernel) (procs : ProcTable) (live : List LiveBlock) :
    Prop where
  managed : kernel.memory.Managed image.freeRam image.freeRamEnd live
  seated : Seated procs live
  blank : ∀ i < procMax, (procs.process kernel.ram i).state = .unused →
    ∀ o < procSize, kernel.ram (procs.slot i + o) = 0
  tables : ∀ i < procMax, (procs.process kernel.ram i).state = .runnable →
    ∃ frames others, Represents kernel.ram (procs.pageTable kernel.ram i) frames ∧
      live.Perm (frames.blocks ++ others) ∧
      (⟨procMax * procSize, procs.table.physAddr⟩ : LiveBlock) ∈ others

/-- RAM once a slot is set up for a process, with a page table that was just made. -/
def readyRam (procs : ProcTable) (kernel : Kernel) (i pc : Nat) (root second : PhysAddr) :
    Nat → Nat :=
  recordedRam (procs.slot i) ⟨⟨root.addr, 1024, root⟩, ⟨second.addr, 1024, second⟩⟩
    (claimedRam (procs.slot i) i pc kernel.ram)

/-- What creating a process leaves: the blocks handed out are its page table, and all else is kept. -/
structure Settled (image : Image) (kernel after : Kernel) (procs : ProcTable)
    (live : List LiveBlock) (i : Nat) (start : Nat → Nat) (table : PageTable) (frames : Frames) :
    Prop where
  inside : i < procMax
  unused : (procs.process kernel.ram i).state = .unused
  managed : after.memory.Managed image.freeRam image.freeRamEnd (handedOut after.trace ++ live)
  fresh : FreshBlocks start (handedOut after.trace)
  mapped : Mapped start table (identityPages image.kernelBase image.freeRamEnd) after frames
  prepared : Prepared after.ram (procs.slot i) i table
  kept : ∀ a, (∀ o < procSize, a ≠ procs.slot i + o) →
    (∀ used ∈ handedOut after.trace, a ∉ used.block.bytes) → after.ram a = kernel.ram a

/-- A process is read from the bytes of its slot. -/
theorem process_congr {ram other : Nat → Nat} {addr : Nat}
    (agree : ∀ o < procSize, other (addr + o) = ram (addr + o)) :
    (Elem.read other addr : Process) = Elem.read ram addr := by
  -- Each part is inside the slot, and the words of a part are inside the part.
  have part : ∀ (field : ProcField) (o : Nat), o < field.width →
      other (addr + layout.offset field + o) = ram (addr + layout.offset field + o) := by
    intro field o inside
    have fits := layout.inside field
    rw [Nat.add_assoc]
    exact agree _ (by omega)
  have stack : (List.range (procStackSize / 4)).map
      (fun k => other (addr + layout.offset .stack + 4 * k)) =
      (List.range (procStackSize / 4)).map fun k => ram (addr + layout.offset .stack + 4 * k) := by
    apply List.map_congr_left
    intro k member
    have size : procStackSize = 2048 := rfl
    rw [List.mem_range, size] at member
    exact part .stack _ (by simp only [ProcField.width, size]; omega)
  have root : (Elem.read other (addr + layout.offset .rootPt) : FixedVec Nat) =
      Elem.read ram (addr + layout.offset .rootPt) :=
    read_congr fun k small => part .rootPt _ (by simp only [ProcField.width]; omega)
  have second : (Elem.read other (addr + layout.offset .secondPts) : FixedVec (FixedVec Nat)) =
      Elem.read ram (addr + layout.offset .secondPts) :=
    read_congr fun k small => part .secondPts _ (by simp only [ProcField.width]; omega)
  have sp := part .sp 0 (by decide)
  have pid := part .pid 0 (by decide)
  have state := part .state 0 (by decide)
  simp only [Nat.add_zero] at sp pid state
  -- All fields are made of those words.
  show Process.mk _ _ _ _ _ = Process.mk _ _ _ _ _
  rw [stack, sp, pid, root, second, state]

/-- Free RAM that is not in use is all zero, as boot left it. -/
def Vacant (image : Image) (ram : Nat → Nat) (live : List LiveBlock) : Prop :=
  ∀ a, image.freeRam ≤ a → a < image.freeRamEnd → (∀ used ∈ live, a ∉ used.block.bytes) → ram a = 0

omit [VecLayout] layout in
/-- Blocks that were taken into use are all zero until they are written. -/
theorem Vacant.given {image : Image} {ram : Nat → Nat} {memory : Memory} {taken live : List LiveBlock}
    (vacant : Vacant image ram live)
    (managed : memory.Managed image.freeRam image.freeRamEnd (taken ++ live)) :
    ∀ used ∈ taken, ∀ a ∈ used.block.bytes, ram a = 0 := by
  -- Blocks in use do not overlap, so that what was taken was not in use before.
  intro used member a here
  obtain ⟨low, high⟩ := managed.bytes_inside (List.mem_append_left live member) here
  refine vacant a low high fun old found there => ?_
  have apart := (List.pairwise_append.mp managed.disjoint).2.2 used member old found
  exact Set.disjoint_left.mp apart here there

namespace Tenanted

variable {profile : Profile} {image : Image} {kernel after : Kernel} {procs : ProcTable}
  {live : List LiveBlock} {i pc : Nat}

/-- Creating a process takes two blocks into use for its page table, and then maps pages in it. -/
theorem staged (tenanted : Tenanted image kernel procs live)
    (ran : (procs.createProcess profile image pc).run kernel.quiet = .ok i after) :
    i < procMax ∧ (procs.process kernel.ram i).state = .unused ∧ ∃ root second memory trace,
      handedOut trace = [⟨20480, second⟩, ⟨4096, root⟩] ∧
      memory.Managed image.freeRam image.freeRamEnd (handedOut trace ++ live) ∧
      (PageTable.mapPages profile ⟨⟨root.addr, 1024, root⟩, ⟨second.addr, 1024, second⟩⟩
          (identityPages image.kernelBase image.freeRamEnd)).run
        ⟨memory, readyRam procs kernel i pc root second, trace⟩ = .ok () after := by
  -- A kernel whose trace was dropped has the memory it had.
  have blank : ∀ i < procMax, (procs.process kernel.quiet.ram i).state = .unused →
      ∀ o < procSize, kernel.quiet.ram (procs.slot i + o) = 0 := tenanted.blank
  obtain ⟨_, inside, state, root, second, middle, memory, trace, handed, rootGiven, secondGiven,
    mapped⟩ := ProcTable.createProcess_seated tenanted.seated tenanted.managed.placed blank ran
  have two : handedOut trace = [⟨20480, second⟩, ⟨4096, root⟩] := handed
  refine ⟨inside, state, root, second, memory, trace, two, ?_, mapped⟩
  rw [two]
  exact (tenanted.managed.request rootGiven).request secondGiven

/-- Blocks that were zero are fresh still, once the slot of a process is set up. -/
theorem fresh_ready (tenanted : Tenanted image kernel procs live) (inside : i < procMax)
    {memory : Memory} {taken : List LiveBlock}
    (managed : memory.Managed image.freeRam image.freeRamEnd (taken ++ live))
    (zero : ∀ used ∈ taken, ∀ a ∈ used.block.bytes, kernel.ram a = 0) (pc : Nat)
    (root second : PhysAddr) : FreshBlocks (readyRam procs kernel i pc root second) taken := by
  refine ⟨managed.placed.sublist (List.sublist_append_left _ _), ?_, ?_⟩
  · intro used member
    obtain ⟨_, _, _, aligned, _⟩ := managed.room (List.mem_append_left live member)
    exact aligned
  · -- The slot lies in the block of the process table, which is none of these.
    intro used member a here
    have outside := ProcTable.slot_apart tenanted.seated managed.placed inside member here
    rw [readyRam, recordedRam_outside outside]
    exact zero used member a here

/-- Creating a process leaves its page table in the blocks it was handed, if these were zero. -/
theorem settled (tenanted : Tenanted image kernel procs live)
    (ran : (procs.createProcess profile image pc).run kernel.quiet = .ok i after)
    (zero : ∀ used ∈ handedOut after.trace, ∀ a ∈ used.block.bytes, kernel.ram a = 0) :
    ∃ start table frames, Settled image kernel after procs live i start table frames := by
  obtain ⟨inside, unused, root, second, memory, trace, handed, managed, mapping⟩ :=
    tenanted.staged ran
  have earlier : (handedOut trace).Sublist (handedOut after.trace) :=
    (mapPages_trace mapping).sublist.filterMap _
  -- The two blocks handed out first make up an empty table.
  let table : PageTable := ⟨⟨root.addr, 1024, root⟩, ⟨second.addr, 1024, second⟩⟩
  let ready : Kernel := ⟨memory, readyRam procs kernel i pc root second, trace⟩
  have empty : Mapped ready.ram table [] ready ⟨root, second, fun _ => none⟩ :=
    Mapped.empty handed (tenanted.fresh_ready inside managed
      (fun used member => zero used (earlier.subset member)) pc root second)
  -- With the pages mapped in it, the table has all the blocks that were handed out.
  have final := managed_mapPages empty.represents empty.owned managed mapping
  have fresh := tenanted.fresh_ready inside final zero pc root second
  obtain ⟨frames, mapped⟩ := empty.mapPages mapping fresh
  refine ⟨_, table, frames, inside, unused, final, fresh, mapped, ?_, ?_⟩
  · -- The slot is no part of these blocks, so it stays as it was set up.
    obtain ⟨_, rootSized, _⟩ := managed.placed.room ⟨4096, root⟩ (by simp [handed])
    obtain ⟨_, secondSized, _⟩ := managed.placed.room ⟨20480, second⟩ (by simp [handed])
    obtain ⟨prepared, _⟩ := prepared_recordedRam (procs.slot i) i pc table kernel.ram rootSized
      secondSized (procs.stackEnd i)
    refine prepared.congr fun part _ _ o small => mapped.untouched _ fun used member here => ?_
    have fits := layout.inside part
    exact ProcTable.slot_apart tenanted.seated final.placed inside
      (mapped.owned.symm.subset member) here _ (by omega) (Nat.add_assoc _ _ _)
  · intro a outside apart
    rw [mapped.untouched a fun used member => apart used (mapped.owned.symm.subset member)]
    exact recordedRam_outside outside

/-- Creating a process leaves the records of all other slots. -/
theorem process_other {start : Nat → Nat} {table : PageTable} {frames : Frames}
    (tenanted : Tenanted image kernel procs live)
    (settled : Settled image kernel after procs live i start table frames) {j : Nat}
    (also : j < procMax) (other : j ≠ i) :
    (∀ o < procSize, after.ram (procs.slot j + o) = kernel.ram (procs.slot j + o)) ∧
    procs.process after.ram j = procs.process kernel.ram j := by
  -- Slots are apart, and so is the block of the table from those that were handed out.
  have same : ∀ o < procSize, after.ram (procs.slot j + o) = kernel.ram (procs.slot j + o) := by
    intro o small
    refine settled.kept _ (fun p low => ProcTable.slot_ne other small low) fun used member here => ?_
    exact ProcTable.slot_apart tenanted.seated settled.managed.placed also member here o small rfl
  refine ⟨same, ?_⟩
  rw [ProcTable.process, ProcTable.process,
    ProcTable.slotAddr_slot tenanted.seated tenanted.managed.placed also]
  exact process_congr same

/-- Creating a process leaves the page tables of all other processes, and how they translate. -/
theorem table_other {start : Nat → Nat} {table : PageTable} {frames : Frames}
    (tenanted : Tenanted image kernel procs live)
    (settled : Settled image kernel after procs live i start table frames) {j : Nat}
    (also : j < procMax) (other : j ≠ i) (taken : (procs.process kernel.ram j).state = .runnable) :
    (∃ frames others, Represents after.ram (procs.pageTable after.ram j) frames ∧
      (handedOut after.trace ++ live).Perm (frames.blocks ++ others) ∧
      (⟨procMax * procSize, procs.table.physAddr⟩ : LiveBlock) ∈ others) ∧
    ∀ v, Sv32.walk after.ram (procs.pageTable after.ram j).satp v =
      Sv32.walk kernel.ram (procs.pageTable kernel.ram j).satp v := by
  obtain ⟨own, others, represents, perm, seat⟩ := tenanted.tables j also taken
  have ordered := tenanted.managed.perm perm.symm
  have placed : Placed own.blocks := ordered.placed.sublist (List.sublist_append_left _ _)
  have aligned : ∀ used ∈ own.blocks, used.block.addr % pageSize = 0 := by
    intro used member
    obtain ⟨_, _, _, aligned, _⟩ := ordered.room (List.mem_append_left others member)
    exact aligned
  -- What is written is in the block of the process table, or in blocks that were free.
  have agree : ∀ used ∈ own.blocks, ∀ a ∈ used.block.bytes, after.ram a = kernel.ram a := by
    intro used member a here
    refine settled.kept a (fun o small => ?_) fun new found there => ?_
    · have inside := (ProcTable.slot_mem tenanted.seated tenanted.managed.placed settled.inside small).1
      have apart := (List.pairwise_append.mp ordered.disjoint).2.2 used member _ seat
      exact Placed.ne_of_disjoint apart here inside
    · have apart := (List.pairwise_append.mp settled.managed.disjoint).2.2 new found used
        (perm.symm.subset (List.mem_append_left others member))
      exact Set.disjoint_left.mp apart there here
  have same : procs.pageTable after.ram j = procs.pageTable kernel.ram j :=
    congrArg Process.pageTable (tenanted.process_other settled also other).2
  rw [same]
  refine ⟨⟨own, handedOut after.trace ++ others, represents.frame placed agree, ?_,
    List.mem_append_right _ seat⟩, represents.walk_frame placed aligned agree⟩
  exact (perm.append_left _).trans (List.perm_append_comm_assoc _ _ _)

/-- The page table that is read back from the slot of a new process is the one it was given. -/
theorem pageTable_new {start : Nat → Nat} {table : PageTable} {frames : Frames}
    (tenanted : Tenanted image kernel procs live)
    (settled : Settled image kernel after procs live i start table frames) :
    procs.pageTable after.ram i = table := by
  rw [ProcTable.pageTable,
    ProcTable.slotAddr_slot tenanted.seated tenanted.managed.placed settled.inside]
  -- The table is the two pointers that were stored in the slot.
  show PageTable.mk _ _ = table
  rw [settled.prepared.root, settled.prepared.second]

/-- After a process was created, the process table is in managed RAM as before. -/
theorem create {start : Nat → Nat} {table : PageTable} {frames : Frames}
    (tenanted : Tenanted image kernel procs live)
    (settled : Settled image kernel after procs live i start table frames) :
    Tenanted image after procs (handedOut after.trace ++ live) := by
  have addr := ProcTable.slotAddr_slot tenanted.seated tenanted.managed.placed settled.inside
  have runnable : (procs.process after.ram i).state = .runnable := by
    rw [ProcTable.process, addr]
    simp only [Elem.read, settled.prepared.state]
    rfl
  refine ⟨settled.managed, ⟨List.mem_append_right _ tenanted.seated.block, tenanted.seated.ptr,
    tenanted.seated.cap⟩, ?_, ?_⟩
  · -- A slot that is not taken now is another one, and was not taken before.
    intro j also free
    have other : j ≠ i := by
      rintro rfl
      rw [runnable] at free
      exact absurd free (by decide)
    obtain ⟨same, process⟩ := tenanted.process_other settled also other
    rw [process] at free
    intro o small
    rw [same o small]
    exact tenanted.blank j also free o small
  · intro j also taken
    by_cases new : j = i
    · rw [new, tenanted.pageTable_new settled]
      exact ⟨frames, live, settled.mapped.represents, settled.mapped.owned.append_right live,
        tenanted.seated.block⟩
    · rw [(tenanted.process_other settled also new).2] at taken
      exact (tenanted.table_other settled also new taken).1

/-- The page table of a new process maps the kernel and free RAM, and nothing else. -/
theorem walk_new {start : Nat → Nat} {table : PageTable} {frames : Frames} (linked : Linked image)
    (tenanted : Tenanted image kernel procs live)
    (settled : Settled image kernel after procs live i start table frames) {v : Nat}
    (word : v < wordLimit) :
    Sv32.walk after.ram (procs.pageTable after.ram i).satp v = image.sees v := by
  have ends := linked.word
  have words : ∀ call ∈ identityPages image.kernelBase image.freeRamEnd,
      call.vaddr < wordLimit ∧ call.paddr < wordLimit := by
    intro call member
    obtain ⟨k, inside, rfl⟩ := mem_identityPages.mp member
    simp only
    omega
  have leaf : ∀ call ∈ identityPages image.kernelBase image.freeRamEnd,
      call.flags < 2 ^ 10 ∧ call.flags &&& (pageR ||| pageX) ≠ 0 := by
    intro call member
    obtain ⟨k, _, rfl⟩ := mem_identityPages.mp member
    show pageR ||| pageW ||| pageX < 2 ^ 10 ∧ (pageR ||| pageW ||| pageX) &&& (pageR ||| pageX) ≠ 0
    decide
  rw [tenanted.pageTable_new settled, settled.mapped.walk settled.fresh words leaf word,
    lastCall_identityPages linked.base linked.stop, Image.sees]
  -- The page of an address and its place in the page make up the address.
  by_cases inside : image.kernelBase ≤ v ∧ v < image.freeRamEnd
  · have whole : v - v % pageSize + v % pageSize = v := Nat.sub_add_cancel (Nat.mod_le _ _)
    rw [if_pos inside, if_pos inside]
    simp only [whole]
    rfl
  · rw [if_neg inside, if_neg inside]

/-- The tables of a new process lie in what it sees: its root, and all that its root points to. -/
theorem tables_inside {start : Nat → Nat} {table : PageTable} {frames : Frames}
    (linked : Linked image) (tenanted : Tenanted image kernel procs live)
    (settled : Settled image kernel after procs live i start table frames) :
    (procs.pageTable after.ram i).LiesIn after.ram image.kernelBase image.freeRamEnd := by
  have below := linked.below
  have represents := settled.mapped.represents
  -- Every block handed out is in free RAM, and each table has a page of its own.
  have inside : ∀ block, (⟨4096, block⟩ : LiveBlock) ∈ frames.blocks →
      image.kernelBase ≤ block.addr ∧ block.addr + pageSize ≤ image.freeRamEnd := by
    intro block member
    obtain ⟨size, _, covers, _, low, high⟩ :=
      settled.managed.room (List.mem_append_left live (settled.mapped.owned.symm.subset member))
    have pages : pageSize = 4096 := rfl
    simp only at covers low high
    omega
  have root : table.rootPtAddr = frames.root.addr := by rw [PageTable.rootPtAddr, represents.root]
  rw [tenanted.pageTable_new settled, PageTable.LiesIn, root]
  refine ⟨inside _ List.mem_cons_self, ?_⟩
  rintro vpn1 small entry rfl valid
  cases known : frames.leaf vpn1 with
  | none => exact absurd (represents.absent vpn1 small known).1 valid
  | some block =>
    -- A valid entry is the page number of a second-level table.
    have member := Frames.leaf_mem small known
    have placed := settled.fresh.toPlaced.perm settled.mapped.owned.symm
    have aligned := settled.fresh.aligned _ (settled.mapped.owned.symm.subset member)
    rw [(represents.present vpn1 small block known).1, tableEntry_eq (Frames.addr_lt placed member),
      Sv32.ppn_entry (by omega), Nat.div_mul_cancel (Nat.dvd_of_mod_eq_zero aligned)]
    exact inside block member

/-- Where free RAM is zero, so are the blocks that a new process is handed. -/
theorem handedOut_zero (tenanted : Tenanted image kernel procs live)
    (vacant : Vacant image kernel.ram live)
    (ran : (procs.createProcess profile image pc).run kernel.quiet = .ok i after) :
    ∀ used ∈ handedOut after.trace, ∀ a ∈ used.block.bytes, kernel.ram a = 0 := by
  obtain ⟨inside, _, root, second, memory, trace, handed, managed, mapping⟩ := tenanted.staged ran
  -- The first two blocks are an empty table, and mapping takes the others from what is free.
  let ready : Kernel := ⟨memory, readyRam procs kernel i pc root second, trace⟩
  have empty : Mapped ready.ram _ [] ready _ := Mapped.empty handed
    (tenanted.fresh_ready inside managed (vacant.given managed) pc root second)
  exact vacant.given (managed_mapPages empty.represents empty.owned managed mapping)

/-- Creating a process leaves free RAM that is not in use. -/
theorem vacant_create {start : Nat → Nat} {table : PageTable} {frames : Frames}
    (tenanted : Tenanted image kernel procs live)
    (settled : Settled image kernel after procs live i start table frames)
    (vacant : Vacant image kernel.ram live) :
    Vacant image after.ram (handedOut after.trace ++ live) := by
  intro a low high unused
  -- What is not in use now was not before, and is no part of the slot.
  rw [settled.kept a (fun o small same => ?_) fun used member =>
    unused used (List.mem_append_left _ member)]
  · exact vacant a low high fun used member => unused used (List.mem_append_right _ member)
  · rw [same] at unused
    exact unused _ (List.mem_append_right _ tenanted.seated.block)
      (ProcTable.slot_mem tenanted.seated tenanted.managed.placed settled.inside small).1

/-- Boot leaves a process table in managed RAM, where no slot is taken. -/
theorem boot (arena : Memory.PageArena profile image.freeRam image.freeRamEnd kernel.memory)
    (zero : ∀ a, image.freeRam ≤ a → a < image.freeRamEnd → kernel.ram a = 0)
    (ran : (ProcTable.new profile).run kernel = .ok procs after) :
    ∃ live, Tenanted image after procs live ∧ Vacant image after.ram live ∧
      ∀ i < procMax, (procs.process after.ram i).state = .unused := by
  unfold ProcTable.new at ran
  obtain ⟨table, made, created, ran⟩ := Exec.run_bind_ok.mp ran
  rw [EStateM.run_pure, EStateM.Result.ok.injEq] at ran
  obtain ⟨rfl, rfl⟩ := ran
  obtain ⟨block, memory, given, rfl, rfl⟩ := FixedVec.run_new_ok
    (by decide : procMax * procSize < wordLimit) created
  have managed : memory.Managed image.freeRam image.freeRamEnd [⟨procMax * procSize, block⟩] :=
    arena.managed.request given
  have seated : Seated ⟨⟨block.addr, procMax, block⟩, 0⟩ [⟨procMax * procSize, block⟩] :=
    ⟨List.mem_singleton.mpr rfl, rfl, rfl⟩
  -- The block of the table is in free RAM, which is zero.
  have blank : ∀ i < procMax, ∀ o < procSize,
      kernel.ram (ProcTable.slot ⟨⟨block.addr, procMax, block⟩, 0⟩ i + o) = 0 := by
    intro i inside o small
    obtain ⟨low, high⟩ := managed.bytes_inside (List.mem_singleton.mpr rfl)
      (ProcTable.slot_mem seated managed.placed inside small).1
    exact zero _ low high
  have free : ∀ i < procMax, (ProcTable.process ⟨⟨block.addr, procMax, block⟩, 0⟩ kernel.ram i).state
      = .unused := by
    intro i inside
    have fits := layout.inside .state
    simp only [ProcField.width] at fits
    rw [ProcTable.process, ProcTable.slotAddr_slot seated managed.placed inside]
    simp only [Elem.read, blank i inside _ (by omega : layout.offset .state < procSize)]
    rfl
  refine ⟨[⟨procMax * procSize, block⟩], ⟨managed, seated, ?_, ?_⟩, ?_, free⟩
  · intro i inside _
    exact blank i inside
  · intro i inside taken
    simp only at taken
    rw [free i inside] at taken
    exact absurd taken (by decide)
  · intro a low high _
    exact zero a low high

end Tenanted

/-- The states of the process table from boot on, as processes are created. -/
inductive Populated (profile : Profile) (image : Image) : Kernel → ProcTable → Prop where
  | boot {kernel made : Kernel} {procs : ProcTable}
      (arena : Memory.PageArena profile image.freeRam image.freeRamEnd kernel.memory)
      (zero : ∀ a, image.freeRam ≤ a → a < image.freeRamEnd → kernel.ram a = 0)
      (table : (ProcTable.new profile).run kernel = .ok procs made) :
      Populated profile image made procs
  | create {kernel after : Kernel} {procs : ProcTable} {pc i : Nat}
      (before : Populated profile image kernel procs)
      (ran : (procs.createProcess profile image pc).run kernel.quiet = .ok i after) :
      Populated profile image after procs

/-- However many processes are created, all of them see the kernel and free RAM, and nothing else. -/
theorem Populated.sees {profile : Profile} {image : Image} {kernel : Kernel} {procs : ProcTable}
    (linked : Linked image) (populated : Populated profile image kernel procs) :
    ∃ live, Tenanted image kernel procs live ∧ Vacant image kernel.ram live ∧
      ∀ i < procMax, (procs.process kernel.ram i).state = .runnable → ∀ v < wordLimit,
        Sv32.walk kernel.ram (procs.pageTable kernel.ram i).satp v = image.sees v := by
  induction populated with
  | boot arena zero table =>
    obtain ⟨live, tenanted, vacant, free⟩ := Tenanted.boot arena zero table
    refine ⟨live, tenanted, vacant, fun i inside taken => ?_⟩
    rw [free i inside] at taken
    exact absurd taken (by decide)
  -- The new process sees what it should, and the others see what they saw.
  | @create kernel after procs pc i before ran ih =>
    obtain ⟨live, tenanted, vacant, seen⟩ := ih
    obtain ⟨start, table, frames, settled⟩ :=
      tenanted.settled ran (tenanted.handedOut_zero vacant ran)
    refine ⟨_, tenanted.create settled, tenanted.vacant_create settled vacant, ?_⟩
    intro j also taken v word
    by_cases new : j = i
    · rw [new]
      exact tenanted.walk_new linked settled word
    · rw [(tenanted.process_other settled also new).2] at taken
      rw [(tenanted.table_other settled also new taken).2]
      exact seen j also taken v word

/--
Every process sees the kernel and free RAM at their own addresses, and nothing else.

Where the blocks handed out are zero, this holds of each process that is created, in whatever state
the process table is. Its tables lie in what it sees. The other slots keep their state, number, stack
pointer, stack and page table, and the processes in them see what they saw.
-/
theorem createProcess_identity {profile : Profile} {image : Image} {kernel after : Kernel}
    {procs : ProcTable} {live : List LiveBlock} {i pc : Nat} (linked : Linked image)
    (tenanted : Tenanted image kernel procs live)
    (ran : (procs.createProcess profile image pc).run kernel.quiet = .ok i after)
    (zero : ∀ used ∈ handedOut after.trace, ∀ a ∈ used.block.bytes, kernel.ram a = 0) :
    (i < procMax ∧ (procs.process kernel.ram i).state = .unused) ∧
    (∀ v < wordLimit, Sv32.walk after.ram (procs.pageTable after.ram i).satp v = image.sees v) ∧
    (procs.pageTable after.ram i).LiesIn after.ram image.kernelBase image.freeRamEnd ∧
    ∀ j < procMax, j ≠ i → procs.process after.ram j = procs.process kernel.ram j ∧
      ((procs.process kernel.ram j).state = .runnable →
        ∀ v, Sv32.walk after.ram (procs.pageTable after.ram j).satp v =
          Sv32.walk kernel.ram (procs.pageTable kernel.ram j).satp v) := by
  -- What creation leaves is known, and each part is read off it.
  obtain ⟨start, table, frames, settled⟩ := tenanted.settled ran zero
  refine ⟨⟨settled.inside, settled.unused⟩, ?_, tenanted.tables_inside linked settled, ?_⟩
  · intro v word
    exact tenanted.walk_new linked settled word
  · intro j also other
    refine ⟨(tenanted.process_other settled also other).2, fun taken => ?_⟩
    exact (tenanted.table_other settled also other taken).2

end Processes

/-- The sample image is laid out as the linker script does it. -/
theorem sampleImage_linked : Linked sampleImage where
  base := by decide
  ram := by decide
  stop := by decide
  below := by decide
  ordered := by decide
  word := by decide

/-- The first process besides the idle one sees the kernel, and the idle one sees what it saw. -/
theorem createProcess_identity_first : letI := declaredLayout; letI := declaredProcLayout
    ∃ kernel after procs live, Tenanted sampleImage kernel procs live ∧
      (procs.process kernel.ram 0).state = .runnable ∧
      (procs.createProcess .dev sampleImage 0x80001234).run kernel.quiet = .ok 1 after ∧
      Sv32.walk after.ram (procs.pageTable after.ram 1).satp 0x80020123 =
        .leaf 0x80020123 (pageV ||| pageR ||| pageW ||| pageX) ∧
      Sv32.walk after.ram (procs.pageTable after.ram 1).satp 0x80040000 = .invalid ∧
      Sv32.walk after.ram (procs.pageTable after.ram 0).satp 0x80020123 =
        Sv32.walk kernel.ram (procs.pageTable kernel.ram 0).satp 0x80020123 := by
  let := declaredLayout
  let := declaredProcLayout
  let boot : Kernel := ⟨thirtyTwoPages, fun _ => 0, []⟩
  -- Boot creates the idle process, and one more is created.
  have seen : Exec.observe (do
      let procs ← ProcTable.new .dev
      modify Kernel.quiet
      let idle ← procs.createProcess .dev sampleImage 0
      modify Kernel.quiet
      let first ← procs.createProcess .dev sampleImage 0x80001234
      return (procs, idle, first) : Exec Fault Kernel (ProcTable × Nat × Nat)) boot
      (fun result kernel => (result.2, (result.1.process kernel.ram 0).state)) =
        some ((0, 1), .runnable) := by decide +kernel
  obtain ⟨_, last, ran, viewed⟩ := Exec.observe_eq_some.mp seen
  obtain ⟨procs, made, table, ran⟩ := Exec.run_bind_ok.mp ran
  rw [Kernel.run_quiet] at ran
  obtain ⟨idle, kernel, created, ran⟩ := Exec.run_bind_ok.mp ran
  rw [Kernel.run_quiet] at ran
  obtain ⟨first, after, second, returned⟩ := Exec.run_bind_ok.mp ran
  rw [EStateM.run_pure, EStateM.Result.ok.injEq] at returned
  obtain ⟨rfl, rfl⟩ := returned
  simp only [Prod.mk.injEq] at viewed
  obtain ⟨⟨rfl, rfl⟩, running⟩ := viewed
  have arena : Memory.PageArena .dev sampleImage.freeRam sampleImage.freeRamEnd boot.memory :=
    ⟨by decide, by decide, thirtyTwoPages_arena.built, by decide, 32, by decide, by decide⟩
  -- The state before the second creation is one that boot and the first one led to.
  have populated : Populated .dev sampleImage kernel procs :=
    .create (.boot arena (fun _ _ _ => rfl) table) created
  obtain ⟨live, tenanted, vacant, _⟩ := populated.sees sampleImage_linked
  obtain ⟨_, walks, _, others⟩ := createProcess_identity sampleImage_linked tenanted second
    (tenanted.handedOut_zero vacant second)
  obtain ⟨same, kept⟩ := others 0 (by decide) (by decide)
  rw [same] at running
  refine ⟨kernel, after, procs, live, tenanted, running, second, ?_, ?_, kept running _⟩
  · rw [walks _ (by decide)]
    rfl
  · rw [walks _ (by decide)]
    rfl

end Os1k
