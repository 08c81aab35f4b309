import Os1k.Proc.Views
import Os1k.Vm.Supply

/-! How many processes there can be: as many as there are slots, since RAM suffices for them. -/

namespace Os1k

open Riscv
open Memory (LiveBlock)

/-- The number of second-level tables that the page table of a process has. -/
def Image.spans (image : Image) : Nat :=
  Sv32.vpn1 (image.freeRamEnd - 1) + 1 - Sv32.vpn1 image.kernelBase

/-- The number of blocks in use once all slots are taken: the process table and all page tables. -/
def Image.blocks (image : Image) : Nat := 1 + procMax * (2 + image.spans)

/--
Free RAM has room for the page tables of as many processes as there are slots.

The largest blocks are those of the process table and of the arrays that own second-level tables.
Each of them takes thirty-two kilobytes, and smaller blocks are counted as no less.
-/
structure Roomy (image : Image) : Prop where
  positive : 0 < image.freeRam
  room : 2 ^ 15 * image.blocks ≤ image.freeRamEnd - image.freeRam

/-- The least multiple of a size that is not below an address. -/
def alignTo (size addr : Nat) : Nat := (addr + (size - 1)) / size * size

/-- Aligning goes up by less than the size. -/
theorem alignTo_bounds {size : Nat} (positive : 0 < size) (addr : Nat) :
    addr ≤ alignTo size addr ∧ alignTo size addr < addr + size ∧ alignTo size addr % size = 0 := by
  -- The quotient that is rounded down is that of the address plus what may be missing.
  have whole := Nat.div_add_mod (addr + (size - 1)) size
  have rest := Nat.mod_lt (addr + (size - 1)) positive
  rw [Nat.mul_comm] at whole
  rw [alignTo]
  exact ⟨by omega, by omega, Nat.mul_mod_left _ _⟩

namespace Ld

/-- `__kernel_base` -/
def kernelBase : Nat := 0x80200000

/-- `__stack_top`, with the stack in the 128 kilobytes below it -/
def stackTop (bssEnd : Nat) : Nat := alignTo 4 bssEnd + 128 * 1024

/-- `__allocator_mem` -/
def allocatorMem (bssEnd : Nat) : Nat := alignTo 4096 (stackTop bssEnd)

/-- `__allocator_mem_end` -/
def allocatorMemEnd (bssEnd : Nat) : Nat := allocatorMem bssEnd + 512 * 1024

/-- `__free_ram` -/
def freeRam (bssEnd : Nat) : Nat := alignTo 4096 (allocatorMemEnd bssEnd)

/-- `__free_ram_end` -/
def freeRamEnd (bssEnd : Nat) : Nat := freeRam bssEnd + 64 * 1024 * 1024

/-- The sections of the kernel start at its base and leave room for all that is placed above. -/
structure Fits (bssEnd : Nat) : Prop where
  above : kernelBase ≤ bssEnd
  below : bssEnd ≤ kernelBase + 512 * 1024 * 1024

/-- What the linker script places one after the other is in this order. -/
theorem Fits.places {bssEnd : Nat} (fits : Fits bssEnd) :
    (alignTo 4 bssEnd + 128 * 1024 = stackTop bssEnd ∧ stackTop bssEnd ≤ allocatorMem bssEnd) ∧
    (allocatorMem bssEnd + 512 * 1024 = allocatorMemEnd bssEnd ∧
      allocatorMemEnd bssEnd ≤ freeRam bssEnd) ∧
    (kernelBase ≤ freeRam bssEnd ∧ freeRam bssEnd ≤ kernelBase + 513 * 1024 * 1024 ∧
      freeRam bssEnd % 4096 = 0) := by
  obtain ⟨above, below⟩ := fits
  -- Each symbol is at most an alignment above the one before.
  have stack := alignTo_bounds (by decide : 0 < 4) bssEnd
  have reserved := alignTo_bounds (by decide : 0 < 4096) (stackTop bssEnd)
  have ram := alignTo_bounds (by decide : 0 < 4096) (allocatorMemEnd bssEnd)
  have top : stackTop bssEnd = alignTo 4 bssEnd + 128 * 1024 := rfl
  have mem : allocatorMem bssEnd = alignTo 4096 (stackTop bssEnd) := rfl
  have memEnd : allocatorMemEnd bssEnd = allocatorMem bssEnd + 512 * 1024 := rfl
  have free : freeRam bssEnd = alignTo 4096 (allocatorMemEnd bssEnd) := rfl
  omega

end Ld

/-- The image that `kernel.ld` places, for sections of the kernel that end somewhere. -/
def kernelImage (bssEnd : Nat) : Image where
  kernelBase := Ld.kernelBase
  stackBottom := alignTo 4 bssEnd
  stackTop := Ld.stackTop bssEnd
  freeRam := Ld.freeRam bssEnd
  freeRamEnd := Ld.freeRamEnd bssEnd
  stackBelow := by
    have reserved := alignTo_bounds (by decide : 0 < 4096) (Ld.stackTop bssEnd)
    have ram := alignTo_bounds (by decide : 0 < 4096) (Ld.allocatorMemEnd bssEnd)
    have memEnd : Ld.allocatorMemEnd bssEnd = alignTo 4096 (Ld.stackTop bssEnd) + 512 * 1024 := rfl
    have free : Ld.freeRam bssEnd = alignTo 4096 (Ld.allocatorMemEnd bssEnd) := rfl
    omega

section Ld

variable {bssEnd : Nat}

/-- Free RAM of the image starts where the linker script places it. -/
@[simp] theorem kernelImage_freeRam : (kernelImage bssEnd).freeRam = Ld.freeRam bssEnd := rfl

/-- Free RAM of the image ends where the linker script places it. -/
@[simp] theorem kernelImage_freeRamEnd :
    (kernelImage bssEnd).freeRamEnd = Ld.freeRamEnd bssEnd := rfl

/-- What the linker script places is in whole pages and ends early. -/
theorem kernelImage_linked (fits : Ld.Fits bssEnd) : Linked (kernelImage bssEnd) := by
  -- The linker script aligns both ends of the free RAM to pages.
  obtain ⟨_, _, base, high, pages⟩ := fits.places
  have page : pageSize = 4096 := rfl
  have limit : wordLimit = 4294967296 := rfl
  have low : Ld.kernelBase = 0x80200000 := rfl
  have size : Ld.freeRamEnd bssEnd = Ld.freeRam bssEnd + 64 * 1024 * 1024 := rfl
  refine ⟨?_, pages, ?_, base, ?_, ?_⟩
  · show Ld.kernelBase % pageSize = 0
    decide
  · show Ld.freeRamEnd bssEnd % pageSize = 0
    rw [page, size]
    omega
  · exact Nat.le_add_right _ _
  · show Ld.freeRamEnd bssEnd + pageSize < wordLimit
    omega

/-- The linker script provides enough free RAM for all processes. -/
theorem kernelImage_roomy (fits : Ld.Fits bssEnd) : Roomy (kernelImage bssEnd) := by
  obtain ⟨_, _, base, high, _⟩ := fits.places
  have low : Ld.kernelBase = 0x80200000 := rfl
  have size : Ld.freeRamEnd bssEnd = Ld.freeRam bssEnd + 64 * 1024 * 1024 := rfl
  refine ⟨?_, ?_⟩
  · show 0 < Ld.freeRam bssEnd
    omega
  · -- The kernel and free RAM are in the range of a hundred and fifty second-level tables.
    have spans : (kernelImage bssEnd).spans ≤ 150 := by
      show Sv32.vpn1 (Ld.freeRamEnd bssEnd - 1) + 1 - Sv32.vpn1 Ld.kernelBase ≤ 150
      simp only [Sv32.vpn1]
      omega
    have count : procMax = 8 := rfl
    show 2 ^ 15 * (1 + procMax * (2 + (kernelImage bssEnd).spans)) ≤
      Ld.freeRamEnd bssEnd - Ld.freeRam bssEnd
    rw [count, size]
    omega

/-- Boot builds the allocator of free RAM in the memory that the linker script reserves for it. -/
theorem kernelImage_arena (profile : Profile) (fits : Ld.Fits bssEnd) :
    ∃ memory written, (Memory.new profile (some (kernelImage bssEnd).freeRam)
        (some (kernelImage bssEnd).freeRamEnd) (some (Ld.allocatorMem bssEnd))
        (some (Ld.allocatorMemEnd bssEnd))).run [] = .ok memory written ∧
      Memory.PowerArena profile (kernelImage bssEnd).freeRam (kernelImage bssEnd).freeRamEnd
        memory := by
  obtain ⟨_, ⟨reserved, _⟩, base, high, _⟩ := fits.places
  have low : Ld.kernelBase = 0x80200000 := rfl
  have page : pageSize = 4096 := rfl
  have limit : wordLimit = 4294967296 := rfl
  have stop : (kernelImage bssEnd).freeRamEnd = (kernelImage bssEnd).freeRam + 2 ^ 26 := rfl
  have start : (kernelImage bssEnd).freeRam = Ld.freeRam bssEnd := rfl
  have size : (kernelImage bssEnd).freeRamEnd - (kernelImage bssEnd).freeRam = 2 ^ 26 := by
    rw [stop, Nat.add_sub_cancel_left]
  have word : (kernelImage bssEnd).freeRamEnd < wordLimit := by omega
  -- The states of the nodes take eight pages and the stack of the search thirty-two.
  have nodes : Memory.nodesFor (2 ^ 26) = 32767 := by decide
  have states : wholePages 32767 = 32768 := by decide
  have stack : wholePages (32767 * 4) = 131072 := by decide
  have enough : Ld.allocatorMem bssEnd +
      wholePages (Memory.nodesFor ((kernelImage bssEnd).freeRamEnd -
        (kernelImage bssEnd).freeRam)) +
      wholePages (Memory.nodesFor ((kernelImage bssEnd).freeRamEnd -
        (kernelImage bssEnd).freeRam) * 4) ≤ Ld.allocatorMemEnd bssEnd := by
    rw [size, nodes, states, stack]
    omega
  have built := Memory.run_new profile (by omega) word (by omega)
    (by omega : Ld.allocatorMemEnd bssEnd < wordLimit) enough
  exact ⟨_, _, built, by omega, word, ⟨_, _, _, built⟩, ⟨26, size⟩, by omega⟩

end Ld

/-- The pages of an image are aligned, and their tables are in the range of root indices. -/
theorem Linked.pages {image : Image} (linked : Linked image) {call : Mapping}
    (member : call ∈ identityPages image.kernelBase image.freeRamEnd) :
    (call.vaddr % pageSize = 0 ∧ call.paddr % pageSize = 0) ∧
      Sv32.vpn1 image.kernelBase ≤ Sv32.vpn1 call.vaddr ∧
      Sv32.vpn1 call.vaddr ≤ Sv32.vpn1 (image.freeRamEnd - 1) := by
  obtain ⟨i, inside, rfl⟩ := mem_identityPages.mp member
  have base := linked.base
  have word := linked.word
  have pages : pageSize = 4096 := rfl
  have limit : wordLimit = 4294967296 := rfl
  rw [pages] at base word inside
  rw [limit] at word
  -- All pages of the kernel lie between its base and the end of free RAM.
  simp only [Sv32.vpn1, pages]
  omega

section Layout

variable [VecLayout] [layout : ProcLayout]

omit layout in
/-- A new page table is made of the two blocks that are handed out for it. -/
theorem PageTable.run_new {profile : Profile} {kernel : Kernel} {root second : PhysAddr}
    {middle memory : Memory}
    (rootGiven : (Memory.buddyAlloc profile 4096).run kernel.memory = .ok (.ok root) middle)
    (secondGiven : (Memory.buddyAlloc profile 20480).run middle = .ok (.ok second) memory)
    (rootPlaced : root.addr ≠ 0) (secondPlaced : second.addr ≠ 0) :
    (PageTable.new profile).run kernel =
      .ok ⟨⟨root.addr, 1024, root⟩, ⟨second.addr, 1024, second⟩⟩
        { kernel with
          memory, trace := .alloc 20480 second :: .alloc 4096 root :: kernel.trace } := by
  have first : (FixedVec.new profile 1024 : Exec Fault Kernel (FixedVec Nat)).run kernel =
      .ok ⟨root.addr, 1024, root⟩
        { kernel with memory := middle, trace := .alloc 4096 root :: kernel.trace } :=
    FixedVec.run_new (by decide : Elem.size Nat ≠ 0) (by decide) rootGiven rootPlaced
  have array : (FixedVec.new profile 1024 : Exec Fault Kernel (FixedVec (FixedVec Nat))).run
      { kernel with memory := middle, trace := .alloc 4096 root :: kernel.trace } =
      .ok ⟨second.addr, 1024, second⟩
        { kernel with memory, trace := .alloc 20480 second :: .alloc 4096 root :: kernel.trace } :=
    FixedVec.run_new (show 20 ≠ 0 by decide) (show 1024 * 20 ≤ isizeMax by decide) secondGiven
      secondPlaced
  -- The root is made first, and then the array of arrays.
  unfold PageTable.new
  rw [EStateM.run_bind, first]
  simp only
  rw [EStateM.run_bind, array]
  rfl

/--
Creating a process gets as far as mapping pages, where the slot found has an empty page table and
two blocks are handed out for the new one.
-/
theorem ProcTable.run_createProcess_mapping {profile : Profile} {kernel : Kernel}
    {procs : ProcTable} {i : Nat} {root second : PhysAddr} {middle memory : Memory}
    (image : Image) (pc : Nat)
    (found : (procs.sched kernel.ram).nextUnused = some i)
    (blank : ∀ o < 20, kernel.ram (procs.table.slotAddr i + layout.offset .rootPt + o) = 0 ∧
      kernel.ram (procs.table.slotAddr i + layout.offset .secondPts + o) = 0)
    (rootGiven : (Memory.buddyAlloc profile 4096).run kernel.memory = .ok (.ok root) middle)
    (secondGiven : (Memory.buddyAlloc profile 20480).run middle = .ok (.ok second) memory)
    (rootPlaced : root.addr ≠ 0) (secondPlaced : second.addr ≠ 0) :
    ∃ trace,
      handedOut trace = ⟨20480, second⟩ :: ⟨4096, root⟩ :: handedOut kernel.trace ∧
      (procs.createProcess profile image pc).run kernel = EStateM.run (do
        PageTable.mapPages profile ⟨⟨root.addr, 1024, root⟩, ⟨second.addr, 1024, second⟩⟩
          (identityPages image.kernelBase image.freeRamEnd)
        return i)
        { memory
          ram := recordedRam (procs.table.slotAddr i)
            ⟨⟨root.addr, 1024, root⟩, ⟨second.addr, 1024, second⟩⟩
            (claimedRam (procs.table.slotAddr i) i pc kernel.ram)
          trace } := by
  obtain ⟨trace, few, claimed⟩ := run_claim (nextUnused_state found).1 pc kernel
  -- Taking the slot leaves the record of its page table as it was.
  have rootZero : ∀ o < 20, claimedRam (procs.table.slotAddr i) i pc kernel.ram
      (procs.table.slotAddr i + layout.offset .rootPt + o) = 0 := by
    intro o small
    rw [claimedRam_other fun part notRoot _ p inside => ProcLayout.ne notRoot.symm small inside]
    exact (blank o small).1
  have secondZero : ∀ o < 20, claimedRam (procs.table.slotAddr i) i pc kernel.ram
      (procs.table.slotAddr i + layout.offset .secondPts + o) = 0 := by
    intro o small
    rw [claimedRam_other fun part _ notSecond p inside => ProcLayout.ne notSecond.symm small inside]
    exact (blank o small).2
  let taken : Kernel :=
    { kernel with ram := claimedRam (procs.table.slotAddr i) i pc kernel.ram, trace }
  -- The two blocks are what the allocator gives, and the table is made of them.
  have made : (PageTable.new profile).run taken =
      .ok ⟨⟨root.addr, 1024, root⟩, ⟨second.addr, 1024, second⟩⟩
        { taken with memory, trace := .alloc 20480 second :: .alloc 4096 root :: trace } :=
    PageTable.run_new rootGiven secondGiven rootPlaced secondPlaced
  let built : Kernel :=
    { taken with memory, trace := .alloc 20480 second :: .alloc 4096 root :: trace }
  have rootBuilt : ∀ o < 20, built.ram (procs.table.slotAddr i + layout.offset .rootPt + o) = 0 :=
    rootZero
  obtain ⟨later, handed, assigned⟩ := run_setPageTable profile
    ⟨⟨root.addr, 1024, root⟩, ⟨second.addr, 1024, second⟩⟩ rootBuilt secondZero
  refine ⟨later, ?_, ?_⟩
  · rw [handed, ← few]
    rfl
  · -- The calls in the order of the source, up to the pages that are mapped.
    unfold createProcess
    rw [EStateM.run_bind, run_nextUnused, found]
    simp only
    rw [EStateM.run_bind, claimed]
    simp only
    rw [EStateM.run_bind, made]
    simp only
    rw [EStateM.run_bind, assigned]

variable {profile : Profile} {image : Image} {kernel : Kernel} {procs : ProcTable}
  {slots : List Slot} {depth : Nat} {live other : List LiveBlock}

/-- The blocks in use are few enough, and none is larger than the arrays of arrays. -/
structure Few (image : Image) (count : Nat) (live : List LiveBlock) : Prop where
  length : live.length ≤ 1 + count * (2 + image.spans)
  fits : ∀ used ∈ live, max used.request pageSize ≤ 2 ^ 15

omit [VecLayout] layout in
/-- Boot takes one block, for the process table. -/
theorem Few.boot {block : PhysAddr} : Few image 0 [⟨procMax * procSize, block⟩] := by
  refine ⟨Nat.le_add_right _ _, fun used member => ?_⟩
  obtain rfl := List.mem_singleton.mp member
  -- The table rounds up to a block of 2 ^ 15 bytes.
  show max (procMax * procSize) pageSize ≤ 2 ^ 15
  decide

/-- A process that is created next takes the slot behind those set up. -/
theorem Furnished.nextUnused_next (furnished : Furnished image kernel procs slots depth live)
    (more : slots.length < procMax) :
    (procs.sched kernel.ram).nextUnused = some slots.length := by
  -- The states are those of the slots set up, and then of the unused ones.
  have view : procs.sched kernel.ram = ⟨List.replicate slots.length .runnable ++
      List.replicate (procMax - slots.length) .unused, procs.currProcIdx⟩ := by
    rw [← furnished.sched_states]
    rfl
  rw [view]
  exact Sched.nextUnused_replicate more _

/-- One page table more still leaves the arena with room for all blocks. -/
theorem Few.room (few : Few image slots.length live) (roomy : Roomy image)
    (furnished : Furnished image kernel procs slots depth other) (more : slots.length < procMax)
    {blocks : Nat} (bounded : blocks ≤ live.length + (2 + image.spans)) :
    2 ^ 15 * blocks ≤ kernel.memory.memSize := by
  have shape := furnished.memory.shape
  -- Every process, created or still to come, has its share of the blocks that fit.
  have size : kernel.memory.memSize = image.freeRamEnd - image.freeRam := by
    have stop := shape.stop
    rw [furnished.start, furnished.stop] at stop
    rw [shape.size, stop, Nat.add_sub_cancel_left]
  have enough : live.length + (2 + image.spans) ≤ image.blocks := by
    have length := few.length
    have grown := Nat.mul_le_mul_right (2 + image.spans) more
    rw [Nat.succ_mul] at grown
    rw [Image.blocks]
    omega
  rw [size]
  exact (Nat.mul_le_mul_left _ (bounded.trans enough)).trans roomy.room

omit [VecLayout] layout in
/-- The two blocks of an empty page table are no larger than the others. -/
theorem Few.fits_table {count : Nat} (few : Few image count live) (root second : PhysAddr) :
    ∀ used ∈ (⟨20480, second⟩ : LiveBlock) :: ⟨4096, root⟩ :: live,
      max used.request pageSize ≤ 2 ^ 15 := by
  intro used member
  rcases List.mem_cons.mp member with rfl | member
  · show max 20480 pageSize ≤ 2 ^ 15
    decide
  · rcases List.mem_cons.mp member with rfl | old
    · show max 4096 pageSize ≤ 2 ^ 15
      decide
    · exact few.fits used old

/-- The two blocks of an empty page table are handed out one after the other. -/
theorem Viewed.table_given (profile : Profile) (roomy : Roomy image)
    (viewed : Viewed image kernel procs live)
    (furnished : Furnished image kernel procs slots depth other)
    (few : Few image slots.length live) (more : slots.length < procMax) :
    ∃ root middle second memory,
      (Memory.buddyAlloc profile 4096).run kernel.memory = .ok (.ok root) middle ∧
      (Memory.buddyAlloc profile 20480).run middle = .ok (.ok second) memory ∧
      (root.addr ≠ 0 ∧ second.addr ≠ 0) ∧ memory.start.addr = image.freeRam ∧
      memory.memSize = kernel.memory.memSize := by
  have count : procMax = 8 := rfl
  have shape := furnished.memory.shape
  have invariant := viewed.managed.invariant shape
  obtain ⟨root, middle, rootGiven⟩ := invariant.run_alloc_few profile (by decide : 0 < 4096)
    (by decide : max 4096 pageSize ≤ 2 ^ 15) few.fits
    (few.room roomy furnished more (by omega))
  obtain ⟨rootStart, rootKept⟩ := invariant.run_alloc rootGiven
  have middleSize : middle.memSize = kernel.memory.memSize := by
    rw [rootKept.shape.size, shape.size]
  -- With the root in use there is room for the records as well.
  obtain ⟨second, memory, secondGiven⟩ := rootKept.run_alloc_few profile (by decide : 0 < 20480)
    (by decide : max 20480 pageSize ≤ 2 ^ 15)
    (fun used member => few.fits_table root root used (List.mem_cons_of_mem _ member))
    (by
      rw [middleSize]
      exact few.room roomy furnished more (by rw [List.length_cons]; omega))
  obtain ⟨secondStart, kept⟩ := rootKept.run_alloc secondGiven
  have start : memory.start.addr = image.freeRam := by
    rw [secondStart, rootStart, furnished.start]
  -- The arena does not start at address zero, so that no block does.
  have placed : ∀ used ∈ (⟨20480, second⟩ : LiveBlock) :: ⟨4096, root⟩ :: live,
      used.block.addr ≠ 0 := by
    intro used member
    obtain ⟨_, _, _, above, _⟩ := kept.room member
    have positive := roomy.positive
    omega
  refine ⟨root, middle, second, memory, rootGiven, secondGiven,
    ⟨placed ⟨4096, root⟩ (by simp), placed ⟨20480, second⟩ (by simp)⟩, start, ?_⟩
  rw [kept.shape.size, ← rootKept.shape.size, middleSize]

/-- As long as there is a slot, creating a process returns and takes a page table into use. -/
theorem Viewed.createProcess_returns (profile : Profile) (linked : Linked image)
    (roomy : Roomy image) (viewed : Viewed image kernel procs live)
    (furnished : Furnished image kernel procs slots depth other)
    (few : Few image slots.length live) (more : slots.length < procMax) (pc : Nat) :
    ∃ after, (procs.createProcess profile image pc).run kernel.quiet = .ok slots.length after ∧
      Few image (slots.length + 1) (handedOut after.trace ++ live) := by
  have invariant := viewed.managed.invariant furnished.memory.shape
  obtain ⟨root, middle, second, memory, rootGiven, secondGiven, ⟨rootPlaced, secondPlaced⟩, start,
    size⟩ := viewed.table_given profile roomy furnished few more
  have fits := few.fits_table root second
  -- With them, a slot that is next and blank is set up.
  have found : (procs.sched kernel.quiet.ram).nextUnused = some slots.length :=
    furnished.nextUnused_next more
  have free := (ProcTable.nextUnused_state found).2
  have addr := ProcTable.slotAddr_slot viewed.seated viewed.managed.placed more
  have rootInside := layout.inside .rootPt
  have secondInside := layout.inside .secondPts
  simp only [ProcField.width] at rootInside secondInside
  obtain ⟨trace, handed, mapping⟩ := ProcTable.run_createProcess_mapping image pc found
    (fun o small => by
      rw [addr, Nat.add_assoc, Nat.add_assoc]
      exact ⟨viewed.blank _ more free _ (by omega), viewed.blank _ more free _ (by omega)⟩)
    rootGiven secondGiven rootPlaced secondPlaced
  rw [addr] at mapping
  -- The two blocks are zero still, so that they make up an empty table.
  let built : Kernel := ⟨memory, readyRam procs kernel slots.length pc root second, trace⟩
  have managed : memory.Managed image.freeRam image.freeRamEnd
      ([⟨20480, second⟩, ⟨4096, root⟩] ++ live) :=
    (viewed.managed.request rootGiven).request secondGiven
  have fresh : FreshBlocks built.ram [⟨20480, second⟩, ⟨4096, root⟩] :=
    viewed.toTenanted.fresh_ready more managed (viewed.vacant.given managed) pc root second
  obtain ⟨_, owns⟩ := Owns.created invariant rootGiven secondGiven (rfl : built.memory = memory)
    (fun a here => fresh.zero ⟨4096, root⟩ (by simp) a here)
    (fun a here => fresh.zero ⟨20480, second⟩ (by simp) a here)
  have recorded : handedOut built.trace = [⟨20480, second⟩, ⟨4096, root⟩] := handed
  rw [← recorded] at owns
  -- Mapping its pages takes a block for each table that is missing, and there is room for all.
  have absent : Frames.missing ⟨root, second, fun _ => none⟩ (Sv32.vpn1 image.kernelBase)
      (Sv32.vpn1 (image.freeRamEnd - 1)) = image.spans := by
    simp [Frames.missing, Image.spans]
  obtain ⟨after, taken, mapped, later, count, small⟩ := owns.mapPages_returns profile
    (by show 0 < memory.start.addr; rw [start]; exact roomy.positive)
    (fun call member => (linked.pages member).1) (fun call member => (linked.pages member).2)
    (by decide : pageSize ≤ 2 ^ 15) fits
    (by
      rw [absent]
      show 2 ^ 15 * (live.length + 1 + 1 + image.spans) ≤ memory.memSize
      rw [size]
      exact few.room roomy furnished more (by omega))
  rw [absent] at count
  refine ⟨after, ?_, ?_, ?_⟩
  · rw [mapping]
    exact Exec.run_bind_ok.mpr ⟨(), after, mapped, rfl⟩
  · rw [later, recorded]
    have length := few.length
    simp only [List.length_append, List.length_cons, List.length_nil, Nat.succ_mul] at length ⊢
    omega
  · intro used member
    rw [later, recorded, List.append_assoc] at member
    rcases List.mem_append.mp member with new | old
    · rw [small used new]
      decide
    · exact fits used old

/-- Whatever is on record, creating a process returns as long as there is a slot. -/
theorem Viewed.run_createProcess (profile : Profile) (linked : Linked image) (roomy : Roomy image)
    (viewed : Viewed image kernel procs live)
    (furnished : Furnished image kernel procs slots depth other)
    (few : Few image slots.length live) (more : slots.length < procMax) (pc : Nat) :
    ∃ after, (procs.createProcess profile image pc).run kernel = .ok slots.length after := by
  obtain ⟨plain, quiet, _⟩ :=
    viewed.createProcess_returns profile linked roomy furnished few more pc
  -- The kernel is the one with nothing on record, once what is on record is put back.
  have unnoticed : Exec.Oblivious (Kernel.recalling kernel.trace)
      (procs.createProcess profile image pc) :=
    ProcTable.oblivious_createProcess profile image procs pc
  have recalled := unnoticed kernel.quiet
  rw [quiet] at recalled
  exact ⟨_, recalled⟩

/-- Without a free slot, the kernel panics before anything is changed. -/
theorem Furnished.createProcess_full (profile : Profile)
    (furnished : Furnished image kernel procs slots depth live) (full : slots.length = procMax)
    (pc : Nat) :
    (procs.createProcess profile image pc).run kernel = .error .noFreeSlot kernel := by
  have none : (procs.sched kernel.ram).nextUnused = none := by
    cases found : (procs.sched kernel.ram).nextUnused with
    | none => rfl
    | some i =>
      -- A slot that is found is one of the table, and comes after those set up.
      have inside := (ProcTable.nextUnused_state found).1
      rw [furnished.seated.cap, furnished.nextUnused_eq found] at inside
      omega
  unfold ProcTable.createProcess
  rw [EStateM.run_bind, ProcTable.run_nextUnused, none]
  rfl

/-- Boot finds room for the process table. -/
theorem ProcTable.run_new_returns (roomy : Roomy image)
    (arena : Memory.PowerArena profile image.freeRam image.freeRamEnd kernel.memory) :
    ∃ procs made, (ProcTable.new profile).run kernel = .ok procs made := by
  obtain ⟨depth, shape, canonical, low, high⟩ := arena.shape
  have invariant := Memory.Invariant.boot shape canonical
  have stop := shape.stop
  rw [low, high] at stop
  -- The array rounds up to a block of 2 ^ 15 bytes, and one such block fits an empty arena.
  have room : 2 ^ 15 * 1 ≤ kernel.memory.memSize := by
    have enough := roomy.room
    rw [stop, Nat.add_sub_cancel_left, ← shape.size] at enough
    exact (Nat.mul_le_mul_left _ (Nat.le_add_right 1 _)).trans enough
  obtain ⟨block, memory, given⟩ := invariant.run_alloc_few profile
    (by decide : 0 < procMax * procSize) (by decide : max (procMax * procSize) pageSize ≤ 2 ^ 15)
    (fun used none => absurd none List.not_mem_nil) room
  -- The block lies above address zero, so its pointer is not null.
  obtain ⟨start, kept⟩ := invariant.run_alloc given
  obtain ⟨_, _, _, above, _⟩ := kept.room List.mem_cons_self
  have positive := roomy.positive
  rw [start, low] at above
  have made : (FixedVec.new profile procMax : Exec Fault Kernel (FixedVec Process)).run kernel =
      .ok ⟨block.addr, procMax, block⟩
        { kernel with memory, trace := .alloc (procMax * procSize) block :: kernel.trace } :=
    FixedVec.run_new (show procSize ≠ 0 by decide) (show procMax * procSize ≤ isizeMax by decide)
      given (by simp only at above; omega)
  unfold ProcTable.new
  rw [EStateM.run_bind, made]
  exact ⟨_, _, rfl⟩

/-- From boot on, there is a run. -/
theorem Run.boot_returns (policy : Machine → Nat → Prop) (linked : Linked image)
    (roomy : Roomy image)
    (arena : Memory.PowerArena profile image.freeRam image.freeRamEnd kernel.memory)
    (zero : ∀ a, image.freeRam ≤ a → a < image.freeRamEnd → kernel.ram a = 0) :
    ∃ procs made ready slot, (ProcTable.new profile).run kernel = .ok procs made ∧
      (procs.createProcess profile image 0).run made = .ok 0 ready ∧ procs.currProcIdx = 0 ∧
      ∀ regs csrs pc, Run profile image policy ⟨ready, procs, regs, csrs, pc⟩ [slot] := by
  obtain ⟨procs, made, table⟩ := ProcTable.run_new_returns roomy arena
  have viewed := Viewed.boot arena linked zero table
  obtain ⟨current, _, _, furnished⟩ := Furnished.boot arena zero table
  -- The idle process is a creation like any other, from a table without processes.
  obtain ⟨ready, idle⟩ := viewed.run_createProcess profile linked roomy furnished Few.boot
    (by decide : 0 < procMax) 0
  exact ⟨procs, made, ready, _, table, idle, current, fun _ _ _ => .boot arena zero table idle⟩

/-- In every run, the blocks in use are few enough for one more process. -/
theorem Run.few {policy : Machine → Nat → Prop} {machine : Machine} (linked : Linked image)
    (roomy : Roomy image) (run : Run profile image policy machine slots) :
    ∃ live, Viewed image machine.kernel machine.procs live ∧ Few image slots.length live := by
  apply run.viewed_with (fun count live => Few image count live) linked
  · exact fun _ => Few.boot
  · -- The creation took the first unused slot, so there was one to take.
    intro kernel after procs slots depth i pc live other viewed furnished few ran
    have blank : ∀ i < procMax, (procs.process kernel.quiet.ram i).state = .unused →
        ∀ o < procSize, kernel.quiet.ram (procs.slot i + o) = 0 := viewed.blank
    have next : (procs.sched kernel.ram).nextUnused = some i :=
      (ProcTable.createProcess_seated viewed.seated viewed.managed.placed blank ran).1
    have more : slots.length < procMax := by
      rw [← furnished.nextUnused_eq next, ← viewed.seated.cap]
      exact (ProcTable.nextUnused_state next).1
    -- From there the creation returns, and the blocks that it took are counted.
    obtain ⟨plain, quiet, grown⟩ :=
      viewed.createProcess_returns profile linked roomy furnished few more pc
    rw [ran, EStateM.Result.ok.injEq] at quiet
    rwa [quiet.2]

/-- In every run, a process is created as long as there is a slot. -/
theorem Run.createProcess_next {policy : Machine → Nat → Prop} {machine : Machine}
    (linked : Linked image) (roomy : Roomy image) (run : Run profile image policy machine slots)
    (more : slots.length < procMax) (pc : Nat) :
    ∃ after, (machine.procs.createProcess profile image pc).run machine.kernel =
      .ok slots.length after := by
  obtain ⟨_, _, tracked⟩ := run.tracked
  obtain ⟨live, viewed, few⟩ := run.few linked roomy
  exact viewed.run_createProcess profile linked roomy tracked.toFurnished few more pc

/--
The kernel never runs out of memory: processes can be created until all slots are taken.

Whenever creation is asked for in a run, it returns the next slot as long as there is one. After
that it panics for want of a slot, and nothing is changed.
-/
theorem Run.createProcess_returns_iff {policy : Machine → Nat → Prop} {machine : Machine}
    (linked : Linked image) (roomy : Roomy image) (run : Run profile image policy machine slots)
    (pc : Nat) :
    slots.length ≤ procMax ∧
    ((∃ after, (machine.procs.createProcess profile image pc).run machine.kernel =
      .ok slots.length after) ↔ slots.length < procMax) ∧
    (slots.length = procMax → (machine.procs.createProcess profile image pc).run machine.kernel =
      .error .noFreeSlot machine.kernel) := by
  obtain ⟨_, _, tracked⟩ := run.tracked
  have count := tracked.count
  refine ⟨count, ⟨fun ⟨after, ran⟩ => ?_, fun more => ?_⟩, fun full => ?_⟩
  · -- A creation from a full table would have panicked.
    by_contra none
    rw [tracked.toFurnished.createProcess_full profile (by omega) pc] at ran
    simp at ran
  · exact run.createProcess_next linked roomy more pc
  · exact tracked.toFurnished.createProcess_full profile full pc

end Layout

/-- With the sections of the kernel in sixty-four kilobytes, the second process is created. -/
theorem Run.createProcess_returns_second : letI := declaredLayout; letI := declaredProcLayout
    ∃ machine slots after, Run .dev (kernelImage 0x80210000) Machine.Selects machine slots ∧
      (machine.procs.createProcess .dev (kernelImage 0x80210000) 0x80201234).run machine.kernel =
        .ok 1 after := by
  let := declaredLayout
  let := declaredProcLayout
  have fits : Ld.Fits 0x80210000 := ⟨by decide, by decide⟩
  obtain ⟨memory, _, _, arena⟩ := kernelImage_arena .dev fits
  let boot : Kernel := ⟨memory, fun _ => 0, []⟩
  have clear : Memory.PowerArena .dev (kernelImage 0x80210000).freeRam
      (kernelImage 0x80210000).freeRamEnd boot.memory := arena
  -- Boot takes slot 0 for the idle process.
  obtain ⟨procs, _, ready, slot, _, _, _, run⟩ := Run.boot_returns Machine.Selects
    (kernelImage_linked fits) (kernelImage_roomy fits) clear fun _ _ _ => rfl
  have started := run (fun _ => 0) (fun _ => 0) 0
  -- One slot of eight is taken, so there is one for the next process.
  obtain ⟨_, returns, _⟩ := Run.createProcess_returns_iff (kernelImage_linked fits)
    (kernelImage_roomy fits) started 0x80201234
  obtain ⟨after, ran⟩ := returns.mpr (by decide : 1 < procMax)
  exact ⟨_, _, after, started, ran⟩

end Os1k
