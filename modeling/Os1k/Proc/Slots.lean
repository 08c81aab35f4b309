import Os1k.Proc.Scheduler
import Os1k.Vm.Ownership

/-! What creating a process does to its slot, and that it does nothing to the others. -/

namespace Os1k

open Riscv
open Memory (LiveBlock)

/-- The registers that a process starts with. -/
def startRegs (pc sp : Nat) : Reg → Nat
  | .ra => pc
  | .sp => sp
  | _ => 0

/-- All other registers start at zero. -/
theorem startRegs_other {pc sp : Nat} {r : Reg} (notRa : r ≠ .ra) (notSp : r ≠ .sp) :
    startRegs pc sp r = 0 := by
  cases r with
  | ra => exact absurd rfl notRa
  | sp => exact absurd rfl notSp
  | _ => rfl

/-- The words of the frame that the first switch to a process finds. -/
def frameWords (pc : Nat) : List (Nat × Nat) :=
  (0, pc) :: (List.range' 1 12).map fun i => (4 * i, 0)

/-- Stores hand out nothing. -/
theorem handedOut_stores (addr : Nat) (words : List (Nat × Nat)) (trace : List Event) :
    handedOut ((words.map fun word => Event.store (addr + word.1)).reverse ++ trace)
      = handedOut trace := by
  simp [handedOut, List.filterMap_map]

/-- The frame is laid out word by word. -/
theorem run_writeFrame (sp pc : Nat) (kernel : Kernel) :
    ∃ trace, handedOut trace = handedOut kernel.trace ∧ (writeFrame sp pc).run kernel =
      .ok () { kernel with ram := storeWords sp (frameWords pc) kernel.ram, trace } := by
  -- The entry point is stored first, and the zeros behind it.
  have zeros := Kernel.run_storeWords sp ((List.range' 1 12).map fun i => (4 * i, 0))
  rw [writeFrame, EStateM.run_bind, Kernel.run_store]
  simp only [List.forM_map] at zeros
  refine ⟨_, ?_, zeros _⟩
  rw [handedOut_stores]
  rfl

/-- What is laid out is the frame of a process that starts at `pc` with all else zero. -/
theorem frameWords_at (sp pc top : Nat) (ram : Nat → Nat) :
    switchFrame.At (storeWords sp (frameWords pc) ram) sp (startRegs pc top) := by
  -- Each register of the frame has a word, and no two of them the same place.
  have places : ((frameWords pc).map Prod.fst).Nodup := by simp [frameWords]; decide
  intro slot member
  have word : (4 * slot.2, startRegs pc top slot.1) ∈ frameWords pc := by
    rcases switchFrame_cases slot member with rfl | ⟨low, high, notRa, notSp⟩
    · exact List.mem_cons_self
    · rw [startRegs_other notRa notSp]
      refine List.mem_cons_of_mem _ (List.mem_map.mpr ⟨slot.2, ?_, rfl⟩)
      rw [List.mem_range'_1]
      omega
  exact storeWords_mem places word

/-- Every word of the frame lies in the thirteen words from its address. -/
theorem frameWords_place {pc : Nat} {word : Nat × Nat} (member : word ∈ frameWords pc) :
    word.1 < 13 * 4 := by
  -- The zeros are the second to the thirteenth word.
  simp only [frameWords, List.mem_cons, List.mem_map, List.mem_range'_1] at member
  rcases member with rfl | ⟨i, range, rfl⟩
  · simp
  · simp only
    omega

section Layout

variable [VecLayout] [layout : ProcLayout]

omit [VecLayout] in
/-- Places in different parts of a record are different. -/
theorem ProcLayout.ne {part other : ProcField} (different : part ≠ other) {addr a b : Nat}
    (inside : a < part.width) (also : b < other.width) :
    addr + layout.offset part + a ≠ addr + layout.offset other + b := by
  have apart := layout.disjoint part other different
  omega

omit [VecLayout] in
/-- Different parts of a record start in different places. -/
theorem ProcLayout.start_ne {part other : ProcField} (different : part ≠ other) (addr : Nat) :
    addr + layout.offset part ≠ addr + layout.offset other :=
  ProcLayout.ne different (by cases part <;> decide : 0 < part.width)
    (by cases other <;> decide : 0 < other.width)

/-- The process table holds one of the blocks in use. -/
structure Seated (procs : ProcTable) (live : List LiveBlock) : Prop where
  block : (⟨procMax * procSize, procs.table.physAddr⟩ : LiveBlock) ∈ live
  ptr : procs.table.ptr = procs.table.physAddr.addr
  cap : procs.table.cap = procMax

namespace ProcTable

/-- The first byte of a slot. -/
def slot (procs : ProcTable) (i : Nat) : Nat := procs.table.ptr + procSize * i

variable {procs : ProcTable} {live : List LiveBlock}

omit [VecLayout] layout in
/-- Every byte of a slot is one of the table's block. -/
theorem slot_mem (seated : Seated procs live) (placed : Placed live) {i offset : Nat}
    (inside : i < procMax) (small : offset < procSize) :
    procs.slot i + offset ∈ procs.table.physAddr.bytes ∧ procs.slot i + offset < wordLimit := by
  -- The slots are next to each other, and the block was requested for all of them.
  have size : procSize = 2100 := rfl
  have count : procMax = 8 := rfl
  have room : procSize * i + offset < procMax * procSize := by
    rw [size] at small ⊢
    rw [count] at inside ⊢
    omega
  have found := placed.mem_bytes seated.block room
  rw [slot, seated.ptr, Nat.add_assoc]
  exact found

/-- Where the slots lie. -/
theorem slotAddr_slot (seated : Seated procs live) (placed : Placed live) {i : Nat}
    (inside : i < procMax) : procs.table.slotAddr i = procs.slot i := by
  -- The block of the array ends below the limit, so the address does not wrap.
  have fits := (slot_mem seated placed inside (by decide : 0 < procSize)).2
  have size : Elem.size Process = procSize := rfl
  rw [slot, Nat.mul_comm] at *
  exact FixedVec.slotAddr_eq (by rw [size]; omega)

omit [VecLayout] layout in
/-- Bytes of different slots are different. -/
theorem slot_ne {i j : Nat} (different : i ≠ j) {a b : Nat} (inside : a < procSize)
    (also : b < procSize) : procs.slot i + a ≠ procs.slot j + b := by
  have size : procSize = 2100 := rfl
  -- Slots are a multiple of their size apart.
  unfold slot
  rw [size] at inside also ⊢
  omega

end ProcTable

/-- A slot is set up for a process: all of its parts but the stack are as creation leaves them. -/
structure Prepared (ram : Nat → Nat) (addr i : Nat) (table : PageTable) : Prop where
  pid : ram (addr + layout.offset .pid) = i
  state : ram (addr + layout.offset .state) = ProcState.runnable.word
  root : (Elem.read ram (addr + layout.offset .rootPt) : FixedVec Nat) = table.rootPt
  second : (Elem.read ram (addr + layout.offset .secondPts) : FixedVec (FixedVec Nat))
    = table.secondPts

/-- Only the words of these parts matter. -/
theorem Prepared.congr {ram other : Nat → Nat} {addr i : Nat} {table : PageTable}
    (prepared : Prepared ram addr i table)
    (agree : ∀ part, part ≠ .stack → part ≠ .sp → ∀ o < part.width,
      other (addr + layout.offset part + o) = ram (addr + layout.offset part + o)) :
    Prepared other addr i table := by
  -- Records are read by word, and each is inside its part.
  have first : ∀ part, part ≠ .stack → part ≠ .sp →
      other (addr + layout.offset part) = ram (addr + layout.offset part) := by
    intro part notStack notSp
    exact agree part notStack notSp 0 (by cases part <;> decide)
  refine ⟨?_, ?_, ?_, ?_⟩
  · rw [first .pid (by decide) (by decide), prepared.pid]
  · rw [first .state (by decide) (by decide), prepared.state]
  · rw [← prepared.root]
    exact read_congr fun k small =>
      agree .rootPt (by decide) (by decide) (4 * k) (by simp only [ProcField.width]; omega)
  · rw [← prepared.second]
    exact read_congr fun k small =>
      agree .secondPts (by decide) (by decide) (4 * k) (by simp only [ProcField.width]; omega)

/-- Where the frame of a new process lies in its slot. -/
def frameAddr (addr : Nat) : Nat := addr + layout.offset .stack + (procStackSize - 4) - 12 * 4

omit [VecLayout] in
/-- The frame is the last thirteen words of the stack. -/
theorem frameAddr_eq (addr : Nat) :
    frameAddr addr = addr + layout.offset .stack + 1996 := by
  have size : procStackSize = 2048 := rfl
  rw [frameAddr, size]
  omega

/-- RAM once the number, the state, the frame and the stack pointer of a slot are written. -/
def claimedRam (addr i pc : Nat) (ram : Nat → Nat) : Nat → Nat :=
  Function.update
    (storeWords (frameAddr addr) (frameWords pc)
      (Function.update (Function.update ram (addr + layout.offset .pid) i)
        (addr + layout.offset .state) ProcState.runnable.word))
    (addr + layout.offset .sp) (frameAddr addr)

omit [VecLayout] in
/-- A part without the stack is not among the words of the frame. -/
theorem frameWords_apart {addr pc : Nat} {part : ProcField} (notStack : part ≠ .stack) {o : Nat}
    (inside : o < part.width) :
    ∀ word ∈ frameWords pc, addr + layout.offset part + o ≠ frameAddr addr + word.1 := by
  -- The frame is a part of the stack, and parts are apart.
  intro word member
  have place := frameWords_place member
  have width : ProcField.stack.width = 2048 := rfl
  rw [frameAddr_eq, Nat.add_assoc _ 1996]
  exact ProcLayout.ne notStack inside (by rw [width]; omega)

omit [VecLayout] in
/-- Writing those parts leaves the records of the page table, and all other slots. -/
theorem claimedRam_other {addr i pc : Nat} {ram : Nat → Nat} {a : Nat}
    (apart : ∀ part, part ≠ .rootPt → part ≠ .secondPts → ∀ o < part.width,
      a ≠ addr + layout.offset part + o) : claimedRam addr i pc ram a = ram a := by
  have width : ProcField.stack.width = 2048 := rfl
  have notSp : a ≠ addr + layout.offset .sp := apart .sp (by decide) (by decide) 0 (by decide)
  have notState : a ≠ addr + layout.offset .state := apart .state (by decide) (by decide) 0 (by decide)
  have notPid : a ≠ addr + layout.offset .pid := apart .pid (by decide) (by decide) 0 (by decide)
  rw [claimedRam, Function.update_of_ne notSp, storeWords_other, Function.update_of_ne notState,
    Function.update_of_ne notPid]
  -- The frame is written to the stack.
  intro word member
  have place := frameWords_place member
  rw [frameAddr_eq, Nat.add_assoc _ 1996]
  exact apart .stack (by decide) (by decide) _ (by rw [width]; omega)

omit [VecLayout] in
/-- What is written is found again, part by part. -/
theorem claimedRam_parts (addr i pc : Nat) (ram : Nat → Nat) (top : Nat) :
    claimedRam addr i pc ram (addr + layout.offset .pid) = i ∧
    claimedRam addr i pc ram (addr + layout.offset .state) = ProcState.runnable.word ∧
    claimedRam addr i pc ram (addr + layout.offset .sp) = frameAddr addr ∧
    switchFrame.At (claimedRam addr i pc ram) (frameAddr addr) (startRegs pc top) := by
  have width : ProcField.stack.width = 2048 := rfl
  -- Later writes go to other parts, so each part keeps what was written to it.
  have start : ∀ part, part ≠ .stack → ∀ word ∈ frameWords pc,
      addr + layout.offset part ≠ frameAddr addr + word.1 := fun part notStack =>
    frameWords_apart notStack (by cases part <;> decide : 0 < part.width)
  refine ⟨?_, ?_, ?_, ?_⟩
  · rw [claimedRam, Function.update_of_ne (ProcLayout.start_ne (by decide) addr),
      storeWords_other (start .pid (by decide)),
      Function.update_of_ne (ProcLayout.start_ne (by decide) addr), Function.update_self]
  · rw [claimedRam, Function.update_of_ne (ProcLayout.start_ne (by decide) addr),
      storeWords_other (start .state (by decide)), Function.update_self]
  · rw [claimedRam, Function.update_self]
  · have framed := frameWords_at (frameAddr addr) pc top
      (Function.update (Function.update ram (addr + layout.offset .pid) i)
        (addr + layout.offset .state) ProcState.runnable.word)
    refine framed.congr fun slot member => ?_
    have place := switchFrame_place member
    refine Function.update_of_ne ?_ _ _
    rw [frameAddr_eq, Nat.add_assoc _ 1996]
    exact ProcLayout.ne (by decide : ProcField.stack ≠ .sp) (by rw [width]; omega)
      (by decide : 0 < ProcField.sp.width)

/-- RAM once the record of a page table is written to a slot. -/
def recordedRam (addr : Nat) (table : PageTable) (ram : Nat → Nat) : Nat → Nat :=
  storeWords (addr + layout.offset .secondPts) (Elem.words table.secondPts)
    (storeWords (addr + layout.offset .rootPt) (Elem.words table.rootPt) ram)

/-- The record goes to its own two parts. -/
theorem recordedRam_other {addr : Nat} {table : PageTable} {ram : Nat → Nat} {a : Nat}
    (notRoot : ∀ o < 20, a ≠ addr + layout.offset .rootPt + o)
    (notSecond : ∀ o < 20, a ≠ addr + layout.offset .secondPts + o) :
    recordedRam addr table ram a = ram a := by
  -- The words of a record are inside its twenty bytes.
  rw [recordedRam, storeWords_other, storeWords_other]
  · intro word member
    obtain ⟨k, small, offset⟩ := offset_of_mem_words member
    exact notRoot word.1 (by omega)
  · intro word member
    obtain ⟨k, small, offset⟩ := offset_of_mem_words member
    exact notSecond word.1 (by omega)

/-- The record is read back from its two parts. -/
theorem recordedRam_read (addr : Nat) {rootBytes secondBytes : Nat} {table : PageTable}
    (ram : Nat → Nat) (rootSized : table.rootPt.physAddr.size = some rootBytes)
    (secondSized : table.secondPts.physAddr.size = some secondBytes) :
    (Elem.read (recordedRam addr table ram) (addr + layout.offset .rootPt) : FixedVec Nat)
      = table.rootPt ∧
    (Elem.read (recordedRam addr table ram) (addr + layout.offset .secondPts) :
      FixedVec (FixedVec Nat)) = table.secondPts := by
  -- The second record is written last, and apart from the first.
  refine ⟨?_, read_storeWords secondSized _ _⟩
  rw [← read_storeWords rootSized (addr + layout.offset .rootPt) ram]
  refine read_congr fun k small => storeWords_other fun word member => ?_
  obtain ⟨j, low, offset⟩ := offset_of_mem_words member
  exact ProcLayout.ne (by decide) (by simp only [ProcField.width]; omega)
    (by simp only [ProcField.width]; omega)

/-- With its parts and its record written, a slot is set up. -/
theorem prepared_recordedRam (addr i pc : Nat) {rootBytes secondBytes : Nat} (table : PageTable)
    (ram : Nat → Nat) (rootSized : table.rootPt.physAddr.size = some rootBytes)
    (secondSized : table.secondPts.physAddr.size = some secondBytes) (top : Nat) :
    Prepared (recordedRam addr table (claimedRam addr i pc ram)) addr i table ∧
    recordedRam addr table (claimedRam addr i pc ram) (addr + layout.offset .sp) = frameAddr addr ∧
    switchFrame.At (recordedRam addr table (claimedRam addr i pc ram)) (frameAddr addr)
      (startRegs pc top) := by
  obtain ⟨pid, state, sp, framed⟩ := claimedRam_parts addr i pc ram top
  obtain ⟨root, second⟩ := recordedRam_read addr (claimedRam addr i pc ram) rootSized secondSized
  have rootWidth : ProcField.rootPt.width = 20 := rfl
  have secondWidth : ProcField.secondPts.width = 20 := rfl
  -- The record goes to neither of the other parts.
  have kept : ∀ part, part ≠ .rootPt → part ≠ .secondPts → ∀ o < part.width,
      recordedRam addr table (claimedRam addr i pc ram) (addr + layout.offset part + o) =
        claimedRam addr i pc ram (addr + layout.offset part + o) := by
    intro part notRoot notSecond o inside
    exact recordedRam_other (fun p small => ProcLayout.ne notRoot inside (by omega))
      fun p small => ProcLayout.ne notSecond inside (by omega)
  have first : ∀ part, part ≠ .rootPt → part ≠ .secondPts →
      recordedRam addr table (claimedRam addr i pc ram) (addr + layout.offset part) =
        claimedRam addr i pc ram (addr + layout.offset part) := by
    intro part notRoot notSecond
    exact kept part notRoot notSecond 0 (by cases part <;> decide)
  refine ⟨⟨?_, ?_, root, second⟩, ?_, framed.congr fun slot member => ?_⟩
  · rw [first .pid (by decide) (by decide), pid]
  · rw [first .state (by decide) (by decide), state]
  · rw [first .sp (by decide) (by decide), sp]
  · -- The words of the frame are in the stack.
    have place := switchFrame_place member
    have width : ProcField.stack.width = 2048 := rfl
    rw [frameAddr_eq, Nat.add_assoc _ 1996]
    exact kept .stack (by decide) (by decide) _ (by rw [width]; omega)

/-- All of it happens inside the slot. -/
theorem recordedRam_outside {addr i pc : Nat} {table : PageTable} {ram : Nat → Nat} {a : Nat}
    (outside : ∀ o < procSize, a ≠ addr + o) :
    recordedRam addr table (claimedRam addr i pc ram) a = ram a := by
  -- Every part is inside the slot.
  have part : ∀ part : ProcField, ∀ o < part.width, a ≠ addr + layout.offset part + o := by
    intro part o inside
    have fits := layout.inside part
    rw [Nat.add_assoc]
    exact outside _ (by omega)
  rw [recordedRam_other (part .rootPt) (part .secondPts), claimedRam_other fun other _ _ => part other]

namespace ProcTable

variable {procs : ProcTable} {live : List LiveBlock}

omit [VecLayout] layout in
/-- A block taken into use later has no byte of a slot. -/
theorem slot_apart {taken : List LiveBlock} (seated : Seated procs live)
    (placed : Placed (taken ++ live)) {i : Nat} (inside : i < procMax) {used : LiveBlock}
    (member : used ∈ taken) {a : Nat} (here : a ∈ used.block.bytes) :
    ∀ o < procSize, a ≠ procs.slot i + o := by
  intro o small
  have old : Placed live := placed.sublist (List.sublist_append_right _ _)
  -- The slot is inside the block of the table, which is apart from other blocks.
  have there := (slot_mem seated old inside small).1
  have apart := (List.pairwise_append.mp placed.disjoint).2.2 used member _ seated.block
  exact Placed.ne_of_disjoint apart here there

/-- The slot that is found is one of the table, and not taken. -/
theorem nextUnused_state {ram : Nat → Nat} {i : Nat}
    (found : (procs.sched ram).nextUnused = some i) :
    i < procs.table.cap ∧
      (Elem.read ram (procs.table.slotAddr i) : Process).state = .unused := by
  have length := procs.sched_length ram
  have member := List.mem_of_find?_eq_some found
  rw [List.mem_range, length] at member
  -- What the search accepts is a slot whose state reads as unused.
  have state := List.find?_some found
  rw [sched_state _ member] at state
  exact ⟨member, by simpa using state⟩

omit layout in
/-- The record of an array in zero memory is that of an array without elements or a block. -/
theorem read_zero {α : Type} [Elem α] {ram : Nat → Nat} {addr : Nat}
    (zero : ∀ o < 20, ram (addr + o) = 0) :
    (Elem.read ram addr : FixedVec α).cap = 0 ∧
      (Elem.read ram addr : FixedVec α).physAddr.size = none := by
  -- Each field of the record is one of five words.
  have field : ∀ name, ram (addr + VecLayout.offset name) = 0 := by
    intro name
    obtain ⟨k, small, same⟩ := VecLayout.word name
    rw [same]
    exact zero _ (by omega)
  simp [Elem.read, field]

/-- A page table in zero memory is dropped without giving anything back. -/
theorem run_drop_zero (profile : Profile) {kernel : Kernel} {addr : Nat}
    (root : ∀ o < 20, kernel.ram (addr + layout.offset .rootPt + o) = 0)
    (second : ∀ o < 20, kernel.ram (addr + layout.offset .secondPts + o) = 0) :
    ∃ trace, handedOut trace = handedOut kernel.trace ∧
      ((Elem.read kernel.ram addr : Process).pageTable.drop profile).run kernel =
        .ok () { kernel with trace } := by
  obtain ⟨rootEmpty, rootUnsized⟩ := read_zero (α := Nat) root
  obtain ⟨secondEmpty, secondUnsized⟩ := read_zero (α := FixedVec Nat) second
  unfold PageTable.drop
  -- An array without a block has nothing to give back.
  rw [EStateM.run_bind]
  have first := FixedVec.run_drop_empty rootEmpty rootUnsized profile kernel
  simp only [Elem.read] at first ⊢
  rw [first]
  refine ⟨_, ?_, FixedVec.run_drop_empty secondEmpty secondUnsized profile _⟩
  rfl

/-- Taking a slot writes its parts. -/
theorem run_claim {i : Nat} (inside : i < procs.table.cap) (pc : Nat) (kernel : Kernel) :
    ∃ trace, handedOut trace = handedOut kernel.trace ∧ (procs.claim i pc).run kernel =
      .ok () { kernel with ram := claimedRam (procs.table.slotAddr i) i pc kernel.ram, trace } := by
  -- Number and state are written first, the frame next, the stack pointer last.
  let numbered : Kernel :=
    { kernel with
      ram := Function.update (Function.update kernel.ram (procs.field i .pid) i)
        (procs.field i .state) ProcState.runnable.word
      trace := .store (procs.field i .state) :: .store (procs.field i .pid) :: kernel.trace }
  obtain ⟨trace, handed, framed⟩ := run_writeFrame
    (procs.field i .stack + (procStackSize - 4) - 12 * 4) pc numbered
  refine ⟨.store (procs.field i .sp) :: trace, handed, ?_⟩
  have started : (procs.claim i pc).run kernel = EStateM.run (do
      writeFrame (procs.field i .stack + (procStackSize - 4) - 12 * 4) pc
      Kernel.store (procs.field i .sp)
        (procs.field i .stack + (procStackSize - 4) - 12 * 4)) numbered := by
    rw [claim, EStateM.run_bind, FixedVec.run_index inside]
    rfl
  rw [started, EStateM.run_bind, framed]
  rfl

/-- Assigning a page table to a slot that has an empty one writes its record. -/
theorem run_setPageTable (profile : Profile) {kernel : Kernel} {i : Nat} (table : PageTable)
    (root : ∀ o < 20, kernel.ram (procs.table.slotAddr i + layout.offset .rootPt + o) = 0)
    (second : ∀ o < 20, kernel.ram (procs.table.slotAddr i + layout.offset .secondPts + o) = 0) :
    ∃ trace, handedOut trace = handedOut kernel.trace ∧
      (procs.setPageTable profile i table).run kernel =
        .ok () { kernel with
          ram := recordedRam (procs.table.slotAddr i) table kernel.ram, trace } := by
  -- Assigning drops the table that was in place, which is empty.
  obtain ⟨trace, handed, dropped⟩ := run_drop_zero profile root second
  unfold setPageTable
  rw [EStateM.run_bind, EStateM.run_get]
  simp only
  rw [EStateM.run_bind, dropped]
  simp only
  rw [EStateM.run_bind, Kernel.run_storeWords]
  refine ⟨_, ?_, Kernel.run_storeWords _ _ _⟩
  simp only [handedOut_stores, handed]

/--
Creating a process goes through these stages, where the slot found has an empty page table.

Its parts are written, two blocks are handed out, their record is written, and pages are mapped.
-/
theorem createProcess_stages {profile : Profile} {image : Image} {kernel after : Kernel} {i pc : Nat}
    (blank : ∀ i, (procs.sched kernel.ram).nextUnused = some i → ∀ o < 20,
      kernel.ram (procs.table.slotAddr i + layout.offset .rootPt + o) = 0 ∧
      kernel.ram (procs.table.slotAddr i + layout.offset .secondPts + o) = 0)
    (ran : (procs.createProcess profile image pc).run kernel = .ok i after) :
    (procs.sched kernel.ram).nextUnused = some i ∧
    ∃ root second middle memory trace,
      handedOut trace = ⟨20480, second⟩ :: ⟨4096, root⟩ :: handedOut kernel.trace ∧
      (Memory.buddyAlloc profile 4096).run kernel.memory = .ok (.ok root) middle ∧
      (Memory.buddyAlloc profile 20480).run middle = .ok (.ok second) memory ∧
      (PageTable.mapPages profile ⟨⟨root.addr, 1024, root⟩, ⟨second.addr, 1024, second⟩⟩
          (identityPages image.kernelBase image.freeRamEnd)).run
        { memory
          ram := recordedRam (procs.table.slotAddr i)
            ⟨⟨root.addr, 1024, root⟩, ⟨second.addr, 1024, second⟩⟩
            (claimedRam (procs.table.slotAddr i) i pc kernel.ram)
          trace } = .ok () after := by
  unfold createProcess at ran
  rw [EStateM.run_bind, run_nextUnused] at ran
  cases found : (procs.sched kernel.ram).nextUnused with
  -- Without a free slot, creation panics.
  | none => simp [found] at ran
  | some slot =>
    simp only [found] at ran
    obtain ⟨trace, few, claimed⟩ := run_claim (nextUnused_state found).1 pc kernel
    rw [EStateM.run_bind, claimed] at ran
    simp only at ran
    obtain ⟨table, created, made, ran⟩ := Exec.run_bind_ok.mp ran
    obtain ⟨root, second, middle, memory, rootGiven, secondGiven, rfl, rfl⟩ := run_new_ok made
    -- The record in place is still that of an empty table.
    have rootZero : ∀ o < 20, claimedRam (procs.table.slotAddr slot) slot pc kernel.ram
        (procs.table.slotAddr slot + layout.offset .rootPt + o) = 0 := by
      intro o small
      rw [claimedRam_other fun part notRoot _ p inside =>
        ProcLayout.ne notRoot.symm small inside]
      exact (blank slot found o small).1
    have secondZero : ∀ o < 20, claimedRam (procs.table.slotAddr slot) slot pc kernel.ram
        (procs.table.slotAddr slot + layout.offset .secondPts + o) = 0 := by
      intro o small
      rw [claimedRam_other fun part _ notSecond p inside =>
        ProcLayout.ne notSecond.symm small inside]
      exact (blank slot found o small).2
    let built : Kernel :=
      { memory
        ram := claimedRam (procs.table.slotAddr slot) slot pc kernel.ram
        trace := .alloc 20480 second :: .alloc 4096 root :: trace }
    have rootBuilt : ∀ o < 20,
        built.ram (procs.table.slotAddr slot + layout.offset .rootPt + o) = 0 := rootZero
    obtain ⟨later, handed, assigned⟩ := run_setPageTable profile
      ⟨⟨root.addr, 1024, root⟩, ⟨second.addr, 1024, second⟩⟩ rootBuilt secondZero
    rw [EStateM.run_bind, assigned] at ran
    simp only at ran
    obtain ⟨_, final, mapped, returned⟩ := Exec.run_bind_ok.mp ran
    rw [EStateM.run_pure, EStateM.Result.ok.injEq] at returned
    obtain ⟨rfl, rfl⟩ := returned
    refine ⟨rfl, root, second, middle, memory, later, ?_, rootGiven, secondGiven, mapped⟩
    -- Of all this, the two requests alone hand out blocks.
    rw [handed, ← few]
    rfl

/-- In a table that is one of the blocks in use, the stages of creation are about the slot found. -/
theorem createProcess_seated {profile : Profile} {image : Image} {kernel after : Kernel}
    {i pc : Nat} (seated : Seated procs live) (placed : Placed live)
    (blank : ∀ i < procMax,
      (Elem.read kernel.ram (procs.table.slotAddr i) : Process).state = .unused →
      ∀ o < procSize, kernel.ram (procs.slot i + o) = 0)
    (ran : (procs.createProcess profile image pc).run kernel = .ok i after) :
    (procs.sched kernel.ram).nextUnused = some i ∧ i < procMax ∧
      (Elem.read kernel.ram (procs.table.slotAddr i) : Process).state = .unused ∧
    ∃ root second middle memory trace,
      handedOut trace = ⟨20480, second⟩ :: ⟨4096, root⟩ :: handedOut kernel.trace ∧
      (Memory.buddyAlloc profile 4096).run kernel.memory = .ok (.ok root) middle ∧
      (Memory.buddyAlloc profile 20480).run middle = .ok (.ok second) memory ∧
      (PageTable.mapPages profile ⟨⟨root.addr, 1024, root⟩, ⟨second.addr, 1024, second⟩⟩
          (identityPages image.kernelBase image.freeRamEnd)).run
        { memory
          ram := recordedRam (procs.slot i)
            ⟨⟨root.addr, 1024, root⟩, ⟨second.addr, 1024, second⟩⟩
            (claimedRam (procs.slot i) i pc kernel.ram)
          trace } = .ok () after := by
  have rootInside := layout.inside .rootPt
  have secondInside := layout.inside .secondPts
  simp only [ProcField.width] at rootInside secondInside
  -- With the slot all zero, both parts of its page table are.
  have zero : ∀ i, (procs.sched kernel.ram).nextUnused = some i → ∀ o < 20,
      kernel.ram (procs.table.slotAddr i + layout.offset .rootPt + o) = 0 ∧
      kernel.ram (procs.table.slotAddr i + layout.offset .secondPts + o) = 0 := by
    intro i found o small
    obtain ⟨inside, state⟩ := nextUnused_state found
    rw [seated.cap] at inside
    rw [slotAddr_slot seated placed inside, Nat.add_assoc, Nat.add_assoc]
    exact ⟨blank i inside state _ (by omega), blank i inside state _ (by omega)⟩
  obtain ⟨found, stages⟩ := createProcess_stages zero ran
  obtain ⟨inside, state⟩ := nextUnused_state found
  rw [seated.cap] at inside
  rw [slotAddr_slot seated placed inside] at stages
  exact ⟨found, inside, state, stages⟩

/--
What creating a process does, where free RAM is zero and so are slots that are not taken.

The slot found is set up, the blocks handed out make up its page table, and nothing else changes.
-/
theorem run_createProcess {profile : Profile} {image : Image} {kernel after : Kernel}
    {depth i pc : Nat} (invariant : Memory.Invariant kernel.memory depth live)
    (seated : Seated procs live) (zero : FreeZero kernel live)
    (blank : ∀ i < procMax, kernel.ram (procs.slot i + layout.offset .state) = 0 →
      ∀ o < procSize, kernel.ram (procs.slot i + o) = 0)
    (ran : (procs.createProcess profile image pc).run kernel = .ok i after) :
    (procs.sched kernel.ram).nextUnused = some i ∧ i < procMax ∧
    ∃ taken table, Memory.Invariant after.memory depth (taken ++ live) ∧
      after.memory.start = kernel.memory.start ∧
      Prepared after.ram (procs.slot i) i table ∧
      after.ram (procs.slot i + layout.offset .sp) = frameAddr (procs.slot i) ∧
      switchFrame.At after.ram (frameAddr (procs.slot i)) (startRegs pc (procs.stackEnd i)) ∧
      ∀ a, (∀ o < procSize, a ≠ procs.slot i + o) → (∀ used ∈ taken, a ∉ used.block.bytes) →
        after.ram a = kernel.ram a := by
  have placed := invariant.placed
  -- Any word but zero is read as the state of a slot that is taken.
  have unused : ∀ i < procMax,
      (Elem.read kernel.ram (procs.table.slotAddr i) : Process).state = .unused →
      ∀ o < procSize, kernel.ram (procs.slot i + o) = 0 := by
    intro i inside state
    rw [slotAddr_slot seated placed inside] at state
    apply blank i inside
    by_contra taken
    simp [Elem.read, ProcState.ofWord, taken] at state
  obtain ⟨found, inside, _, root, second, middle, memory, trace, _, rootGiven, secondGiven, mapped⟩ :=
    createProcess_seated seated placed unused ran
  refine ⟨found, inside, ?_⟩
  obtain ⟨middleStart, middleKept⟩ := invariant.run_alloc rootGiven
  obtain ⟨memoryStart, kept⟩ := middleKept.run_alloc secondGiven
  have start : memory.start = kernel.memory.start := memoryStart.trans middleStart
  obtain ⟨rootBytes, rootSized, _⟩ := kept.room (by simp : (⟨4096, root⟩ : LiveBlock) ∈ _)
  obtain ⟨secondBytes, secondSized, _⟩ := kept.room (by simp : (⟨20480, second⟩ : LiveBlock) ∈ _)
  let table : PageTable := ⟨⟨root.addr, 1024, root⟩, ⟨second.addr, 1024, second⟩⟩
  let built : Kernel :=
    { memory
      ram := recordedRam (procs.slot i) table (claimedRam (procs.slot i) i pc kernel.ram)
      trace }
  have both : Memory.Invariant memory depth ([⟨20480, second⟩, ⟨4096, root⟩] ++ live) := kept
  -- The two blocks are still zero, since the slot lies in the block of the process table.
  obtain ⟨rootClear, secondClear⟩ :=
    zero.nextBlocks invariant root middle second memory rootGiven secondGiven
  have untouched : ∀ used ∈ ([⟨20480, second⟩, ⟨4096, root⟩] : List LiveBlock),
      ∀ a ∈ used.block.bytes, built.ram a = kernel.ram a := fun used member a found =>
    recordedRam_outside (slot_apart seated both.placed inside member found)
  have rootZero : ∀ a ∈ root.bytes, built.ram a = 0 := fun a found => by
    rw [untouched ⟨4096, root⟩ (by simp) a found, rootClear a found]
  have secondZero : ∀ a ∈ second.bytes, built.ram a = 0 := fun a found => by
    rw [untouched ⟨20480, second⟩ (by simp) a found, secondClear a found]
  -- The new table owns its two blocks, and mapping adds what it asks for.
  obtain ⟨_, owns⟩ := Owns.created invariant rootGiven secondGiven (rfl : built.memory = memory)
    rootZero secondZero
  obtain ⟨later, grown, final, framed, finalStart⟩ := owns.mapPages mapped
  have invariantAfter : Memory.Invariant after.memory depth
      ((later ++ [⟨20480, second⟩, ⟨4096, root⟩]) ++ live) := by
    simpa using final.invariant
  have outsideBlocks : ∀ a, (∀ used ∈ later ++ [⟨20480, second⟩, ⟨4096, root⟩],
      a ∉ used.block.bytes) → after.ram a = built.ram a := fun a outside =>
    framed a fun used member => outside used (final.owned.symm.subset member)
  -- Mapping writes to blocks of the table only, none of which is the slot.
  have slotKept : ∀ o < procSize, after.ram (procs.slot i + o) = built.ram (procs.slot i + o) :=
    fun o small => outsideBlocks _ fun used member here =>
      slot_apart seated invariantAfter.placed inside member here o small rfl
  obtain ⟨prepared, sp, frame⟩ := prepared_recordedRam (procs.slot i) i pc table kernel.ram
    rootSized secondSized (procs.stackEnd i)
  refine ⟨later ++ [⟨20480, second⟩, ⟨4096, root⟩], table, invariantAfter, finalStart.trans start,
    prepared.congr fun part _ _ o small => ?_, ?_, frame.congr fun slot member => ?_, ?_⟩
  · have fits := layout.inside part
    rw [Nat.add_assoc]
    exact slotKept _ (by omega)
  · have fits := layout.inside .sp
    simp only [ProcField.width] at fits
    rw [slotKept _ (by omega)]
    exact sp
  · have place := switchFrame_place member
    have fits := layout.inside .stack
    have width : ProcField.stack.width = 2048 := rfl
    rw [frameAddr_eq, Nat.add_assoc, Nat.add_assoc]
    exact slotKept _ (by omega)
  · intro a outside unused
    rw [outsideBlocks a unused]
    exact recordedRam_outside outside

end ProcTable

end Layout

end Os1k
