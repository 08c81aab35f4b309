import Os1k.Vm.Frames

/-! What the operations on page tables do to memory and to the blocks of the table. -/

namespace Os1k

open Memory (LiveBlock)

/-- The array that owns a second-level table. -/
def tableVec (block : PhysAddr) : FixedVec Nat := ⟨block.addr, 1024, block⟩

/-- The root entry that points to a second-level table. -/
def tableEntry (block : PhysAddr) : Nat := shl (block.addr / pageSize) 10 ||| pageV

/-- The entry of a page in a second-level table. -/
def pageEntry (paddr flags : Nat) : Nat := shl (paddr / pageSize) 10 ||| flags ||| pageV

/-- A root entry that points to a table is valid. -/
theorem tableEntry_valid (block : PhysAddr) : tableEntry block &&& pageV ≠ 0 := by
  -- The valid bit is added to the page number, whatever that is.
  have bit : (tableEntry block &&& pageV).testBit 0 = true := by
    simp [tableEntry, pageV]
  intro zero
  rw [zero] at bit
  simp at bit

variable [layout : VecLayout]

/-- RAM represents a page table: its root entries and the arrays it owns agree with its blocks. -/
structure Represents (ram : Nat → Nat) (table : PageTable) (frames : Frames) : Prop where
  root : table.rootPt = ⟨frames.root.addr, 1024, frames.root⟩
  second : table.secondPts = ⟨frames.second.addr, 1024, frames.second⟩
  absent : ∀ vpn1 < 1024, frames.leaf vpn1 = none →
    ram (frames.root.addr + 4 * vpn1) &&& pageV = 0 ∧
      (Elem.read ram (frames.second.addr + 20 * vpn1) : FixedVec Nat).physAddr.size = none
  present : ∀ vpn1 < 1024, ∀ block, frames.leaf vpn1 = some block →
    ram (frames.root.addr + 4 * vpn1) = tableEntry block ∧
      Elem.read ram (frames.second.addr + 20 * vpn1) = tableVec block

namespace Represents

variable {ram other : Nat → Nat} {table : PageTable} {frames : Frames}

/-- Only the words of the root and of the array of arrays represent the table. -/
theorem congr (represents : Represents ram table frames)
    (rootWords : ∀ i < 1024, other (frames.root.addr + 4 * i) = ram (frames.root.addr + 4 * i))
    (secondWords : ∀ i < 1024, ∀ k < 5, other (frames.second.addr + 20 * i + 4 * k)
      = ram (frames.second.addr + 20 * i + 4 * k)) :
    Represents other table frames := by
  -- Entries and records are read off these words and no others.
  refine ⟨represents.root, represents.second, ?_, ?_⟩
  · intro vpn1 small unknown
    rw [rootWords vpn1 small, read_congr (secondWords vpn1 small)]
    exact represents.absent vpn1 small unknown
  · intro vpn1 small block known
    rw [rootWords vpn1 small, read_congr (secondWords vpn1 small)]
    exact represents.present vpn1 small block known

/-- RAM that agrees on the blocks of a table represents it as well. -/
theorem frame (represents : Represents ram table frames) (placed : Placed frames.blocks)
    (agree : ∀ used ∈ frames.blocks, ∀ a ∈ used.block.bytes, other a = ram a) :
    Represents other table frames := by
  have rootMember : (⟨4096, frames.root⟩ : LiveBlock) ∈ frames.blocks := List.mem_cons_self
  have secondMember : (⟨20480, frames.second⟩ : LiveBlock) ∈ frames.blocks :=
    List.mem_cons_of_mem _ List.mem_cons_self
  -- Entries and records are inside the two blocks.
  apply represents.congr
  · intro i small
    exact agree _ rootMember _ (placed.mem_bytes rootMember (by simp only; omega)).1
  · intro i small k word
    rw [Nat.add_assoc]
    exact agree _ secondMember _ (placed.mem_bytes secondMember (by simp only; omega)).1

/-- Two zeroed blocks represent a table without second-level tables. -/
theorem empty {root second : PhysAddr}
    (placed : Placed (Frames.blocks ⟨root, second, fun _ => none⟩))
    (rootZero : ∀ a ∈ root.bytes, ram a = 0) (secondZero : ∀ a ∈ second.bytes, ram a = 0) :
    Represents ram ⟨⟨root.addr, 1024, root⟩, ⟨second.addr, 1024, second⟩⟩
      ⟨root, second, fun _ => none⟩ := by
  refine ⟨rfl, rfl, ?_, ?_⟩
  · intro vpn1 small _
    -- Zeroed words read as an invalid entry and as an array without a block.
    have entry := rootZero _ (placed.mem_bytes List.mem_cons_self
      (by simp only; omega : 4 * vpn1 < _)).1
    obtain ⟨k, field, offset⟩ := layout.word .tag
    have tag := secondZero _ (placed.mem_bytes (List.mem_cons_of_mem _ List.mem_cons_self)
      (by simp only; omega : 20 * vpn1 + 4 * k < _)).1
    rw [← Nat.add_assoc, ← offset] at tag
    simp only at entry tag
    simp [Elem.read, entry, tag]
  · intro vpn1 small block known
    simp at known

/-- Where the root entries lie. -/
theorem root_slot (represents : Represents ram table frames) (placed : Placed frames.blocks)
    {vpn1 : Nat} (small : vpn1 < 1024) :
    table.rootPt.slotAddr vpn1 = frames.root.addr + 4 * vpn1 := by
  -- The root is inside the address space, so that no address wraps around.
  have fits := (placed.mem_bytes List.mem_cons_self
    (by simp only; omega : 4 * vpn1 < (⟨4096, frames.root⟩ : LiveBlock).request)).2
  have size : Elem.size Nat = 4 := rfl
  rw [represents.root, FixedVec.slotAddr_eq (by simp only [size]; simp only at fits; omega), size,
    Nat.mul_comm]

/-- Where the arrays that own the second-level tables lie. -/
theorem second_slot (represents : Represents ram table frames) (placed : Placed frames.blocks)
    {vpn1 : Nat} (small : vpn1 < 1024) :
    table.secondPts.slotAddr vpn1 = frames.second.addr + 20 * vpn1 := by
  -- The array is inside the address space as well.
  have fits := (placed.mem_bytes (List.mem_cons_of_mem _ List.mem_cons_self)
    (by simp only; omega : 20 * vpn1 < (⟨20480, frames.second⟩ : LiveBlock).request)).2
  have size : Elem.size (FixedVec Nat) = 20 := rfl
  rw [represents.second, FixedVec.slotAddr_eq (by simp only [size]; simp only at fits; omega), size,
    Nat.mul_comm]

end Represents

/-- Memory once an entry of a second-level table is set. -/
def Kernel.entered (kernel : Kernel) (block : PhysAddr) (vpn0 value : Nat) : Kernel :=
  { kernel with
    ram := Function.update kernel.ram (pointerAdd block.addr (vpn0 * 4)) value
    trace := .store (pointerAdd block.addr (vpn0 * 4)) :: kernel.trace }

/-- Memory once a new second-level table is in place. -/
def Kernel.installed (kernel : Kernel) (frames : Frames) (vpn1 : Nat) (block : PhysAddr)
    (memory : Memory) : Kernel where
  memory := memory
  ram := Function.update
    (storeWords (frames.second.addr + 20 * vpn1) (Elem.words (tableVec block)) kernel.ram)
    (frames.root.addr + 4 * vpn1) (tableEntry block)
  trace := .store (frames.root.addr + 4 * vpn1) ::
    ((Elem.words (tableVec block)).map fun word =>
      Event.store (frames.second.addr + 20 * vpn1 + word.1)).reverse ++
    .free (Elem.read kernel.ram (frames.second.addr + 20 * vpn1) : FixedVec Nat).physAddr ::
    .alloc 4096 block :: kernel.trace

/-- What mapping a page does, whether or not its second-level table exists. -/
inductive MapStep (profile : Profile) (kernel : Kernel) (frames : Frames) (vpn1 vpn0 value : Nat) :
    Kernel → Frames → Prop where
  | known {block : PhysAddr} (known : frames.leaf vpn1 = some block) :
      MapStep profile kernel frames vpn1 vpn0 value (kernel.entered block vpn0 value) frames
  | fresh {block : PhysAddr} {memory : Memory} (unknown : frames.leaf vpn1 = none)
      (given : (Memory.buddyAlloc profile 4096).run kernel.memory = .ok (.ok block) memory) :
      MapStep profile kernel frames vpn1 vpn0 value
        ((kernel.installed frames vpn1 block memory).entered block vpn0 value)
        (frames.insert vpn1 block)

/-- A new table is two new blocks. -/
theorem run_new_ok {profile : Profile} {kernel after : Kernel} {table : PageTable}
    (ran : (PageTable.new profile).run kernel = .ok table after) :
    ∃ root second middle memory,
      (Memory.buddyAlloc profile 4096).run kernel.memory = .ok (.ok root) middle ∧
      (Memory.buddyAlloc profile 20480).run middle = .ok (.ok second) memory ∧
      table = ⟨⟨root.addr, 1024, root⟩, ⟨second.addr, 1024, second⟩⟩ ∧
      after = { kernel with
        memory, trace := .alloc 20480 second :: .alloc 4096 root :: kernel.trace } := by
  -- Each of the two arrays asks for one block.
  unfold PageTable.new at ran
  obtain ⟨rootPt, afterRoot, rootRan, ran⟩ := Exec.run_bind_ok.mp ran
  obtain ⟨secondPts, afterSecond, secondRan, ran⟩ := Exec.run_bind_ok.mp ran
  obtain ⟨root, middle, rootGiven, rfl, rfl⟩ := FixedVec.run_new_ok
    (by decide : 1024 * 4 < wordLimit) rootRan
  obtain ⟨second, memory, secondGiven, rfl, rfl⟩ := FixedVec.run_new_ok
    (by decide : 1024 * 20 < wordLimit) secondRan
  simp only [EStateM.run_pure, EStateM.Result.ok.injEq] at ran
  obtain ⟨rfl, rfl⟩ := ran
  exact ⟨root, second, middle, memory, rootGiven, secondGiven, rfl, rfl⟩

/-- An entry is set in whatever table the array of arrays owns at its index by then. -/
theorem Represents.run_enter {ram : Nat → Nat} {table : PageTable} {frames : Frames}
    (represents : Represents ram table frames) (placed : Placed frames.blocks) {vpn1 vpn0 : Nat}
    (small : vpn1 < 1024) (low : vpn0 < 1024) {ready : Kernel} {block : PhysAddr}
    (owns : Elem.read ready.ram (frames.second.addr + 20 * vpn1) = tableVec block)
    (profile : Profile) (value : Nat) :
    (do let secondPt ← table.secondPts.index vpn1
        secondPt.assign profile vpn0 value).run ready =
      .ok () (ready.entered block vpn0 value) := by
  have cap : table.secondPts.cap = 1024 := by rw [represents.second]
  rw [EStateM.run_bind, FixedVec.run_index (by omega), represents.second_slot placed small, owns]
  exact FixedVec.run_assign_word low profile value ready

/-- The array of arrays owns the table just installed, since the root lies in another block. -/
theorem Kernel.installed_owns {profile : Profile} {kernel : Kernel} {frames : Frames}
    (placed : Placed frames.blocks) {vpn1 : Nat} (small : vpn1 < 1024) {block : PhysAddr}
    {memory : Memory}
    (given : (Memory.buddyAlloc profile 4096).run kernel.memory = .ok (.ok block) memory) :
    Elem.read (kernel.installed frames vpn1 block memory).ram (frames.second.addr + 20 * vpn1) =
      tableVec block := by
  obtain ⟨size, sized⟩ := Memory.buddyAlloc_sized given
  have record : (tableVec block).physAddr.size = some size := sized
  refine Eq.trans (read_congr fun k word => ?_) (read_storeWords record _ kernel.ram)
  -- The entry is written to another block than the record.
  apply Function.update_of_ne
  apply Ne.symm
  rw [Nat.add_assoc]
  exact Placed.ne_of_disjoint (Frames.apart placed).1
    (placed.mem_bytes List.mem_cons_self (by simp only; omega)).1
    (placed.mem_bytes (List.mem_cons_of_mem _ List.mem_cons_self) (by simp only; omega)).1

/-- A page is mapped in the second-level table that its root entry points to. -/
theorem run_mapPage {profile : Profile} {kernel after : Kernel} {table : PageTable}
    {frames : Frames} {vaddr paddr flags : Nat} (represents : Represents kernel.ram table frames)
    (placed : Placed frames.blocks)
    (ran : (table.mapPage profile vaddr paddr flags).run kernel = .ok () after) :
    vaddr % pageSize = 0 ∧ paddr % pageSize = 0 ∧
      ∃ grown, MapStep profile kernel frames (Sv32.vpn1 vaddr) (Sv32.vpn0 vaddr)
        (pageEntry paddr flags) after grown := by
  unfold PageTable.mapPage at ran
  -- A call that returned has passed both checks.
  by_cases valigned : vaddr % pageSize ≠ 0
  · simp only [if_pos valigned, EStateM.run_bind, Exec.run_throw, reduceCtorEq] at ran
  by_cases paligned : paddr % pageSize ≠ 0
  · simp only [if_neg valigned, if_pos paligned, EStateM.run_bind, Exec.run_throw,
      reduceCtorEq] at ran
  refine ⟨not_not.mp valigned, not_not.mp paligned, ?_⟩
  simp only [if_neg valigned, if_neg paligned, Sv32.vpn1_eq, Sv32.vpn0_eq] at ran
  have small := Sv32.vpn1_lt vaddr
  have rootCap : table.rootPt.cap = 1024 := by rw [represents.root]
  have secondCap : table.secondPts.cap = 1024 := by rw [represents.second]
  have rootSlot := represents.root_slot placed small
  have secondSlot := represents.second_slot placed small
  obtain ⟨entry, _, read, ran⟩ := Exec.run_bind_ok.mp ran
  rw [FixedVec.run_index (by omega), rootSlot, EStateM.Result.ok.injEq] at read
  obtain ⟨rfl, rfl⟩ := read
  simp only [Elem.read] at ran
  cases leaf : frames.leaf (Sv32.vpn1 vaddr) with
  -- The root entry is valid, and its table is owned.
  | some block =>
    obtain ⟨points, owns⟩ := represents.present _ small block leaf
    have valid : ¬ kernel.ram (frames.root.addr + 4 * Sv32.vpn1 vaddr) &&& pageV = 0 := by
      rw [points]
      exact tableEntry_valid block
    rw [if_neg valid] at ran
    have entered := (represents.run_enter placed small (Sv32.vpn0_lt vaddr) owns profile _).symm.trans
      ran
    rw [EStateM.Result.ok.injEq] at entered
    obtain ⟨_, rfl⟩ := entered
    exact ⟨frames, .known leaf⟩
  -- A new table is made, stored in the array of arrays, and pointed to by the root.
  | none =>
    obtain ⟨invalid, unsized⟩ := represents.absent _ small leaf
    rw [if_pos invalid] at ran
    obtain ⟨secondPt, _, created, ran⟩ := Exec.run_bind_ok.mp ran
    obtain ⟨block, memory, given, rfl, rfl⟩ := FixedVec.run_new_ok
      (by decide : 1024 * 4 < wordLimit) created
    obtain ⟨_, _, owned, ran⟩ := Exec.run_bind_ok.mp ran
    rw [FixedVec.run_assign_vec (by omega) (by rw [secondSlot]) unsized, secondSlot,
      EStateM.Result.ok.injEq] at owned
    obtain ⟨_, rfl⟩ := owned
    obtain ⟨_, _, pointed, ran⟩ := Exec.run_bind_ok.mp ran
    rw [FixedVec.run_assign_word (by omega), rootSlot, EStateM.Result.ok.injEq] at pointed
    obtain ⟨_, rfl⟩ := pointed
    have owns := Kernel.installed_owns placed small given
    have entered := (represents.run_enter placed small (Sv32.vpn0_lt vaddr) owns profile _).symm.trans
      ran
    rw [EStateM.Result.ok.injEq] at entered
    obtain ⟨_, rfl⟩ := entered
    exact ⟨_, .fresh leaf given⟩

namespace MapStep

variable {profile : Profile} {kernel after : Kernel} {table : PageTable} {frames grown : Frames}
  {vpn1 vpn0 value : Nat}

/-- The blocks of the table are kept, and a new one is the block just handed out. -/
theorem blocks (step : MapStep profile kernel frames vpn1 vpn0 value after grown)
    (small : vpn1 < 1024) :
    (frames.leaf vpn1 ≠ none ∧ after.memory = kernel.memory ∧ grown = frames) ∨
    ∃ block, frames.leaf vpn1 = none ∧
      (Memory.buddyAlloc profile 4096).run kernel.memory = .ok (.ok block) after.memory ∧
      grown.blocks.Perm (⟨4096, block⟩ :: frames.blocks) := by
  cases step with
  | known known => exact .inl ⟨by simp [known], rfl, rfl⟩
  | fresh unknown given => exact .inr ⟨_, unknown, given, Frames.insert_perm small unknown⟩

/-- Only the words of a table's own blocks are written. -/
theorem writes (step : MapStep profile kernel frames vpn1 vpn0 value after grown)
    (small : vpn1 < 1024) (low : vpn0 < 1024) (placed : Placed grown.blocks) :
    (∀ a, (∀ used ∈ grown.blocks, a ∉ used.block.bytes) → after.ram a = kernel.ram a) ∧
    ∀ a, Event.store a ∈ after.trace → Event.store a ∈ kernel.trace ∨
      ∃ used ∈ grown.blocks, a ∈ used.block.bytes := by
  -- The word of a second-level table that is set belongs to that table's block.
  have leafWord : ∀ block, (⟨4096, block⟩ : LiveBlock) ∈ grown.blocks →
      pointerAdd block.addr (vpn0 * 4) ∈ block.bytes := by
    intro block member
    have word := placed.mem_bytes member (by simp only; omega : vpn0 * 4 < _)
    rw [pointerAdd_eq word.2]
    exact word.1
  cases step with
  -- Only the entry itself is written.
  | @known block known =>
    have member := Frames.leaf_mem small known
    have word := leafWord block member
    refine ⟨fun a outside => ?_, fun a stored => ?_⟩
    · refine Function.update_of_ne ?_ _ _
      rintro rfl
      exact outside _ member word
    · simp only [Kernel.entered, List.mem_cons, Event.store.injEq] at stored
      rcases stored with rfl | before
      · exact .inr ⟨_, member, word⟩
      · exact .inl before
  | @fresh block memory unknown given =>
    have member : (⟨4096, block⟩ : LiveBlock) ∈ (frames.insert vpn1 block).blocks :=
      Frames.leaf_mem small (Function.update_self ..)
    have word := leafWord block member
    have rootMember : (⟨4096, frames.root⟩ : LiveBlock) ∈ (frames.insert vpn1 block).blocks :=
      List.mem_cons_self
    have secondMember : (⟨20480, frames.second⟩ : LiveBlock) ∈ (frames.insert vpn1 block).blocks :=
      List.mem_cons_of_mem _ List.mem_cons_self
    -- A new table is entered in the root, and on record in the second array.
    have rootWord := (placed.mem_bytes rootMember (by simp only; omega : 4 * vpn1 < _)).1
    have secondWord : ∀ record ∈ Elem.words (tableVec block),
        frames.second.addr + 20 * vpn1 + record.1 ∈ frames.second.bytes := by
      intro record stored
      obtain ⟨k, field, offset⟩ := offset_of_mem_words stored
      rw [offset, Nat.add_assoc]
      exact (placed.mem_bytes secondMember (by simp only; omega : 20 * vpn1 + 4 * k < _)).1
    refine ⟨fun a outside => ?_, fun a stored => ?_⟩
    · have notLeaf : a ≠ pointerAdd block.addr (vpn0 * 4) := by
        rintro rfl
        exact outside _ member word
      have notRoot : a ≠ frames.root.addr + 4 * vpn1 := by
        rintro rfl
        exact outside _ rootMember rootWord
      simp only [Kernel.entered, Kernel.installed]
      rw [Function.update_of_ne notLeaf, Function.update_of_ne notRoot, storeWords_other]
      rintro record stored rfl
      exact outside _ secondMember (secondWord record stored)
    · -- The stores are the entry, the entry of the root, and the words of the record.
      simp only [Kernel.entered, Kernel.installed, List.cons_append, List.mem_cons,
        Event.store.injEq, List.mem_append, List.mem_reverse, List.mem_map, reduceCtorEq,
        false_or] at stored
      rcases stored with rfl | rfl | ⟨record, stored, rfl⟩ | before
      · exact .inr ⟨_, member, word⟩
      · exact .inr ⟨_, rootMember, rootWord⟩
      · exact .inr ⟨_, secondMember, secondWord record stored⟩
      · exact .inl before

end MapStep

end Os1k
