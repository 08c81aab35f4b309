import Os1k.Proc.Slots

/-! Runs in which processes are created and take turns, and what each finds when it is resumed. -/

namespace Os1k

open Riscv
open Memory (LiveBlock)

/-- How a process that does not run was left. -/
inductive Context where
  /-- It was created and has not run yet. -/
  | fresh (pc : Nat)
  /-- It called the context switch with these registers. -/
  | left (regs : Reg → Nat)

/-- The registers that a process goes on with, when its stack ends at `top`. -/
def Context.regs (top : Nat) : Context → Reg → Nat
  | .fresh pc => startRegs pc top
  | .left regs => regs

/-- A slot that creation set up: its page table then, and how its process was left since. -/
structure Slot where
  table : PageTable
  context : Context

/-- The process in a slot calls the context switch. -/
def leave (slots : List Slot) (i : Nat) (regs : Reg → Nat) : List Slot :=
  slots.modify i fun slot => { slot with context := .left regs }

/-- Apart from how one process was left, the slots are the same. -/
theorem leave_some {slots : List Slot} {curr i : Nat} {regs : Reg → Nat} {slot : Slot}
    (found : (leave slots curr regs)[i]? = some slot) :
    ∃ old, slots[i]? = some old ∧ slot.table = old.table ∧
      (i = curr ∧ slot.context = .left regs ∨ i ≠ curr ∧ slot.context = old.context) := by
  -- Only the slot of the process that leaves is modified.
  obtain ⟨old, was, ⟨here, rfl⟩ | ⟨other, rfl⟩⟩ := getElem?_modify_some found
  · exact ⟨old, was, rfl, .inl ⟨here, rfl⟩⟩
  · exact ⟨slot, was, rfl, .inr ⟨other, rfl⟩⟩

section Layout

variable [VecLayout] [layout : ProcLayout]

/-- The page table of a slot. -/
def ProcTable.pageTable (procs : ProcTable) (ram : Nat → Nat) (i : Nat) : PageTable :=
  (Elem.read ram (procs.table.slotAddr i) : Process).pageTable

/-- Where the stack of a process starts, which for slot 0 is the one that boot runs on. -/
def stackLow (image : Image) (procs : ProcTable) (i : Nat) : Nat :=
  if i = 0 then image.stackBottom else procs.field i .stack

/-- Where the stack of a process ends. -/
def stackHigh (image : Image) (procs : ProcTable) (i : Nat) : Nat :=
  if i = 0 then image.stackTop else procs.stackEnd i

namespace Machine

/-- The stack of the process that runs has room for the frame of a context switch. -/
def Room (image : Image) (machine : Machine) : Prop :=
  stackLow image machine.procs machine.procs.currProcIdx + 13 * 4 ≤ machine.regs .sp ∧
    machine.regs .sp ≤ stackHigh image machine.procs machine.procs.currProcIdx

/-- A slot that may be selected: the idle one, or one that can run. -/
def Eligible (machine : Machine) (next : Nat) : Prop :=
  next = 0 ∨ (next < machine.procs.table.cap ∧
    (machine.procs.sched machine.kernel.ram).states[next]? = some .runnable)

/--
The places that the process that runs may write: its own stack, and what lies outside of managed RAM
and of the stack that boot runs on.

It was handed no block, so the rest of managed RAM is not its own: the stacks and records of the
other processes, the page tables, and what is free.

The statics of the kernel are not kept in RAM. A process may write where they lie, and that is without
effect on them, so all that is said here is about processes that leave them alone.
-/
def Writes (image : Image) (machine : Machine) (a : Nat) : Prop :=
  (stackLow image machine.procs machine.procs.currProcIdx ≤ a ∧
    a < stackHigh image machine.procs machine.procs.currProcIdx) ∨
  ((a < image.freeRam ∨ image.freeRamEnd ≤ a) ∧ (a < image.stackBottom ∨ image.stackTop ≤ a))

end Machine

/--
The runs of the kernel, with the slots set up so far.

Boot clears managed RAM, allocates the process table and creates the idle process. From then on the
process that runs may work, create processes, and give up its turn to any slot that may be selected.
Which one that is, is up to a policy.
-/
inductive Run (profile : Profile) (image : Image) (policy : Machine → Nat → Prop) :
    Machine → List Slot → Prop where
  | boot {kernel made ready : Kernel} {procs : ProcTable} {regs : Reg → Nat} {csrs : Csr → Nat}
      {pc i : Nat}
      (arena : Memory.PowerArena profile image.freeRam image.freeRamEnd kernel.memory)
      (zero : ∀ a, image.freeRam ≤ a → a < image.freeRamEnd → kernel.ram a = 0)
      (table : (ProcTable.new profile).run kernel = .ok procs made)
      (idle : (procs.createProcess profile image 0).run made = .ok i ready) :
      Run profile image policy ⟨ready, procs, regs, csrs, pc⟩
        [⟨procs.pageTable ready.ram i, .fresh 0⟩]
  | work {machine : Machine} {slots : List Slot} {ram : Nat → Nat} {regs : Reg → Nat}
      {csrs : Csr → Nat} {pc : Nat} (before : Run profile image policy machine slots)
      (own : ∀ a, ram a ≠ machine.kernel.ram a → machine.Writes image a) :
      Run profile image policy
        { machine with kernel := { machine.kernel with ram }, regs := regs, csrs := csrs, pc := pc }
        slots
  | new {machine : Machine} {slots : List Slot} {kernel : Kernel} {pc i : Nat}
      (before : Run profile image policy machine slots)
      (ran : (machine.procs.createProcess profile image pc).run machine.kernel = .ok i kernel) :
      Run profile image policy { machine with kernel }
        (slots ++ [⟨machine.procs.pageTable kernel.ram i, .fresh pc⟩])
  | giveUp {machine after : Machine} {slots : List Slot} {next : Nat}
      (before : Run profile image policy machine slots) (room : machine.Room image)
      (eligible : machine.Eligible next) (chosen : policy machine next)
      (ran : (Machine.giveUpTo next).run machine = .ok () after) :
      Run profile image policy after (leave slots machine.procs.currProcIdx machine.regs)

/-- Memory holds what a process needs to go on, in its own stack. -/
structure Suspended (image : Image) (procs : ProcTable) (ram : Nat → Nat) (i : Nat)
    (context : Context) : Prop where
  sp : ram (procs.slot i + layout.offset .sp) + 13 * 4 = context.regs (procs.stackEnd i) .sp
  frame : switchFrame.At ram (ram (procs.slot i + layout.offset .sp))
    (context.regs (procs.stackEnd i))
  low : stackLow image procs i ≤ ram (procs.slot i + layout.offset .sp)
  high : ram (procs.slot i + layout.offset .sp) + 13 * 4 ≤ stackHigh image procs i
  started : i = 0 → ∃ regs, context = .left regs

/-- The slots that creation set up, in a table that holds one of the blocks in use. -/
structure Furnished (image : Image) (kernel : Kernel) (procs : ProcTable) (slots : List Slot)
    (depth : Nat) (live : List LiveBlock) : Prop where
  memory : Memory.Invariant kernel.memory depth live
  start : kernel.memory.start.addr = image.freeRam
  stop : kernel.memory.stop.addr = image.freeRamEnd
  seated : Seated procs live
  zero : FreeZero kernel live
  count : slots.length ≤ procMax
  blank : ∀ i, slots.length ≤ i → i < procMax → ∀ o < procSize, kernel.ram (procs.slot i + o) = 0
  prepared : ∀ i slot, slots[i]? = some slot → Prepared kernel.ram (procs.slot i) i slot.table

/-- What holds between the steps of a run: all processes but the one that runs are suspended. -/
structure Tracked (image : Image) (machine : Machine) (slots : List Slot) (depth : Nat)
    (live : List LiveBlock) : Prop
    extends Furnished image machine.kernel machine.procs slots depth live where
  current : machine.procs.currProcIdx < slots.length
  suspended : ∀ i slot, slots[i]? = some slot → i ≠ machine.procs.currProcIdx →
    Suspended image machine.procs machine.kernel.ram i slot.context

/-- The places that change while a process runs and when it gives up its turn. -/
def Touches (image : Image) (procs : ProcTable) (i a : Nat) : Prop :=
  (stackLow image procs i ≤ a ∧ a < stackHigh image procs i) ∨
    a = procs.slot i + layout.offset .sp ∨
    ((a < image.freeRam ∨ image.freeRamEnd ≤ a) ∧ (a < image.stackBottom ∨ image.stackTop ≤ a))

namespace ProcTable

variable {procs : ProcTable} {live : List LiveBlock}

/-- Where a part of a slot lies. -/
theorem field_slot (seated : Seated procs live) (placed : Placed live) {i : Nat}
    (inside : i < procMax) (part : ProcField) :
    procs.field i part = procs.slot i + layout.offset part := by
  rw [field, slotAddr_slot seated placed inside]

/-- Where the stack of a slot ends. -/
theorem stackEnd_slot (seated : Seated procs live) (placed : Placed live) {i : Nat}
    (inside : i < procMax) :
    procs.stackEnd i = procs.slot i + layout.offset .stack + 2048 := by
  rw [stackEnd, field_slot seated placed inside]
  rfl

end ProcTable

namespace Furnished

variable {image : Image} {kernel : Kernel} {procs : ProcTable} {slots : List Slot} {depth : Nat}
  {live : List LiveBlock}

/-- Slots lie in managed RAM. -/
theorem slot_managed (furnished : Furnished image kernel procs slots depth live) {i o : Nat}
    (inside : i < procMax) (small : o < procSize) :
    image.freeRam ≤ procs.slot i + o ∧ procs.slot i + o < image.freeRamEnd := by
  -- The table is a block that the allocator handed out, and that lies in its arena.
  have found := (ProcTable.slot_mem furnished.seated furnished.memory.placed inside small).1
  obtain ⟨size, sized, _, low, high⟩ := furnished.memory.room furnished.seated.block
  simp only at sized low high
  simp only [PhysAddr.bytes, sized, Option.getD_some, Set.mem_Ico] at found
  rw [furnished.start] at low
  rw [furnished.stop] at high
  omega

/-- The stack of a process other than the idle one is a part of its slot. -/
theorem stack_slot (furnished : Furnished image kernel procs slots depth live) {i : Nat}
    (inside : i < procMax) (busy : i ≠ 0) :
    stackLow image procs i = procs.slot i + layout.offset .stack ∧
    stackHigh image procs i = procs.slot i + layout.offset .stack + 2048 := by
  -- Only the idle process keeps the stack of boot.
  rw [stackLow, stackHigh, if_neg busy, if_neg busy,
    ProcTable.field_slot furnished.seated furnished.memory.placed inside,
    ProcTable.stackEnd_slot furnished.seated furnished.memory.placed inside]
  exact ⟨rfl, rfl⟩

/-- A place that changes is in the stack or the record of the process that runs, or not managed. -/
theorem touches_cases (furnished : Furnished image kernel procs slots depth live) {i a : Nat}
    (inside : i < procMax) (touched : Touches image procs i a) :
    (i = 0 ∧ image.stackBottom ≤ a ∧ a < image.stackTop) ∨
    (i ≠ 0 ∧ ∃ o < 2048, a = procs.slot i + layout.offset .stack + o) ∨
    a = procs.slot i + layout.offset .sp ∨
    ((a < image.freeRam ∨ image.freeRamEnd ≤ a) ∧
      (a < image.stackBottom ∨ image.stackTop ≤ a)) := by
  -- The idle process runs on the stack of boot, the others on that of their slot.
  rcases touched with stack | rest
  · by_cases idle : i = 0
    · rw [stackLow, stackHigh, if_pos idle, if_pos idle] at stack
      exact .inl ⟨idle, stack⟩
    · obtain ⟨low, high⟩ := furnished.stack_slot inside idle
      rw [low, high] at stack
      refine .inr (.inl ⟨idle, a - (procs.slot i + layout.offset .stack), ?_, ?_⟩)
      · omega
      · omega
  · exact .inr (.inr rest)

/-- Seen from outside, a process touches its own slot, the stack of boot, and what is not managed. -/
theorem touches_slot (furnished : Furnished image kernel procs slots depth live) {i a : Nat}
    (inside : i < procMax) (touched : Touches image procs i a) :
    (i = 0 ∧ image.stackBottom ≤ a ∧ a < image.stackTop) ∨
    (∃ o < procSize, a = procs.slot i + o) ∨
    ((a < image.freeRam ∨ image.freeRamEnd ≤ a) ∧
      (a < image.stackBottom ∨ image.stackTop ≤ a)) := by
  -- The stack and the stack pointer are both parts of the slot.
  have stack := layout.inside .stack
  have sp := layout.inside .sp
  have width : ProcField.stack.width = 2048 := rfl
  simp only [ProcField.width] at sp
  rcases furnished.touches_cases inside touched with boot | ⟨_, o, small, same⟩ | same | outside
  · exact .inl boot
  · rw [Nat.add_assoc] at same
    exact .inr (.inl ⟨layout.offset .stack + o, by omega, same⟩)
  · exact .inr (.inl ⟨layout.offset .sp, by omega, same⟩)
  · exact .inr (.inr outside)

/-- No byte of another slot is touched. -/
theorem untouched_slot (furnished : Furnished image kernel procs slots depth live) {i j o : Nat}
    (inside : i < procMax) (also : j < procMax) (different : j ≠ i) (small : o < procSize) :
    ¬ Touches image procs i (procs.slot j + o) := by
  -- Slots are in managed RAM, above the stack of boot, and apart from each other.
  intro touched
  have managed := furnished.slot_managed also small
  have below := image.stackBelow
  rcases furnished.touches_slot inside touched with ⟨_, boot⟩ | ⟨p, low, same⟩ | outside
  · omega
  · exact ProcTable.slot_ne different small low same
  · omega

/-- Of the record of the process that runs, only the stack and the stack pointer are touched. -/
theorem untouched_part (furnished : Furnished image kernel procs slots depth live) {i o : Nat}
    (inside : i < procMax) {part : ProcField} (notStack : part ≠ .stack) (notSp : part ≠ .sp)
    (small : o < part.width) :
    ¬ Touches image procs i (procs.slot i + layout.offset part + o) := by
  -- The parts of a slot are apart, and all of them are in managed RAM.
  intro touched
  have fits := layout.inside part
  have managed := furnished.slot_managed inside (by omega : layout.offset part + o < procSize)
  rw [← Nat.add_assoc] at managed
  have below := image.stackBelow
  have width : ProcField.stack.width = 2048 := rfl
  rcases furnished.touches_cases inside touched with ⟨_, boot⟩ | ⟨_, p, low, same⟩ | same | outside
  · omega
  · exact ProcLayout.ne notStack small (by rw [width]; exact low) same
  · exact ProcLayout.ne notSp small (by decide : 0 < ProcField.sp.width) same
  · omega

/-- Managed RAM that is not in use is not touched. -/
theorem untouched_free (furnished : Furnished image kernel procs slots depth live) {i a : Nat}
    (inside : i < procMax) (low : image.freeRam ≤ a) (high : a < image.freeRamEnd)
    (unused : ∀ used ∈ live, a ∉ used.block.bytes) : ¬ Touches image procs i a := by
  intro touched
  have below := image.stackBelow
  rcases furnished.touches_slot inside touched with ⟨_, boot⟩ | ⟨o, small, rfl⟩ | unmanaged
  · omega
  · -- The slots are a block in use.
    exact unused _ furnished.seated.block
      (ProcTable.slot_mem furnished.seated furnished.memory.placed inside small).1
  · omega

/-- The stacks of other processes are not touched. -/
theorem untouched_stack (furnished : Furnished image kernel procs slots depth live) {i j a : Nat}
    (inside : i < procMax) (also : j < procMax) (different : j ≠ i)
    (low : stackLow image procs j ≤ a) (high : a < stackHigh image procs j) :
    ¬ Touches image procs i a := by
  by_cases idle : j = 0
  · -- The stack that boot runs on lies below managed RAM.
    rw [stackLow, if_pos idle] at low
    rw [stackHigh, if_pos idle] at high
    intro touched
    have below := image.stackBelow
    rcases furnished.touches_slot inside touched with ⟨zero, _⟩ | ⟨o, small, rfl⟩ | outside
    · omega
    · have managed := furnished.slot_managed inside small
      omega
    · omega
  · obtain ⟨first, last⟩ := furnished.stack_slot also idle
    have stack := layout.inside .stack
    have width : ProcField.stack.width = 2048 := rfl
    have same : a = procs.slot j + (a - procs.slot j) := by omega
    rw [same]
    exact furnished.untouched_slot inside also different (by omega)

/-- A slot is taken exactly when creation set it up. -/
theorem taken_iff (furnished : Furnished image kernel procs slots depth live) {i : Nat}
    (inside : i < procMax) :
    (procs.sched kernel.ram).states[i]? = some .runnable ↔ i < slots.length := by
  -- The scheduler reads the word of the state.
  have read : (procs.sched kernel.ram).states[i]? =
      some (.ofWord (kernel.ram (procs.slot i + layout.offset .state))) := by
    rw [ProcTable.sched_state _ (by rw [furnished.seated.cap]; exact inside),
      ProcTable.slotAddr_slot furnished.seated furnished.memory.placed inside]
    rfl
  rw [read]
  -- Creation writes that word, and until then it is zero.
  by_cases known : i < slots.length
  · have state := (furnished.prepared i slots[i] (List.getElem?_eq_getElem known)).state
    simp [state, known, ProcState.word, ProcState.ofWord]
  · have fits := layout.inside .state
    simp only [ProcField.width] at fits
    have state := furnished.blank i (Nat.not_lt.mp known) inside (layout.offset .state) (by omega)
    simp [state, known, ProcState.ofWord]

/-- The page table of a slot set up is the one it was given. -/
theorem pageTable_eq (furnished : Furnished image kernel procs slots depth live) {i : Nat}
    {slot : Slot} (known : slots[i]? = some slot) : procs.pageTable kernel.ram i = slot.table := by
  have inside := Nat.lt_of_lt_of_le (List.getElem?_eq_some_iff.mp known).1 furnished.count
  have prepared := furnished.prepared i slot known
  rw [ProcTable.pageTable, ProcTable.slotAddr_slot furnished.seated furnished.memory.placed inside]
  -- The record is read from the two words it was written to.
  show PageTable.mk _ _ = slot.table
  rw [prepared.root, prepared.second]

end Furnished

/-- A process whose stack and stack pointer are not changed stays as it was left. -/
theorem Suspended.congr {image : Image} {procs : ProcTable} {ram other : Nat → Nat} {i : Nat}
    {context : Context} (suspended : Suspended image procs ram i context)
    (pointer : other (procs.slot i + layout.offset .sp) = ram (procs.slot i + layout.offset .sp))
    (stack : ∀ a, stackLow image procs i ≤ a → a < stackHigh image procs i → other a = ram a) :
    Suspended image procs other i context := by
  have low := suspended.low
  have high := suspended.high
  refine ⟨?_, ?_, ?_, ?_, suspended.started⟩
  · rw [pointer, suspended.sp]
  · -- The frame that the switch left is a part of the stack.
    rw [pointer]
    refine suspended.frame.congr fun slot member => ?_
    have place := switchFrame_place member
    exact stack _ (by omega) (by omega)
  · rw [pointer]
    exact low
  · rw [pointer]
    exact high

namespace Tracked

variable {image : Image} {machine : Machine} {slots : List Slot} {depth : Nat}
  {live : List LiveBlock}

/-- The slots in use are slots of the table. -/
theorem slot_lt (tracked : Tracked image machine slots depth live) {i : Nat} {slot : Slot}
    (known : slots[i]? = some slot) : i < procMax :=
  Nat.lt_of_lt_of_le (List.getElem?_eq_some_iff.mp known).1 tracked.count

/-- Changes in the places of the process that runs are its own affair. -/
theorem change (tracked : Tracked image machine slots depth live) {ram : Nat → Nat}
    (own : ∀ a, ram a ≠ machine.kernel.ram a →
      Touches image machine.procs machine.procs.currProcIdx a)
    (regs : Reg → Nat) (csrs : Csr → Nat) (pc : Nat) :
    Tracked image
      { machine with kernel := { machine.kernel with ram }, regs := regs, csrs := csrs, pc := pc }
      slots depth live := by
  have inside : machine.procs.currProcIdx < procMax :=
    Nat.lt_of_lt_of_le tracked.current tracked.count
  -- What the process that runs does not touch is as it was.
  have kept : ∀ a, ¬ Touches image machine.procs machine.procs.currProcIdx a →
      ram a = machine.kernel.ram a := by
    intro a untouched
    by_contra changed
    exact untouched (own a changed)
  have sp := layout.inside .sp
  simp only [ProcField.width] at sp
  refine ⟨⟨tracked.memory, tracked.start, tracked.stop, tracked.seated, ?_, tracked.count, ?_, ?_⟩,
    tracked.current, ?_⟩
  · -- Free RAM stays zero.
    intro a low high unused
    have managed : machine.kernel.memory.start.addr ≤ a := low
    have bounded : a < machine.kernel.memory.stop.addr := high
    rw [tracked.start] at managed
    rw [tracked.stop] at bounded
    exact (kept a (tracked.untouched_free inside managed bounded unused)).trans
      (tracked.zero a low high unused)
  · -- The process that runs has a slot, so a slot without a process is another.
    intro i free also o small
    have other : i ≠ machine.procs.currProcIdx := by
      have current := tracked.current
      omega
    exact (kept _ (tracked.untouched_slot inside also other small)).trans
      (tracked.blank i free also o small)
  · -- Of its own slot, it touches the stack and the stack pointer alone.
    intro i slot known
    refine (tracked.prepared i slot known).congr fun part notStack notSp o small => kept _ ?_
    by_cases here : i = machine.procs.currProcIdx
    · subst here
      exact tracked.untouched_part inside notStack notSp small
    · have fits := layout.inside part
      rw [Nat.add_assoc]
      exact tracked.untouched_slot inside (tracked.slot_lt known) here (by omega)
  · -- Those that wait keep their stacks.
    intro i slot known other
    have also := tracked.slot_lt known
    refine (tracked.suspended i slot known other).congr (kept _ ?_) fun a low high => kept a ?_
    · exact tracked.untouched_slot inside also other (by omega)
    · exact tracked.untouched_stack inside also other low high

/-- Once the process that runs is suspended, any process that was set up can be the next to run. -/
theorem turn (tracked : Tracked image machine slots depth live) {regs : Reg → Nat} {next : Nat}
    (suspended : Suspended image machine.procs machine.kernel.ram machine.procs.currProcIdx
      (.left regs)) (known : next < slots.length) :
    (∀ i slot, (leave slots machine.procs.currProcIdx regs)[i]? = some slot →
      Suspended image machine.procs machine.kernel.ram i slot.context) ∧
    Tracked image { machine with procs := { machine.procs with currProcIdx := next } }
      (leave slots machine.procs.currProcIdx regs) depth live := by
  have length : (leave slots machine.procs.currProcIdx regs).length = slots.length := by
    simp [leave]
  -- With the process that ran, all processes are now suspended.
  have all : ∀ i slot, (leave slots machine.procs.currProcIdx regs)[i]? = some slot →
      Suspended image machine.procs machine.kernel.ram i slot.context := by
    intro i slot found
    obtain ⟨old, was, _, ⟨here, left⟩ | ⟨other, kept⟩⟩ := leave_some found
    · rw [left, here]
      exact suspended
    · rw [kept]
      exact tracked.suspended i old was other
  refine ⟨all, ⟨tracked.memory, tracked.start, tracked.stop,
    ⟨tracked.seated.block, tracked.seated.ptr, tracked.seated.cap⟩, tracked.zero, ?_, ?_, ?_⟩,
    ?_, ?_⟩
  · rw [length]
    exact tracked.count
  · rw [length]
    exact tracked.blank
  · -- The page tables are those that the slots were given.
    intro i slot found
    obtain ⟨old, was, table, _⟩ := leave_some found
    rw [table]
    exact tracked.prepared i old was
  · rw [length]
    exact known
  · intro i slot found _
    have held := all i slot found
    exact ⟨held.sp, held.frame, held.low, held.high, held.started⟩

end Tracked

namespace Machine

omit [VecLayout] layout in
/-- Kernel code that leaves memory as it is leaves the machine as it is. -/
theorem run_lift {α : Type} {part : Exec Fault Kernel α} {machine : Machine} {value : α}
    (ran : part.run machine.kernel = .ok value machine.kernel) :
    (lift part).run machine = .ok value machine :=
  Exec.run_zoom_ok.mpr ⟨machine.kernel, ran, rfl⟩

/-- The machine that is handed to a slot, just before the context switch. -/
def handed (machine : Machine) (next : Nat) : Machine :=
  { machine with
    csrs := Function.update
      (Function.update machine.csrs .satp (machine.procs.pageTable machine.kernel.ram next).satp)
      .sscratch (machine.procs.stackEnd next)
    procs := { machine.procs with currProcIdx := next } }

/-- The hart that enters the context switch. -/
def entering (machine : Machine) (next : Nat) : Hart :=
  ((machine.handed next).hart.set .a0 (machine.procs.field machine.procs.currProcIdx .sp)).set .a1
    (machine.procs.field next .sp)

/-- Giving up the turn ends in a context switch. -/
theorem run_giveUpTo {machine : Machine} {next : Nat}
    (current : machine.procs.currProcIdx < machine.procs.table.cap)
    (inside : next < machine.procs.table.cap) :
    (giveUpTo next).run machine =
      .ok () ((machine.handed next).withHart ((machine.entering next).line switchLine)) := by
  have first := run_lift (FixedVec.run_index current machine.kernel)
  have second := run_lift (FixedVec.run_index inside machine.kernel)
  -- Both slots are looked up first, which leaves memory alone.
  unfold giveUpTo
  rw [EStateM.run_bind, EStateM.run_get]
  simp only
  rw [EStateM.run_bind, first]
  simp only
  rw [EStateM.run_bind, second]
  rfl

end Machine

namespace Tracked

variable {image : Image} {machine : Machine} {slots : List Slot} {depth : Nat}
  {live : List LiveBlock}

/-- Stacks end inside the address space. -/
theorem stackHigh_lt (tracked : Tracked image machine slots depth live) {i : Nat}
    (inside : i < procMax) : stackHigh image machine.procs i < wordLimit := by
  have fits := tracked.memory.shape.fits
  have size : procSize = 2100 := rfl
  have stack := layout.inside .stack
  have width : ProcField.stack.width = 2048 := rfl
  have managed := tracked.slot_managed inside (by omega : procSize - 1 < procSize)
  rw [tracked.stop] at fits
  -- The stack of boot is below managed RAM, and the others are in it.
  by_cases idle : i = 0
  · have below := image.stackBelow
    have ordered : image.freeRam ≤ image.freeRamEnd := by omega
    rw [stackHigh, if_pos idle]
    omega
  · rw [(tracked.stack_slot inside idle).2]
    omega

/-- A word of a slot has an address. -/
theorem field_lt (tracked : Tracked image machine slots depth live) {i : Nat}
    (inside : i < procMax) (part : ProcField) : machine.procs.field i part < wordLimit := by
  have fits := layout.inside part
  -- Every field has a byte, and it lies in the block of the table.
  have some : 0 < part.width := by cases part <;> decide
  rw [ProcTable.field_slot tracked.seated tracked.memory.placed inside]
  exact (ProcTable.slot_mem tracked.seated tracked.memory.placed inside (by omega)).2

/-- The stack pointer's own place in the record is not in the stack. -/
theorem field_sp_outside (tracked : Tracked image machine slots depth live) {i : Nat}
    (inside : i < procMax) :
    machine.procs.field i .sp < stackLow image machine.procs i ∨
      stackHigh image machine.procs i ≤ machine.procs.field i .sp := by
  have sp := layout.inside .sp
  simp only [ProcField.width] at sp
  rw [ProcTable.field_slot tracked.seated tracked.memory.placed inside]
  -- In a slot, the stack and the stack pointer are different parts.
  by_cases idle : i = 0
  · have managed := tracked.slot_managed inside (by omega : layout.offset .sp < procSize)
    have below := image.stackBelow
    rw [stackHigh, if_pos idle]
    omega
  · obtain ⟨low, high⟩ := tracked.stack_slot inside idle
    have apart := layout.disjoint .sp .stack (by decide)
    have width : ProcField.stack.width = 2048 := rfl
    simp only [ProcField.width] at apart
    rw [low, high]
    rw [ProcField.width] at width
    omega

/-- A slot that may be selected is one that creation set up. -/
theorem known (tracked : Tracked image machine slots depth live) {next : Nat}
    (eligible : machine.Eligible next) : next < slots.length := by
  have current := tracked.current
  -- The idle slot is always set up, and no other is runnable before it is.
  rcases eligible with idle | ⟨inside, state⟩
  · omega
  · rw [tracked.seated.cap] at inside
    exact (tracked.taken_iff inside).mp state

/-- Giving up the turn suspends the process that runs and resumes the one in the slot selected. -/
theorem giveUp (tracked : Tracked image machine slots depth live) (room : machine.Room image)
    {next : Nat} (known : next < slots.length) :
    ∃ after, (Machine.giveUpTo next).run machine = .ok () after ∧
      Tracked image after (leave slots machine.procs.currProcIdx machine.regs) depth live ∧
      after.procs = { machine.procs with currProcIdx := next } ∧
      after.csrs .satp = (machine.procs.pageTable machine.kernel.ram next).satp ∧
      after.csrs .sscratch = machine.procs.stackEnd next ∧
      ∀ slot, (leave slots machine.procs.currProcIdx machine.regs)[next]? = some slot →
        (next = 0 → ∃ regs, slot.context = .left regs) ∧
        Resumed after.hart (slot.context.regs (machine.procs.stackEnd next))
          (slot.context.regs (machine.procs.stackEnd next) .sp) := by
  have inside : machine.procs.currProcIdx < procMax :=
    Nat.lt_of_lt_of_le tracked.current tracked.count
  have also : next < procMax := Nat.lt_of_lt_of_le known tracked.count
  obtain ⟨bottom, top⟩ := room
  have high := tracked.stackHigh_lt inside
  have outside := tracked.field_sp_outside inside
  -- The registers with which the context switch is entered.
  have sp : (machine.entering next).regs .sp = machine.regs .sp := rfl
  have prev : (machine.entering next).regs .a0 =
      machine.procs.field machine.procs.currProcIdx .sp := rfl
  have arg : (machine.entering next).regs .a1 = machine.procs.field next .sp := rfl
  have saved : ∀ slot ∈ switchFrame,
      (machine.entering next).regs slot.1 = machine.regs slot.1 := by
    intro slot member
    obtain ⟨notFirst, notSecond⟩ := switchFrame_ne_arg slot member
    simp [Machine.entering, Machine.handed, Machine.hart, Hart.set, notFirst, notSecond]
  have limit : Riscv.wordLimit = wordLimit := rfl
  -- The switch saves on the stack that it is entered with, and loads from the other.
  obtain ⟨csrs, framed, left, unchanged, resumes⟩ := line_switch (machine.entering next)
    (by rw [sp]; omega) (by rw [sp, limit]; omega)
    (by rw [prev, limit]; exact tracked.field_lt inside .sp)
    (by rw [arg, limit]; exact tracked.field_lt also .sp)
    (by rw [prev, sp]; omega)
  rw [prev, sp] at left unchanged
  rw [sp] at framed
  rw [arg] at resumes
  have cap := tracked.seated.cap
  -- Both indices are inside the table, so no check of the source fails.
  have runs : machine.procs.currProcIdx < machine.procs.table.cap := by omega
  have ran := Machine.run_giveUpTo runs (by omega : next < machine.procs.table.cap)
  generalize (machine.entering next).line switchLine = final at *
  -- What changed is the frame and the stack pointer that was left.
  have own : ∀ a, final.mem a ≠ machine.kernel.ram a →
      Touches image machine.procs machine.procs.currProcIdx a := by
    intro a changed
    by_cases here : a = machine.procs.field machine.procs.currProcIdx .sp
    · rw [ProcTable.field_slot tracked.seated tracked.memory.placed inside] at here
      exact .inr (.inl here)
    · refine .inl ?_
      by_contra elsewhere
      exact changed (unchanged a here (by omega))
  have changed := tracked.change own final.regs final.csrs final.pc
  rw [ProcTable.field_slot tracked.seated tracked.memory.placed inside] at left
  -- The process that gives up its turn is left with the registers it had.
  have suspended : Suspended image machine.procs final.mem machine.procs.currProcIdx
      (.left machine.regs) := by
    refine ⟨?_, ?_, ?_, ?_, fun _ => ⟨_, rfl⟩⟩
    · rw [left]
      simp only [Context.regs]
      omega
    · rw [left]
      exact fun slot member => (framed slot member).trans (saved slot member)
    · rw [left]
      omega
    · rw [left]
      omega
  obtain ⟨all, turned⟩ := changed.turn suspended known
  refine ⟨_, ran, turned, rfl, ?_, ?_, ?_⟩
  · -- The page table and the stack are set before the switch, which keeps them.
    rw [show ((machine.handed next).withHart final).csrs = final.csrs from rfl, csrs]
    rfl
  · rw [show ((machine.handed next).withHart final).csrs = final.csrs from rfl, csrs]
    rfl
  · -- Whatever slot is selected, its process was suspended, and goes on as it was left.
    intro slot found
    have held := all next slot found
    have bound := tracked.stackHigh_lt also
    have stored : final.mem (machine.procs.field next .sp) =
        final.mem (machine.procs.slot next + layout.offset .sp) := by
      rw [ProcTable.field_slot tracked.seated tracked.memory.placed also]
    have pointer := held.sp
    have upper : final.mem (machine.procs.slot next + layout.offset .sp) + 13 * 4 ≤
        stackHigh image machine.procs next := held.high
    have fits : final.mem (machine.procs.slot next + layout.offset .sp) + 13 * 4 <
        Riscv.wordLimit := by
      rw [limit]
      omega
    rw [← pointer]
    exact ⟨held.started, resumes _ _ stored fits held.frame⟩

end Tracked

namespace Furnished

variable {image : Image} {kernel after : Kernel} {procs : ProcTable} {slots : List Slot}
  {depth : Nat} {live : List LiveBlock}

/-- The slot that is found is the one after those set up. -/
theorem nextUnused_eq (furnished : Furnished image kernel procs slots depth live) {i : Nat}
    (found : (procs.sched kernel.ram).nextUnused = some i) : i = slots.length := by
  obtain ⟨inside, state⟩ := ProcTable.nextUnused_state found
  have listed := ProcTable.sched_state kernel.ram inside
  rw [furnished.seated.cap] at inside
  have free : ¬ i < slots.length := by
    rw [← furnished.taken_iff inside, listed, state]
    simp
  -- An earlier slot that is not taken would have been found first.
  have first := (List.find?_range_eq_some.mp found).2.2
  by_contra different
  have earlier := first slots.length (by omega)
  have bounded : slots.length < procMax := by omega
  have untaken : ¬ (procs.sched kernel.ram).states[slots.length]? = some .runnable := by
    rw [furnished.taken_iff bounded]
    omega
  have known := ProcTable.sched_state kernel.ram
    (by rw [furnished.seated.cap]; exact bounded : slots.length < procs.table.cap)
  rw [known] at earlier untaken
  cases state : (Elem.read kernel.ram (procs.table.slotAddr slots.length) : Process).state with
  | unused => simp [state] at earlier
  | runnable => exact untaken (by rw [state])

/-- What memory is read for a slot when nothing but another slot and new blocks changed. -/
theorem create_kept {taken : List LiveBlock} {i : Nat}
    (furnished : Furnished image kernel procs slots depth live) (inside : i < procMax)
    (invariant : Memory.Invariant after.memory depth (taken ++ live))
    (start : after.memory.start = kernel.memory.start)
    (kept : ∀ a, (∀ o < procSize, a ≠ procs.slot i + o) →
      (∀ used ∈ taken, a ∉ used.block.bytes) → after.ram a = kernel.ram a) :
    (∀ j < procMax, j ≠ i → ∀ o < procSize,
      after.ram (procs.slot j + o) = kernel.ram (procs.slot j + o)) ∧
    ∀ a < image.freeRam, after.ram a = kernel.ram a := by
  constructor
  · -- Slots are apart, and new blocks are apart from the table.
    intro j also different o small
    refine kept _ (fun p low => ProcTable.slot_ne different small low) fun used member here => ?_
    exact ProcTable.slot_apart furnished.seated invariant.placed also member here o small rfl
  · -- Both the slot and the blocks are in managed RAM.
    intro a below
    refine kept a (fun o small => ?_) fun used member here => ?_
    · have managed := furnished.slot_managed inside small
      omega
    · obtain ⟨size, sized, _, low, _⟩ := invariant.room (List.mem_append_left live member)
      simp only [PhysAddr.bytes, sized, Option.getD_some, Set.mem_Ico] at here
      rw [start, furnished.start] at low
      omega

/-- A slot whose state reads as zero was not set up, and is all zero. -/
theorem blank_of_state (furnished : Furnished image kernel procs slots depth live) {i : Nat}
    (inside : i < procMax) (zero : kernel.ram (procs.slot i + layout.offset .state) = 0) :
    ∀ o < procSize, kernel.ram (procs.slot i + o) = 0 := by
  refine furnished.blank i ?_ inside
  -- A slot that was ever filled has not the state of an unused one.
  by_contra known
  have state := (furnished.prepared i slots[i]
    (List.getElem?_eq_getElem (Nat.not_le.mp known))).state
  rw [zero] at state
  exact absurd state (by decide)

/-- The frame that creation writes is at the top of the new stack, ready to be switched to. -/
theorem suspended_fresh (furnished : Furnished image kernel procs slots depth live) {pc i : Nat}
    {ram : Nat → Nat} (inside : i < procMax) (busy : i ≠ 0)
    (sp : ram (procs.slot i + layout.offset .sp) = frameAddr (procs.slot i))
    (frame : switchFrame.At ram (frameAddr (procs.slot i)) (startRegs pc (procs.stackEnd i))) :
    Suspended image procs ram i (.fresh pc) := by
  have stackFits := layout.inside .stack
  have width : ProcField.stack.width = 2048 := rfl
  have top := ProcTable.stackEnd_slot furnished.seated furnished.memory.placed inside
  obtain ⟨low, high⟩ := furnished.stack_slot inside busy
  have addr := frameAddr_eq (procs.slot i)
  -- A new stack holds nothing but the frame that `create_process` wrote at its end.
  refine ⟨?_, ?_, ?_, ?_, fun idle => absurd idle busy⟩
  · rw [sp, addr, Context.regs, startRegs, top]
  · rw [sp]
    exact frame
  · rw [sp, addr, low]
    omega
  · rw [sp, addr, high]

/-- A process stays suspended if neither its slot nor what lies below managed RAM changes. -/
theorem suspended_kept (furnished : Furnished image kernel procs slots depth live) {i : Nat}
    {ram : Nat → Nat} {context : Context} (inside : i < procMax)
    (same : ∀ o < procSize, ram (procs.slot i + o) = kernel.ram (procs.slot i + o))
    (boot : ∀ a < image.freeRam, ram a = kernel.ram a)
    (held : Suspended image procs kernel.ram i context) :
    Suspended image procs ram i context := by
  have spFits := layout.inside .sp
  have stackFits := layout.inside .stack
  have width : ProcField.stack.width = 2048 := rfl
  simp only [ProcField.width] at spFits
  refine held.congr (same _ (by omega)) fun a low high => ?_
  -- The stack of the first process is the one of boot, and the others are in their slots.
  by_cases idle : i = 0
  · rw [stackHigh, if_pos idle] at high
    have below := image.stackBelow
    exact boot a (by omega)
  · obtain ⟨first, last⟩ := furnished.stack_slot inside idle
    have place : a = procs.slot i + (a - procs.slot i) := by omega
    rw [place]
    exact same _ (by omega)

/-- Creating a process sets up the next slot and leaves the others as they are. -/
theorem create {profile : Profile} {pc i : Nat}
    (furnished : Furnished image kernel procs slots depth live)
    (ran : (procs.createProcess profile image pc).run kernel = .ok i after) :
    i = slots.length ∧ ∃ taken,
      Furnished image after procs (slots ++ [⟨procs.pageTable after.ram i, .fresh pc⟩]) depth
        (taken ++ live) ∧
      (i ≠ 0 → Suspended image procs after.ram i (.fresh pc)) ∧
      ∀ j < slots.length, ∀ context, Suspended image procs kernel.ram j context →
        Suspended image procs after.ram j context := by
  have placed := furnished.memory.placed
  obtain ⟨found, inside, taken, table, invariant, start, prepared, sp, frame, kept⟩ :=
    ProcTable.run_createProcess furnished.memory furnished.seated furnished.zero
      (fun i inside => furnished.blank_of_state inside) ran
  have next := furnished.nextUnused_eq found
  obtain ⟨others, boot⟩ := furnished.create_kept inside invariant start kept
  -- The table that is read back is the one that was made.
  have readback : procs.pageTable after.ram i = table := by
    rw [ProcTable.pageTable, ProcTable.slotAddr_slot furnished.seated placed inside]
    show PageTable.mk _ _ = table
    rw [prepared.root, prepared.second]
  -- All that is known of the slots before holds of them still, and of the new one as well.
  refine ⟨next, taken, ⟨invariant, ?_, ?_, ?_, ?_, ?_, ?_, ?_⟩, ?_, ?_⟩
  · rw [start, furnished.start]
  · rw [invariant.shape.stop, start, ← furnished.memory.shape.stop, furnished.stop]
  · exact ⟨List.mem_append_right _ furnished.seated.block, furnished.seated.ptr,
      furnished.seated.cap⟩
  · -- RAM that is free now was free before, and not a part of the slot.
    intro a low high unused
    rw [kept a (fun o small same => ?_) fun used member =>
      unused used (List.mem_append_left _ member)]
    · rw [start] at low
      rw [invariant.shape.stop, start, ← furnished.memory.shape.stop] at high
      exact furnished.zero a low high fun used member =>
        unused used (List.mem_append_right _ member)
    · rw [same] at unused
      exact unused _ (List.mem_append_right _ furnished.seated.block)
        (ProcTable.slot_mem furnished.seated placed inside small).1
  · rw [List.length_append, List.length_singleton]
    omega
  · -- Later slots are as boot left them.
    intro j free also o small
    rw [List.length_append, List.length_singleton] at free
    rw [others j also (by omega) o small]
    exact furnished.blank j (by omega) also o small
  · -- The new slot is set up by now, and the old ones are not touched.
    intro j slot known
    by_cases new : j = i
    · rw [new, next, List.getElem?_concat_length, Option.some.injEq] at known
      rw [← known, new]
      simp only [← next, readback]
      exact prepared
    · have old : slots[j]? = some slot := by
        have bound := (List.getElem?_eq_some_iff.mp known).1
        rw [List.length_append, List.length_singleton] at bound
        rwa [List.getElem?_append_left (by omega)] at known
      have also := Nat.lt_of_lt_of_le (List.getElem?_eq_some_iff.mp old).1 furnished.count
      refine (furnished.prepared j slot old).congr fun part _ _ o small => ?_
      have fits := layout.inside part
      rw [Nat.add_assoc]
      exact others j also new _ (by omega)
  · exact fun busy => furnished.suspended_fresh inside busy sp frame
  · intro j known context held
    have also := Nat.lt_of_lt_of_le known furnished.count
    exact furnished.suspended_kept also (others j also (by omega)) boot held

/-- Boot leaves a process table without a process, in RAM that is all zero. -/
theorem boot {profile : Profile} (arena : Memory.PowerArena profile image.freeRam image.freeRamEnd
      kernel.memory) (zero : ∀ a, image.freeRam ≤ a → a < image.freeRamEnd → kernel.ram a = 0)
    (ran : (ProcTable.new profile).run kernel = .ok procs after) :
    procs.currProcIdx = 0 ∧ ∃ depth live, Furnished image after procs [] depth live := by
  obtain ⟨depth, shape, canonical, low, high⟩ := arena.shape
  -- Boot asks for one block, which the table takes up.
  unfold ProcTable.new at ran
  obtain ⟨table, made, created, ran⟩ := Exec.run_bind_ok.mp ran
  rw [EStateM.run_pure, EStateM.Result.ok.injEq] at ran
  obtain ⟨rfl, rfl⟩ := ran
  obtain ⟨block, memory, given, rfl, rfl⟩ := FixedVec.run_new_ok
    (by decide : procMax * procSize < wordLimit) created
  obtain ⟨start, invariant⟩ := (Memory.Invariant.boot shape canonical).run_alloc given
  have seated : Seated ⟨⟨block.addr, procMax, block⟩, 0⟩ [⟨procMax * procSize, block⟩] :=
    ⟨List.mem_singleton.mpr rfl, rfl, rfl⟩
  have first : memory.start.addr = image.freeRam := by rw [start, low]
  have last : memory.stop.addr = image.freeRamEnd := by
    rw [invariant.shape.stop, start, ← shape.stop, high]
  refine ⟨rfl, depth, [⟨procMax * procSize, block⟩], ⟨invariant, first, last, seated, ?_, ?_, ?_, ?_⟩⟩
  · intro a above below _
    exact zero a (first ▸ above) (last ▸ below)
  · exact Nat.zero_le _
  · intro i _ inside o small
    -- The table lies in managed RAM, which boot cleared.
    have found := (ProcTable.slot_mem seated invariant.placed inside small).1
    obtain ⟨size, sized, _, above, below⟩ := invariant.room (List.mem_singleton.mpr rfl)
    simp only at sized above below found
    simp only [PhysAddr.bytes, sized, Option.getD_some, Set.mem_Ico] at found
    exact zero _ (by omega) (by omega)
  · intro i slot known
    simp at known

end Furnished

end Layout

end Os1k
