import Os1k.C.Trap

/-! What memory holds for a process of the C kernel, whether it runs or waits. -/

namespace Os1k.C

open Riscv

/-- A handler of a process is at a point, in the middle of a trap that the process took. -/
structure Active (code : Compiled) (layout : Layout) (p : Nat) (point : Point) (regs : Reg → Nat)
    (mem : Nat → Nat) (call : Call) : Prop where
  userPc : point.value regs mem .userPc = call.pc
  frame : point.value regs mem .frame = layout.top p - trapFrameSize
  retAddr : point.value regs mem .retAddr = code.afterCall
  sp : regs .sp + point.depth = layout.top p - trapFrameSize
  room : layout.stack p ≤ regs .sp
  framed : Framed mem (layout.top p - trapFrameSize) call.restored
  received : point.stage = .received ↔ call.received ≠ none
  sysno : ∀ n, point.stage.sysno = some n → call.regs .a3 = n
  getchar : point.stage = .received → call.regs .a3 = sysGetchar

/-- A process that can run but does not: it was just created, or it polls for input. -/
inductive Suspended (code : Compiled) (layout : Layout) (p : Nat) (mem : Nat → Nat)
    (call : Option Call) : Prop where
  | fresh {regs : Reg → Nat} (frame : switchFrame.At mem (mem (layout.sp p)) regs)
      (sp : mem (layout.sp p) = layout.top p - 13 * 4) (entry : regs .ra = code.userEntry)
  | polling {regs : Reg → Nat} {point : Point} {last : Call} (made : call = some last)
      (frame : switchFrame.At mem (mem (layout.sp p)) regs)
      (sp : mem (layout.sp p) + 13 * 4 = regs .sp) (room : layout.stack p ≤ mem (layout.sp p))
      (there : code.point (regs .ra) = some point) (stage : point.stage = .getchar)
      (survives : point.Survives) (active : Active code layout p point regs mem last)

/-- What the kernel is about to do for the process that runs. -/
inductive Control (code : Compiled) (layout : Layout) (p : Nat) (hart : Hart)
    (call : Option Call) : Prop where
  | start (here : hart.pc = code.userEntry)
  | entering {last : Call} (made : call = some last) (here : hart.pc = code.handleTrap)
      (sepc : hart.csrs .sepc = last.pc) (ra : hart.regs .ra = code.afterCall)
      (a0 : hart.regs .a0 = layout.top p - trapFrameSize)
      (sp : hart.regs .sp = layout.top p - trapFrameSize)
      (framed : Framed hart.mem (layout.top p - trapFrameSize) last.regs)
      (received : last.received = none)
  | handling {last : Call} {point : Point} (made : call = some last)
      (here : code.point hart.pc = some point)
      (active : Active code layout p point hart.regs hart.mem last)
  | leaving {last : Call} (made : call = some last) (here : hart.pc = code.afterCall)
      (sepc : hart.csrs .sepc = (last.pc + 4) % wordLimit)
      (sp : hart.regs .sp = layout.top p - trapFrameSize)
      (framed : Framed hart.mem (layout.top p - trapFrameSize) last.restored)
      (received : last.received ≠ none ↔ last.regs .a3 = sysGetchar)

/-- What holds of the process that runs, in each mode. -/
def Current (code : Compiled) (layout : Layout) (machine : Machine) (record : Record) : Prop :=
  match machine.mode with
  | .boot => machine.current = 0
  | .panicked => True
  | .user => machine.hart.csrs .sscratch = layout.top machine.current ∧
    machine.hart.csrs .satp = satpOf record.table
  | .kernel => machine.hart.csrs .sscratch = layout.top machine.current ∧
    machine.hart.csrs .satp = satpOf record.table ∧
    Control code layout machine.current machine.hart record.call

/-- What memory holds for the processes that were created, apart from the one that runs. -/
structure Kept (code : Compiled) (layout : Layout) (mem : Nat → Nat) (current : Nat)
    (records : List Record) : Prop where
  count : records.length ≤ layout.procNoMax
  unused : ∀ p < layout.procNoMax, mem (layout.state p) = procStateUnused ↔ records.length ≤ p
  tables : ∀ p record, records[p]? = some record → mem (layout.pageTable p) = record.table
  waiting : ∀ p record, records[p]? = some record → p ≠ 0 → p ≠ current →
    mem (layout.state p) = procStateRunnable → Suspended code layout p mem record.call

/-- What holds between the steps of a run. -/
structure Tracked (code : Compiled) (layout : Layout) (machine : Machine) (records : List Record) :
    Prop extends Kept code layout machine.hart.mem machine.current records where
  running : ∃ record, records[machine.current]? = some record ∧ Current code layout machine record

namespace Layout

variable {layout : Layout} {p q : Nat}

/-- Processes lie inside the array. -/
theorem slot_bounds (inside : p < layout.procNoMax) :
    layout.procs ≤ layout.slot p ∧
      layout.slot p + 8208 ≤ layout.procs + procSize * layout.procNoMax := by
  have size : procSize = 8208 := rfl
  unfold slot
  rw [size]
  omega

/-- The end of a kernel stack is the end of the process. -/
theorem top_eq (layout : Layout) (p : Nat) : layout.top p = layout.slot p + 8208 := by
  unfold top stack
  omega

/-- Processes do not overlap. -/
theorem slot_ne (different : p ≠ q) {a b : Nat} (inside : a < 8208) (also : b < 8208) :
    layout.slot p + a ≠ layout.slot q + b := by
  have size : procSize = 8208 := rfl
  unfold slot
  rw [size]
  omega

/-- A byte of a process lies before or behind every other process. -/
theorem slot_apart (layout : Layout) (different : q ≠ p) {o : Nat} (small : o < 8208) :
    layout.slot q + o < layout.slot p ∨ layout.slot p + 8208 ≤ layout.slot q + o := by
  -- A byte in between would be one of both processes.
  by_contra within
  have differ : layout.slot q + o ≠ layout.slot p + (layout.slot q + o - layout.slot p) :=
    slot_ne different small (by omega)
  omega

/-- Every byte of a process is guarded. -/
theorem slot_guarded (inside : p < layout.procNoMax) {o : Nat} (small : o < 8208) :
    layout.Guarded (layout.slot p + o) := by
  have bounds := slot_bounds inside
  exact .inl (by omega)

/-- A handler writes nothing of another process. -/
theorem not_writes_slot (also : q < layout.procNoMax) (different : q ≠ p) {o : Nat} (small : o < 8208) :
    ¬ layout.HandlerWrites p (layout.slot q + o) := by
  rintro (free | ⟨low, high⟩)
  · exact free (slot_guarded also small)
  · -- A place in the stack of one process would be a place of the other.
    have size : trapFrameSize = 124 := rfl
    have stack : layout.stack p = layout.slot p + 16 := rfl
    have top := layout.top_eq p
    have apart := layout.slot_apart different small
    omega

/-- A handler writes neither the fields of its process nor the trap frame. -/
theorem not_writes_own (inside : p < layout.procNoMax) {o : Nat} (small : o < 8208)
    (kept : o < 16 ∨ 8208 - trapFrameSize ≤ o) :
    ¬ layout.HandlerWrites p (layout.slot p + o) := by
  have size : trapFrameSize = 124 := rfl
  -- The fields are below the stack, and the frame is above what handlers use.
  rintro (free | ⟨low, high⟩)
  · exact free (slot_guarded inside small)
  · have stack : layout.stack p = layout.slot p + 16 := rfl
    have top := layout.top_eq p
    omega

end Layout

/-- Registers that agree on what calls preserve, and memory above the stack pointer, give the values. -/
theorem Point.value_congr (point : Point) (survives : point.Survives) {regs other : Reg → Nat}
    (mem : Nat → Nat) (saved : ∀ r ∈ calleeSaved, other r = regs r) (sp : other .sp = regs .sp)
    (name : Local) : point.value other mem name = point.value regs mem name := by
  unfold Point.value
  -- A value is in a register that calls preserve, or found from the stack pointer.
  cases home : point.home name with
  | reg r => exact saved r (survives name r home)
  | stack k => rw [sp]
  | addr offset => rw [sp]

namespace Active

variable {code : Compiled} {layout : Layout} {p : Nat} {point : Point} {regs : Reg → Nat}
  {mem other : Nat → Nat} {call : Call}

/-- A handler is not disturbed by what happens outside the part of the stack that it uses. -/
theorem congr (active : Active code layout p point regs mem call)
    (agree : ∀ a, regs .sp ≤ a → a < layout.top p → other a = mem a) :
    Active code layout p point regs other call := by
  have sp := active.sp
  have size : trapFrameSize = 124 := rfl
  have top := layout.top_eq p
  -- Values on the stack are between the stack pointer and the trap frame.
  have value : ∀ name, point.value regs other name = point.value regs mem name := by
    intro name
    unfold Point.value
    cases home : point.home name with
    | reg r => rfl
    | addr offset => rfl
    | stack k =>
      have depth := point.inFrame name k home
      exact agree _ (by omega) (by omega)
  refine ⟨?_, ?_, ?_, sp, active.room, active.framed.congr fun o small => ?_, active.received,
    active.sysno, active.getchar⟩
  · rw [value, active.userPc]
  · rw [value, active.frame]
  · rw [value, active.retAddr]
  · exact agree _ (by omega) (by omega)

/-- A handler is resumed with the registers that calls preserve. -/
theorem resume (active : Active code layout p point regs mem call) (survives : point.Survives)
    {found : Reg → Nat} (saved : ∀ r ∈ calleeSaved, found r = regs r) (sp : found .sp = regs .sp) :
    Active code layout p point found mem call := by
  -- No value is in a register that the switch does not preserve.
  have value := fun name => point.value_congr survives mem saved sp name
  refine ⟨?_, ?_, ?_, ?_, ?_, active.framed, active.received, active.sysno, active.getchar⟩
  · rw [value, active.userPc]
  · rw [value, active.frame]
  · rw [value, active.retAddr]
  · rw [sp, active.sp]
  · rw [sp]
    exact active.room

end Active

/-- A process that waits is not disturbed by what happens outside of it. -/
theorem Suspended.congr {code : Compiled} {layout : Layout} {p : Nat} {mem other : Nat → Nat}
    {call : Option Call} (suspended : Suspended code layout p mem call)
    (agree : ∀ o < 8208, other (layout.slot p + o) = mem (layout.slot p + o)) :
    Suspended code layout p other call := by
  have top := layout.top_eq p
  have stack : layout.stack p = layout.slot p + 16 := rfl
  have pointer : other (layout.sp p) = mem (layout.sp p) := agree 8 (by omega)
  -- All that a waiting process needs is in its own slot.
  cases suspended with
  -- The frame of a new process is at the very top of the stack.
  | @fresh regs frame sp entry =>
    refine .fresh (?_ : switchFrame.At other (other (layout.sp p)) regs) (pointer.trans sp) entry
    rw [pointer]
    refine frame.congr fun slot member => ?_
    have place := switchFrame_place member
    have shift : mem (layout.sp p) + 4 * slot.2 =
        layout.slot p + (8208 - 13 * 4 + 4 * slot.2) := by omega
    rw [shift]
    exact agree _ (by omega)
  -- A process that polls needs its frame, and the stack of the handler above it.
  | @polling regs point last made frame sp room there stage survives active =>
    have deep := active.sp
    have low := active.room
    have same : ∀ a, regs .sp ≤ a → a < layout.top p → other a = mem a := by
      intro a above below
      have shift : a = layout.slot p + (a - layout.slot p) := by omega
      rw [shift]
      exact agree _ (by omega)
    refine .polling made ?_ (by rw [pointer, sp]) (by rw [pointer]; exact room) there stage survives
      (active.congr same)
    rw [pointer]
    refine frame.congr fun slot member => ?_
    have place := switchFrame_place member
    have shift : mem (layout.sp p) + 4 * slot.2 =
        layout.slot p + (mem (layout.sp p) + 4 * slot.2 - layout.slot p) := by omega
    rw [shift]
    exact agree _ (by omega)

end Os1k.C
