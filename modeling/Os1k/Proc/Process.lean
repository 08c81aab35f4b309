import Os1k.Lib.Riscv
import Os1k.Vm.Translation

/-! The process table of `proc.rs`, and how processes are created and take turns. -/

namespace Os1k

open Riscv

/-- The bytes of a process's stack. -/
def procStackSize : Nat := 8 * 1024 / 4

/-- The number of process slots. -/
def procMax : Nat := 8

/-- Whether a slot is taken. -/
inductive ProcState where
  | unused
  | runnable
  deriving DecidableEq, Repr

/-- A state as it is stored. -/
def ProcState.word : ProcState → Nat
  | .unused => 0
  | .runnable => 1

/-- The state that a stored word stands for. -/
def ProcState.ofWord (word : Nat) : ProcState := if word = 0 then .unused else .runnable

/-- A process. -/
structure Process where
  stack : List Nat
  sp : Nat
  pid : Nat
  pageTable : PageTable
  state : ProcState
  deriving DecidableEq, Repr

/-- The parts of a process record. -/
inductive ProcField where
  | stack
  | sp
  | pid
  | rootPt
  | secondPts
  | state
  deriving DecidableEq, Repr

/-- The bytes of each part, where the state is padded to a word. -/
def ProcField.width : ProcField → Nat
  | .stack => procStackSize
  | .sp | .pid | .state => 4
  | .rootPt | .secondPts => 20

/-- The bytes of a process record. -/
def procSize : Nat := procStackSize + 3 * 4 + 2 * 20

/--
How the compiler lays a process record out.

The order of the parts is the compiler's own affair.
-/
class ProcLayout where
  offset : ProcField → Nat
  word : ∀ field, offset field % 4 = 0
  inside : ∀ field, offset field + field.width ≤ procSize
  disjoint : ∀ field other, field ≠ other →
    offset field + field.width ≤ offset other ∨ offset other + other.width ≤ offset field

section Layout

variable [VecLayout] [layout : ProcLayout]

instance : Elem Process where
  size := procSize
  read ram addr :=
    { stack := (List.range (procStackSize / 4)).map fun k => ram (addr + layout.offset .stack + 4 * k)
      sp := ram (addr + layout.offset .sp)
      pid := ram (addr + layout.offset .pid)
      pageTable :=
        { rootPt := Elem.read ram (addr + layout.offset .rootPt)
          secondPts := Elem.read ram (addr + layout.offset .secondPts) }
      state := .ofWord (ram (addr + layout.offset .state)) }
  words process :=
    process.stack.zipIdx.map (fun word => (layout.offset .stack + 4 * word.2, word.1)) ++
    [(layout.offset .sp, process.sp), (layout.offset .pid, process.pid)] ++
    (Elem.words process.pageTable.rootPt).map (fun word => (layout.offset .rootPt + word.1, word.2)) ++
    (Elem.words process.pageTable.secondPts).map
      (fun word => (layout.offset .secondPts + word.1, word.2)) ++
    [(layout.offset .state, process.state.word)]
  dropInPlace profile process := process.pageTable.drop profile

end Layout

/-- The process table, with the slot of the process that runs. -/
structure ProcTable where
  table : FixedVec Process
  currProcIdx : Nat
  deriving DecidableEq, Repr

/--
What the linker script places: the kernel, the stack that boot runs on, and free RAM above them.
-/
structure Image where
  kernelBase : Nat
  stackBottom : Nat
  stackTop : Nat
  freeRam : Nat
  freeRamEnd : Nat
  stackBelow : stackTop ≤ freeRam

/-- The pages from `base` up to `limit`, each mapped to itself. -/
def identityPages (base limit : Nat) : List Mapping :=
  (List.range ((limit - base + (pageSize - 1)) / pageSize)).map fun i =>
    ⟨base + i * pageSize, base + i * pageSize, pageR ||| pageW ||| pageX⟩

/-- The pages are those that a loop meets which counts up by one page until it is past the limit. -/
theorem identityPages_eq (base limit : Nat) :
    identityPages base limit =
      if base < limit then
        ⟨base, base, pageR ||| pageW ||| pageX⟩ :: identityPages (base + pageSize) limit
      else [] := by
  have pages : pageSize = 4096 := rfl
  unfold identityPages
  -- The number of pages is rounded up, so one is left as long as the limit is not reached.
  by_cases more : base < limit
  · have count : (limit - base + (pageSize - 1)) / pageSize =
        (limit - (base + pageSize) + (pageSize - 1)) / pageSize + 1 := by
      rw [pages]
      omega
    rw [if_pos more, count, List.range_succ_eq_map, List.map_cons, List.map_map]
    simp only [Nat.zero_mul, Nat.add_zero, Function.comp_def, Nat.succ_mul]
    congr 1
    apply List.map_congr_left
    intro i _
    have same : base + (i * pageSize + pageSize) = base + pageSize + i * pageSize := by omega
    rw [same]
  · have none : (limit - base + (pageSize - 1)) / pageSize = 0 := by
      rw [pages]
      omega
    rw [if_neg more, none]
    rfl

/-- Lay out the frame that the first switch to a process finds: where to start, and zeros. -/
def writeFrame (sp pc : Nat) : Exec Fault Kernel Unit := do
  Kernel.store sp pc
  forM (List.range' 1 12) fun i => Kernel.store (sp + 4 * i) 0

namespace ProcTable

variable [VecLayout] [layout : ProcLayout]

/-- Allocate the table, whose slots are whatever the memory holds. -/
def new (profile : Profile) : Exec Fault Kernel ProcTable := do
  let table ← FixedVec.new profile procMax
  return { table, currProcIdx := 0 }

/-- The first slot that is not taken. -/
def nextUnused (procs : ProcTable) : Exec Fault Kernel (Option Nat) :=
  (List.range procs.table.cap).findM? fun i => do
    return (← procs.table.index i).state = .unused

/-- The address of a part of a slot. -/
def field (procs : ProcTable) (i : Nat) (part : ProcField) : Nat :=
  procs.table.slotAddr i + layout.offset part

/-- Where the stack of a slot ends, just past its last byte. -/
def stackEnd (procs : ProcTable) (i : Nat) : Nat :=
  procs.field i .stack + (procStackSize - 1) + 1

/-- Take a slot: its number, its state, and the frame that the first switch to it finds. -/
def claim (procs : ProcTable) (procIndex pc : Nat) : Exec Fault Kernel Unit := do
  let _ ← procs.table.index procIndex
  Kernel.store (procs.field procIndex .pid) procIndex
  Kernel.store (procs.field procIndex .state) ProcState.runnable.word
  -- Thirteen words are pushed, the first of them at the last word of the stack.
  let sp := procs.field procIndex .stack + (procStackSize - 4) - 12 * 4
  writeFrame sp pc
  Kernel.store (procs.field procIndex .sp) sp

/-- Assign a page table to a slot, where the one that is replaced goes out of use first. -/
def setPageTable (profile : Profile) (procs : ProcTable) (procIndex : Nat) (pageTable : PageTable) :
    Exec Fault Kernel Unit := do
  let proc : Process := Elem.read (← get).ram (procs.table.slotAddr procIndex)
  proc.pageTable.drop profile
  forM (Elem.words pageTable.rootPt) fun word =>
    Kernel.store (procs.field procIndex .rootPt + word.1) word.2
  forM (Elem.words pageTable.secondPts) fun word =>
    Kernel.store (procs.field procIndex .secondPts + word.1) word.2

/-- Set up a slot for a process that starts at `pc`, with the kernel and RAM mapped to themselves. -/
def createProcess (profile : Profile) (image : Image) (procs : ProcTable) (pc : Nat) :
    Exec Fault Kernel Nat := do
  -- Without a free slot the kernel panics.
  let some procIndex ← procs.nextUnused | throw .noFreeSlot
  procs.claim procIndex pc
  let pageTable ← PageTable.new profile
  procs.setPageTable profile procIndex pageTable
  pageTable.mapPages profile (identityPages image.kernelBase image.freeRamEnd)
  return procIndex

/-- The first other slot that can run, or else slot 0. -/
def selectNext (procs : ProcTable) : Exec Fault Kernel Nat := do
  let found ← (List.range' 1 (procs.table.cap - 1)).findM? fun i => do
    return (← procs.table.index i).state = .runnable ∧ i ≠ procs.currProcIdx
  return found.getD 0

end ProcTable

/-- Save the callee-saved registers of one process and restore those of another. -/
def switchContext : List Instr := [
  .addi .sp .sp (-13 * 4),
  .sw .ra (4 * 0) .sp,
  .sw .s0 (4 * 1) .sp,
  .sw .s1 (4 * 2) .sp,
  .sw .s2 (4 * 3) .sp,
  .sw .s3 (4 * 4) .sp,
  .sw .s4 (4 * 5) .sp,
  .sw .s5 (4 * 6) .sp,
  .sw .s6 (4 * 7) .sp,
  .sw .s7 (4 * 8) .sp,
  .sw .s8 (4 * 9) .sp,
  .sw .s9 (4 * 10) .sp,
  .sw .s10 (4 * 11) .sp,
  .sw .s11 (4 * 12) .sp,
  -- Switch the stack pointer.
  .sw .sp 0 .a0,
  .lw .sp 0 .a1,
  .lw .ra (4 * 0) .sp,
  .lw .s0 (4 * 1) .sp,
  .lw .s1 (4 * 2) .sp,
  .lw .s2 (4 * 3) .sp,
  .lw .s3 (4 * 4) .sp,
  .lw .s4 (4 * 5) .sp,
  .lw .s5 (4 * 6) .sp,
  .lw .s6 (4 * 7) .sp,
  .lw .s7 (4 * 8) .sp,
  .lw .s8 (4 * 9) .sp,
  .lw .s9 (4 * 10) .sp,
  .lw .s10 (4 * 11) .sp,
  .lw .s11 (4 * 12) .sp,
  .addi .sp .sp (13 * 4),
  .ret]

/-- The code of a switch saves one frame and loads the other, word by word. -/
theorem switchContext_eq : switchContext = switchLine := rfl

/-- The kernel's memory and process table, with the hart that runs the current process. -/
structure Machine where
  kernel : Kernel
  procs : ProcTable
  regs : Reg → Nat
  csrs : Csr → Nat
  pc : Nat

namespace Machine

/-- The hart, which reads and writes the kernel's RAM. -/
def hart (machine : Machine) : Hart := ⟨machine.regs, machine.kernel.ram, machine.csrs, machine.pc⟩

/-- Put back a hart that ran some code. -/
def withHart (machine : Machine) (hart : Hart) : Machine :=
  { machine with
    kernel := { machine.kernel with ram := hart.mem }
    regs := hart.regs
    csrs := hart.csrs
    pc := hart.pc }

/-- Run kernel code that does not touch the hart. -/
def lift {α : Type} (part : Exec Fault Kernel α) : Exec Fault Machine α :=
  Exec.zoom Machine.kernel (fun machine kernel => { machine with kernel }) part

/-- Write a CSR. -/
def csrw (csr : Csr) (value : Nat) : Exec Fault Machine Unit :=
  modify fun machine => { machine with csrs := Function.update machine.csrs csr value }

/-- Call the context switch with two arguments. -/
def callSwitch (prevSp nextSp : Nat) : Exec Fault Machine Unit :=
  modify fun machine =>
    machine.withHart (((machine.hart.set .a0 prevSp).set .a1 nextSp).line switchContext)

variable [VecLayout] [layout : ProcLayout]

/-- Hand the hart to the process in a slot. -/
def giveUpTo (next : Nat) : Exec Fault Machine Unit := do
  let procs := (← get).procs
  let _ ← lift (procs.table.index procs.currProcIdx)
  let proc ← lift (procs.table.index next)
  -- From here on, the hart translates with the page table of the other process.
  csrw .satp proc.pageTable.satp
  csrw .sscratch (procs.stackEnd next)
  modify fun machine => { machine with procs := { procs with currProcIdx := next } }
  callSwitch (procs.field procs.currProcIdx .sp) (procs.field next .sp)

/-- Let another process run. -/
def giveUp : Exec Fault Machine Unit := do
  let next ← lift (← get).procs.selectNext
  giveUpTo next

end Machine

end Os1k
