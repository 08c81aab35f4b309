import Os1k.C.Entry

/-! The processes of the C kernel: how they are created, trap, wait for input, and are resumed. -/

namespace Os1k.C

open Riscv

def procStateUnused : Nat := 0

def procStateRunnable : Nat := 1

def procStateExited : Nat := 2

def sysPutchar : Nat := 1

def sysGetchar : Nat := 2

def sysExit : Nat := 3

/-- The satp bit that turns Sv32 translation on. -/
def satpSv32 : Nat := 1 <<< 31

def pageSize : Nat := 4096

/-- Where user programs start. -/
def userBase : Nat := 0x1000000

/-- The bytes of a `struct process`: four words and the kernel stack. -/
def procSize : Nat := 16 + 8192

/--
Where the linker puts the process array, for any number of processes, and the stack of boot.

Neither wraps around the address space, and they do not overlap.
-/
structure Layout where
  procs : Nat
  procNoMax : Nat
  stackBottom : Nat
  stackTop : Nat
  word : procs + procSize * procNoMax < wordLimit
  stackWord : stackTop < wordLimit
  apart : stackTop ≤ procs ∨ procs + procSize * procNoMax ≤ stackBottom

namespace Layout

variable (layout : Layout)

/-- The address of a process. -/
def slot (p : Nat) : Nat := layout.procs + procSize * p

def pid (p : Nat) : Nat := layout.slot p

def state (p : Nat) : Nat := layout.slot p + 4

def sp (p : Nat) : Nat := layout.slot p + 8

def pageTable (p : Nat) : Nat := layout.slot p + 12

def stack (p : Nat) : Nat := layout.slot p + 16

/-- The end of a process's kernel stack. -/
def top (p : Nat) : Nat := layout.stack p + 8192

/-- The process array and the stack of boot, which only the kernel writes. -/
def Guarded (a : Nat) : Prop :=
  (layout.procs ≤ a ∧ a < layout.procs + procSize * layout.procNoMax) ∨
    (layout.stackBottom ≤ a ∧ a < layout.stackTop)

/-- The places that compiled handlers write for themselves: their part of the kernel stack. -/
def HandlerWrites (p a : Nat) : Prop :=
  ¬ layout.Guarded a ∨ (layout.stack p ≤ a ∧ a < layout.top p - trapFrameSize)

end Layout

/-- What the handlers have to remember: two variables, and where to return to. -/
inductive Local where
  | userPc
  | frame
  | retAddr
  deriving DecidableEq, Repr

/--
Where compiled code keeps a value: in a register, or in a word above the stack pointer.

A value that is itself an address above the stack pointer need not be kept.
-/
inductive Home where
  | reg (r : Reg)
  | stack (k : Nat)
  | addr (offset : Nat)
  deriving DecidableEq, Repr

/-- How far a handler has come. -/
inductive Stage where
  | entered
  | putchar
  | getchar
  | received
  | exiting
  deriving DecidableEq, Repr

/-- The system call that a stage belongs to, if it is decided. -/
def Stage.sysno : Stage → Option Nat
  | .entered | .received => none
  | .putchar => some sysPutchar
  | .getchar => some sysGetchar
  | .exiting => some sysExit

/--
A place in the compiled handlers.

The compiler decided there how much of the stack is in use since the handler was called, and where
each of its values lives. Runs stop at such places only, not inside the functions called between.
-/
structure Point where
  stage : Stage
  depth : Nat
  home : Local → Home
  inFrame : ∀ name k, home name = .stack k → 4 * k + 4 ≤ depth

/-- The value that a name has at a point. -/
def Point.value (point : Point) (regs : Reg → Nat) (mem : Nat → Nat) (name : Local) : Nat :=
  match point.home name with
  | .reg r => regs r
  | .stack k => mem (regs .sp + 4 * k)
  | .addr offset => regs .sp + offset

/-- No value is lost in a call: each is in a register that calls preserve, or on the stack. -/
def Point.Survives (point : Point) : Prop := ∀ name r, point.home name = .reg r → r ∈ calleeSaved

/-- The compiled kernel: the addresses that control goes through, and what the compiler did there. -/
structure Compiled where
  userEntry : Nat
  handleTrap : Nat
  /-- Where `kernel_entry` goes on after the handler. -/
  afterCall : Nat
  point : Nat → Option Point
  entryLeave : userEntry ≠ afterCall
  entryHandle : userEntry ≠ handleTrap
  handleLeave : handleTrap ≠ afterCall
  entryPoint : point userEntry = none
  handlePoint : point handleTrap = none
  leavePoint : point afterCall = none

/--
Compiled code arrives at a point, with the values it has to have there.

This is what the calling convention asks of it: the stack is as deep as the compiler meant it to be
and stays inside the kernel stack, and only its own part of that is written.
-/
structure Arrives (layout : Layout) (p : Nat) (before after : Hart) (point : Point)
    (values : Local → Nat) (base : Nat) : Prop where
  locals : ∀ name, point.value after.regs after.mem name = values name
  sp : after.regs .sp + point.depth = base
  room : layout.stack p ≤ after.regs .sp
  csrs : after.csrs = before.csrs
  mem : ∀ a, after.mem a ≠ before.mem a → layout.HandlerWrites p a

/-- What the hart does. -/
inductive Mode where
  | boot
  | user
  | kernel
  | panicked
  deriving DecidableEq, Repr

/-- The hart with its mode, and the process that runs. -/
structure Machine where
  hart : Hart
  mode : Mode
  current : Nat

/-- What a user program had in its registers at a trap, and what it received since. -/
structure Call where
  regs : Reg → Nat
  pc : Nat
  received : Option Nat

/-- The registers that the user program is to have after the trap. -/
def Call.restored (call : Call) : Reg → Nat :=
  match call.received with
  | none => call.regs
  | some ch => Function.update call.regs .a0 ch

/-- A process that was created: the page table it was given, and its last trap. -/
structure Record where
  table : Nat
  call : Option Call

/-- The satp value of a page table. -/
def satpOf (table : Nat) : Nat := satpSv32 ||| table / pageSize

/-- Memory once `create_process` has filled in a slot. -/
def createProcess (layout : Layout) (userEntry i pid table : Nat) (mem : Nat → Nat) : Nat → Nat :=
  fun a =>
    if a = layout.pid i then pid
    else if a = layout.state i then procStateRunnable
    else if a = layout.sp i then layout.top i - 13 * 4
    else if a = layout.pageTable i then table
    -- The first switch to the process finds where to start, and zeros.
    else if a = layout.top i - 13 * 4 then userEntry
    else if layout.stack i ≤ a ∧ a < layout.top i then 0
    else mem a

/-- The first slot that is not taken. -/
def FirstUnused (layout : Layout) (mem : Nat → Nat) (i : Nat) : Prop :=
  i < layout.procNoMax ∧ mem (layout.state i) = procStateUnused ∧
    ∀ j < i, mem (layout.state j) ≠ procStateUnused

/-- A process that was created and has not exited. -/
def Runnable (layout : Layout) (mem : Nat → Nat) (p : Nat) : Prop :=
  p < layout.procNoMax ∧ mem (layout.state p) = procStateRunnable

/-- What `yield` does once another process is chosen. -/
def yieldTo (layout : Layout) (hart : Hart) (prev next : Nat) : Hart :=
  -- `yield` writes `satp` and `sscratch` before it calls `switch_context`.
  let ready : Hart :=
    { hart with
      csrs := Function.update
        (Function.update hart.csrs .satp (satpOf (hart.mem (layout.pageTable next))))
        .sscratch (layout.top next) }
  ((ready.set .a0 (layout.sp prev)).set .a1 (layout.sp next)).line switchContext

/-- The mode after a switch, where the idle process goes on into a panic. -/
def modeOf (next : Nat) : Mode := if next = 0 then .panicked else .kernel

/-- The trap that `ecall` takes: the hardware notes where it was, and `kernel_entry` runs. -/
def trap (code : Compiled) (hart : Hart) : Hart :=
  -- The call of the handler leaves its return address in `ra`.
  let taken : Hart := { hart with csrs := Function.update hart.csrs .sepc hart.pc }
  { (taken.line kernelEntry).set .ra code.afterCall with pc := code.handleTrap }

/-- Note something about the last trap of a process. -/
def note (records : List Record) (p : Nat) (change : Option Call → Option Call) : List Record :=
  records.modify p fun record => { record with call := change record.call }

/--
The runs of the kernel, with the processes created so far.

Boot creates the idle process and then others. User programs compute and trap. A handler works on
its own stack until it returns to the user program, or yields to any process that can run.
-/
inductive Reach (code : Compiled) (layout : Layout) : Machine → List Record → Prop where
  -- The first process is the idle one, whose number is set to -1 afterwards.
  | boot {hart : Hart} {mem : Nat → Nat} {table : Nat}
      (unused : ∀ p < layout.procNoMax, hart.mem (layout.state p) = procStateUnused)
      (some : 0 < layout.procNoMax)
      (created : ∀ a, layout.Guarded a →
        mem a = createProcess layout code.userEntry 0 (wordLimit - 1) table hart.mem a) :
      Reach code layout ⟨{ hart with mem }, .boot, 0⟩ [⟨table, none⟩]
  -- `create_process` numbers a process by its slot, counted from one.
  | create {machine : Machine} {records : List Record} {mem : Nat → Nat} {i table : Nat}
      (before : Reach code layout machine records) (booting : machine.mode = .boot)
      (free : FirstUnused layout machine.hart.mem i)
      (created : ∀ a, layout.Guarded a →
        mem a = createProcess layout code.userEntry i (i + 1) table machine.hart.mem a) :
      Reach code layout { machine with hart := { machine.hart with mem } }
        (records ++ [⟨table, none⟩])
  -- `kernel_main` yields on the stack of boot, as the idle process.
  | bootYield {machine : Machine} {records : List Record} {hart : Hart} {next : Nat}
      (before : Reach code layout machine records) (booting : machine.mode = .boot)
      (mem : ∀ a, hart.mem a ≠ machine.hart.mem a →
        ¬ layout.Guarded a ∨ (layout.stackBottom ≤ a ∧ a < layout.stackTop))
      (room : layout.stackBottom + 13 * 4 ≤ hart.regs .sp) (top : hart.regs .sp ≤ layout.stackTop)
      (runnable : Runnable layout hart.mem next) (other : next ≠ 0) :
      Reach code layout ⟨yieldTo layout hart 0 next, .kernel, next⟩ records
  -- `user_entry` sets `sepc` and returns to user mode.
  | start {machine : Machine} {records : List Record} {regs : Reg → Nat}
      (before : Reach code layout machine records) (running : machine.mode = .kernel)
      (here : machine.hart.pc = code.userEntry) :
      Reach code layout
        ⟨{ machine.hart with
            regs
            csrs := Function.update machine.hart.csrs .sepc userBase
            pc := userBase }, .user, machine.current⟩ records
  -- A user program does what it likes, except to what is not mapped for it.
  | user {machine : Machine} {records : List Record} {regs : Reg → Nat} {mem : Nat → Nat} {pc : Nat}
      (before : Reach code layout machine records) (running : machine.mode = .user)
      (guarded : ∀ a, layout.Guarded a → mem a = machine.hart.mem a) :
      Reach code layout { machine with hart := { machine.hart with regs, mem, pc } } records
  -- An `ecall` ends in `kernel_entry`, which saves all registers.
  | trap {machine : Machine} {records : List Record}
      (before : Reach code layout machine records) (running : machine.mode = .user) :
      Reach code layout ⟨trap code machine.hart, .kernel, machine.current⟩
        (note records machine.current fun _ => some ⟨machine.hart.regs, machine.hart.pc, none⟩)
  -- `handle_trap` has read the control registers and made room on the stack.
  | enter {machine : Machine} {records : List Record} {hart : Hart} {point : Point}
      (before : Reach code layout machine records) (running : machine.mode = .kernel)
      (here : machine.hart.pc = code.handleTrap) (there : code.point hart.pc = some point)
      (stage : point.stage = .entered)
      (arrives : Arrives layout machine.current machine.hart hart point
        (fun
          | .userPc => machine.hart.csrs .sepc
          | .frame => machine.hart.regs .a0
          | .retAddr => machine.hart.regs .ra) (machine.hart.regs .sp)) :
      Reach code layout { machine with hart } records
  -- Between two points nothing happens that another process could see.
  | work {machine : Machine} {records : List Record} {hart : Hart} {point next : Point}
      (before : Reach code layout machine records) (running : machine.mode = .kernel)
      (here : code.point machine.hart.pc = some point) (there : code.point hart.pc = some next)
      (stage : next.stage = point.stage ∨ (point.stage = .entered ∧ next.stage.sysno =
        some (machine.hart.mem
          (point.value machine.hart.regs machine.hart.mem .frame + 4 * 13))))
      (arrives : Arrives layout machine.current machine.hart hart next
        (point.value machine.hart.regs machine.hart.mem)
        (machine.hart.regs .sp + point.depth)) :
      Reach code layout { machine with hart } records
  -- `getchar` returned a character, which `handle_syscall` stores in the frame.
  | receive {machine : Machine} {records : List Record} {hart : Hart} {point next : Point} {ch : Nat}
      (before : Reach code layout machine records) (running : machine.mode = .kernel)
      (here : code.point machine.hart.pc = some point) (there : code.point hart.pc = some next)
      (polling : point.stage = .getchar) (stage : next.stage = .received) (positive : ch < 2 ^ 31)
      (arrives : Arrives layout machine.current
        { machine.hart with
          mem := Function.update machine.hart.mem
            (point.value machine.hart.regs machine.hart.mem .frame + 4 * 10) ch } hart next
        (point.value machine.hart.regs machine.hart.mem)
        (machine.hart.regs .sp + point.depth)) :
      Reach code layout { machine with hart }
        (note records machine.current (Option.map fun call => { call with received := some ch }))
  -- `getchar` returned nothing, so that `handle_syscall` yields and tries again.
  | poll {machine : Machine} {records : List Record} {hart : Hart} {point resume : Point} {next : Nat}
      (before : Reach code layout machine records) (running : machine.mode = .kernel)
      (here : code.point machine.hart.pc = some point) (polling : point.stage = .getchar)
      (there : code.point (hart.regs .ra) = some resume) (stage : resume.stage = .getchar)
      (survives : resume.Survives)
      (arrives : Arrives layout machine.current machine.hart hart resume
        (point.value machine.hart.regs machine.hart.mem)
        (machine.hart.regs .sp + point.depth))
      (room : layout.stack machine.current + 13 * 4 ≤ hart.regs .sp)
      (runnable : Runnable layout hart.mem next) (other : next ≠ machine.current) :
      Reach code layout
        ⟨yieldTo layout hart machine.current next, modeOf next, next⟩ records
  -- The state is set first, and `yield` does not come back.
  | exit {machine : Machine} {records : List Record} {hart : Hart} {point resume : Point} {next : Nat}
      (before : Reach code layout machine records) (running : machine.mode = .kernel)
      (here : code.point machine.hart.pc = some point) (exiting : point.stage = .exiting)
      (arrives : Arrives layout machine.current
        { machine.hart with
          mem := Function.update machine.hart.mem (layout.state machine.current) procStateExited }
        hart resume (point.value machine.hart.regs machine.hart.mem)
        (machine.hart.regs .sp + point.depth))
      (room : layout.stack machine.current + 13 * 4 ≤ hart.regs .sp)
      (runnable : Runnable layout hart.mem next) :
      Reach code layout
        ⟨yieldTo layout hart machine.current next, modeOf next, next⟩ records
  -- `handle_trap` writes the next instruction's address to `sepc` and returns.
  | finish {machine : Machine} {records : List Record} {hart : Hart} {point : Point}
      (before : Reach code layout machine records) (running : machine.mode = .kernel)
      (here : code.point machine.hart.pc = some point)
      (stage : point.stage = .putchar ∨ point.stage = .received)
      (pc : hart.pc = point.value machine.hart.regs machine.hart.mem .retAddr)
      (sp : hart.regs .sp = machine.hart.regs .sp + point.depth)
      (csrs : hart.csrs = Function.update machine.hart.csrs .sepc
        ((point.value machine.hart.regs machine.hart.mem .userPc + 4) % wordLimit))
      (mem : ∀ a, hart.mem a ≠ machine.hart.mem a → layout.HandlerWrites machine.current a) :
      Reach code layout { machine with hart } records
  -- `kernel_entry` loads all registers from the frame and returns to user mode.
  | leave {machine : Machine} {records : List Record}
      (before : Reach code layout machine records) (running : machine.mode = .kernel)
      (here : machine.hart.pc = code.afterCall) :
      Reach code layout ⟨machine.hart.line kernelLeave, .user, machine.current⟩ records

end Os1k.C
