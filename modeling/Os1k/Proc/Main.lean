import Os1k.Lib.Text
import Os1k.Proc.Capacity

/-! The kernel from boot on: what `kernel_main` sets up, and the two processes that take turns. -/

namespace Os1k

open Riscv
open Memory (LiveBlock)

/-- Why a hart does not go on. -/
inductive Halt where
  /-- It is not the first hart. -/
  | spins
  /-- It waits for interrupts after a panic. -/
  | waits
  /-- A check failed, which the handler of panics reports before it waits. -/
  | faults (fault : Fault)
  deriving DecidableEq, Repr

/-- The statics of the kernel, the hart that runs it, and what the console has shown. -/
structure Computer where
  memory : Option Memory
  procTable : Option ProcTable
  ram : Nat → Nat
  trace : List Event
  regs : Reg → Nat
  csrs : Csr → Nat
  pc : Nat
  console : List UInt8

/-- Have the firmware show a character. -/
def putchar (ch : Char) : Exec Halt Computer Unit :=
  modify fun computer => { computer with console := computer.console ++ [ch.toUInt8] }

/-- Write a text to the console, character by character. -/
def Writer.writeStr (s : String) : Exec Halt Computer Unit := forM s.toList putchar

/-- Print the pieces of a formatted text. -/
def print (pieces : List String) : Exec Halt Computer Unit := forM pieces Writer.writeStr

/-- Print a text and end the line. -/
def println (text : String) : Exec Halt Computer Unit := print [text, "\n"]

/-- Report where the kernel gives up, and wait for good. -/
def panicAt (file : String) (line : Nat) (text : String) : Exec Halt Computer Unit := do
  print ["PANIC: ", file, ":", toString line, ": ", text]
  throw .waits

/-- Zero the bytes of a range. -/
def writeZeros (start stop : Nat) : Exec Halt Computer Unit :=
  modify fun computer =>
    { computer with ram := fun a => if start ≤ a ∧ a < stop then 0 else computer.ram a }

/--
Build the allocator of free RAM, unless there is one.

Its own memory was cleared before. What it writes there is kept in `Memory` and not in RAM: zeros for
the stack of the search, and for every node the byte 1, which stands for `Free`.
-/
def memInit (profile : Profile) (bssEnd : Nat) : Exec Halt Computer Unit := do
  if (← get).memory = none then
    match (Memory.new profile (some (Ld.freeRam bssEnd)) (some (Ld.freeRamEnd bssEnd))
        (some (Ld.allocatorMem bssEnd)) (some (Ld.allocatorMemEnd bssEnd))).run [] with
    | .ok memory _ => modify fun computer => { computer with memory := some memory }
    | .error fault _ => throw (.faults fault)

/-- Run a part of the kernel, which cannot build the allocator if boot did not. -/
def onKernel {α : Type} (part : Exec Fault Kernel α) : Exec Halt Computer α := fun computer =>
  match computer.memory with
  | none => .error (.faults .noAllocMemStart) computer
  | some memory =>
    match part.run ⟨memory, computer.ram, computer.trace⟩ with
    | .ok value kernel =>
      .ok value
        { computer with memory := some kernel.memory, ram := kernel.ram, trace := kernel.trace }
    | .error fault kernel =>
      .error (.faults fault)
        { computer with memory := some kernel.memory, ram := kernel.ram, trace := kernel.trace }

/-- The parts of a computer that are a machine, with what its console has shown. -/
def Machine.computer (machine : Machine) (console : List UInt8) : Computer where
  memory := some machine.kernel.memory
  procTable := some machine.procs
  ram := machine.kernel.ram
  trace := machine.kernel.trace
  regs := machine.regs
  csrs := machine.csrs
  pc := machine.pc
  console := console

/-- Run a part of the kernel that works on the hart as well. -/
def onMachine {α : Type} (procs : ProcTable) (part : Exec Fault Machine α) :
    Exec Halt Computer α := fun computer =>
  match computer.memory with
  | none => .error (.faults .noAllocMemStart) computer
  | some memory =>
    match part.run ⟨⟨memory, computer.ram, computer.trace⟩, procs, computer.regs, computer.csrs,
        computer.pc⟩ with
    | .ok value machine => .ok value (machine.computer computer.console)
    | .error fault machine => .error (.faults fault) (machine.computer computer.console)

section Layout

variable [VecLayout] [layout : ProcLayout]

/-- The process table, which is made when it is asked for the first time. -/
def procInit (profile : Profile) : Exec Halt Computer ProcTable := do
  match (← get).procTable with
  | some procs => return procs
  | none =>
    let procs ← onKernel (ProcTable.new profile)
    modify fun computer => { computer with procTable := some procs }
    return procs

/-- Create a process. -/
def procNew (profile : Profile) (image : Image) (pc : Nat) : Exec Halt Computer Unit := do
  let procs ← procInit profile
  let _ ← onKernel (procs.createProcess profile image pc)

/-- Let another process run. -/
def giveUp (profile : Profile) : Exec Halt Computer Unit := do
  let procs ← procInit profile
  onMachine procs Machine.giveUp

/-- What the first hart clears and builds before anything else, while other harts spin. -/
def kernelInit (profile : Profile) (bss bssEnd hartId : Nat) : Exec Halt Computer Unit := do
  if hartId ≠ 0 then
    print ["hart_id:", toString hartId, "\n"]
    throw .spins
  writeZeros bss bssEnd
  writeZeros (Ld.allocatorMem bssEnd) (Ld.allocatorMemEnd bssEnd)
  writeZeros (Ld.freeRam bssEnd) (Ld.freeRamEnd bssEnd)
  memInit profile bssEnd
  let _ ← procInit profile

/-- What boot does before it gives up the hart. -/
def kernelMain (profile : Profile) (bss bssEnd procA procB hartId : Nat) :
    Exec Halt Computer Unit := do
  kernelInit profile bss bssEnd hartId
  println "Hello, World!"
  -- The idle process has no entry, since it is boot that goes on in its slot.
  procNew profile (kernelImage bssEnd) 0
  procNew profile (kernelImage bssEnd) procA
  procNew profile (kernelImage bssEnd) procB

/--
What the process in a slot does with one turn.

Boot gives up the hart, and panics if it is ever given it back. The other two are loops that print
a letter and give up.
-/
def takeTurn (profile : Profile) (left : Bool) : Exec Halt Computer Unit := do
  match (← procInit profile).currProcIdx with
  | 0 =>
    if left then
      panicAt "src/kernel.rs" 107 "switched to idle proc"
    giveUp profile
  | 1 =>
    print ["a"]
    giveUp profile
  | _ =>
    print ["b"]
    giveUp profile

/-- Where the process that has the hart may write. -/
def Computer.Writes (image : Image) (computer : Computer) (a : Nat) : Prop :=
  ∃ machine console, computer = Machine.computer machine console ∧ machine.Writes image a

/-- The stack of the process that has the hart has room for the frame of a context switch. -/
def Computer.Room (image : Image) (computer : Computer) : Prop :=
  ∃ machine console, computer = Machine.computer machine console ∧ machine.Room image

/--
The kernel from boot on, with the number of turns so far.

Between two turns, the process that has the hart does what it likes in the places that are its own.
-/
inductive Session (profile : Profile) (bss bssEnd procA procB : Nat) (shown : List UInt8) :
    Computer → Nat → Prop where
  | boot {start after : Computer} (loaded : start.memory = none ∧ start.procTable = none)
      (clear : start.console = shown)
      (ran : (kernelMain profile bss bssEnd procA procB 0).run start = .ok () after) :
      Session profile bss bssEnd procA procB shown after 0
  | work {computer : Computer} {turns : Nat} {ram : Nat → Nat} {regs : Reg → Nat}
      {csrs : Csr → Nat} {pc : Nat}
      (before : Session profile bss bssEnd procA procB shown computer turns)
      (own : ∀ a, ram a ≠ computer.ram a → computer.Writes (kernelImage bssEnd) a) :
      Session profile bss bssEnd procA procB shown
        { computer with ram := ram, regs := regs, csrs := csrs, pc := pc } turns
  | turn {computer after : Computer} {turns : Nat}
      (before : Session profile bss bssEnd procA procB shown computer turns)
      (room : computer.Room (kernelImage bssEnd))
      (ran : (takeTurn profile (0 < turns)).run computer = .ok () after) :
      Session profile bss bssEnd procA procB shown after (turns + 1)

/-- The first letters that are printed. -/
def letters (n : Nat) : List UInt8 :=
  (List.range n).map fun i => if i % 2 = 0 then 'a'.toUInt8 else 'b'.toUInt8

/-- The slot that has the hart after some turns. -/
def seatAfter : Nat → Nat
  | 0 => 0
  | turns + 1 => if turns % 2 = 0 then 1 else 2

omit [VecLayout] layout

/-- Printing shows the pieces one after the other. -/
theorem run_print (pieces : List String) (computer : Computer) :
    (print pieces).run computer =
      .ok () { computer with console := computer.console ++ pieces.flatMap Text.bytes } := by
  -- A piece is shown character by character.
  have piece : ∀ (chars : List Char) (computer : Computer),
      EStateM.run (forM chars putchar) computer =
        .ok () { computer with console := computer.console ++ chars.map Char.toUInt8 } := by
    intro chars
    induction chars with
    | nil => simp
    | cons ch chars ih =>
      intro computer
      rw [List.forM_cons, EStateM.run_bind]
      show EStateM.run (forM chars putchar) _ = _
      rw [ih]
      simp
  unfold print
  induction pieces generalizing computer with
  | nil => simp
  | cons text pieces ih =>
    rw [List.forM_cons, EStateM.run_bind, Writer.writeStr, piece]
    simp only
    rw [ih]
    simp [Text.bytes]

/-- Clearing a range leaves all else. -/
theorem run_writeZeros (start stop : Nat) (computer : Computer) :
    (writeZeros start stop).run computer =
      .ok ()
        { computer with ram := fun a => if start ≤ a ∧ a < stop then 0 else computer.ram a } :=
  rfl

/-- A part of the kernel that returns changes the memory that the computer has. -/
theorem run_onKernel {α : Type} {part : Exec Fault Kernel α} {computer : Computer}
    {memory : Memory} {value : α} {kernel : Kernel} (built : computer.memory = some memory)
    (ran : part.run ⟨memory, computer.ram, computer.trace⟩ = .ok value kernel) :
    (onKernel part).run computer = .ok value
      { computer with memory := some kernel.memory, ram := kernel.ram, trace := kernel.trace } := by
  show onKernel part computer = _
  simp only [onKernel, built, ran]

variable [VecLayout] [layout : ProcLayout] {profile : Profile} {bss bssEnd procA procB : Nat}
  {shown : List UInt8} {computer : Computer} {machine : Machine} {turns : Nat}

omit [VecLayout] layout in
/-- Printing leaves the machine alone. -/
theorem run_show (pieces : List String) (machine : Machine) (console : List UInt8) :
    (print pieces).run (machine.computer console) =
      .ok () (machine.computer (console ++ pieces.flatMap Text.bytes)) :=
  run_print pieces _

/-- The process table of a machine is there. -/
theorem run_procInit (profile : Profile) (machine : Machine) (console : List UInt8) :
    (procInit profile).run (machine.computer console) =
      .ok machine.procs (machine.computer console) := by
  -- What is there is not made again.
  unfold procInit
  rw [EStateM.run_bind, EStateM.run_get]
  rfl

/-- The process table is made by the first who asks for it. -/
theorem run_procInit_first {memory : Memory} {procs : ProcTable} {kernel : Kernel}
    (unmade : computer.procTable = none) (built : computer.memory = some memory)
    (made : (ProcTable.new profile).run ⟨memory, computer.ram, computer.trace⟩ =
      .ok procs kernel) :
    (procInit profile).run computer = .ok procs
      (Machine.computer ⟨kernel, procs, computer.regs, computer.csrs, computer.pc⟩
        computer.console) := by
  -- There is none yet, so that it is made and kept.
  unfold procInit
  rw [EStateM.run_bind, EStateM.run_get]
  simp only [unmade]
  rw [EStateM.run_bind, run_onKernel built made]
  rfl

/-- Creating a process changes the memory of the machine. -/
theorem run_procNew {image : Image} {kernel : Kernel} {pc i : Nat} (console : List UInt8)
    (ran : (machine.procs.createProcess profile image pc).run machine.kernel = .ok i kernel) :
    (procNew profile image pc).run (machine.computer console) =
      .ok () (Machine.computer { machine with kernel } console) := by
  -- The slot that the process is given is not used further.
  unfold procNew
  rw [EStateM.run_bind, run_procInit]
  simp only
  rw [EStateM.run_bind, run_onKernel (rfl : (machine.computer console).memory = _) ran]
  rfl

/-- Giving up the hart is up to the machine. -/
theorem run_giveUp {after : Machine} (profile : Profile) (console : List UInt8)
    (ran : Machine.giveUp.run machine = .ok () after) :
    (giveUp profile).run (machine.computer console) = .ok () (after.computer console) := by
  unfold giveUp
  rw [EStateM.run_bind, run_procInit]
  -- The table exists already, so `init` returns it and the rest is the machine's own `give_up`.
  show onMachine machine.procs Machine.giveUp (machine.computer console) = _
  have same : Machine.giveUp.run ⟨⟨machine.kernel.memory, machine.kernel.ram, machine.kernel.trace⟩,
      machine.procs, machine.regs, machine.csrs, machine.pc⟩ = .ok () after := ran
  simp only [onMachine, Machine.computer, same]

/-- The first hart clears free RAM, builds the allocator, and makes room for processes. -/
theorem run_kernelInit (profile : Profile) (fits : Ld.Fits bssEnd) (bss : Nat)
    (loaded : computer.memory = none ∧ computer.procTable = none) :
    ∃ procs made ready slot,
      (kernelInit profile bss bssEnd 0).run computer =
        .ok () (Machine.computer ⟨made, procs, computer.regs, computer.csrs, computer.pc⟩
          computer.console) ∧
      (procs.createProcess profile (kernelImage bssEnd) 0).run made = .ok 0 ready ∧
      procs.currProcIdx = 0 ∧
      ∀ regs csrs pc, Run profile (kernelImage bssEnd) Machine.Selects
        ⟨ready, procs, regs, csrs, pc⟩ [slot] := by
  obtain ⟨none, empty⟩ := loaded
  obtain ⟨memory, written, built, arena⟩ := kernelImage_arena profile fits
  -- Free RAM is cleared last.
  let earlier (a : Nat) : Nat :=
    if Ld.allocatorMem bssEnd ≤ a ∧ a < Ld.allocatorMemEnd bssEnd then 0
    else if bss ≤ a ∧ a < bssEnd then 0 else computer.ram a
  let cleared : Computer :=
    { computer with
      ram := fun a => if Ld.freeRam bssEnd ≤ a ∧ a < Ld.freeRamEnd bssEnd then 0 else earlier a }
  let kernel : Kernel := ⟨memory, cleared.ram, computer.trace⟩
  have managed : Memory.PowerArena profile (kernelImage bssEnd).freeRam
      (kernelImage bssEnd).freeRamEnd kernel.memory := arena
  have zero : ∀ a, (kernelImage bssEnd).freeRam ≤ a → a < (kernelImage bssEnd).freeRamEnd →
      kernel.ram a = 0 := by
    intro a low high
    rw [kernelImage_freeRam] at low
    rw [kernelImage_freeRamEnd] at high
    exact if_pos ⟨low, high⟩
  obtain ⟨procs, made, ready, slot, table, idle, current, run⟩ := Run.boot_returns Machine.Selects
    (kernelImage_linked fits) (kernelImage_roomy fits) managed zero
  refine ⟨procs, made, ready, slot, ?_, idle, current, run⟩
  -- The three ranges are cleared one after the other.
  have started : (kernelInit profile bss bssEnd 0).run computer = EStateM.run (do
      memInit profile bssEnd
      let _ ← procInit profile) cleared := by
    unfold kernelInit
    rw [if_neg (not_not.mpr rfl), EStateM.run_bind, run_writeZeros]
    simp only
    rw [EStateM.run_bind, run_writeZeros]
    simp only
    rw [EStateM.run_bind, run_writeZeros]
  -- Neither the allocator nor the process table is there before.
  have allocator : (memInit profile bssEnd).run cleared =
      .ok () { cleared with memory := some memory } := by
    unfold memInit
    rw [EStateM.run_bind, EStateM.run_get]
    have unbuilt : cleared.memory = .none := none
    simp only [unbuilt, if_true]
    rw [kernelImage_freeRam, kernelImage_freeRamEnd] at built
    rw [built]
    rfl
  have makes : (procInit profile).run { cleared with memory := some memory } = .ok procs
      (Machine.computer ⟨made, procs, computer.regs, computer.csrs, computer.pc⟩
        computer.console) :=
    run_procInit_first empty rfl table
  rw [started, EStateM.run_bind, allocator]
  simp only
  rw [EStateM.run_bind, makes]
  rfl

/-- Boot greets, and creates the idle process and two more. -/
theorem run_kernelMain (profile : Profile) (fits : Ld.Fits bssEnd) (bss procA procB : Nat)
    (loaded : computer.memory = none ∧ computer.procTable = none) :
    ∃ machine idle first second,
      (kernelMain profile bss bssEnd procA procB 0).run computer =
        .ok () (machine.computer (computer.console ++ Text.bytes "Hello, World!\n")) ∧
      Run profile (kernelImage bssEnd) Machine.Selects machine
        [idle, ⟨first, .fresh procA⟩, ⟨second, .fresh procB⟩] ∧
      machine.procs.currProcIdx = 0 := by
  obtain ⟨procs, made, ready, idle, initialised, created, current, run⟩ :=
    run_kernelInit profile fits bss loaded
  have linked := kernelImage_linked fits
  have roomy := kernelImage_roomy fits
  -- The slots are taken in order, and each creation makes the run longer.
  have one := run computer.regs computer.csrs computer.pc
  obtain ⟨more, firstCreated⟩ := one.createProcess_next linked roomy (by decide : 1 < procMax) procA
  have two := Run.new one firstCreated
  obtain ⟨most, secondCreated⟩ := two.createProcess_next linked roomy (by decide : 2 < procMax) procB
  have three := Run.new two secondCreated
  refine ⟨_, idle, _, _, ?_, three, current⟩
  have greeting : ["Hello, World!", "\n"].flatMap Text.bytes = Text.bytes "Hello, World!\n" := by
    decide
  have greets := run_show ["Hello, World!", "\n"]
    ⟨made, procs, computer.regs, computer.csrs, computer.pc⟩ computer.console
  rw [greeting] at greets
  -- Between the creations, only the greeting goes to the console.
  unfold kernelMain println
  rw [EStateM.run_bind, initialised]
  simp only
  rw [EStateM.run_bind, greets]
  simp only
  rw [EStateM.run_bind, run_procNew _ created]
  simp only
  rw [EStateM.run_bind, run_procNew _ firstCreated]
  exact run_procNew _ secondCreated

omit [VecLayout] layout in
/-- A computer has one machine and one console. -/
theorem Machine.computer_inj {machine other : Machine} {console text : List UInt8}
    (same : machine.computer console = other.computer text) : machine = other ∧ console = text := by
  -- Each part of the machine is a part of the computer.
  obtain ⟨⟨_, _, _⟩, _, _, _, _⟩ := machine
  obtain ⟨⟨_, _, _⟩, _, _, _, _⟩ := other
  simp only [computer, Computer.mk.injEq, Option.some.injEq] at same
  obtain ⟨rfl, rfl, rfl, rfl, rfl, rfl, rfl, rfl⟩ := same
  exact ⟨rfl, rfl⟩

omit [VecLayout] layout in
/-- The letters alternate. -/
theorem letters_succ (n : Nat) :
    letters (n + 1) = letters n ++ [if n % 2 = 0 then 'a'.toUInt8 else 'b'.toUInt8] := by
  simp [letters, List.range_succ]

/-- How a computer stands after some turns: which slot has the hart, and what was printed. -/
structure Stands (profile : Profile) (bssEnd procA procB : Nat) (shown : List UInt8)
    (computer : Computer) (turns : Nat) (machine : Machine) (slots : List Slot) : Prop where
  state : computer =
    machine.computer (shown ++ Text.bytes "Hello, World!\n" ++ letters (turns - 1))
  run : Run profile (kernelImage bssEnd) Machine.Selects machine slots
  count : slots.length = 3
  current : machine.procs.currProcIdx = seatAfter turns
  first : turns = 0 → ∃ table, slots[1]? = some ⟨table, .fresh procA⟩
  second : turns ≤ 1 → ∃ table, slots[2]? = some ⟨table, .fresh procB⟩

namespace Stands

variable {slots : List Slot}

/-- The scheduler alternates between the two processes. -/
theorem select (stands : Stands profile bssEnd procA procB shown computer turns machine slots) :
    (machine.procs.sched machine.kernel.ram).select = seatAfter (turns + 1) := by
  -- All three slots are taken, so that the work is in the slots behind the first one.
  obtain ⟨_, _, tracked⟩ := stands.run.tracked
  have states := tracked.sched_states
  rw [stands.count] at states
  have work : (machine.procs.sched machine.kernel.ram).work = 1 :: 2 :: [] := by
    rw [Sched.work, states]
    rfl
  have current : (machine.procs.sched machine.kernel.ram).curr = seatAfter turns := stands.current
  rw [Sched.select_pair work, current]
  cases turns with
  | zero => rfl
  | succ turns =>
    rw [seatAfter, seatAfter]
    by_cases even : turns % 2 = 0
    · rw [if_pos even, if_pos rfl, if_neg (by omega)]
    · rw [if_neg even, if_neg (by omega), if_pos (by omega)]

/-- With room on its stack, the process that has the hart gives it up to the other one. -/
theorem giveUp (stands : Stands profile bssEnd procA procB shown computer turns machine slots)
    (room : machine.Room (kernelImage bssEnd)) :
    ∃ after, Machine.giveUp.run machine = .ok () after ∧
      Run profile (kernelImage bssEnd) Machine.Selects after
        (leave slots machine.procs.currProcIdx machine.regs) ∧
      after.procs.currProcIdx = seatAfter (turns + 1) ∧
      ∀ slot, slots[seatAfter (turns + 1)]? = some slot →
        seatAfter (turns + 1) ≠ machine.procs.currProcIdx → ∀ pc, slot.context = .fresh pc →
        after.pc = pc := by
  obtain ⟨_, _, tracked⟩ := stands.run.tracked
  have select := stands.select
  have seat : seatAfter (turns + 1) < slots.length := by
    rw [stands.count, seatAfter]
    by_cases even : turns % 2 = 0
    · rw [if_pos even]
      omega
    · rw [if_neg even]
      omega
  obtain ⟨after, ran, _, procs, _, _, resumed⟩ := tracked.giveUp room seat
  -- What is selected is the slot whose turn it is.
  have selected : Machine.giveUp.run machine =
      (Machine.giveUpTo (seatAfter (turns + 1))).run machine := by
    rw [Machine.giveUp, EStateM.run_bind, EStateM.run_get]
    simp only
    rw [EStateM.run_bind, Machine.run_lift (ProcTable.run_selectNext _ _), select]
  have eligible : machine.Eligible (seatAfter (turns + 1)) := by
    have inside := Nat.lt_of_lt_of_le seat tracked.count
    exact .inr ⟨by rw [tracked.seated.cap]; exact inside, (tracked.taken_iff inside).mpr seat⟩
  refine ⟨after, selected.trans ran, .giveUp stands.run room eligible select.symm ran,
    by rw [procs], ?_⟩
  -- A process that has not run yet is entered where it was created to start.
  intro slot found other pc fresh
  have left : (leave slots machine.procs.currProcIdx machine.regs)[seatAfter (turns + 1)]? =
      some slot := by
    rw [leave_other other, found]
  have resumes := Machine.resumes (resumed slot left).2
  rw [fresh] at resumes
  exact resumes.1

/-- A turn goes on to the next one, and to a process that starts if it has not run yet. -/
theorem turn (stands : Stands profile bssEnd procA procB shown computer turns machine slots)
    (room : machine.Room (kernelImage bssEnd)) :
    ∃ after machine' slots', (takeTurn profile (0 < turns)).run computer = .ok () after ∧
      Stands profile bssEnd procA procB shown after (turns + 1) machine' slots' ∧
      (turns = 0 → after.pc = procA) ∧ (turns = 1 → after.pc = procB) := by
  obtain ⟨after, gave, run, current, started⟩ := stands.giveUp room
  have was := stands.current
  -- Each process prints its own letter, and boot none.
  have ran : (takeTurn profile (0 < turns)).run computer =
      .ok () (after.computer (shown ++ Text.bytes "Hello, World!\n" ++ letters turns)) := by
    unfold takeTurn
    rw [stands.state, EStateM.run_bind, run_procInit]
    simp only [was]
    cases turns with
    | zero => exact run_giveUp profile _ gave
    | succ turns =>
      rw [seatAfter, Nat.add_sub_cancel, letters_succ, ← List.append_assoc]
      by_cases even : turns % 2 = 0
      · rw [if_pos even, if_pos even]
        simp only
        rw [EStateM.run_bind, run_show]
        exact run_giveUp profile _ gave
      · rw [if_neg even, if_neg even]
        simp only
        rw [EStateM.run_bind, run_show]
        exact run_giveUp profile _ gave
  refine ⟨_, after, _, ran, ⟨rfl, run, by rw [leave_length, stands.count], current, nofun, ?_⟩,
    ?_, ?_⟩
  -- The second process waits for one turn more.
  · intro early
    obtain rfl : turns = 0 := by omega
    obtain ⟨table, found⟩ := stands.second (by omega)
    have other : 2 ≠ machine.procs.currProcIdx := by
      rw [was]
      decide
    exact ⟨table, by rw [leave_other other, found]⟩
  · rintro rfl
    obtain ⟨table, found⟩ := stands.first rfl
    exact started _ found (by rw [was]; decide) procA rfl
  · rintro rfl
    obtain ⟨table, found⟩ := stands.second (by omega)
    exact started _ found (by rw [was]; decide) procB rfl

end Stands

/-- However a session goes, the computer stands as it should after that many turns. -/
theorem Session.stands (fits : Ld.Fits bssEnd)
    (session : Session profile bss bssEnd procA procB shown computer turns) :
    ∃ machine slots, Stands profile bssEnd procA procB shown computer turns machine slots := by
  -- The induction is on the session, and only a turn changes what is said of the computer.
  induction session with
  | @boot start after loaded clear ran =>
    obtain ⟨machine, idle, first, second, booted, run, current⟩ :=
      run_kernelMain profile fits bss procA procB loaded
    rw [ran, EStateM.Result.ok.injEq] at booted
    rw [booted.2, clear]
    exact ⟨machine, _, by simp [letters], run, rfl, current, fun _ => ⟨first, rfl⟩,
      fun _ => ⟨second, rfl⟩⟩
  -- What the process writes is up to it, within its own places.
  | @work computer turns ram regs csrs pc before own ih =>
    obtain ⟨machine, slots, stands⟩ := ih
    have state := stands.state
    refine ⟨{ machine with
        kernel := { machine.kernel with ram }, regs := regs, csrs := csrs, pc := pc }, slots, ?_,
      .work stands.run fun a changed => ?_, stands.count, stands.current, stands.first,
      stands.second⟩
    · rw [state]
      rfl
    · rw [state] at own
      obtain ⟨other, console, same, writes⟩ := own a changed
      rw [(Machine.computer_inj same).1]
      exact writes
  | @turn computer after turns before room ran ih =>
    obtain ⟨machine, slots, stands⟩ := ih
    obtain ⟨other, console, same, enough⟩ := room
    rw [stands.state] at same
    rw [← (Machine.computer_inj same).1] at enough
    obtain ⟨reached, _, _, turned, next, _⟩ := stands.turn enough
    rw [ran, EStateM.Result.ok.injEq] at turned
    rw [turned.2]
    exact ⟨_, _, next⟩

/--
The kernel boots and then runs its two processes for good.

Wherever the sections of the kernel end, the first hart greets and creates three processes, whatever
RAM and registers held. From then on, every turn goes well as long as the stack of the process that
has the hart has room. The hart enters one process and then the other, these alternate in printing
a letter each, and slot 0 never gets the hart back, so that the kernel never panics.
-/
theorem Session.prints (fits : Ld.Fits bssEnd) :
    (∀ start : Computer, start.memory = none → start.procTable = none →
      ∃ after, (kernelMain profile bss bssEnd procA procB 0).run start = .ok () after) ∧
    ∀ shown computer turns, Session profile bss bssEnd procA procB shown computer turns →
      computer.console = shown ++ Text.bytes "Hello, World!\n" ++ letters (turns - 1) ∧
      (computer.procTable.map ProcTable.currProcIdx) = some (seatAfter turns) ∧
      (computer.Room (kernelImage bssEnd) → ∃ after,
        (takeTurn profile (0 < turns)).run computer = .ok () after ∧
        (turns = 0 → after.pc = procA) ∧ (turns = 1 → after.pc = procB)) := by
  refine ⟨fun start unbuilt unmade => ?_, fun shown computer turns session => ?_⟩
  · -- Boot from a computer whose statics are not set.
    obtain ⟨_, _, _, _, booted, _⟩ :=
      run_kernelMain profile fits bss procA procB ⟨unbuilt, unmade⟩
    exact ⟨_, booted⟩
  · -- Any later state stands for a machine of a run, with two processes beside the idle one.
    obtain ⟨machine, slots, stands⟩ := session.stands fits
    refine ⟨by rw [stands.state]; rfl, ?_, fun room => ?_⟩
    · rw [stands.state, ← stands.current]
      rfl
    · -- With room on its stack the current process ends its turn, and the next one starts.
      obtain ⟨other, console, same, enough⟩ := room
      rw [stands.state] at same
      rw [← (Machine.computer_inj same).1] at enough
      obtain ⟨after, _, _, turned, _, entered⟩ := stands.turn enough
      exact ⟨after, turned, entered⟩

end Layout

/-- With the sections of the kernel in sixty-four kilobytes, boot hands the hart to the first process. -/
theorem Session.prints_first : letI := declaredLayout; letI := declaredProcLayout
    ∃ computer after,
      Session .dev 0x80208000 0x80210000 0x80201000 0x80202000 [] computer 0 ∧
      computer.console = Text.bytes "Hello, World!\n" ∧
      (takeTurn .dev false).run computer = .ok () after ∧ after.pc = 0x80201000 := by
  let := declaredLayout
  let := declaredProcLayout
  have fits : Ld.Fits 0x80210000 := ⟨by decide, by decide⟩
  let start : Computer := ⟨none, none, fun _ => 1, [], fun _ => 2, fun _ => 3, 4, []⟩
  obtain ⟨boots, prints⟩ :=
    @Session.prints _ _ .dev 0x80208000 0x80210000 0x80201000 0x80202000 fits
  obtain ⟨booted, ran⟩ := boots start rfl rfl
  -- Boot has used some of its stack when it gives up the hart.
  have session : Session .dev 0x80208000 0x80210000 0x80201000 0x80202000 []
      { booted with regs := fun _ => 0x80220000 } 0 :=
    .work (.boot ⟨rfl, rfl⟩ rfl ran) fun a changed => absurd rfl changed
  obtain ⟨machine, slots, stands⟩ := session.stands fits
  have regs : machine.regs .sp = 0x80220000 :=
    (congrArg (fun computer => computer.regs .sp) stands.state).symm
  have room : machine.Room (kernelImage 0x80210000) := by
    have seat : seatAfter 0 = 0 := rfl
    rw [Machine.Room, stackLow, stackHigh, stands.current, regs, seat, if_pos rfl, if_pos rfl]
    show alignTo 4 0x80210000 + 13 * 4 ≤ 0x80220000 ∧ 0x80220000 ≤ Ld.stackTop 0x80210000
    decide
  obtain ⟨shows, _, turns⟩ := prints _ _ _ session
  obtain ⟨after, turned, entered, _⟩ := turns ⟨machine, _, stands.state, room⟩
  exact ⟨_, after, session, shows, turned, entered rfl⟩

end Os1k
