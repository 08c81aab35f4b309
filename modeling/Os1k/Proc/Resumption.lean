import Os1k.Proc.Switching
import Os1k.Vm.History

/-! Whole runs of processes that take turns: each is resumed as it was left. -/

namespace Os1k

open Riscv
open Memory (LiveBlock)

section Layout

variable [VecLayout] [layout : ProcLayout]

/-- Every state that a run reaches is tracked. -/
theorem Run.tracked {profile : Profile} {image : Image} {policy : Machine → Nat → Prop}
    {machine : Machine} {slots : List Slot} (run : Run profile image policy machine slots) :
    ∃ depth live, Tracked image machine slots depth live := by
  induction run with
  -- At boot there is the idle process alone, and it runs.
  | boot arena zero table idle =>
    obtain ⟨current, depth, live, furnished⟩ := Furnished.boot arena zero table
    obtain ⟨_, taken, created, _⟩ := furnished.create idle
    refine ⟨depth, taken ++ live, created, ?_, ?_⟩
    · simp [current]
    · intro i slot known other
      have bound := (List.getElem?_eq_some_iff.mp known).1
      simp only [List.length_singleton, current] at bound other
      omega
  -- Work stays in the places of the process that runs.
  | work before own ih =>
    obtain ⟨depth, live, tracked⟩ := ih
    refine ⟨depth, live, tracked.change (fun a changed => ?_) _ _ _⟩
    rcases own a changed with stack | elsewhere
    · exact .inl stack
    · exact .inr (.inr elsewhere)
  -- A new process waits at its entry, and the others keep waiting.
  | @new machine slots kernel pc i before ran ih =>
    obtain ⟨depth, live, tracked⟩ := ih
    obtain ⟨next, taken, created, started, kept⟩ := tracked.create ran
    have current := tracked.current
    refine ⟨depth, taken ++ live, created, ?_, ?_⟩
    · rw [List.length_append]
      exact Nat.lt_of_lt_of_le current (Nat.le_add_right _ _)
    · intro j slot known other
      by_cases old : j < slots.length
      · rw [List.getElem?_append_left old] at known
        exact kept j old _ (tracked.suspended j slot known other)
      · have bound := (List.getElem?_eq_some_iff.mp known).1
        rw [List.length_append, List.length_singleton] at bound
        have last : j = slots.length := by omega
        rw [last, List.getElem?_concat_length, Option.some.injEq] at known
        rw [← known, last, ← next]
        exact started (by omega)
  -- The process that gives up its turn is suspended, and the other one is not any more.
  | @giveUp machine after slots next before room eligible chosen ran ih =>
    obtain ⟨depth, live, tracked⟩ := ih
    have known := tracked.known eligible
    obtain ⟨reached, resumed, turned, _⟩ := tracked.giveUp room known
    rw [ran, EStateM.Result.ok.injEq] at resumed
    rw [resumed.2]
    exact ⟨depth, live, turned⟩

/-- The slots set up come first among the states, and the rest are not taken. -/
theorem Furnished.sched_states {image : Image} {kernel : Kernel} {procs : ProcTable}
    {slots : List Slot} {depth : Nat} {live : List LiveBlock}
    (furnished : Furnished image kernel procs slots depth live) :
    (procs.sched kernel.ram).states =
      List.replicate slots.length .runnable ++ List.replicate (procMax - slots.length) .unused := by
  have count := furnished.count
  have cap := furnished.seated.cap
  have length : (procs.sched kernel.ram).states.length = procMax := by simp [ProcTable.sched, cap]
  apply List.ext_getElem?
  intro i
  -- Up to the capacity, a slot is taken exactly when it was set up.
  by_cases inside : i < procMax
  · have listed := ProcTable.sched_state kernel.ram (by omega : i < procs.table.cap)
    have taken := furnished.taken_iff inside
    rw [listed] at taken ⊢
    by_cases known : i < slots.length
    · rw [taken.mpr known, List.getElem?_append_left (by simpa using known),
        List.getElem?_replicate_of_lt known]
    · rw [List.getElem?_append_right (by simpa using known),
        List.getElem?_replicate_of_lt (by simp only [List.length_replicate]; omega)]
      cases state : (Elem.read kernel.ram (procs.table.slotAddr i) : Process).state with
      | unused => rfl
      | runnable =>
        rw [state] at taken
        exact absurd (taken.mp rfl) known
  · rw [List.getElem?_eq_none (by omega), List.getElem?_eq_none]
    simp only [List.length_append, List.length_replicate]
    omega

/-- The policy of `give_up`. -/
def Machine.Selects (machine : Machine) (next : Nat) : Prop :=
  next = (machine.procs.sched machine.kernel.ram).select

/-- Along the runs of the kernel's own scheduler, the table goes through the states of scheduling. -/
theorem Run.sched {profile : Profile} {image : Image} {machine : Machine} {slots : List Slot}
    (run : Run profile image Machine.Selects machine slots) :
    Sched.Reach procMax (machine.procs.sched machine.kernel.ram) := by
  -- What scheduling sees depends on the number of slots set up and on which one runs.
  have view : ∀ {machine : Machine} {slots : List Slot},
      Run profile image Machine.Selects machine slots →
      machine.procs.sched machine.kernel.ram =
        ⟨List.replicate slots.length .runnable ++ List.replicate (procMax - slots.length) .unused,
          machine.procs.currProcIdx⟩ := by
    intro machine slots run
    obtain ⟨_, _, tracked⟩ := run.tracked
    rw [← tracked.sched_states]
    rfl
  induction run with
  | @boot kernel made ready procs regs csrs pc i arena zero table idle =>
    have current := (Furnished.boot arena zero table).1
    rw [view (Run.boot arena zero table idle)]
    simp only [current]
    exact .idle (by decide)
  | work before own ih =>
    rw [view (Run.work before own)]
    rwa [view before] at ih
  -- The slot that creation takes is the one that the view finds next.
  | @new machine slots kernel pc i before ran ih =>
    obtain ⟨_, _, tracked⟩ := before.tracked
    obtain ⟨next, _, created, _⟩ := tracked.create ran
    have more : slots.length < procMax := by
      have count := created.count
      rw [List.length_append] at count
      exact count
    rw [view before] at ih
    have grown := Sched.Reach.create ih (Sched.nextUnused_replicate more _)
    rw [Sched.create_replicate more] at grown
    rw [view (Run.new before ran), List.length_append]
    exact grown
  -- The turn goes where the view selects, and the slots stay as they are.
  | @giveUp machine after slots next before room eligible chosen ran ih =>
    obtain ⟨_, _, tracked⟩ := before.tracked
    obtain ⟨_, resumed, _, procs, _⟩ := tracked.giveUp room (tracked.known eligible)
    rw [ran, EStateM.Result.ok.injEq] at resumed
    rw [view (Run.giveUp before room eligible chosen ran), resumed.2, procs]
    have turn := Sched.Reach.giveUp ih
    rw [← chosen, view before] at turn
    simpa [leave, Sched.turn] using turn

/--
In every run of the machine, `give_up` selects slot 0 only for want of work exactly when the process
that gives up is not the only one.
-/
theorem Run.want_of_work_iff {profile : Profile} {image : Image} {machine : Machine}
    {slots : List Slot} (run : Run profile image Machine.Selects machine slots) :
    ∃ next, machine.procs.selectNext.run machine.kernel = .ok next machine.kernel ∧
      ((next = 0 → ∀ i, 1 ≤ i →
          (machine.procs.sched machine.kernel.ram).states[i]? ≠ some .runnable) ↔
        machine.procs.currProcIdx = 0 ∨ ∃ i, 1 ≤ i ∧ i ≠ machine.procs.currProcIdx ∧
          (machine.procs.sched machine.kernel.ram).states[i]? = some .runnable) :=
  ⟨_, machine.procs.run_selectNext machine.kernel, Sched.idle_for_want_of_work_iff run.sched⟩

/-- What a process finds when it runs again, or for the first time. -/
def Machine.Resumes (machine : Machine) (top : Nat) : Context → Prop
  | .fresh pc => machine.pc = pc ∧ (∀ r ∈ calleeSaved, machine.regs r = 0) ∧ machine.regs .sp = top
  | .left regs => machine.pc = regs .ra ∧ machine.regs .ra = regs .ra ∧
    (∀ r ∈ calleeSaved, machine.regs r = regs r) ∧ machine.regs .sp = regs .sp

omit [VecLayout] layout in
/-- A frame that was resumed is found in the registers. -/
theorem Machine.resumes {machine : Machine} {top : Nat} {context : Context}
    (resumed : Resumed machine.hart (context.regs top) (context.regs top .sp)) :
    machine.Resumes top context := by
  -- The frame of the switch has the return address and all callee-saved registers.
  have saved : ∀ r ∈ .ra :: calleeSaved, machine.regs r = context.regs top r := by
    intro r member
    obtain ⟨slot, found, rfl⟩ := mem_switchFrame r member
    exact resumed.saved slot found
  cases context with
  | fresh pc =>
    refine ⟨resumed.pc, fun r member => ?_, resumed.sp⟩
    rw [saved r (List.mem_cons_of_mem _ member)]
    have other : ∀ r ∈ calleeSaved, r ≠ .ra ∧ r ≠ .sp := by decide
    exact startRegs_other (other r member).1 (other r member).2
  | left regs =>
    exact ⟨resumed.pc, saved .ra List.mem_cons_self,
      fun r member => saved r (List.mem_cons_of_mem _ member), resumed.sp⟩

/--
Context switches are transparent to processes.

Whichever slot that may be selected is given the turn, it is one that creation set up and that has
its own page table and stack end installed. Its process goes on with the registers with which it
last called the context switch, or else starts afresh; slot 0 always goes on where boot left off.
What `give_up` selects is such a slot.
-/
theorem giveUp_transparent {profile : Profile} {image : Image} {policy : Machine → Nat → Prop}
    {machine : Machine} {slots : List Slot} (run : Run profile image policy machine slots)
    (room : machine.Room image) :
    (∃ next, machine.Eligible next ∧
      Machine.giveUp.run machine = (Machine.giveUpTo next).run machine) ∧
    ∀ next, machine.Eligible next → ∃ after slot process,
      (Machine.giveUpTo next).run machine = .ok () after ∧ after.procs.currProcIdx = next ∧
      (leave slots machine.procs.currProcIdx machine.regs)[next]? = some slot ∧
      (after.procs.table.index next).run after.kernel = .ok process after.kernel ∧
      process.state = .runnable ∧ process.pid = next ∧ process.pageTable = slot.table ∧
      after.csrs .satp = slot.table.satp ∧ after.csrs .sscratch = after.procs.stackEnd next ∧
      after.Resumes (after.procs.stackEnd next) slot.context ∧
      (next = 0 → ∃ regs, slot.context = .left regs) := by
  obtain ⟨depth, live, tracked⟩ := run.tracked
  refine ⟨⟨(machine.procs.sched machine.kernel.ram).select, ?_, ?_⟩, ?_⟩
  · -- What the scan finds can run, and else slot 0 is selected.
    rcases (machine.procs.sched machine.kernel.ram).select_spec with ⟨member, _⟩ | ⟨idle, _⟩
    · have state := (Sched.mem_work.mp member).2
      have inside := (List.getElem?_eq_some_iff.mp state).1
      rw [ProcTable.sched_length] at inside
      exact .inr ⟨inside, state⟩
    · exact .inl idle
  · -- Selecting leaves the machine alone.
    rw [Machine.giveUp, EStateM.run_bind, EStateM.run_get]
    simp only
    rw [EStateM.run_bind, Machine.run_lift (ProcTable.run_selectNext _ _)]
  · -- The slot was set up and its process is suspended, so it is resumed as it was left.
    intro next eligible
    have known := tracked.known eligible
    have inside := Nat.lt_of_lt_of_le known tracked.count
    obtain ⟨after, ran, turned, procs, satp, sscratch, resumed⟩ := tracked.giveUp room known
    obtain ⟨slot, found⟩ : ∃ slot, (leave slots machine.procs.currProcIdx machine.regs)[next]?
        = some slot := ⟨_, List.getElem?_eq_getElem (by simpa [leave] using known)⟩
    obtain ⟨old, was, table, _⟩ := leave_some found
    obtain ⟨started, registers⟩ := resumed slot found
    -- The slot names what was prepared for the process, whoever ran in between.
    have prepared := turned.prepared next slot found
    have addr := ProcTable.slotAddr_slot turned.seated turned.memory.placed inside
    have top : after.procs.stackEnd next = machine.procs.stackEnd next := by rw [procs]; rfl
    have bound : next < after.procs.table.cap := by rw [turned.seated.cap]; exact inside
    refine ⟨after, slot, _, ran, by rw [procs], found, FixedVec.run_index bound _, ?_, ?_,
      turned.pageTable_eq found, ?_, ?_, ?_, started⟩
    · rw [addr]
      simp only [Elem.read, prepared.state]
      rfl
    · rw [addr]
      exact prepared.pid
    · rw [satp, tracked.pageTable_eq was, table]
    · rw [sscratch, top]
    · rw [top]
      exact Machine.resumes registers

end Layout

/-- A small kernel below its stack and thirty-two pages of RAM. -/
def sampleImage : Image where
  kernelBase := 0x80000000
  stackBottom := 0x80010000
  stackTop := 0x80018000
  freeRam := 0x80020000
  freeRamEnd := 0x80040000
  stackBelow := by decide

/--
The first process besides the idle one starts at its entry, on its own stack.

Once it gives up its turn, the idle process goes on as it was left.
-/
theorem giveUp_transparent_first : letI := declaredLayout; letI := declaredProcLayout
    ∃ machine slots after back, Run .dev sampleImage Machine.Selects machine slots ∧
      machine.Room sampleImage ∧ machine.Eligible 1 ∧
      (Machine.giveUpTo 1).run machine = .ok () after ∧
      after.Resumes (after.procs.stackEnd 1) (.fresh 0x80001234) ∧
      after.csrs .sscratch = after.procs.stackEnd 1 ∧
      (Machine.giveUpTo 0).run after = .ok () back ∧
      back.Resumes (back.procs.stackEnd 0) (.left machine.regs) := by
  let := declaredLayout
  let := declaredProcLayout
  let boot : Kernel := ⟨thirtyTwoPages, fun _ => 0, []⟩
  -- Boot creates the idle process, and one more is created.
  have seen : Exec.observe (do
      let procs ← ProcTable.new .dev
      let idle ← procs.createProcess .dev sampleImage 0
      let first ← procs.createProcess .dev sampleImage 0x80001234
      return (procs, idle, first) : Exec Fault Kernel (ProcTable × Nat × Nat)) boot
      (fun result kernel => (result.2, (result.1.sched kernel.ram))) =
        some ((0, 1), ⟨List.replicate 2 .runnable ++ List.replicate 6 .unused, 0⟩) := by
    decide +kernel
  obtain ⟨_, last, ran, viewed⟩ := Exec.observe_eq_some.mp seen
  obtain ⟨procs, made, table, ran⟩ := Exec.run_bind_ok.mp ran
  obtain ⟨idle, ready, created, ran⟩ := Exec.run_bind_ok.mp ran
  obtain ⟨first, full, second, ran⟩ := Exec.run_bind_ok.mp ran
  rw [EStateM.run_pure, EStateM.Result.ok.injEq] at ran
  obtain ⟨rfl, rfl⟩ := ran
  simp only [Prod.mk.injEq] at viewed
  obtain ⟨⟨rfl, rfl⟩, view⟩ := viewed
  let regs : Reg → Nat := fun _ => 0x80014000
  have arena : Memory.PowerArena .dev sampleImage.freeRam sampleImage.freeRamEnd boot.memory :=
    thirtyTwoPages_arena
  -- The same calls, as a run: boot with the idle process, then one creation.
  have start : Run .dev sampleImage Machine.Selects ⟨ready, procs, regs, fun _ => 0, 0⟩
      [⟨procs.pageTable ready.ram 0, .fresh 0⟩] :=
    .boot arena (fun _ _ _ => rfl) table created
  have run : Run .dev sampleImage Machine.Selects ⟨full, procs, regs, fun _ => 0, 0⟩
      [⟨procs.pageTable ready.ram 0, .fresh 0⟩, ⟨procs.pageTable full.ram 1, .fresh 0x80001234⟩] :=
    .new start second
  have current : procs.currProcIdx = 0 := congrArg Sched.curr view
  have room : Machine.Room sampleImage ⟨full, procs, regs, fun _ => 0, 0⟩ := by
    simp only [Machine.Room, stackLow, stackHigh, current, if_true]
    decide
  have states := congrArg Sched.states view
  -- Slot 1 is inside the table and can run.
  have eligible : Machine.Eligible ⟨full, procs, regs, fun _ => 0, 0⟩ 1 := by
    refine .inr ⟨?_, ?_⟩
    · rw [← procs.sched_length full.ram, states]
      decide
    · rw [states]
      rfl
  obtain ⟨after, slot, _, gave, curr, found, _, _, _, _, _, sscratch, resumes, _⟩ :=
    (giveUp_transparent run room).2 1 eligible
  -- It was not the one that gave up its turn, so it starts afresh.
  obtain ⟨old, was, _, ⟨here, _⟩ | ⟨_, context⟩⟩ := leave_some found
  · exact absurd (here.trans current) (by decide)
  obtain rfl : _ = old := Option.some.inj was
  rw [context] at resumes
  -- The process that starts has its whole stack before it, and gives up its turn at once.
  have chosen : Machine.Selects ⟨full, procs, regs, fun _ => 0, 0⟩ 1 := by
    rw [Machine.Selects, view]
    rfl
  have turned := Run.giveUp run room eligible chosen gave
  have started : after.Room sampleImage := by
    have sp := resumes.2.2
    rw [Machine.Room, curr, sp]
    simp only [stackLow, stackHigh, ProcTable.stackEnd, procStackSize, one_ne_zero, if_false]
    omega
  -- Slot 0 may always be selected, and its process goes on with the registers it had.
  obtain ⟨back, last, _, again, _, seen, _, _, _, _, _, _, goes, _⟩ :=
    (giveUp_transparent turned started).2 0 (.inl rfl)
  obtain ⟨idle, kept, _, ⟨here, _⟩ | ⟨_, same⟩⟩ := leave_some seen
  · exact absurd (here.trans curr) (by decide)
  obtain ⟨_, _, _, ⟨_, left⟩ | ⟨other, _⟩⟩ := leave_some kept
  · rw [same, left] at goes
    exact ⟨_, _, after, back, run, room, eligible, gave, resumes, sscratch, again, goes⟩
  · exact absurd current.symm other

end Os1k
