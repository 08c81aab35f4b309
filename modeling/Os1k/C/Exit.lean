import Mathlib.Logic.Relation
import Os1k.C.Scheduler

/-! What becomes of processes of the C kernel that exit: they are never resumed. -/

namespace Os1k.C

open Relation

/-- Where a process goes on once it is resumed. -/
inductive Caller where
  /-- It has not run yet, and starts its program. -/
  | start
  /-- It called `yield` itself. -/
  | direct
  /-- It polls for input again. -/
  | getchar
  /-- It comes back from the `yield` of an exit. -/
  | exit
  deriving DecidableEq, Repr

/-- Why the kernel stopped. -/
inductive Panic where
  | noFreeSlots
  | unreachable
  | unexpectedSyscall (a3 : Nat)
  deriving DecidableEq, Repr

/-- The globals, and where each process that does not run goes on. -/
structure Threads where
  globals : Globals
  caller : Nat → Caller
  panic : Option Panic

namespace Threads

/--
The current process yields, and the selected one returns from the call it made.

If the current process is selected again, `yield` returns to the very call.
-/
def yieldFrom (threads : Threads) (caller : Caller) (outside : Int → Process) : Threads :=
  let callers := Function.update threads.caller threads.globals.currentProc.toNat caller
  let globals := threads.globals.yield outside
  { globals, caller := callers
    panic := if callers globals.currentProc.toNat = .exit then some .unreachable else none }

/-- Create a process, which will start its program. -/
def create (threads : Threads) : Threads :=
  match threads.globals.createProcess with
  | none => { threads with panic := some .noFreeSlots }
  | some (slot, globals) =>
    { threads with globals, caller := Function.update threads.caller slot .start }

/-- The current process is marked as exited. -/
def exited (threads : Threads) : Threads := { threads with globals := threads.globals.exited }

/--
A turn of a system call of the current process.

Polling for input takes a turn for each attempt, which may find none.
-/
def handleSyscall (threads : Threads) (a3 : Nat) (input : Bool) (outside : Int → Process) :
    Threads :=
  if a3 = sysPutchar then threads
  else if a3 = sysGetchar then
    if input then threads else threads.yieldFrom .getchar outside
  else if a3 = sysExit then threads.exited.yieldFrom .exit outside
  else { threads with panic := some (.unexpectedSyscall a3) }

/--
One step of the kernel, unless it has stopped.

The scan of `yield` is restricted to the array: what lies outside is not selected. A system call is
made by a user program, and the idle process, which stands for boot, has none.
-/
inductive Step (threads : Threads) : Threads → Prop where
  | create (runs : threads.panic = none) : Step threads threads.create
  | yield (runs : threads.panic = none) (outside : Int → Process)
      (inside : InArray (threads.globals.selectNext outside)) :
      Step threads (threads.yieldFrom .direct outside)
  | syscall (runs : threads.panic = none) (a3 : Nat) (input : Bool) (outside : Int → Process)
      (user : threads.globals.currentProc ≠ threads.globals.idleProc) :
      Step threads (threads.handleSyscall a3 input outside)

/-- Boot has created the idle process, on whose behalf it goes on. -/
def Booted (threads : Threads) : Prop :=
  ∃ slot made, Globals.empty.createProcess = some (slot, made) ∧
    threads = ⟨made.becomeIdle slot, Function.update (fun _ => .start) slot .direct, none⟩

end Threads

namespace Globals

variable {globals made : Globals} {slot : Nat}

/-- Creating a process changes no slot that is taken. -/
theorem createProcess_other (created : globals.createProcess = some (slot, made)) {other : Nat}
    (taken : (globals.procs other).state ≠ procStateUnused) :
    other ≠ slot ∧ made.procs other = globals.procs other := by
  -- A slot that is taken is not the free one that was found.
  obtain ⟨_, free, rfl⟩ := createProcess_eq_some created
  have different : other ≠ slot := by
    rintro rfl
    exact taken free
  exact ⟨different, Function.update_of_ne different _ _⟩

/-- Only the current process is marked as exited. -/
theorem exited_other {current other : Nat} (here : globals.currentProc = current)
    (different : other ≠ current) : globals.exited.procs other = globals.procs other := by
  rw [exited, here, Int.toNat_natCast]
  exact Function.update_of_ne different _ _

/-- The current process is marked as exited, and keeps its number. -/
theorem exited_self {current : Nat} (here : globals.currentProc = current) :
    globals.exited.procs current = ⟨(globals.procs current).pid, procStateExited⟩ := by
  rw [exited, here, Int.toNat_natCast]
  exact Function.update_self _ _ _

end Globals

/--
What holds along every run.

A process to which the `yield` of its exit would return is marked as exited, and the current process
and the idle one are not.
-/
structure Alive (threads : Threads) : Prop where
  numbered : Numbered threads.globals
  idle : (threads.globals.procs 0).state = procStateRunnable
  callers : ∀ slot, threads.caller slot = .exit →
    (threads.globals.procs slot).state = procStateExited
  current : ∀ slot : Nat, threads.globals.currentProc = slot →
    (threads.globals.procs slot).state ≠ procStateExited
  panic : threads.panic ≠ some .unreachable

namespace Alive

variable {threads : Threads}

/-- Boot has no process that exited. -/
theorem boot (booted : threads.Booted) : Alive threads := by
  -- The array is empty but for the idle process, and that one called `yield` itself.
  obtain ⟨slot, made, created, rfl⟩ := booted
  have numbered := Numbered.boot created
  have first : Globals.empty.freeSlot = some 0 := by decide
  rw [Globals.createProcess, first, Option.map_some, Option.some.injEq, Prod.mk.injEq] at created
  obtain ⟨rfl, rfl⟩ := created
  refine ⟨numbered, rfl, fun slot exits => ?_, fun slot here => ?_,
    (Option.some_ne_none _).symm⟩
  · -- No process has made a call of an exit.
    by_cases idle : slot = 0
    · subst idle
      simp only [Function.update_self, reduceCtorEq] at exits
    · simp only [Function.update_of_ne idle, reduceCtorEq] at exits
  · have same : slot = 0 := by
      have : ((0 : Nat) : Int) = slot := here
      omega
    subst same
    decide

/-- A process that is created can run, and has made no call. -/
theorem create (alive : Alive threads) : Alive threads.create := by
  -- The slot was free, so it belongs to none of the processes that the invariant is about.
  unfold Threads.create
  cases created : threads.globals.createProcess with
  | none => exact ⟨alive.numbered, alive.idle, alive.callers, alive.current, nofun⟩
  | some result =>
    obtain ⟨slot, made⟩ := result
    have old : ∀ other, (threads.globals.procs other).state ≠ procStateUnused →
        made.procs other = threads.globals.procs other :=
      fun _ taken => (Globals.createProcess_other created taken).2
    have pointer : made.currentProc = threads.globals.currentProc := by
      obtain ⟨_, _, rfl⟩ := Globals.createProcess_eq_some created
      rfl
    refine ⟨alive.numbered.create created, ?_, fun other exits => ?_, fun other here => ?_,
      alive.panic⟩
    · rw [old 0 alive.numbered.idleTaken]
      exact alive.idle
    · -- The new process has made no call; the others are where they were.
      by_cases this : other = slot
      · subst this
        simp only [Function.update_self, reduceCtorEq] at exits
      · simp only [Function.update_of_ne this] at exits
        have marked := alive.callers other exits
        rw [old other (by rw [marked]; decide)]
        exact marked
    · obtain ⟨current, _, known, taken⟩ := alive.numbered.current
      have same : other = current := by
        rw [pointer, known] at here
        omega
      subst same
      rw [old other taken]
      exact alive.current other known

/--
Whoever yields, the process that goes on is one that has not exited.

The current process may just have been marked, and then its own call is that of its exit.
-/
theorem yieldFrom {caller : Caller} {outside : Int → Process} (numbered : Numbered threads.globals)
    (idle : (threads.globals.procs 0).state = procStateRunnable)
    (callers : ∀ slot, threads.caller slot = .exit →
      (threads.globals.procs slot).state = procStateExited)
    (exits : caller = .exit → ∀ slot : Nat, threads.globals.currentProc = slot →
      (threads.globals.procs slot).state = procStateExited)
    (inside : InArray (threads.globals.selectNext outside)) :
    Alive (threads.yieldFrom caller outside) := by
  obtain ⟨current, _, here, _⟩ := numbered.current
  obtain ⟨next, _, selected, chosen⟩ := numbered.selected inside
  -- What is selected can run, the idle process included.
  have runnable : (threads.globals.procs next).state = procStateRunnable := by
    rcases chosen with rfl | ⟨runnable, _⟩
    · exact idle
    · exact runnable
  -- The call of the process that yields is noted; all others are in the calls they were in.
  have calls : ∀ slot, Function.update threads.caller threads.globals.currentProc.toNat caller slot
      = .exit → (threads.globals.procs slot).state = procStateExited := by
    intro slot exit
    rw [here, Int.toNat_natCast] at exit
    by_cases this : slot = current
    · subst this
      rw [Function.update_self] at exit
      exact exits exit slot here
    · rw [Function.update_of_ne this] at exit
      exact callers slot exit
  -- The process that goes on can run, so it does not return from its exit.
  have goes : Function.update threads.caller threads.globals.currentProc.toNat caller next
      ≠ .exit := by
    intro exit
    have marked := calls next exit
    rw [runnable] at marked
    exact absurd marked (by decide)
  refine ⟨numbered.yield inside, idle, calls, fun slot here => ?_, ?_⟩
  · have same : slot = next := by
      have : threads.globals.selectNext outside = slot := here
      omega
    rw [same]
    intro marked
    exact absurd (runnable.symm.trans marked) (by decide)
  · have lands : (threads.globals.yield outside).currentProc.toNat = next := by
      show (threads.globals.selectNext outside).toNat = next
      rw [selected, Int.toNat_natCast]
    unfold Threads.yieldFrom
    simp only [lands, if_neg goes]
    exact nofun

/-- A system call of a user program keeps what holds. -/
theorem handleSyscall (alive : Alive threads) (a3 : Nat) (input : Bool) {outside : Int → Process}
    (user : threads.globals.currentProc ≠ threads.globals.idleProc) :
    Alive (threads.handleSyscall a3 input outside) := by
  -- The cases follow the switch over the number of the call.
  unfold Threads.handleSyscall
  by_cases putchar : a3 = sysPutchar
  · rw [if_pos putchar]
    exact alive
  rw [if_neg putchar]
  by_cases getchar : a3 = sysGetchar
  · rw [if_pos getchar]
    cases input with
    -- Input is there, so the call returns to the process at once.
    | true => exact alive
    | false =>
      have inside : InArray (threads.globals.selectNext outside) :=
        Globals.selectNext_inArray alive.numbered user
      exact yieldFrom alive.numbered alive.idle alive.callers nofun inside
  rw [if_neg getchar]
  by_cases exit : a3 = sysExit
  · rw [if_pos exit]
    -- The process is marked first, and then another one is selected.
    obtain ⟨current, _, here, _⟩ := alive.numbered.current
    have nonzero : 0 ≠ current := by
      rintro rfl
      exact user (here.trans alive.numbered.idle.symm)
    have marked := Globals.exited_self here
    have inside : InArray (threads.globals.exited.selectNext outside) :=
      Globals.selectNext_inArray alive.numbered.exit user
    refine yieldFrom alive.numbered.exit ?_ (fun slot exits => ?_) (fun _ slot same => ?_) inside
    · -- The idle process makes no system calls, so it is not the one that is marked.
      show (threads.globals.exited.procs 0).state = procStateRunnable
      rw [Globals.exited_other here nonzero]
      exact alive.idle
    · show (threads.globals.exited.procs slot).state = procStateExited
      by_cases this : slot = current
      · rw [this, marked]
      · rw [Globals.exited_other here this]
        exact alive.callers slot exits
    · show (threads.globals.exited.procs slot).state = procStateExited
      have this : slot = current := by
        have pointer : threads.globals.currentProc = slot := same
        omega
      rw [this, marked]
  · rw [if_neg exit]
    -- Any other number ends in a panic.
    exact ⟨alive.numbered, alive.idle, alive.callers, alive.current, nofun⟩

/-- Every step keeps what holds. -/
theorem step (alive : Alive threads) {after : Threads} (taken : threads.Step after) :
    Alive after := by
  -- Each kind of step has its own lemma.
  cases taken with
  | create _ => exact alive.create
  | yield _ outside inside =>
    exact yieldFrom alive.numbered alive.idle alive.callers nofun inside
  | syscall _ a3 input outside user => exact alive.handleSyscall a3 input user

end Alive

namespace Threads

variable {threads after : Threads}

/-- A step leaves a process that exited as it is. -/
theorem Step.exited (taken : threads.Step after) (alive : Alive threads) {slot : Nat}
    (gone : (threads.globals.procs slot).state = procStateExited) :
    after.globals.procs slot = threads.globals.procs slot := by
  -- The slot changes in no step: it is taken, and it is not that of the current process.
  cases taken with
  | create _ =>
    unfold Threads.create
    cases created : threads.globals.createProcess with
    | none => rfl
    | some result => exact (Globals.createProcess_other created (by rw [gone]; decide)).2
  | yield _ outside inside => rfl
  | syscall _ a3 input outside user =>
    unfold handleSyscall
    by_cases putchar : a3 = sysPutchar
    · rw [if_pos putchar]
    rw [if_neg putchar]
    by_cases getchar : a3 = sysGetchar
    · rw [if_pos getchar]
      cases input with
      | true => rfl
      | false => rfl
    rw [if_neg getchar]
    by_cases exit : a3 = sysExit
    · rw [if_pos exit]
      -- The process that exits now was not marked before.
      obtain ⟨current, _, here, _⟩ := alive.numbered.current
      have different : slot ≠ current := by
        rintro rfl
        exact alive.current slot here gone
      exact Globals.exited_other here different
    · rw [if_neg exit]

/-- Every run keeps what holds. -/
theorem alive_of_run {first : Threads} (alive : Alive first) (run : ReflTransGen Step first after) :
    Alive after := by
  -- The induction is on the steps of the run.
  induction run with
  | refl => exact alive
  | tail _ taken ih => exact ih.step taken

/-- A run leaves a process that exited as it is. -/
theorem exited_of_run (alive : Alive threads) {slot : Nat}
    (gone : (threads.globals.procs slot).state = procStateExited)
    (run : ReflTransGen Step threads after) :
    after.globals.procs slot = threads.globals.procs slot := by
  -- Each step leaves the process alone, as long as it is marked before the step.
  induction run with
  | refl => rfl
  | tail earlier taken ih =>
    have still := taken.exited (alive_of_run alive earlier) (by rw [ih]; exact gone)
    exact still.trans ih

/--
A process that exited never runs again.

It stays as it is, its slot is not taken again, it is not the current process and no yield selects
it, so that no exit ever returns.
-/
theorem exited_forever {booted : Threads} (start : booted.Booted)
    (run : ReflTransGen Step booted threads) :
    threads.panic ≠ some .unreachable ∧
    ∀ slot, (threads.globals.procs slot).state = procStateExited →
      ∀ after, ReflTransGen Step threads after →
        after.globals.procs slot = threads.globals.procs slot ∧
        after.globals.currentProc ≠ slot ∧
        (∀ taken made, after.globals.createProcess = some (taken, made) → taken ≠ slot) ∧
        ∀ outside, InArray (after.globals.selectNext outside) →
          after.globals.selectNext outside ≠ slot := by
  -- The invariant at the end of the run gives everything that is asked there.
  have alive := alive_of_run (.boot start) run
  refine ⟨alive.panic, fun slot gone after continues => ?_⟩
  have later := alive_of_run alive continues
  have same := exited_of_run alive gone continues
  have still : (after.globals.procs slot).state = procStateExited := by rw [same, gone]
  refine ⟨same, fun here => later.current slot here still, fun taken made created => ?_,
    fun outside inside here => ?_⟩
  · exact Ne.symm (Globals.createProcess_other created (by rw [still]; decide)).1
  · -- What is selected can run, and the idle process never exits.
    have selected : Alive (after.yieldFrom .direct outside) :=
      .yieldFrom later.numbered later.idle later.callers nofun inside
    exact selected.current slot here still

/-- Boot has created the idle process. -/
def bootThreads : Threads :=
  ⟨idleMade.becomeIdle 0, Function.update (fun _ => .start) 0 .direct, none⟩

/-- Boot has created the shell, and has yielded to it. -/
def shellRuns : Threads := bootThreads.create.yieldFrom .direct blank

/-- The shell, the last process that could run, has exited. -/
def shellExited : Threads := shellRuns.handleSyscall sysExit false blank

theorem run_shellExited : ReflTransGen Step bootThreads shellExited := by
  -- Boot creates the shell and yields to it, and the shell exits.
  have create : Step bootThreads bootThreads.create := .create rfl
  have yield : Step bootThreads.create shellRuns := .yield (by decide) blank (by decide)
  have exit : Step shellRuns shellExited := .syscall (by decide) sysExit false blank (by decide)
  exact ((ReflTransGen.single create).tail yield).tail exit

/-- Once the shell has exited, the kernel stays with the idle process. -/
theorem exited_forever_shell :
    (shellExited.globals.procs 1).state = procStateExited ∧ shellExited.globals.currentProc = 0 ∧
      shellExited.panic ≠ some .unreachable ∧
      ∀ after, ReflTransGen Step shellExited after → after.globals.currentProc ≠ 1 := by
  -- No other process can run, so the kernel went to the idle one.
  have gone : (shellExited.globals.procs 1).state = procStateExited := by decide
  obtain ⟨sound, forever⟩ := exited_forever ⟨0, idleMade, rfl, rfl⟩ run_shellExited
  refine ⟨gone, by decide, sound, fun after run => ?_⟩
  exact (forever 1 gone after run).2.1

end Threads

end Os1k.C
