import Os1k.C.Trap

/-! Which process of the C kernel runs next: the globals of `kernel.c` that `yield` looks at. -/

namespace Os1k.C

def procNoMax : Nat := 8

/-- The fields of a `struct process` that scheduling depends on. -/
structure Process where
  pid : Int
  state : Nat
  deriving DecidableEq, Repr

/-- A process that `yield` may select. -/
def Process.Ready (proc : Process) : Prop := proc.state = procStateRunnable ∧ 0 < proc.pid

instance (proc : Process) : Decidable proc.Ready := inferInstanceAs (Decidable (_ ∧ _))

/--
The process array, and the two pointers into it.

A pointer is counted in processes from the start of the array, so it may be negative.
-/
structure Globals where
  procs : Nat → Process
  idleProc : Int
  currentProc : Int

/-- An index of the process array. -/
def InArray (index : Int) : Prop := 0 ≤ index ∧ index < procNoMax

instance (index : Int) : Decidable (InArray index) := inferInstanceAs (Decidable (_ ∧ _))

namespace Globals

/-- What memory holds for a process, where other things lie outside the array. -/
def proc (globals : Globals) (outside : Int → Process) (index : Int) : Process :=
  if InArray index then globals.procs index.toNat else outside index

/-- The first slot that is not taken. -/
def freeSlot (globals : Globals) : Option Nat :=
  (List.range procNoMax).find? fun i => (globals.procs i).state = procStateUnused

/--
Take a slot for a new process, with its number.

There may be no free slot, and then the kernel stops.
-/
def createProcess (globals : Globals) : Option (Nat × Globals) :=
  globals.freeSlot.map fun i =>
    (i, { globals with procs := Function.update globals.procs i ⟨i + 1, procStateRunnable⟩ })

/-- The index that a turn of the loop of `yield` looks at, with the remainder of C. -/
def scanIndex (pid : Int) (i : Nat) : Int := (pid + i).tmod procNoMax

/--
The loop of `yield` from a turn on.

It gives the indices that were looked at, and the process it stopped at, if any.
-/
def scan (look : Int → Process) (pid : Int) : List Nat → List Int × Option Int
  | [] => ([], none)
  | i :: rest =>
    if (look (scanIndex pid i)).Ready then ([scanIndex pid i], some (scanIndex pid i))
    else
      let (reads, found) := scan look pid rest
      (scanIndex pid i :: reads, found)

/-- The whole loop of `yield`, which starts at the number of the current process. -/
def scanAll (globals : Globals) (outside : Int → Process) : List Int × Option Int :=
  scan (globals.proc outside) (globals.proc outside globals.currentProc).pid (List.range procNoMax)

/-- The indices of the process array that `yield` reads. -/
def yieldReads (globals : Globals) (outside : Int → Process) : List Int :=
  (globals.scanAll outside).1

/-- The process that `yield` selects. -/
def selectNext (globals : Globals) (outside : Int → Process) : Int :=
  (globals.scanAll outside).2.getD globals.idleProc

/-- The selected process is the current one, also if it was so before. -/
def yield (globals : Globals) (outside : Int → Process) : Globals :=
  { globals with currentProc := globals.selectNext outside }

/-- The current process is marked as exited. -/
def exited (globals : Globals) : Globals :=
  { globals with
    procs := Function.update globals.procs globals.currentProc.toNat
      { globals.procs globals.currentProc.toNat with state := procStateExited } }

/-- All slots are free before boot. -/
def empty : Globals := ⟨fun _ => ⟨0, procStateUnused⟩, 0, 0⟩

/-- The first process becomes the idle one, and the current one. -/
def becomeIdle (globals : Globals) (slot : Nat) : Globals where
  procs := Function.update globals.procs slot { globals.procs slot with pid := -1 }
  idleProc := slot
  currentProc := slot

end Globals

/--
The globals that are reached from boot by creating processes, yielding and exiting.

What lies outside the array may change at any time. A process outside the array is not one that the
kernel can go on with, so a run ends there.
-/
inductive Scheduled : Globals → Prop where
  | boot {slot : Nat} {made : Globals} (created : Globals.empty.createProcess = some (slot, made)) :
      Scheduled (made.becomeIdle slot)
  | create {globals made : Globals} {slot : Nat} (before : Scheduled globals)
      (created : globals.createProcess = some (slot, made)) : Scheduled made
  | yield {globals : Globals} (before : Scheduled globals) (outside : Int → Process)
      (inside : InArray (globals.selectNext outside)) : Scheduled (globals.yield outside)
  | exit {globals : Globals} (before : Scheduled globals) : Scheduled globals.exited

namespace Globals

/-- The slot met in a turn of a scan that starts right after a slot, and ends with it. -/
def cyclic (slot i : Nat) : Nat := (slot + 1 + i) % procNoMax

/--
What `yield` is meant to do.

It looks at nothing outside the array, and selects the first process that is ready in the order
that starts after the current one, or else the idle one.
-/
def YieldsInOrder (globals : Globals) (outside : Int → Process) : Prop :=
  (∀ index ∈ globals.yieldReads outside, InArray index) ∧
  ∃ slot : Nat, slot < procNoMax ∧ globals.currentProc = slot ∧
    (∀ i < procNoMax, (globals.procs (cyclic slot i)).Ready →
      (∀ j < i, ¬ (globals.procs (cyclic slot j)).Ready) →
      globals.selectNext outside = cyclic slot i) ∧
    (globals.selectNext outside = globals.idleProc ↔
      ∀ i < procNoMax, ¬ (globals.procs i).Ready)

variable {globals : Globals} {outside : Int → Process}

/-- Inside the array, memory holds the array. -/
theorem proc_of_lt {slot : Nat} (inside : slot < procNoMax) :
    globals.proc outside slot = globals.procs slot := by
  -- A slot below eight is an index of the array.
  have index : InArray (slot : Int) := by
    unfold InArray
    omega
  rw [proc, if_pos index, Int.toNat_natCast]

/-- The slot that is found is free, and those before it are not. -/
theorem freeSlot_eq_some {slot : Nat} (found : globals.freeSlot = some slot) :
    slot < procNoMax ∧ (globals.procs slot).state = procStateUnused := by
  -- What a search finds is one of the slots, and passes the test.
  have member := List.mem_of_find?_eq_some found
  have free := List.find?_some found
  exact ⟨List.mem_range.mp member, by simpa using free⟩

/-- Creating a process takes a free slot. -/
theorem createProcess_eq_some {made : Globals} {slot : Nat}
    (created : globals.createProcess = some (slot, made)) :
    slot < procNoMax ∧ (globals.procs slot).state = procStateUnused ∧
      made = { globals with
        procs := Function.update globals.procs slot ⟨slot + 1, procStateRunnable⟩ } := by
  -- The new table and its slot come from one search.
  obtain ⟨i, found, same⟩ := Option.map_eq_some_iff.mp created
  rw [Prod.mk.injEq] at same
  obtain ⟨rfl, rfl⟩ := same
  obtain ⟨inside, free⟩ := freeSlot_eq_some found
  exact ⟨inside, free, rfl⟩

end Globals

/--
What holds of the array along every run.

The idle process is in slot 0, every other process that was created has the number of its slot plus
one, and the current process was created.
-/
structure Numbered (globals : Globals) : Prop where
  idle : globals.idleProc = 0
  idlePid : (globals.procs 0).pid = -1
  idleTaken : (globals.procs 0).state ≠ procStateUnused
  pids : ∀ slot < procNoMax, slot ≠ 0 → (globals.procs slot).state ≠ procStateUnused →
    (globals.procs slot).pid = slot + 1
  current : ∃ slot < procNoMax, globals.currentProc = (slot : Int) ∧
    (globals.procs slot).state ≠ procStateUnused

namespace Globals

variable {globals : Globals} {outside : Int → Process}

/-- The loop looks only at the indices of its turns. -/
theorem reads_of_scan (look : Int → Process) (pid : Int) (turns : List Nat) {index : Int}
    (read : index ∈ (scan look pid turns).1) : ∃ i ∈ turns, index = scanIndex pid i := by
  -- The induction follows the turns of the loop.
  induction turns with
  | nil => exact absurd read List.not_mem_nil
  | cons i rest ih =>
    unfold scan at read
    by_cases ready : (look (scanIndex pid i)).Ready
    · rw [if_pos ready] at read
      exact ⟨i, List.mem_cons_self, List.mem_singleton.mp read⟩
    · rw [if_neg ready] at read
      rcases List.mem_cons.mp read with here | later
      · exact ⟨i, List.mem_cons_self, here⟩
      · obtain ⟨j, member, same⟩ := ih later
        exact ⟨j, List.mem_cons_of_mem _ member, same⟩

/-- The loop stops in the first turn that finds a process ready. -/
theorem found_of_scan (look : Int → Process) (pid : Int) {turns : List Nat}
    (ordered : turns.Pairwise (· < ·)) :
    ((scan look pid turns).2 = none ∧ ∀ i ∈ turns, ¬ (look (scanIndex pid i)).Ready) ∨
    ∃ i ∈ turns, (scan look pid turns).2 = some (scanIndex pid i) ∧
      (look (scanIndex pid i)).Ready ∧
      ∀ j ∈ turns, j < i → ¬ (look (scanIndex pid j)).Ready := by
  -- The induction follows the turns of the loop, which are in ascending order.
  induction turns with
  | nil => exact .inl ⟨rfl, fun _ member => absurd member List.not_mem_nil⟩
  | cons i rest ih =>
    rw [List.pairwise_cons] at ordered
    obtain ⟨first, ordered⟩ := ordered
    unfold scan
    by_cases ready : (look (scanIndex pid i)).Ready
    · -- The loop stops here, and no turn comes before this one.
      rw [if_pos ready]
      refine .inr ⟨i, List.mem_cons_self, rfl, ready, fun j member before => ?_⟩
      rcases List.mem_cons.mp member with rfl | later
      · omega
      · have := first j later
        omega
    · rw [if_neg ready]
      rcases ih ordered with ⟨none, skipped⟩ | ⟨j, member, found, stops, skipped⟩
      · refine .inl ⟨none, fun j member => ?_⟩
        rcases List.mem_cons.mp member with rfl | later
        · exact ready
        · exact skipped j later
      · refine .inr ⟨j, List.mem_cons_of_mem _ member, found, stops, fun k among before => ?_⟩
        rcases List.mem_cons.mp among with rfl | later
        · exact ready
        · exact skipped k later before

/-- What the loop stops at, it has looked at. -/
theorem found_mem_reads (look : Int → Process) (pid : Int) (turns : List Nat) {index : Int}
    (found : (scan look pid turns).2 = some index) : index ∈ (scan look pid turns).1 := by
  -- The index that is returned is the last one that was looked at.
  induction turns with
  | nil => exact absurd found nofun
  | cons i rest ih =>
    unfold scan at found ⊢
    by_cases ready : (look (scanIndex pid i)).Ready
    · rw [if_pos ready] at found ⊢
      exact List.mem_singleton.mpr (Option.some.inj found).symm
    · rw [if_neg ready] at found ⊢
      exact List.mem_cons_of_mem _ (ih found)

/-- The process that is selected is ready, unless it is the idle one. -/
theorem selectNext_cases (globals : Globals) (outside : Int → Process) :
    globals.selectNext outside = globals.idleProc ∨
      (globals.proc outside (globals.selectNext outside)).Ready := by
  -- The loop either runs to its end, or stops at a process that is ready.
  rcases found_of_scan (globals.proc outside) (globals.proc outside globals.currentProc).pid
    (List.pairwise_lt_range (n := procNoMax)) with ⟨none, _⟩ | ⟨i, _, found, ready, _⟩
  · left
    rw [selectNext, scanAll, none, Option.getD_none]
  · right
    rw [selectNext, scanAll, found, Option.getD_some]
    exact ready

end Globals

namespace Numbered

variable {globals : Globals}

/-- The idle process has a number below zero, so it is never ready. -/
theorem idle_not_ready (numbered : Numbered globals) : ¬ (globals.procs 0).Ready := by
  -- Only a positive number makes a process ready.
  rintro ⟨_, positive⟩
  rw [numbered.idlePid] at positive
  omega

/-- Boot gives the first slot to the idle process. -/
theorem boot {slot : Nat} {made : Globals}
    (created : Globals.empty.createProcess = some (slot, made)) :
    Numbered (made.becomeIdle slot) := by
  have first : Globals.empty.freeSlot = some 0 := by decide
  rw [Globals.createProcess, first, Option.map_some, Option.some.injEq, Prod.mk.injEq] at created
  obtain ⟨rfl, rfl⟩ := created
  -- The other slots are still free.
  have free : ∀ other ≠ 0, ((Globals.becomeIdle { Globals.empty with
      procs := Function.update Globals.empty.procs 0 ⟨0 + 1, procStateRunnable⟩ } 0).procs
      other).state = procStateUnused := by
    intro other different
    simp [Globals.becomeIdle, Globals.empty, different]
  refine ⟨rfl, rfl, by decide, fun other _ different taken => ?_, 0, by decide, rfl, by decide⟩
  exact absurd (free other different) taken

/-- A new process gets the number of its slot plus one. -/
theorem create (numbered : Numbered globals) {slot : Nat} {made : Globals}
    (created : globals.createProcess = some (slot, made)) : Numbered made := by
  obtain ⟨inside, free, rfl⟩ := Globals.createProcess_eq_some created
  -- The slot was free, so it is neither that of the idle process nor that of the current one.
  have old : ∀ other, (globals.procs other).state ≠ procStateUnused →
      Function.update globals.procs slot ⟨slot + 1, procStateRunnable⟩ other
        = globals.procs other := by
    intro other taken
    apply Function.update_of_ne
    rintro rfl
    exact taken free
  have idle := old 0 numbered.idleTaken
  obtain ⟨current, small, here, taken⟩ := numbered.current
  refine ⟨numbered.idle, ?_, ?_, fun other below different used => ?_, current, small, here, ?_⟩
  · exact (congrArg Process.pid idle).trans numbered.idlePid
  · exact fun unused => numbered.idleTaken ((congrArg Process.state idle).symm.trans unused)
  · by_cases this : other = slot
    · subst this
      simp
    · have same : Function.update globals.procs slot ⟨slot + 1, procStateRunnable⟩ other
          = globals.procs other := Function.update_of_ne this _ _
      simp only [same] at used ⊢
      exact numbered.pids other below different used
  · exact fun unused => taken ((congrArg Process.state (old current taken)).symm.trans unused)

/-- A selected process of the array was created. -/
theorem selected (numbered : Numbered globals) {outside : Int → Process}
    (inside : InArray (globals.selectNext outside)) :
    ∃ slot < procNoMax, globals.selectNext outside = (slot : Int) ∧
      (slot = 0 ∨ (globals.procs slot).Ready) := by
  -- An index of the array is the number of a slot, where memory holds the array itself.
  obtain ⟨low, high⟩ := inside
  obtain ⟨slot, same⟩ := Int.eq_ofNat_of_zero_le low
  have small : slot < procNoMax := by omega
  refine ⟨slot, small, same, ?_⟩
  rcases globals.selectNext_cases outside with idle | ready
  · left
    rw [same, numbered.idle] at idle
    omega
  · right
    rw [same, Globals.proc_of_lt small] at ready
    exact ready

/-- After a yield, the current process is again one that was created. -/
theorem yield (numbered : Numbered globals) {outside : Int → Process}
    (inside : InArray (globals.selectNext outside)) : Numbered (globals.yield outside) := by
  -- The array stays as it is, so only the new current process matters.
  refine ⟨numbered.idle, numbered.idlePid, numbered.idleTaken, numbered.pids, ?_⟩
  obtain ⟨slot, small, same, rfl | ⟨runnable, _⟩⟩ := numbered.selected inside
  · exact ⟨0, small, same, numbered.idleTaken⟩
  · refine ⟨slot, small, same, ?_⟩
    intro unused
    exact absurd (runnable.symm.trans unused) (by decide)

/-- A process that exits keeps its number, and its slot stays taken. -/
theorem exit (numbered : Numbered globals) : Numbered globals.exited := by
  -- Whatever slot is marked, only its state changes.
  have pids : ∀ other, (globals.exited.procs other).pid = (globals.procs other).pid := by
    intro other
    by_cases this : other = globals.currentProc.toNat
    · subst this
      simp [Globals.exited]
    · simp [Globals.exited, this]
  obtain ⟨current, small, here, taken⟩ := numbered.current
  have used : ∀ other, (globals.exited.procs other).state ≠ procStateUnused ↔
      (globals.procs other).state ≠ procStateUnused := by
    intro other
    by_cases this : other = current
    · subst this
      have marked : (globals.exited.procs other).state ≠ procStateUnused := by
        simp [Globals.exited, here, procStateExited, procStateUnused]
      exact iff_of_true marked taken
    · simp [Globals.exited, here, this]
  refine ⟨numbered.idle, (pids 0).trans numbered.idlePid, (used 0).mpr numbered.idleTaken,
    fun other below different marked => ?_, current, small, here, (used current).mpr taken⟩
  rw [pids]
  exact numbered.pids other below different ((used other).mp marked)

end Numbered

/-- Every run keeps the numbers. -/
theorem Scheduled.numbered {globals : Globals} (reached : Scheduled globals) :
    Numbered globals := by
  -- Each kind of step has its own lemma.
  induction reached with
  | boot created => exact .boot created
  | create _ created ih => exact ih.create created
  | yield _ _ inside ih => exact ih.yield inside
  | exit _ ih => exact ih.exit

namespace Globals

variable {globals : Globals} {outside : Int → Process}

/-- After the number of a slot, the remainder of C goes through the slots in a circle. -/
theorem scanIndex_succ (slot i : Nat) : scanIndex (slot + 1) i = cyclic slot i := by
  have sum : ((slot : Int) + 1 + i) = ((slot + 1 + i : Nat) : Int) := by omega
  rw [scanIndex, cyclic, sum, Int.ofNat_tmod]

theorem cyclic_lt (slot i : Nat) : cyclic slot i < procNoMax := Nat.mod_lt _ (by decide)

/-- Every slot has its turn in the circle. -/
theorem exists_cyclic (slot : Nat) {other : Nat} (inside : other < procNoMax) :
    ∃ i < procNoMax, cyclic slot i = other := by
  -- Seven is minus one, modulo eight.
  have size : procNoMax = 8 := rfl
  refine ⟨(other + 7 * (slot + 1)) % 8, by omega, ?_⟩
  rw [cyclic, size]
  omega

/-- The process that runs, if it is not the idle one, makes the loop go round in order. -/
theorem yieldsInOrder (numbered : Numbered globals)
    (busy : globals.currentProc ≠ globals.idleProc) : globals.YieldsInOrder outside := by
  obtain ⟨slot, small, here, taken⟩ := numbered.current
  have nonzero : slot ≠ 0 := by
    rintro rfl
    exact busy (here.trans numbered.idle.symm)
  -- The scan starts after the number of the current process, which is its slot and one.
  have pid : (globals.proc outside globals.currentProc).pid = slot + 1 := by
    rw [here, proc_of_lt small]
    exact numbered.pids slot small nonzero taken
  -- The turns of the loop are those of the circle.
  have turn : ∀ i, globals.proc outside (scanIndex (slot + 1) i) =
      globals.procs (cyclic slot i) := by
    intro i
    rw [scanIndex_succ, proc_of_lt (cyclic_lt slot i)]
  refine ⟨fun index read => ?_, slot, small, here, ?_⟩
  · -- Every index that the scan reads is that of a slot.
    rw [yieldReads, scanAll, pid] at read
    obtain ⟨i, _, rfl⟩ := reads_of_scan _ _ _ read
    have bound := cyclic_lt slot i
    rw [scanIndex_succ]
    unfold InArray
    omega
  · have loop := found_of_scan (globals.proc outside) (slot + 1)
      (List.pairwise_lt_range (n := procNoMax))
    simp only [turn, List.mem_range] at loop
    -- The scan finds none and falls back on the idle process, or stops at the first.
    rcases loop with ⟨none, skipped⟩ | ⟨i, turns, found, ready, skipped⟩
    · have next : globals.selectNext outside = globals.idleProc := by
        rw [selectNext, scanAll, pid, none, Option.getD_none]
      refine ⟨fun i turns ready _ => absurd ready (skipped i turns), iff_of_true next ?_⟩
      intro other inside
      obtain ⟨i, turns, rfl⟩ := exists_cyclic slot inside
      exact skipped i turns
    · have next : globals.selectNext outside = cyclic slot i := by
        rw [selectNext, scanAll, pid, found, Option.getD_some, scanIndex_succ]
      refine ⟨fun j within also first => ?_, iff_of_false ?_ ?_⟩
      · -- There is only one first turn that finds a process ready.
        have same : j = i := by
          rcases Nat.lt_trichotomy j i with before | same | after
          · exact absurd also (skipped j within before)
          · exact same
          · exact absurd ready (first i after)
        rw [next, same]
      · intro idle
        rw [next, numbered.idle] at idle
        have slot0 : cyclic slot i = 0 := by omega
        rw [slot0] at ready
        exact numbered.idle_not_ready ready
      · intro none
        exact none _ (cyclic_lt slot i) ready

/-- Another process than the idle one selects a process of the array. -/
theorem selectNext_inArray (numbered : Numbered globals)
    (busy : globals.currentProc ≠ globals.idleProc) : InArray (globals.selectNext outside) := by
  -- The loop returns an index that it looked at, or nothing, and then slot 0 is selected.
  have reads := (yieldsInOrder numbered busy : globals.YieldsInOrder outside).1
  cases found : (globals.scanAll outside).2 with
  | none =>
    rw [selectNext, found, Option.getD_none, numbered.idle]
    decide
  | some index =>
    rw [selectNext, found, Option.getD_some]
    exact reads index (found_mem_reads _ _ _ found)

/-- The loop of the idle process starts at its number. -/
theorem idle_pid (numbered : Numbered globals)
    (idle : globals.currentProc = globals.idleProc) :
    (globals.proc outside globals.currentProc).pid = -1 := by
  rw [idle, numbered.idle, ← Int.natCast_zero, proc_of_lt (by decide)]
  exact numbered.idlePid

/-- From the idle process, the loop first looks at what lies before the array. -/
theorem reads_before_array (numbered : Numbered globals)
    (idle : globals.currentProc = globals.idleProc) : -1 ∈ globals.yieldReads outside := by
  -- The first turn adds nothing to -1, and the remainder of C keeps its sign.
  have pid : (globals.proc outside globals.currentProc).pid = -1 := idle_pid numbered idle
  have first : scanIndex (-1) 0 = -1 := by decide
  rw [yieldReads, scanAll, pid, show List.range procNoMax = 0 :: [1, 2, 3, 4, 5, 6, 7] from rfl,
    scan, first]
  by_cases ready : (globals.proc outside (-1)).Ready
  · rw [if_pos ready]
    exact List.mem_cons_self
  · rw [if_neg ready]
    exact List.mem_cons_self

end Globals

/--
A process that yields hands over in order exactly when it is not the idle one.

The idle process has the number -1, of which the remainder in C is -1.
-/
theorem yield_in_order_iff {globals : Globals} (reached : Scheduled globals)
    (outside : Int → Process) :
    globals.YieldsInOrder outside ↔ globals.currentProc ≠ globals.idleProc := by
  -- The first index that the loop looks at already decides.
  have numbered := reached.numbered
  constructor
  · intro ⟨reads, _⟩ idle
    have before := reads _ (Globals.reads_before_array numbered idle)
    exact absurd before (by decide)
  · exact Globals.yieldsInOrder numbered

/-- The idle process as boot makes it. -/
def idleMade : Globals :=
  { Globals.empty with
    procs := Function.update Globals.empty.procs 0 ⟨(0 : Nat) + 1, procStateRunnable⟩ }

/-- Boot has created the shell, and is about to yield. -/
def shellMade : Globals :=
  { idleMade.becomeIdle 0 with
    procs := Function.update (idleMade.becomeIdle 0).procs 1 ⟨(1 : Nat) + 1, procStateRunnable⟩ }

/-- Memory in which nothing looks like a process. -/
def blank : Int → Process := fun _ => ⟨0, procStateUnused⟩

theorem scheduled_shellMade : Scheduled shellMade := by
  have booted : Scheduled (idleMade.becomeIdle 0) := .boot rfl
  exact booted.create rfl

/-- The shell that boot yields to hands over in order, to itself. -/
theorem yield_in_order_shell :
    Scheduled (shellMade.yield blank) ∧ (shellMade.yield blank).currentProc = 1 ∧
      (shellMade.yield blank).YieldsInOrder blank := by
  have reached := Scheduled.yield scheduled_shellMade blank (by decide)
  exact ⟨reached, by decide, (yield_in_order_iff reached blank).mpr (by decide)⟩

/-- The first yield of boot looks at what lies before the array. -/
theorem yield_reads_before_array :
    Scheduled shellMade ∧ shellMade.yieldReads blank = [-1, 0, 1] ∧
      ¬ shellMade.YieldsInOrder blank := by
  -- The very first index of the loop is outside the array.
  refine ⟨scheduled_shellMade, by decide, fun inOrder => ?_⟩
  have before := inOrder.1 (-1) (by decide)
  exact absurd before (by decide)

end Os1k.C
