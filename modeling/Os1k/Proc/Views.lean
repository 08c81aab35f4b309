import Os1k.Proc.Identity
import Os1k.Proc.Record

/-! What processes see while they work, are created and take turns, which is the same for all. -/

namespace Os1k

open Riscv
open Memory (LiveBlock)

/-- An arena of a power of two of bytes, and at least a page of them, is made of whole pages. -/
theorem Memory.PowerArena.pageArena {profile : Profile} {ramStart ramEnd : Nat} {memory : Memory}
    (arena : PowerArena profile ramStart ramEnd memory) (aligned : ramStart % pageSize = 0) :
    PageArena profile ramStart ramEnd memory := by
  obtain ⟨order, power⟩ := arena.power
  have page := arena.page
  have pages : pageSize = 2 ^ 12 := rfl
  rw [power, pages] at page
  have low : 12 ≤ order := (Nat.pow_le_pow_iff_right (by omega)).mp page
  -- The pages are as many as the power of two that is left without those of one page.
  refine ⟨arena.ordered, arena.word, arena.built, aligned, 2 ^ (order - 12),
    Nat.two_pow_pos _, ?_⟩
  rw [power, pages, ← Nat.pow_add, Nat.sub_add_cancel low]

/-- There are as many slots as before when a process leaves its own. -/
@[simp] theorem leave_length (slots : List Slot) (i : Nat) (regs : Reg → Nat) :
    (leave slots i regs).length = slots.length := by
  simp [leave]

/-- The other slots stay as they were. -/
theorem leave_other {slots : List Slot} {i curr : Nat} (other : i ≠ curr) (regs : Reg → Nat) :
    (leave slots curr regs)[i]? = slots[i]? := by
  rw [leave, List.getElem?_modify, Option.map_eq_map]
  simp [Ne.symm other]

section Layout

variable [VecLayout] [layout : ProcLayout]

namespace Furnished

variable {image : Image} {kernel : Kernel} {procs : ProcTable} {slots : List Slot} {depth : Nat}
  {live : List LiveBlock}

/-- Of managed RAM, only the block of the process table is touched. -/
theorem untouched_apart (furnished : Furnished image kernel procs slots depth live) {i a : Nat}
    (inside : i < procMax) (low : image.freeRam ≤ a) (high : a < image.freeRamEnd)
    (apart : a ∉ procs.table.physAddr.bytes) : ¬ Touches image procs i a := by
  intro touched
  have below := image.stackBelow
  -- The slots are in that block, and all else is not managed.
  rcases furnished.touches_slot inside touched with ⟨_, boot⟩ | ⟨o, small, rfl⟩ | unmanaged
  · omega
  · exact apart (ProcTable.slot_mem furnished.seated furnished.memory.placed inside small).1
  · omega

/-- The process in a slot that creation set up can run. -/
theorem runnable (furnished : Furnished image kernel procs slots depth live) {i : Nat}
    (known : i < slots.length) : (procs.process kernel.ram i).state = .runnable := by
  have inside := Nat.lt_of_lt_of_le known furnished.count
  -- The slots set up so far are the taken ones, and a taken slot is runnable.
  have taken := (furnished.taken_iff inside).mpr known
  rw [ProcTable.sched_state _ (by rw [furnished.seated.cap]; exact inside)] at taken
  exact Option.some.inj taken

/-- A process leaves all parts of the slots but its own stack and stack pointer. -/
theorem parts_kept (furnished : Furnished image kernel procs slots depth live) {ram : Nat → Nat}
    {i : Nat} (inside : i < procMax)
    (own : ∀ a, ram a ≠ kernel.ram a → Touches image procs i a) {j : Nat} (also : j < procMax)
    {part : ProcField} (notStack : part ≠ .stack) (notSp : part ≠ .sp) {o : Nat}
    (small : o < part.width) :
    ram (procs.slot j + layout.offset part + o) =
      kernel.ram (procs.slot j + layout.offset part + o) := by
  by_contra changed
  have touched := own _ changed
  -- In its own slot it touches no other part, and of the other slots nothing.
  by_cases here : j = i
  · rw [here] at touched
    exact furnished.untouched_part inside notStack notSp small touched
  · have fits := layout.inside part
    rw [Nat.add_assoc] at touched
    exact furnished.untouched_slot inside also here (by omega) touched

/-- A process leaves the states of the slots. -/
theorem state_kept (furnished : Furnished image kernel procs slots depth live) {ram : Nat → Nat}
    {i : Nat} (inside : i < procMax)
    (own : ∀ a, ram a ≠ kernel.ram a → Touches image procs i a) {j : Nat} (also : j < procMax) :
    (procs.process ram j).state = (procs.process kernel.ram j).state := by
  have addr := ProcTable.slotAddr_slot furnished.seated furnished.memory.placed also
  -- The state is no part of the stack, which is all of a slot that a process may write.
  have same := furnished.parts_kept inside own also (by decide : ProcField.state ≠ .stack)
    (by decide) (by decide : 0 < ProcField.state.width)
  rw [ProcTable.process, ProcTable.process, addr]
  show ProcState.ofWord _ = ProcState.ofWord _
  rw [Nat.add_zero] at same
  rw [same]

/-- A process leaves the records of the page tables. -/
theorem pageTable_kept (furnished : Furnished image kernel procs slots depth live) {ram : Nat → Nat}
    {i : Nat} (inside : i < procMax)
    (own : ∀ a, ram a ≠ kernel.ram a → Touches image procs i a) {j : Nat} (also : j < procMax) :
    procs.pageTable ram j = procs.pageTable kernel.ram j := by
  have addr := ProcTable.slotAddr_slot furnished.seated furnished.memory.placed also
  -- A record is the two parts of the slot that hold its arrays.
  have root : (Elem.read ram (procs.slot j + layout.offset .rootPt) : FixedVec Nat) =
      Elem.read kernel.ram (procs.slot j + layout.offset .rootPt) :=
    read_congr fun k small => furnished.parts_kept inside own also (by decide) (by decide)
      (by simp only [ProcField.width]; omega)
  have second : (Elem.read ram (procs.slot j + layout.offset .secondPts) :
      FixedVec (FixedVec Nat)) = Elem.read kernel.ram (procs.slot j + layout.offset .secondPts) :=
    read_congr fun k small => furnished.parts_kept inside own also (by decide) (by decide)
      (by simp only [ProcField.width]; omega)
  rw [ProcTable.pageTable, ProcTable.pageTable, addr]
  show PageTable.mk _ _ = PageTable.mk _ _
  rw [root, second]

end Furnished

/--
A process table in managed RAM whose processes all see what the image shows.

RAM that is managed and not in use is zero.
-/
structure Viewed (image : Image) (kernel : Kernel) (procs : ProcTable) (live : List LiveBlock) :
    Prop extends Tenanted image kernel procs live where
  vacant : Vacant image kernel.ram live
  sees : ∀ i < procMax, (procs.process kernel.ram i).state = .runnable → ∀ v < wordLimit,
    Sv32.walk kernel.ram (procs.pageTable kernel.ram i).satp v = image.sees v

namespace Viewed

variable {profile : Profile} {image : Image} {kernel after : Kernel} {procs : ProcTable}
  {slots : List Slot} {depth : Nat} {live other : List LiveBlock}

/-- The views depend on the allocator and on RAM alone. -/
theorem congr (viewed : Viewed image kernel procs live) (memory : after.memory = kernel.memory)
    (ram : after.ram = kernel.ram) : Viewed image after procs live := by
  -- What is on record is read by none of the parts.
  obtain ⟨_, _, _⟩ := kernel
  obtain ⟨_, _, _⟩ := after
  simp only at memory ram
  subst memory ram
  exact ⟨⟨viewed.managed, viewed.seated, viewed.blank, viewed.tables⟩, viewed.vacant, viewed.sees⟩

/-- Which process runs is of no account. -/
theorem turn (viewed : Viewed image kernel procs live) (next : Nat) :
    Viewed image kernel { procs with currProcIdx := next } live :=
  ⟨⟨viewed.managed, ⟨viewed.seated.block, viewed.seated.ptr, viewed.seated.cap⟩, viewed.blank,
    viewed.tables⟩, viewed.vacant, viewed.sees⟩

/-- Boot leaves a process table without a process, in the only block that is in use. -/
theorem boot (arena : Memory.PowerArena profile image.freeRam image.freeRamEnd kernel.memory)
    (linked : Linked image)
    (zero : ∀ a, image.freeRam ≤ a → a < image.freeRamEnd → kernel.ram a = 0)
    (ran : (ProcTable.new profile).run kernel = .ok procs after) :
    Viewed image after procs [⟨procMax * procSize, procs.table.physAddr⟩] := by
  have pages := arena.pageArena linked.ram
  obtain ⟨_, tenanted, _, free⟩ := Tenanted.boot pages zero ran
  unfold ProcTable.new at ran
  obtain ⟨table, made, created, ran⟩ := Exec.run_bind_ok.mp ran
  rw [EStateM.run_pure, EStateM.Result.ok.injEq] at ran
  obtain ⟨rfl, rfl⟩ := ran
  obtain ⟨block, memory, given, rfl, rfl⟩ := FixedVec.run_new_ok
    (by decide : procMax * procSize < wordLimit) created
  refine ⟨⟨pages.managed.request given, ⟨List.mem_singleton.mpr rfl, rfl, rfl⟩, tenanted.blank,
    ?_⟩, fun a low high _ => zero a low high, ?_⟩
  -- No slot is taken.
  · intro i inside taken
    rw [free i inside] at taken
    exact absurd taken (by decide)
  · intro i inside taken
    rw [free i inside] at taken
    exact absurd taken (by decide)

/-- A process that is created sees what the others see, and these see what they saw. -/
theorem create_quiet {i pc : Nat} (linked : Linked image) (viewed : Viewed image kernel procs live)
    (ran : (procs.createProcess profile image pc).run kernel.quiet = .ok i after) :
    Viewed image after procs (handedOut after.trace ++ live) := by
  have tenanted := viewed.toTenanted
  obtain ⟨start, table, frames, settled⟩ :=
    tenanted.settled ran (tenanted.handedOut_zero viewed.vacant ran)
  refine ⟨tenanted.create settled, tenanted.vacant_create settled viewed.vacant, ?_⟩
  -- The new table is read off the calls that have made it, and the old ones are untouched.
  intro j also taken v word
  by_cases new : j = i
  · rw [new]
    exact tenanted.walk_new linked settled word
  · rw [(tenanted.process_other settled also new).2] at taken
    rw [(tenanted.table_other settled also new taken).2]
    exact viewed.sees j also taken v word

/-- The views are kept when a process is created, whatever is on record. -/
theorem create {i pc : Nat} (linked : Linked image) (viewed : Viewed image kernel procs live)
    (ran : (procs.createProcess profile image pc).run kernel = .ok i after) :
    ∃ plain, (procs.createProcess profile image pc).run kernel.quiet = .ok i plain ∧
      Viewed image after procs (handedOut plain.trace ++ live) := by
  obtain ⟨plain, quiet, memory, ram⟩ := ProcTable.createProcess_quiet ran
  exact ⟨plain, quiet, (viewed.create_quiet linked quiet).congr memory.symm ram.symm⟩

/-- What a process that was set up touches is no part of what any of them sees. -/
theorem change {i : Nat} (viewed : Viewed image kernel procs live)
    (furnished : Furnished image kernel procs slots depth other) (known : i < slots.length)
    (memory : after.memory = kernel.memory)
    (own : ∀ a, after.ram a ≠ kernel.ram a → Touches image procs i a) :
    Viewed image after procs live := by
  -- All that is left alone is what no process touches.
  have inside : i < procMax := Nat.lt_of_lt_of_le known furnished.count
  have kept : ∀ a, ¬ Touches image procs i a → after.ram a = kernel.ram a := by
    intro a untouched
    by_contra changed
    exact untouched (own a changed)
  have state : ∀ j < procMax,
      (procs.process after.ram j).state = (procs.process kernel.ram j).state :=
    fun j also => furnished.state_kept inside own also
  have table : ∀ j < procMax, procs.pageTable after.ram j = procs.pageTable kernel.ram j :=
    fun j also => furnished.pageTable_kept inside own also
  -- The tables are made of blocks other than that of the process table.
  have agree : ∀ {frames : Frames} {others : List LiveBlock},
      live.Perm (frames.blocks ++ others) →
      (⟨procMax * procSize, procs.table.physAddr⟩ : LiveBlock) ∈ others →
      ∀ used ∈ frames.blocks, ∀ a ∈ used.block.bytes, after.ram a = kernel.ram a := by
    intro frames others perm seat used member a here
    have ordered := viewed.managed.perm perm.symm
    have apart := (List.pairwise_append.mp ordered.disjoint).2.2 used member _ seat
    obtain ⟨low, high⟩ := ordered.bytes_inside (List.mem_append_left others member) here
    exact kept a (furnished.untouched_apart inside low high (Set.disjoint_left.mp apart here))
  have managed := viewed.managed
  rw [← memory] at managed
  refine ⟨⟨managed, viewed.seated, ?_, ?_⟩, ?_, ?_⟩
  · -- A slot that is not taken is not that of the process.
    intro j also free o small
    rw [state j also] at free
    have different : j ≠ i := by
      rintro rfl
      rw [furnished.runnable known] at free
      exact absurd free (by decide)
    rw [kept _ (furnished.untouched_slot inside also different small)]
    exact viewed.blank j also free o small
  · intro j also taken
    rw [state j also] at taken
    obtain ⟨frames, others, represents, perm, seat⟩ := viewed.tables j also taken
    have placed : Placed frames.blocks :=
      (managed.perm perm.symm).placed.sublist (List.sublist_append_left _ _)
    rw [table j also]
    exact ⟨frames, others, represents.frame placed (agree perm seat), perm, seat⟩
  · intro a low high unused
    rw [kept a (furnished.untouched_apart inside low high (unused _ viewed.seated.block))]
    exact viewed.vacant a low high unused
  · -- The walk reads entries of the tables only, and those did not change.
    intro j also taken v word
    rw [state j also] at taken
    obtain ⟨frames, others, represents, perm, seat⟩ := viewed.tables j also taken
    have ordered := managed.perm perm.symm
    have aligned : ∀ used ∈ frames.blocks, used.block.addr % pageSize = 0 := by
      intro used member
      obtain ⟨_, _, _, aligned, _⟩ := ordered.room (List.mem_append_left others member)
      exact aligned
    rw [table j also, represents.walk_frame
      (ordered.placed.sublist (List.sublist_append_left _ _)) aligned (agree perm seat)]
    exact viewed.sees j also taken v word

end Viewed

/-- Handing over the hart touches the stack and the stack pointer of the process that has it. -/
theorem Tracked.giveUp_frame {image : Image} {machine after : Machine} {slots : List Slot}
    {depth next : Nat} {live : List LiveBlock} (tracked : Tracked image machine slots depth live)
    (room : machine.Room image) (known : next < slots.length)
    (ran : (Machine.giveUpTo next).run machine = .ok () after) :
    after.kernel.memory = machine.kernel.memory ∧
      ∀ a, after.kernel.ram a ≠ machine.kernel.ram a →
        Touches image machine.procs machine.procs.currProcIdx a := by
  have inside : machine.procs.currProcIdx < procMax :=
    Nat.lt_of_lt_of_le tracked.current tracked.count
  have also : next < procMax := Nat.lt_of_lt_of_le known tracked.count
  obtain ⟨bottom, top⟩ := room
  have high := tracked.stackHigh_lt inside
  have outside := tracked.field_sp_outside inside
  have cap := tracked.seated.cap
  have runs : machine.procs.currProcIdx < machine.procs.table.cap := by omega
  rw [Machine.run_giveUpTo runs (by omega : next < machine.procs.table.cap),
    EStateM.Result.ok.injEq] at ran
  obtain ⟨_, rfl⟩ := ran
  -- The registers with which the context switch is entered.
  have sp : (machine.entering next).regs .sp = machine.regs .sp := rfl
  have prev : (machine.entering next).regs .a0 =
      machine.procs.field machine.procs.currProcIdx .sp := rfl
  have arg : (machine.entering next).regs .a1 = machine.procs.field next .sp := rfl
  have limit : Riscv.wordLimit = wordLimit := rfl
  obtain ⟨_, _, _, unchanged, _⟩ := line_switch (machine.entering next)
    (by rw [sp]; omega) (by rw [sp, limit]; omega)
    (by rw [prev, limit]; exact tracked.field_lt inside .sp)
    (by rw [arg, limit]; exact tracked.field_lt also .sp)
    (by rw [prev, sp]; omega)
  rw [prev, sp] at unchanged
  refine ⟨rfl, fun a changed => ?_⟩
  -- Only the frame and the stack pointer that was left are written.
  by_cases here : a = machine.procs.field machine.procs.currProcIdx .sp
  · rw [ProcTable.field_slot tracked.seated tracked.memory.placed inside] at here
    exact .inr (.inl here)
  · refine .inl ?_
    by_contra elsewhere
    exact changed (unchanged a here (by omega))

/--
In every run, all processes see what the image shows.

Whatever creation keeps of the blocks in use, by the number of slots taken, is kept in every run.
-/
theorem Run.viewed_with {profile : Profile} {image : Image} {policy : Machine → Nat → Prop}
    {machine : Machine} {slots : List Slot} (Kept : Nat → List LiveBlock → Prop)
    (linked : Linked image) (start : ∀ block, Kept 0 [⟨procMax * procSize, block⟩])
    (grow : ∀ {kernel after : Kernel} {procs : ProcTable} {slots : List Slot} {depth i pc : Nat}
      {live other : List LiveBlock}, Viewed image kernel procs live →
      Furnished image kernel procs slots depth other → Kept slots.length live →
      (procs.createProcess profile image pc).run kernel.quiet = .ok i after →
      Kept (slots.length + 1) (handedOut after.trace ++ live))
    (run : Run profile image policy machine slots) :
    ∃ live, Viewed image machine.kernel machine.procs live ∧ Kept slots.length live := by
  -- The induction is on the run, where only a creation takes blocks into use.
  induction run with
  | boot arena zero table idle =>
    have viewed := Viewed.boot arena linked zero table
    obtain ⟨_, _, _, furnished⟩ := Furnished.boot arena zero table
    obtain ⟨_, quiet, created⟩ := viewed.create linked idle
    exact ⟨_, created, grow viewed furnished (start _) quiet⟩
  -- Work stays in the places of the process that runs.
  | work before own ih =>
    obtain ⟨live, viewed, kept⟩ := ih
    obtain ⟨_, _, tracked⟩ := before.tracked
    refine ⟨live, viewed.change tracked.toFurnished tracked.current rfl fun a changed => ?_, kept⟩
    rcases own a changed with stack | elsewhere
    · exact .inl stack
    · exact .inr (.inr elsewhere)
  | new before ran ih =>
    obtain ⟨live, viewed, kept⟩ := ih
    obtain ⟨_, _, tracked⟩ := before.tracked
    obtain ⟨_, quiet, created⟩ := viewed.create linked ran
    rw [List.length_append]
    exact ⟨_, created, grow viewed tracked.toFurnished kept quiet⟩
  | @giveUp machine after slots next before room eligible chosen ran ih =>
    obtain ⟨live, viewed, kept⟩ := ih
    obtain ⟨_, _, tracked⟩ := before.tracked
    have known := tracked.known eligible
    obtain ⟨memory, own⟩ := tracked.giveUp_frame room known ran
    obtain ⟨_, resumed, _, procs, _⟩ := tracked.giveUp room known
    rw [ran, EStateM.Result.ok.injEq] at resumed
    obtain ⟨_, rfl⟩ := resumed
    have changed := viewed.change tracked.toFurnished tracked.current memory own
    rw [procs, leave_length]
    exact ⟨live, changed.turn next, kept⟩

/-- In every run, all processes see what the image shows. -/
theorem Run.viewed {profile : Profile} {image : Image} {policy : Machine → Nat → Prop}
    {machine : Machine} {slots : List Slot} (linked : Linked image)
    (run : Run profile image policy machine slots) :
    ∃ live, Viewed image machine.kernel machine.procs live := by
  obtain ⟨live, viewed, _⟩ := run.viewed_with (fun _ _ => True) linked (fun _ => trivial)
    fun _ _ _ _ => trivial
  exact ⟨live, viewed⟩

/--
Translation means the same at all times and for all processes.

However processes work, are created and take turns, the page table of each of them maps the kernel
and free RAM to themselves and nothing else. Whenever the hart is handed over, it goes on with
such a page table, so that no address it has been using comes to mean anything else.
-/
theorem Run.translates_alike {profile : Profile} {image : Image} {policy : Machine → Nat → Prop}
    {machine : Machine} {slots : List Slot} (linked : Linked image)
    (run : Run profile image policy machine slots) :
    (∀ i slot, slots[i]? = some slot → machine.procs.pageTable machine.kernel.ram i = slot.table ∧
      ∀ v < wordLimit, Sv32.walk machine.kernel.ram slot.table.satp v = image.sees v) ∧
    ∀ next after, machine.Room image → machine.Eligible next →
      (Machine.giveUpTo next).run machine = .ok () after → ∀ v < wordLimit,
      Sv32.walk after.kernel.ram (after.csrs .satp) v = image.sees v := by
  obtain ⟨live, viewed⟩ := run.viewed linked
  obtain ⟨_, _, tracked⟩ := run.tracked
  refine ⟨fun i slot found => ?_, fun next after room eligible ran v word => ?_⟩
  · have known := (List.getElem?_eq_some_iff.mp found).1
    have table := tracked.pageTable_eq found
    refine ⟨table, fun v word => ?_⟩
    rw [← table]
    exact viewed.sees i (Nat.lt_of_lt_of_le known tracked.count) (tracked.runnable known) v word
  · have known := tracked.known eligible
    have inside := Nat.lt_of_lt_of_le known tracked.count
    obtain ⟨memory, own⟩ := tracked.giveUp_frame room known ran
    obtain ⟨_, resumed, turned, procs, satp, _⟩ := tracked.giveUp room known
    rw [ran, EStateM.Result.ok.injEq] at resumed
    obtain ⟨_, rfl⟩ := resumed
    -- Giving up the turn writes in places of the process that leaves, and no table is one.
    have changed := (viewed.change tracked.toFurnished tracked.current memory own).turn next
    rw [← procs] at changed
    -- The table that was installed is still the one that the slot was given.
    obtain ⟨slot, found⟩ : ∃ slot,
        (leave slots machine.procs.currProcIdx machine.regs)[next]? = some slot :=
      ⟨_, List.getElem?_eq_getElem (by simpa using known)⟩
    obtain ⟨old, was, table, _⟩ := leave_some found
    have same : machine.procs.pageTable machine.kernel.ram next =
        after.procs.pageTable after.kernel.ram next := by
      rw [tracked.pageTable_eq was, turned.pageTable_eq found, table]
    rw [satp, same]
    exact changed.sees next inside (turned.runnable (by simpa using known)) v word

end Layout

/-- The sample kernel, once the idle process and one more are created. -/
theorem sampleImage_run : letI := declaredLayout; letI := declaredProcLayout
    ∃ machine slots, Run .dev sampleImage Machine.Selects machine slots ∧
      slots.length = 2 ∧ machine.Room sampleImage := by
  let := declaredLayout
  let := declaredProcLayout
  let boot : Kernel := ⟨thirtyTwoPages, fun _ => 0, []⟩
  -- One evaluation runs all three calls; what it went through is recovered from its bind steps.
  have seen : Exec.observe (do
      let procs ← ProcTable.new .dev
      let _ ← procs.createProcess .dev sampleImage 0
      let _ ← procs.createProcess .dev sampleImage 0x80001234
      return procs : Exec Fault Kernel ProcTable) boot (fun procs _ => procs.currProcIdx) =
        some 0 := by decide +kernel
  obtain ⟨_, last, ran, current⟩ := Exec.observe_eq_some.mp seen
  obtain ⟨procs, made, table, ran⟩ := Exec.run_bind_ok.mp ran
  obtain ⟨_, ready, idle, ran⟩ := Exec.run_bind_ok.mp ran
  obtain ⟨_, full, first, ran⟩ := Exec.run_bind_ok.mp ran
  rw [EStateM.run_pure, EStateM.Result.ok.injEq] at ran
  obtain ⟨rfl, rfl⟩ := ran
  -- Boot made the table and the idle process, and one process was created after that.
  have arena : Memory.PowerArena .dev sampleImage.freeRam sampleImage.freeRamEnd boot.memory :=
    thirtyTwoPages_arena
  have start : Run .dev sampleImage Machine.Selects ⟨ready, procs, fun _ => 0x80014000, fun _ => 0, 0⟩
      _ := .boot arena (fun _ _ _ => rfl) table idle
  refine ⟨_, _, .new start first, rfl, ?_⟩
  simp only [Machine.Room, stackLow, stackHigh, current, if_true]
  decide

/-- Handing the hart to the first process leaves what an address of the kernel stands for. -/
theorem Run.translates_alike_first : letI := declaredLayout; letI := declaredProcLayout
    ∃ machine slots after, Run .dev sampleImage Machine.Selects machine slots ∧
      (Machine.giveUpTo 1).run machine = .ok () after ∧
      Sv32.walk after.kernel.ram (after.csrs .satp) 0x80010123 =
        .leaf 0x80010123 (pageV ||| pageR ||| pageW ||| pageX) ∧
      Sv32.walk after.kernel.ram (after.csrs .satp) 0x80040000 = .invalid := by
  let := declaredLayout
  let := declaredProcLayout
  obtain ⟨machine, slots, run, two, room⟩ := sampleImage_run
  obtain ⟨depth, live, tracked⟩ := run.tracked
  obtain ⟨after, ran, _⟩ := tracked.giveUp room (by omega : 1 < slots.length)
  -- Slot 1 holds a process, so `give_up` may switch to it.
  have eligible : machine.Eligible 1 := by
    refine .inr ⟨by rw [tracked.seated.cap]; decide, ?_⟩
    exact (tracked.taken_iff (by decide)).mpr (by omega)
  -- After the switch it sees the image, and nothing past the free RAM.
  have sees := (Run.translates_alike sampleImage_linked run).2 1 after room eligible ran
  refine ⟨machine, slots, after, run, ran, ?_, ?_⟩
  · rw [sees _ (by decide)]
    rfl
  · rw [sees _ (by decide)]
    rfl

end Os1k
