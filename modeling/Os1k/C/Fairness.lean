import Os1k.Lib.Rotation
import Os1k.C.Exit

/-! How long a process of the C kernel waits for its turn, whatever the others do. -/

namespace Os1k.C

open Relation

namespace Globals

/--
The runs of creations, exits and yields, with the processes that the yields selected.

What lies outside the array may change at any time.
-/
inductive Turns (first : Globals) : List Int → Globals → Prop where
  | here : Turns first [] first
  | create {picks : List Int} {globals made : Globals} {slot : Nat}
      (before : Turns first picks globals) (created : globals.createProcess = some (slot, made)) :
      Turns first picks made
  | exit {picks : List Int} {globals : Globals} (before : Turns first picks globals) :
      Turns first picks globals.exited
  | yield {picks : List Int} {globals : Globals} (before : Turns first picks globals)
      (outside : Int → Process) :
      Turns first (picks ++ [globals.selectNext outside]) (globals.yield outside)

/-- Yields one after the other, with the processes that they selected. -/
def yieldAll (globals : Globals) : List (Int → Process) → List Int × Globals
  | [] => ([], globals)
  | outside :: rest =>
    let (picks, last) := (globals.yield outside).yieldAll rest
    (globals.selectNext outside :: picks, last)

/-- The processes that can be selected, in the order that starts behind a slot. -/
def readyFrom (globals : Globals) (slot : Nat) : List Nat :=
  (Rotation.circle procNoMax slot).filter fun i => (globals.procs i).Ready

variable {globals first after : Globals} {outside : Int → Process} {slot current : Nat}

/-- The loop of `yield` is a search in a circle, which starts behind the current process. -/
theorem selectNext_of_next (numbered : Numbered globals) (here : globals.currentProc = current)
    (busy : current ≠ 0) {found : Nat}
    (search : Rotation.next procNoMax (fun i => (globals.procs i).Ready) current = some found) :
    globals.selectNext outside = found := by
  have other : globals.currentProc ≠ globals.idleProc := by
    rw [here, numbered.idle]
    omega
  have inOrder : globals.YieldsInOrder outside := yieldsInOrder numbered other
  obtain ⟨_, start, _, same, first, _⟩ := inOrder
  obtain rfl : current = start := by omega
  obtain ⟨ready, before, behind, split, skipped⟩ := Rotation.next_eq_some_iff.mp search
  -- The position that is found is as far behind the current one as there are positions skipped.
  have size : (before ++ found :: behind).length = procNoMax := by
    rw [← split, Rotation.circle_length]
  have within : before.length < procNoMax := by
    rw [← size]
    simp
  -- The positions of the circle are those that `yield` tries, in its order.
  have slots : ∀ i (inside : i < procNoMax),
      (before ++ found :: behind)[i]? = some (cyclic current i) := by
    intro i inside
    have turn : i < (Rotation.circle procNoMax current).length := by simpa
    rw [← split, List.getElem?_eq_getElem turn, Rotation.circle_getElem turn, cyclic]
  have landed := slots before.length within
  simp only [List.getElem?_append_right (Nat.le_refl _), Nat.sub_self, List.getElem?_cons_zero,
    Option.some.injEq] at landed
  rw [landed]
  apply first before.length within
  · rw [← landed]
    exact ready
  · intro j earlier
    have passed := slots j (by omega)
    rw [List.getElem?_append_left earlier] at passed
    exact skipped _ (List.mem_of_getElem? passed)

/-- While some process can be selected, one is found in the circle. -/
theorem exists_next (inside : slot < procNoMax) (ready : (globals.procs slot).Ready)
    (current : Nat) : ∃ found,
      Rotation.next procNoMax (fun i => (globals.procs i).Ready) current = some found := by
  cases search : Rotation.next procNoMax (fun i => (globals.procs i).Ready) current with
  | none => exact absurd ready (Rotation.next_eq_none_iff.mp search slot inside)
  | some found => exact ⟨found, rfl⟩

namespace Turns

/-- Runs continue one another. -/
theorem trans {middle : Globals} {picks more : List Int} (before : first.Turns picks middle)
    (run : middle.Turns more after) : first.Turns (picks ++ more) after := by
  -- The induction is on the second run, which ends with the last step.
  induction run with
  | here =>
    rw [List.append_nil]
    exact before
  | create _ created ih => exact .create ih created
  | exit _ ih => exact .exit ih
  | yield _ outside ih =>
    rw [← List.append_assoc]
    exact .yield ih outside

end Turns

end Globals

namespace Threads

variable {threads after : Threads}

/-- What the kernel does in a step is a creation, an exit, a yield, or nothing to the globals. -/
theorem Step.turns (taken : threads.Step after) :
    ∃ picks, threads.globals.Turns picks after.globals := by
  -- The cases follow the kinds of steps, and for a system call its number.
  cases taken with
  | create _ =>
    unfold Threads.create
    cases created : threads.globals.createProcess with
    | none => exact ⟨[], .here⟩
    | some result => exact ⟨[], .create .here created⟩
  | yield _ outside _ => exact ⟨_, .yield .here outside⟩
  | syscall _ a3 input outside _ =>
    unfold handleSyscall
    split_ifs with putchar getchar polled exit
    · exact ⟨[], .here⟩
    · exact ⟨[], .here⟩
    · exact ⟨_, .yield .here outside⟩
    · exact ⟨_, .yield (.exit .here) outside⟩
    · exact ⟨[], .here⟩

/-- So the runs of the kernel are among those of the globals. -/
theorem turns_of_run (run : ReflTransGen Step threads after) :
    ∃ picks, threads.globals.Turns picks after.globals := by
  -- The induction is on the steps of the run.
  induction run with
  | refl => exact ⟨[], .here⟩
  | tail _ taken ih =>
    obtain ⟨picks, before⟩ := ih
    obtain ⟨more, next⟩ := taken.turns
    exact ⟨picks ++ more, before.trans next⟩

end Threads

/--
A process that can be selected waits for its turn.

The current process is another one, and has a program to go on with.
-/
structure Waiting (globals : Globals) (slot current : Nat) : Prop where
  numbered : Numbered globals
  inside : slot < procNoMax
  ready : (globals.procs slot).Ready
  here : globals.currentProc = current
  other : slot ≠ current
  busy : current ≠ 0

namespace Waiting

open Globals

variable {globals : Globals} {slot current : Nat}

/-- A creation takes a slot that is free, and so not that of a process that waits. -/
theorem create (waiting : Waiting globals slot current) {taken : Nat} {made : Globals}
    (created : globals.createProcess = some (taken, made)) : Waiting made slot current := by
  -- The slot that a creation takes was unused, so it is not the slot that waits.
  have used : (globals.procs slot).state ≠ procStateUnused := by
    rw [waiting.ready.1]
    decide
  have kept := Globals.createProcess_other created used
  -- Nor does a creation move the pointer to the current process.
  have pointer : made.currentProc = globals.currentProc := by
    obtain ⟨_, _, rfl⟩ := createProcess_eq_some created
    rfl
  exact {
    numbered := waiting.numbered.create created
    inside := waiting.inside
    ready := by
      rw [kept.2]
      exact waiting.ready
    here := pointer.trans waiting.here
    other := waiting.other
    busy := waiting.busy }

/-- Only the current process exits, and not one that waits. -/
theorem exit (waiting : Waiting globals slot current) : Waiting globals.exited slot current where
  numbered := waiting.numbered.exit
  inside := waiting.inside
  ready := by
    rw [exited_other waiting.here waiting.other]
    exact waiting.ready
  here := waiting.here
  other := waiting.other
  busy := waiting.busy

/--
A yield either selects the process that waits, or one of those before it in the circle.

Then fewer of them are left.
-/
theorem yield (waiting : Waiting globals slot current) (outside : Int → Process) :
    globals.selectNext outside = slot ∨ ∃ next : Nat, globals.selectNext outside = next ∧
      Waiting (globals.yield outside) slot next ∧
      (next :: Rotation.between procNoMax next slot).Sublist
        (Rotation.between procNoMax current slot) := by
  -- The search finds some process, as there is one that waits.
  obtain ⟨next, search⟩ := exists_next waiting.inside waiting.ready current
  have selected : globals.selectNext outside = next :=
    selectNext_of_next waiting.numbered waiting.here waiting.busy search
  by_cases mine : next = slot
  · left
    rw [selected, mine]
  · right
    obtain ⟨ready, before, behind, split, _⟩ := Rotation.next_eq_some_iff.mp search
    have small : next < procNoMax := by
      have member : next ∈ Rotation.circle procNoMax current := by
        rw [split]
        simp
      exact Rotation.mem_circle.mp member
    refine ⟨next, selected, ?_, Rotation.between_next search waiting.ready waiting.inside mine⟩
    exact {
      numbered := waiting.numbered.yield (by rw [selected]; unfold InArray; omega)
      inside := waiting.inside
      ready := waiting.ready
      here := selected
      other := Ne.symm mine
      busy := by
        rintro rfl
        exact waiting.numbered.idle_not_ready ready }

/-- As long as a process is not selected it waits, and those selected are ones before it. -/
theorem run (waiting : Waiting globals slot current) {picks : List Int} {after : Globals}
    (turns : globals.Turns picks after) (missed : (slot : Int) ∉ picks) :
    ∃ now, Waiting after slot now ∧ ∃ slots : List Nat, picks = slots.map Int.ofNat ∧
      (slots ++ Rotation.between procNoMax now slot).Sublist
        (Rotation.between procNoMax current slot) := by
  -- The induction is on the run, and what is left to wait for shrinks with every yield.
  induction turns with
  | here => exact ⟨current, waiting, [], rfl, List.Sublist.refl _⟩
  | create _ created ih =>
    obtain ⟨now, waits, slots, same, left⟩ := ih missed
    exact ⟨now, waits.create created, slots, same, left⟩
  | exit _ ih =>
    obtain ⟨now, waits, slots, same, left⟩ := ih missed
    exact ⟨now, waits.exit, slots, same, left⟩
  | yield _ outside ih =>
    rw [List.mem_append, not_or, List.mem_singleton] at missed
    obtain ⟨earlier, other⟩ := missed
    obtain ⟨now, waits, slots, rfl, left⟩ := ih earlier
    rcases waits.yield outside with mine | ⟨next, selected, still, fewer⟩
    · exact absurd mine.symm other
    · refine ⟨next, still, slots ++ [next], by rw [selected]; simp, ?_⟩
      have grown := (fewer.append_left slots).trans left
      simpa using grown

/-- In a reachable state, a process that can run waits unless it is the current one. -/
theorem of_scheduled (reached : Scheduled globals) (here : globals.currentProc = current)
    (busy : globals.currentProc ≠ globals.idleProc) (inside : slot < procNoMax)
    (ready : (globals.procs slot).Ready) (other : slot ≠ current) :
    Waiting globals slot current := by
  refine ⟨reached.numbered, inside, ready, here, other, ?_⟩
  rintro rfl
  exact busy (here.trans reached.numbered.idle.symm)

/-- The processes selected before one that waits are those before it in the circle. -/
theorem in_line (waiting : Waiting globals slot current) {picks : List Int} {after : Globals}
    (turns : globals.Turns picks after) (missed : (slot : Int) ∉ picks) :
    (after.procs slot).Ready ∧
    picks.Sublist ((Rotation.between procNoMax current slot).map Int.ofNat) ∧
    picks.Nodup ∧ picks.length + 2 ≤ procNoMax := by
  have small : current < procNoMax := by
    obtain ⟨known, bounded, same, _⟩ := waiting.numbered.current
    have here := waiting.here
    omega
  -- What was selected, and what is left to wait for, are parts of what lay before the slot.
  obtain ⟨now, still, slots, rfl, left⟩ := waiting.run turns missed
  have part := (List.sublist_append_left slots _).trans left
  have nodup : (Rotation.between procNoMax current slot).Nodup :=
    (Rotation.circle_nodup procNoMax current).sublist (List.takeWhile_sublist _)
  have room := Rotation.between_length waiting.inside small waiting.other
  have shorter := part.length_le
  refine ⟨still.ready, part.map _, ?_, ?_⟩
  · exact (nodup.sublist part).map Int.ofNat_injective
  · rw [List.length_map]
    omega

end Waiting

namespace Globals

variable {globals after : Globals} {slot current : Nat}

/--
A process that can run waits for its turn in line, whatever processes are created or exit.

Until it is selected, the others are selected in the order of their slots, each at most once.
-/
theorem waits_in_line (reached : Scheduled globals) (here : globals.currentProc = current)
    (busy : globals.currentProc ≠ globals.idleProc) (inside : slot < procNoMax)
    (ready : (globals.procs slot).Ready) (other : slot ≠ current) {picks : List Int}
    (run : globals.Turns picks after) (missed : (slot : Int) ∉ picks) :
    (after.procs slot).Ready ∧
    picks.Sublist ((Rotation.between procNoMax current slot).map Int.ofNat) ∧
    picks.Nodup ∧ picks.length + 2 ≤ procNoMax := by
  exact (Waiting.of_scheduled reached here busy inside ready other).in_line run missed

/-- Boot has created three processes, and has yielded to the first of them. -/
def threeRun : Globals where
  procs := Function.update (Function.update shellMade.procs 2 ⟨(2 : Nat) + 1, procStateRunnable⟩) 3
    ⟨(3 : Nat) + 1, procStateRunnable⟩
  idleProc := 0
  currentProc := 1

theorem scheduled_threeRun : Scheduled threeRun := by
  -- The idle process starts its search before the array, where nothing looks like a process.
  have two : Scheduled { shellMade with
      procs := Function.update shellMade.procs 2 ⟨(2 : Nat) + 1, procStateRunnable⟩ } :=
    scheduled_shellMade.create rfl
  have three : Scheduled { threeRun with currentProc := 0 } := two.create rfl
  exact three.yield blank (by decide)

/-- The third process waits for the second one, which exits in its turn. -/
theorem waits_in_line_three :
    (((threeRun.yield blank).exited.procs 3).Ready) ∧
      [(2 : Int)].Sublist ((Rotation.between procNoMax 1 3).map Int.ofNat) ∧
      [(2 : Int)].Nodup ∧ [(2 : Int)].length + 2 ≤ procNoMax := by
  have run : threeRun.Turns [2] (threeRun.yield blank).exited := .exit (.yield .here blank)
  exact waits_in_line scheduled_threeRun rfl (by decide) (by decide) (by decide) (by decide) run
    (by decide)

/-- The process that a search in the circle finds from a slot on. -/
def nextReady (globals : Globals) (slot : Nat) : Nat :=
  (Rotation.next procNoMax (fun i => (globals.procs i).Ready) slot).getD globals.idleProc.toNat

/-- A process that can run hands over to what is found from its slot on, which can run as well. -/
theorem selectNext_nextReady (numbered : Numbered globals) (here : globals.currentProc = current)
    (ready : (globals.procs current).Ready) (inside : current < procNoMax)
    (outside : Int → Process) :
    globals.selectNext outside = globals.nextReady current ∧
      (globals.procs (globals.nextReady current)).Ready ∧
      globals.nextReady current < procNoMax := by
  have busy : current ≠ 0 := by
    rintro rfl
    exact numbered.idle_not_ready ready
  -- The current process is ready itself, so the search around the circle finds one.
  obtain ⟨found, search⟩ := exists_next inside ready current
  have same : globals.nextReady current = found := by
    rw [nextReady, search, Option.getD_some]
  obtain ⟨passes, before, after, split, _⟩ := Rotation.next_eq_some_iff.mp search
  have member : found ∈ Rotation.circle procNoMax current := by
    rw [split]
    simp
  rw [same]
  exact ⟨selectNext_of_next numbered here busy search, passes, Rotation.mem_circle.mp member⟩

/-- Yields take turns, and change nothing but the current process. -/
theorem yieldAll_eq (numbered : Numbered globals) (here : globals.currentProc = current)
    (ready : (globals.procs current).Ready) (inside : current < procNoMax)
    (outsides : List (Int → Process)) :
    globals.yieldAll outsides =
      ((Rotation.turns globals.nextReady current outsides.length).map Int.ofNat,
        { globals with currentProc :=
          ((Rotation.turns globals.nextReady current outsides.length).getLastD current : Nat) }) := by
  -- The induction is on the yields.
  induction outsides generalizing globals current with
  | nil =>
    simp only [yieldAll, Rotation.turns, List.length_nil, List.map_nil, List.getLastD_nil, ← here]
  | cons outside rest ih =>
    obtain ⟨selected, passes, small⟩ :=
      selectNext_nextReady numbered here ready inside outside
    have after : Numbered (globals.yield outside) :=
      numbered.yield (by rw [selected]; unfold InArray; omega)
    have later := ih after selected passes small
    have same : (globals.yield outside).nextReady = globals.nextReady := rfl
    rw [yieldAll, later, same, selected, List.length_cons, Rotation.turns, List.map_cons,
      List.getLastD_cons]
    rfl

/--
As long as no process is created or exits, the processes that can run take turns.

A round of yields selects each of them once, in the order of the slots that starts behind the
current process, and ends in the state in which it began.
-/
theorem yieldAll_round (reached : Scheduled globals) (here : globals.currentProc = current)
    (ready : (globals.procs current).Ready) (outsides : List (Int → Process))
    (round : outsides.length = (globals.readyFrom current).length) :
    globals.yieldAll outsides = ((globals.readyFrom current).map Int.ofNat, globals) := by
  have numbered := reached.numbered
  have inside : current < procNoMax := by
    obtain ⟨known, bounded, same, _⟩ := numbered.current
    omega
  -- As many turns as there are processes that can run go round the circle.
  have turns : Rotation.turns globals.nextReady current outsides.length
      = globals.readyFrom current := by
    rw [Rotation.turns_eq_take current _ ready (Nat.le_of_eq round), round]
    · exact List.take_length
    · intro last _
      obtain ⟨found, search⟩ := exists_next inside ready last
      rw [search, nextReady, search, Option.getD_some]
  have ends : (globals.readyFrom current).getLastD current = current := by
    obtain ⟨others, split⟩ := Rotation.circle_end inside
    rw [readyFrom, split, List.filter_append, List.filter_cons_of_pos (by simpa using ready)]
    simp
  rw [yieldAll_eq numbered here ready inside, turns, ends, ← here]

/-- Three processes take turns. -/
theorem yieldAll_round_three :
    threeRun.yieldAll [blank, blank, blank] = ([2, 3, 1], threeRun) :=
  yieldAll_round scheduled_threeRun rfl (by decide) [blank, blank, blank] (by decide)

end Globals

/--
In every run of the kernel, a process that can run waits for its turn in line.

The run may create processes, make system calls and yield. What its yields select before the process
comes in the order of the slots, each at most once.
-/
theorem Threads.run_in_line {threads after : Threads} {slot current : Nat}
    (reached : Scheduled threads.globals) (here : threads.globals.currentProc = current)
    (busy : threads.globals.currentProc ≠ threads.globals.idleProc) (inside : slot < procNoMax)
    (ready : (threads.globals.procs slot).Ready) (other : slot ≠ current)
    (run : ReflTransGen Step threads after) :
    ∃ picks, threads.globals.Turns picks after.globals ∧ ((slot : Int) ∉ picks →
      (after.globals.procs slot).Ready ∧
      picks.Sublist ((Rotation.between procNoMax current slot).map Int.ofNat) ∧
      picks.Nodup ∧ picks.length + 2 ≤ procNoMax) := by
  obtain ⟨picks, turns⟩ := Threads.turns_of_run run
  exact ⟨picks, turns,
    (Waiting.of_scheduled reached here busy inside ready other).in_line turns⟩

end Os1k.C
