import Os1k.Proc.Process

/-! Which process runs next: what the table says of its slots, and the turns they get. -/

namespace Os1k

/-- What scheduling depends on: the states of the slots, and the slot of the process that runs. -/
structure Sched where
  states : List ProcState
  curr : Nat
  deriving DecidableEq, Repr

namespace Sched

/-- The first slot that is not taken. -/
def nextUnused (sched : Sched) : Option Nat :=
  (List.range sched.states.length).find? fun i => sched.states[i]? = some .unused

/-- The slots from 1 on that can run, in order. -/
def work (sched : Sched) : List Nat :=
  (List.range' 1 (sched.states.length - 1)).filter fun i => sched.states[i]? = some .runnable

/-- The first other slot that can run, or else slot 0. -/
def select (sched : Sched) : Nat := (sched.work.find? fun i => i ≠ sched.curr).getD 0

/-- A slot is taken. -/
def create (sched : Sched) (i : Nat) : Sched :=
  { sched with states := sched.states.set i .runnable }

/-- The hart goes to another slot. -/
def turn (sched : Sched) (next : Nat) : Sched := { sched with curr := next }

/--
The tables that are reached from an empty one by taking slots and giving turns.

The first slot is taken first, for the idle process that stands for boot.
-/
inductive Reach (cap : Nat) : Sched → Prop where
  | idle (positive : 0 < cap) : Reach cap (Sched.create ⟨List.replicate cap .unused, 0⟩ 0)
  | create {sched : Sched} {i : Nat} (before : Reach cap sched)
      (found : sched.nextUnused = some i) : Reach cap (sched.create i)
  | giveUp {sched : Sched} (before : Reach cap sched) : Reach cap (sched.turn sched.select)

variable {sched : Sched}

/-- A slot can run if it is one of the table and marked so. -/
theorem mem_work {i : Nat} : i ∈ sched.work ↔ 1 ≤ i ∧ sched.states[i]? = some .runnable := by
  -- A slot that has a state is one of the table, so that the range is no restriction.
  have inside : sched.states[i]? = some .runnable → i < sched.states.length := fun state =>
    (List.getElem?_eq_some_iff.mp state).1
  simp only [work, List.mem_filter, List.mem_range'_1, decide_eq_true_eq]
  constructor
  · rintro ⟨range, state⟩
    exact ⟨range.1, state⟩
  · rintro ⟨low, state⟩
    have high := inside state
    exact ⟨⟨low, by omega⟩, state⟩

/-- Slots are met once each. -/
theorem work_nodup (sched : Sched) : sched.work.Nodup :=
  List.Nodup.filter _ (List.nodup_range' 1)

/-- The selected slot is another one that can run, if there is one. -/
theorem select_spec (sched : Sched) :
    (sched.select ∈ sched.work ∧ sched.select ≠ sched.curr) ∨
      (sched.select = 0 ∧ ∀ i ∈ sched.work, i = sched.curr) := by
  unfold select
  -- The scan either comes to another slot that can run, or finds none.
  cases found : sched.work.find? fun i => i ≠ sched.curr with
  | none =>
    right
    refine ⟨rfl, fun i member => ?_⟩
    simpa using List.find?_eq_none.mp found i member
  | some next =>
    left
    have other := List.find?_some found
    exact ⟨List.mem_of_find?_eq_some found, by simpa using other⟩

/-- Slot 0 is selected exactly when no other slot can run. -/
theorem select_eq_zero : sched.select = 0 ↔ ∀ i ∈ sched.work, i = sched.curr := by
  -- The scan starts at slot 1, so a slot that it finds is not slot 0.
  rcases sched.select_spec with ⟨member, other⟩ | ⟨idle, none⟩
  · have positive := (mem_work.mp member).1
    exact ⟨fun idle => by omega, fun all => absurd (all _ member) other⟩
  · exact ⟨fun _ => none, fun _ => idle⟩

/-- In a table that is reached, slot 0 is taken and the process that runs is in a slot taken. -/
theorem Reach.taken {cap : Nat} (reach : Reach cap sched) :
    sched.states[0]? = some .runnable ∧ sched.states[sched.curr]? = some .runnable := by
  -- Slots are never given back, so a slot that was taken stays so.
  have kept : ∀ {states : List ProcState} {i j : Nat}, states[j]? = some ProcState.runnable →
      (states.set i .runnable)[j]? = some .runnable := by
    intro states i j state
    have inside := (List.getElem?_eq_some_iff.mp state).1
    by_cases here : i = j
    · subst here
      rw [List.getElem?_set_self inside]
    · rw [List.getElem?_set_ne here, state]
  induction reach with
  | idle positive => simp [Sched.create, positive]
  | create before found ih => exact ⟨kept ih.1, kept ih.2⟩
  -- The turn goes to a slot that can run, or to slot 0, and both are taken.
  | @giveUp sched before ih =>
    refine ⟨ih.1, ?_⟩
    rcases sched.select_spec with ⟨member, _⟩ | ⟨idle, _⟩
    · exact (mem_work.mp member).2
    · have same : (sched.turn sched.select).curr = 0 := idle
      rw [same]
      exact ih.1

/-- If the slots taken come first, the next one is found right after them. -/
theorem nextUnused_replicate {taken cap : Nat} (more : taken < cap) (curr : Nat) :
    nextUnused ⟨List.replicate taken .runnable ++ List.replicate (cap - taken) .unused, curr⟩
      = some taken := by
  refine List.find?_range_eq_some.mpr ⟨?_, ?_, ?_⟩
  · rw [List.getElem?_append_right (by simp)]
    simp [Nat.sub_pos_of_lt more]
  · simp only [List.mem_range, List.length_append, List.length_replicate]
    omega
  · -- All earlier slots are taken.
    intro i before
    rw [List.getElem?_append_left (by simpa using before)]
    simp [before]

/-- Taking the next slot keeps the slots taken in front. -/
theorem create_replicate {taken cap : Nat} (more : taken < cap) {curr : Nat} :
    create ⟨List.replicate taken .runnable ++ List.replicate (cap - taken) .unused, curr⟩ taken =
      ⟨List.replicate (taken + 1) .runnable ++ List.replicate (cap - (taken + 1)) .unused, curr⟩ := by
  have rest : cap - taken = (cap - (taken + 1)) + 1 := by omega
  rw [create, rest, List.replicate_succ, List.replicate_succ']
  simp [List.set_append_right]

/--
A turn goes to slot 0 only for want of work exactly when the process that gives up is not the only
one: it is the idle one, or some other slot can run.
-/
theorem idle_for_want_of_work_iff {cap : Nat} (reach : Reach cap sched) :
    (sched.select = 0 → ∀ i, 1 ≤ i → sched.states[i]? ≠ some .runnable) ↔
      sched.curr = 0 ∨ ∃ i, 1 ≤ i ∧ i ≠ sched.curr ∧ sched.states[i]? = some .runnable := by
  constructor
  · intro property
    by_contra neither
    rw [not_or, not_exists] at neither
    obtain ⟨busy, alone⟩ := neither
    -- The process that gives up is then the only one that can run, and it is not selected again.
    have idle : sched.select = 0 := select_eq_zero.mpr fun i member => by
      by_contra other
      exact alone i ⟨(mem_work.mp member).1, other, (mem_work.mp member).2⟩
    exact property idle sched.curr (by omega) reach.taken.2
  · -- If slot 0 is selected, only the process that gives up can run, besides slot 0.
    intro condition idle i positive state
    have all := select_eq_zero.mp idle
    rcases condition with zero | ⟨other, high, different, runnable⟩
    · have same := all i (mem_work.mpr ⟨positive, state⟩)
      omega
    · exact different (all other (mem_work.mpr ⟨high, runnable⟩))

/-- The slots that run in the next turns, while no slot is taken. -/
def visits (sched : Sched) : Nat → List Nat
  | 0 => []
  | turns + 1 => sched.select :: (sched.turn sched.select).visits turns

/-- With two slots or more, every turn goes to one of the first two. -/
theorem select_pair {first second : Nat} {rest : List Nat}
    (work : sched.work = first :: second :: rest) :
    sched.select = if sched.curr = first then second else first := by
  have different : first ≠ second := by
    have nodup := sched.work_nodup
    rw [work] at nodup
    simp only [List.nodup_cons, List.mem_cons, not_or] at nodup
    exact nodup.1.1
  rw [select, work]
  -- The first slot is passed by only when it is the one that gives up.
  by_cases here : sched.curr = first
  · simp [here, different.symm]
  · simp [here, Ne.symm here]

/-- However many turns there are, they go to the first two slots. -/
theorem visits_pair {first second : Nat} {rest : List Nat}
    (work : sched.work = first :: second :: rest) (turns : Nat) :
    ∀ i ∈ sched.visits turns, i = first ∨ i = second := by
  -- The first two slots stay the same from turn to turn.
  induction turns generalizing sched with
  | zero => simp [visits]
  | succ turns ih =>
    intro i member
    rw [visits, List.mem_cons] at member
    rcases member with now | later
    · rw [now, select_pair work]
      by_cases here : sched.curr = first
      · exact .inr (if_pos here)
      · exact .inl (if_neg here)
    · -- A turn changes who runs and not who can run.
      have same : (sched.turn sched.select).work = first :: second :: rest := work
      exact ih same i later

/-- Turns go round all the slots that can run exactly when there are two of these. -/
theorem visits_round_iff (busy : sched.curr ∈ sched.work) (several : 2 ≤ sched.work.length) :
    ((sched.visits sched.work.length).Perm sched.work ∧
      (sched.visits sched.work.length).getLast? = some sched.curr) ↔ sched.work.length = 2 := by
  obtain ⟨first, second, rest, work⟩ : ∃ first second rest, sched.work = first :: second :: rest := by
    match slots : sched.work with
    | [] => simp [slots] at several
    | [_] => simp [slots] at several
    | first :: second :: rest => exact ⟨first, second, rest, rfl⟩
  have nodup := sched.work_nodup
  constructor
  · intro ⟨perm, _⟩
    cases rest with
    | nil =>
      rw [work]
      rfl
    | cons third rest =>
      -- The third slot is not among those visited.
      have visited := perm.symm.subset (by simp [work] : third ∈ sched.work)
      rw [work] at nodup
      simp only [List.nodup_cons, List.mem_cons, not_or] at nodup
      rcases visits_pair work _ third visited with same | same
      · exact absurd same.symm nodup.1.2.1
      · exact absurd same.symm nodup.2.1.1
  · -- Two slots take turns, which is a round.
    intro two
    cases rest with
    | cons third rest => simp [work] at two
    | nil =>
      have different : first ≠ second := by
        rw [work] at nodup
        simpa using nodup
      have twice : sched.visits 2 = [sched.select, (sched.turn sched.select).select] := rfl
      -- After the first of the two has been visited, the other one is.
      have again : (sched.turn sched.select).select =
          if sched.select = first then second else first :=
        select_pair (show (sched.turn sched.select).work = [first, second] from work)
      rw [two, twice, again, select_pair work, work]
      rw [work] at busy
      rcases List.mem_pair.mp busy with here | here
      · rw [if_pos here, if_neg different.symm, here]
        exact ⟨.swap _ _ _, rfl⟩
      · rw [here, if_neg different.symm, if_pos rfl]
        exact ⟨.refl _, rfl⟩

end Sched

section Layout

variable [VecLayout] [ProcLayout]

/-- The states of the slots as RAM has them. -/
def ProcTable.sched (procs : ProcTable) (ram : Nat → Nat) : Sched where
  states := (List.range procs.table.cap).map fun i =>
    (Elem.read ram (procs.table.slotAddr i) : Process).state
  curr := procs.currProcIdx

namespace ProcTable

variable {procs : ProcTable}

/-- There is a state for each slot of the table. -/
theorem sched_length (procs : ProcTable) (ram : Nat → Nat) :
    (procs.sched ram).states.length = procs.table.cap := by simp [sched]

/-- The state of a slot of the table. -/
theorem sched_state (ram : Nat → Nat) {i : Nat} (inside : i < procs.table.cap) :
    (procs.sched ram).states[i]? =
      some (Elem.read ram (procs.table.slotAddr i) : Process).state := by
  simp [sched, inside]

/-- Reading slots one after the other, up to the first that fits. -/
theorem run_find (test : Nat → Process → Bool) (kernel : Kernel) (indices : List Nat)
    (inside : ∀ i ∈ indices, i < procs.table.cap) :
    EStateM.run (indices.findM? fun i => do
        return test i (← procs.table.index i) : Exec Fault Kernel (Option Nat)) kernel =
      .ok (indices.find? fun i => test i (Elem.read kernel.ram (procs.table.slotAddr i))) kernel := by
  -- Reading a slot leaves memory alone, so each step sees the same slots.
  induction indices with
  | nil => rfl
  | cons i indices ih =>
    have read := FixedVec.run_index (inside i List.mem_cons_self) kernel
    have rest := ih fun j member => inside j (List.mem_cons_of_mem _ member)
    rw [List.findM?, List.find?_cons]
    simp only [EStateM.run_bind, EStateM.run_pure, read]
    cases fits : test i (Elem.read kernel.ram (procs.table.slotAddr i)) with
    | true => rfl
    | false => exact rest

/-- The code looks for the first slot that is not taken. -/
theorem run_nextUnused (procs : ProcTable) (kernel : Kernel) :
    procs.nextUnused.run kernel = .ok (procs.sched kernel.ram).nextUnused kernel := by
  have looked := run_find (fun _ process => process.state = .unused) kernel
    (List.range procs.table.cap) fun i member => List.mem_range.mp member
  have length := procs.sched_length kernel.ram
  rw [nextUnused, looked, Sched.nextUnused, length]
  congr 1
  -- What the code reads in each slot is what the view lists.
  apply List.find?_congr
  intro i member
  rw [sched_state _ (List.mem_range.mp member)]
  simp

/-- The code looks for the first other slot that can run. -/
theorem run_selectNext (procs : ProcTable) (kernel : Kernel) :
    procs.selectNext.run kernel = .ok (procs.sched kernel.ram).select kernel := by
  -- The scan covers the slots from 1 on.
  have inside : ∀ i ∈ List.range' 1 (procs.table.cap - 1), i < procs.table.cap := by
    intro i member
    rw [List.mem_range'_1] at member
    omega
  have looked := run_find (fun i process => process.state = .runnable ∧ i ≠ procs.currProcIdx)
    kernel (List.range' 1 (procs.table.cap - 1)) inside
  have length := procs.sched_length kernel.ram
  rw [selectNext, EStateM.run_bind, looked, Sched.select, Sched.work, length, List.find?_filter]
  simp only [EStateM.run_pure]
  congr 2
  apply List.find?_congr
  intro i member
  have curr : (procs.sched kernel.ram).curr = procs.currProcIdx := rfl
  rw [sched_state _ (inside i member), curr]
  simp

/--
A turn goes to slot 0 only for want of work exactly when the process that gives up is not the only
one: it is the idle one, or some other slot can run.
-/
theorem selectNext_idle_iff {procs : ProcTable} {kernel : Kernel}
    (reach : Sched.Reach procs.table.cap (procs.sched kernel.ram)) :
    ∃ next, procs.selectNext.run kernel = .ok next kernel ∧
      ((next = 0 → ∀ i, 1 ≤ i → (procs.sched kernel.ram).states[i]? ≠ some .runnable) ↔
        procs.currProcIdx = 0 ∨ ∃ i, 1 ≤ i ∧ i ≠ procs.currProcIdx ∧
          (procs.sched kernel.ram).states[i]? = some .runnable) :=
  ⟨_, procs.run_selectNext kernel, Sched.idle_for_want_of_work_iff reach⟩

/-- Select a slot again and again, each time for the process selected before. -/
def selectTurns (procs : ProcTable) : Nat → Exec Fault Kernel (List Nat)
  | 0 => return []
  | turns + 1 => do
    let next ← procs.selectNext
    return next :: (← selectTurns { procs with currProcIdx := next } turns)

/-- While no slot is taken, the selected slots are those of the following turns. -/
theorem run_selectTurns (procs : ProcTable) (turns : Nat) (kernel : Kernel) :
    (procs.selectTurns turns).run kernel = .ok ((procs.sched kernel.ram).visits turns) kernel := by
  -- Selecting changes nothing but which slot gives up next.
  induction turns generalizing procs with
  | zero => rfl
  | succ turns ih =>
    rw [selectTurns, EStateM.run_bind, run_selectNext]
    simp only [EStateM.run_bind, ih, EStateM.run_pure]
    rfl

/--
Turns go round all the slots that can run exactly when there are two of these.

The scan for the next slot starts over at slot 1 each time, so a third slot is never met.
-/
theorem selectTurns_round_iff {procs : ProcTable} {kernel : Kernel}
    (busy : procs.currProcIdx ∈ (procs.sched kernel.ram).work)
    (several : 2 ≤ (procs.sched kernel.ram).work.length) :
    ∃ visited, (procs.selectTurns (procs.sched kernel.ram).work.length).run kernel
        = .ok visited kernel ∧
      ((visited.Perm (procs.sched kernel.ram).work ∧
        visited.getLast? = some procs.currProcIdx) ↔ (procs.sched kernel.ram).work.length = 2) :=
  ⟨_, procs.run_selectTurns _ kernel, Sched.visits_round_iff busy several⟩

end ProcTable

end Layout

/-- The parts of a process record in the order of their declaration. -/
@[reducible] def declaredProcLayout : ProcLayout where
  offset
    | .stack => 0
    | .sp => 2048
    | .pid => 2052
    | .rootPt => 2056
    | .secondPts => 2076
    | .state => 2096
  word field := by cases field <;> rfl
  inside field := by cases field <;> decide
  disjoint field other := by cases field <;> cases other <;> decide

namespace ProcTable

/-- A table at the start of RAM. -/
def sample (cap curr : Nat) : ProcTable := ⟨⟨0x80000000, cap, ⟨0x80000000, some 0x8000⟩⟩, curr⟩

/-- RAM in which the first slots of a table are taken, as `declaredProcLayout` has them. -/
def sampleKernel (taken : Nat) : Kernel :=
  { bootKernel with
    ram := fun a => if (List.range taken).any (fun i => a = 0x80000000 + 2100 * i + 2096) then 1
      else 0 }

/-- With two processes besides the idle one, the turn goes to the other of them. -/
theorem selectNext_idle_pair : letI := declaredLayout; letI := declaredProcLayout
    Sched.Reach 4 ((sample 4 1).sched (sampleKernel 3).ram) ∧
    ∃ next, (sample 4 1).selectNext.run (sampleKernel 3) = .ok next (sampleKernel 3) ∧
      (next = 0 → ∀ i, 1 ≤ i →
        ((sample 4 1).sched (sampleKernel 3).ram).states[i]? ≠ some .runnable) := by
  let := declaredLayout
  let := declaredProcLayout
  -- The idle process and two more are created, and the first of them has the turn.
  have idle : Sched.Reach 4 ⟨[.runnable, .unused, .unused, .unused], 0⟩ := .idle (by decide)
  have one : Sched.Reach 4 ⟨[.runnable, .runnable, .unused, .unused], 0⟩ :=
    .create idle (show Sched.nextUnused _ = some 1 by decide)
  have two : Sched.Reach 4 ⟨[.runnable, .runnable, .runnable, .unused], 0⟩ :=
    .create one (show Sched.nextUnused _ = some 2 by decide)
  have turn : Sched.Reach 4 ⟨[.runnable, .runnable, .runnable, .unused], 1⟩ := .giveUp two
  have view : (sample 4 1).sched (sampleKernel 3).ram =
      ⟨[.runnable, .runnable, .runnable, .unused], 1⟩ := by decide +kernel
  have reach : Sched.Reach (sample 4 1).table.cap ((sample 4 1).sched (sampleKernel 3).ram) := by
    rwa [view]
  obtain ⟨next, selected, exactly⟩ := selectNext_idle_iff reach
  refine ⟨reach, next, selected, exactly.mpr (.inr ⟨2, by decide, by decide, ?_⟩)⟩
  rw [view]
  rfl

/-- A process that is alone gives up its turn to the idle one, which ends in a panic. -/
theorem selectNext_idle_despite_work : letI := declaredLayout; letI := declaredProcLayout
    Sched.Reach 8 ((sample 8 1).sched (sampleKernel 2).ram) ∧
    ∃ next, (sample 8 1).selectNext.run (sampleKernel 2) = .ok next (sampleKernel 2) ∧
      ¬ (next = 0 → ∀ i, 1 ≤ i →
        ((sample 8 1).sched (sampleKernel 2).ram).states[i]? ≠ some .runnable) := by
  let := declaredLayout
  let := declaredProcLayout
  -- One process is created besides the idle one, and has the turn.
  have idle : Sched.Reach 8 ⟨.runnable :: List.replicate 7 .unused, 0⟩ := .idle (by decide)
  have one : Sched.Reach 8 ⟨.runnable :: .runnable :: List.replicate 6 .unused, 0⟩ :=
    .create idle (show Sched.nextUnused _ = some 1 by decide)
  have turn : Sched.Reach 8 ⟨.runnable :: .runnable :: List.replicate 6 .unused, 1⟩ := .giveUp one
  have view : (sample 8 1).sched (sampleKernel 2).ram =
      ⟨.runnable :: .runnable :: List.replicate 6 .unused, 1⟩ := by decide +kernel
  refine ⟨by rwa [view], 0, ?_, ?_⟩
  · rw [run_selectNext, view]
    rfl
  · intro property
    refine property rfl 1 (by decide) ?_
    rw [view]
    rfl

/-- Two processes take turns. -/
theorem selectTurns_round_pair : letI := declaredLayout; letI := declaredProcLayout
    ∃ visited, ((sample 8 1).selectTurns 2).run (sampleKernel 3) = .ok visited (sampleKernel 3) ∧
      visited.Perm ((sample 8 1).sched (sampleKernel 3).ram).work ∧
      visited.getLast? = some 1 := by
  let := declaredLayout
  let := declaredProcLayout
  -- Two processes want to run, and one of them is the current one.
  have work : ((sample 8 1).sched (sampleKernel 3).ram).work = [1, 2] := by decide +kernel
  have busy : (sample 8 1).currProcIdx ∈ ((sample 8 1).sched (sampleKernel 3).ram).work := by
    rw [work]
    decide
  have two : ((sample 8 1).sched (sampleKernel 3).ram).work.length = 2 := by rw [work]; rfl
  obtain ⟨visited, ran, exactly⟩ := selectTurns_round_iff busy two.ge
  rw [two] at ran
  exact ⟨visited, ran, exactly.mpr two⟩

/-- Of three processes, the third is never visited. -/
theorem selectTurns_skip_third : letI := declaredLayout; letI := declaredProcLayout
    ((sample 8 1).sched (sampleKernel 4).ram).work = [1, 2, 3] ∧
    ∃ visited, ((sample 8 1).selectTurns 3).run (sampleKernel 4) = .ok visited (sampleKernel 4) ∧
      visited = [2, 1, 2] ∧
      ¬ (visited.Perm [1, 2, 3] ∧ visited.getLast? = some 1) := by
  let := declaredLayout
  let := declaredProcLayout
  -- Three processes want to run, and the third has no turn in three.
  have view : (sample 8 1).sched (sampleKernel 4).ram =
      ⟨List.replicate 4 .runnable ++ List.replicate 4 .unused, 1⟩ := by decide +kernel
  refine ⟨by rw [view]; decide, [2, 1, 2], ?_, rfl, fun both => ?_⟩
  · rw [run_selectTurns, view]
    rfl
  · exact absurd both.2 (by decide)

end ProcTable

end Os1k
