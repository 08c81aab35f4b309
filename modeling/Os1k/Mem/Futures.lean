import Os1k.Lib.Lockstep
import Os1k.Mem.Reachable

/-! What an allocator answers from now on, which its past decides through the blocks in use alone. -/

namespace Os1k.Memory

open Exec

/-- A call of the allocator. -/
inductive Call where
  | alloc (n : Nat)
  | free (addr : PhysAddr)
  deriving DecidableEq, Repr

/-- What comes of a call. -/
inductive Answer where
  | alloc (result : Except MemError PhysAddr)
  | free
  | panic (fault : Fault)

/-- The answers to calls one after the other, which end with the first panic. -/
def answers (profile : Profile) (memory : Memory) : List Call → List Answer
  | [] => []
  | .alloc n :: rest =>
    match (buddyAlloc profile n).run memory with
    | .ok result after => .alloc result :: answers profile after rest
    | .error fault _ => [.panic fault]
  | .free addr :: rest =>
    match (buddyFree profile addr).run memory with
    | .ok () after => .free :: answers profile after rest
    | .error fault _ => [.panic fault]

/--
Allocators that differ at most in what lies on their stacks above a position.

Neither the reserved region nor the end of the arena matters to a call.
-/
structure Alike (sp : Int) (memory other : Memory) : Prop where
  start : memory.start = other.start
  size : memory.memSize = other.memSize
  nodes : memory.buddyNodeCount = other.buddyNodeCount
  high : memory.buddyHighOrder = other.buddyHighOrder
  states : memory.states = other.states
  room : memory.buddyStack.elems.length = other.buddyStack.elems.length
  stack : ∀ j : Nat, (j : Int) ≤ sp → memory.buddyStack.elems[j]? = other.buddyStack.elems[j]?

/-- Less of the stack may be the same. -/
theorem Alike.lower {sp below : Int} {memory other : Memory} (alike : Alike sp memory other)
    (less : below ≤ sp) : Alike below memory other :=
  { alike with stack := fun j inside => alike.stack j (by omega) }

section Steps

variable {sp : Int}

/-- Word arithmetic does not look at the state. -/
theorem fit_alike (profile : Profile) (operator : Operator) (exact : Int) :
    Lockstep (Alike sp) (profile.fit operator exact) (profile.fit operator exact)
      fun _ => Alike sp := by
  cases profile with
  | release => exact .pure fun _ _ alike => alike
  | dev => exact .ite (fun _ => .pure fun _ _ alike => alike) fun _ => .throw _

theorem oneShl_alike (profile : Profile) (amount : Nat) :
    Lockstep (Alike sp) (profile.oneShl amount) (profile.oneShl amount) fun _ => Alike sp := by
  cases profile with
  | release => exact .pure fun _ _ alike => alike
  | dev => exact .ite (fun _ => .pure fun _ _ alike => alike) fun _ => .throw _

/-- A halt has no state to compare. -/
theorem halt_alike (fault : Fault) :
    Lockstep (Alike sp) (throw fault : Exec Fault Memory Unit) (throw fault) fun _ => Alike sp :=
  .throw fault

theorem expect_alike {α : Type} (fault : Fault) (value : Option α) :
    Lockstep (Alike sp) (expect fault value) (expect fault value) fun _ => Alike sp := by
  cases value with
  | none => exact .throw _
  | some value => exact .pure fun _ _ alike => alike

/-- Both have the same states of nodes. -/
theorem metaAt_alike (i : Nat) :
    Lockstep (Alike sp) (metaAt i) (metaAt i) fun _ => Alike sp := by
  intro memory other alike
  have same := congrArg (fun states : List BlockState => states[i]?) alike.states
  -- The states are the same, so both read the same state, or both panic.
  cases found : memory.states[i]? with
  | some state =>
    rw [run_metaAt found, run_metaAt (same.symm.trans found)]
    exact .ok alike
  | none =>
    have past := List.getElem?_eq_none_iff.mp found
    have length := congrArg List.length alike.states
    rw [run_metaAt_past past, run_metaAt_past (by omega)]
    rw [length]
    exact .error

theorem setMeta_alike (i : Nat) (state : BlockState) :
    Lockstep (Alike sp) (setMeta i state) (setMeta i state) fun _ => Alike sp := by
  intro memory other alike
  have length := congrArg List.length alike.states
  -- Both have as many states, so that the write fails in both or in neither.
  by_cases inside : i < memory.states.length
  · rw [run_setMeta inside, run_setMeta (by omega)]
    refine .ok { alike with states := ?_ }
    show memory.states.set i state = other.states.set i state
    rw [alike.states]
  · have also : ¬ i < other.buddyMeta.elems.length := by
      show ¬ i < other.states.length
      omega
    have lengths : memory.buddyMeta.elems.length = other.buddyMeta.elems.length := length
    simp only [setMeta, Slice.assign, EStateM.run_bind, EStateM.run_get, if_neg also, run_throw, lengths]
    exact .error

/-- The stack is read where both have the same entries. -/
theorem stackAt_alike (inside : 0 ≤ sp) :
    Lockstep (Alike sp) (stackAt sp) (stackAt sp) fun _ => Alike sp := by
  intro memory other alike
  -- Up to the pointer the stacks agree, and both have the same length.
  have same := alike.stack sp.toNat (Int.toNat_of_nonneg inside).le
  simp only [stackAt, Slice.index, EStateM.run_bind, EStateM.run_get, same, alike.room]
  cases other.buddyStack.elems[sp.toNat]? with
  | some i => exact .ok alike
  | none => exact .error

/-- A write puts the same entry on both stacks, so that they agree up to it. -/
theorem setStack_alike (sp : Int) (i : Nat) :
    Lockstep (Alike sp) (setStack (sp + 1) i) (setStack (sp + 1) i)
      fun _ => Alike (sp + 1) := by
  intro memory other alike
  by_cases room : (sp + 1).toNat < memory.buddyStack.elems.length
  · have twin : (sp + 1).toNat < other.buddyStack.elems.length := alike.room ▸ room
    rw [run_setStack room, run_setStack twin]
    refine .ok ⟨alike.start, alike.size, alike.nodes, alike.high, alike.states, ?_, ?_⟩
    · simp only [withStack, List.length_set]
      exact alike.room
    · -- The entries below the new one are those that were alike before.
      intro j upTo
      simp only [withStack]
      by_cases top : (sp + 1).toNat = j
      · subst top
        rw [List.getElem?_set_self room, List.getElem?_set_self twin]
      · rw [List.getElem?_set_ne top, List.getElem?_set_ne top]
        exact alike.stack j (by omega)
  · have twin : ¬ (sp + 1).toNat < other.buddyStack.elems.length := alike.room ▸ room
    simp only [setStack, Slice.assign, EStateM.run_bind, EStateM.run_get, if_neg twin, run_throw, alike.room]
    exact .error

theorem pushChildren_alike (profile : Profile) (sp : Int) (i : Nat) :
    Lockstep (Alike sp) (pushChildren profile sp i) (pushChildren profile sp i)
      fun next memory other => next = sp + 2 ∧ Alike (sp + 2) memory other := by
  -- The right child is pushed first, and the left one on top of it.
  have top : sp + 1 + 1 = sp + 2 := by omega
  have left := setStack_alike (sp + 1)
  rw [top] at left
  refine .bind (fit_alike _ _ _) fun twice => .bind (fit_alike _ _ _) fun right => ?_
  refine .bind (setStack_alike sp _) fun _ => .bind (fit_alike _ _ _) fun child => ?_
  exact .bind (left _) fun _ => .pure fun _ _ alike => ⟨rfl, alike⟩

theorem atLevel_alike (profile : Profile) (i level : Nat) :
    Lockstep (Alike sp) (atLevel profile i level) (atLevel profile i level) fun _ => Alike sp :=
  .bind (fit_alike _ _ _) fun _ => .bind (fit_alike _ _ _) fun _ => fit_alike _ _ _

theorem blockAddr_alike (profile : Profile) (i level : Nat) :
    Lockstep (Alike sp) (blockAddr profile i level) (blockAddr profile i level)
      fun _ => Alike sp := by
  -- The order of the root and the start of the arena are the same.
  refine .get fun memory other alike => .bind (atLevel_alike profile i level) fun position => ?_
  rw [alike.high, alike.start]
  refine .bind (fit_alike _ _ _) fun order => .bind (fit_alike _ _ _) fun size => ?_
  exact .bind (fit_alike _ _ _) fun offset => .pure fun _ _ alike => alike

/-- The search pops only what it has pushed, so that older entries do not matter. -/
theorem allocLoop_alike (profile : Profile) (n reqOrder fuel : Nat) (inside : -1 ≤ sp) :
    Lockstep (Alike sp) (allocLoop profile n reqOrder fuel sp)
      (allocLoop profile n reqOrder fuel sp) fun _ => Alike (-1) := by
  -- The induction is on the turns of the loop.
  induction fuel generalizing sp with
  | zero => exact .throw _
  | succ fuel ih =>
    unfold allocLoop
    refine .ite (fun _ => .pure fun _ _ alike => alike.lower inside) fun some => ?_
    have low : -1 ≤ sp - 1 := by omega
    -- Once a node is popped, its entry does not matter any more.
    have popped : Lockstep (Alike sp) (stackAt sp) (stackAt sp) fun _ => Alike (sp - 1) :=
      (stackAt_alike (Int.not_lt.mp some)).mono (fun _ _ alike => alike)
        fun _ _ _ alike => alike.lower (by omega)
    -- The children are pushed alike, and the search goes on from them.
    have pushed : ∀ i, Lockstep (Alike (sp - 1))
        (pushChildren profile (sp - 1) i >>= fun sp => allocLoop profile n reqOrder fuel sp)
        (pushChildren profile (sp - 1) i >>= fun sp => allocLoop profile n reqOrder fuel sp)
        fun _ => Alike (-1) := by
      intro i
      refine .bind (pushChildren_alike profile _ i) fun next => ?_
      intro memory other both
      obtain ⟨rfl, alike⟩ := both
      exact ih (by omega) memory other alike
    refine .bind popped fun i => .ite (fun _ => ?_) fun _ => ?_
    · refine .bind (metaAt_alike i) fun state => .ite (fun _ => ?_) fun _ => ih low
      refine .bind (setMeta_alike i _) fun _ => .bind (blockAddr_alike profile i _) fun _ => ?_
      exact .pure fun _ _ alike => alike.lower low
    · refine .bind (metaAt_alike i) fun state => ?_
      cases state with
      | free => exact .bind (setMeta_alike i _) fun _ => pushed i
      | allocated => exact ih low
      | split => exact pushed i

theorem buddyIndex_alike (profile : Profile) (iAtLevel level : Nat) :
    Lockstep (Alike sp) (buddyIndex profile iAtLevel level) (buddyIndex profile iAtLevel level)
      fun _ => Alike sp :=
  .bind (fit_alike _ _ _) fun _ => .bind (fit_alike _ _ _) fun _ => fit_alike _ _ _

theorem mergeLoop_alike (profile : Profile) (fuel i buddyI level : Nat) :
    Lockstep (Alike sp) (mergeLoop profile fuel i buddyI level)
      (mergeLoop profile fuel i buddyI level) fun _ => Alike sp := by
  -- Both climb from the same node, and read the same states on the way.
  induction fuel generalizing i buddyI level with
  | zero => exact .throw _
  | succ fuel ih =>
    unfold mergeLoop
    refine .bind (metaAt_alike buddyI) fun state => .ite (fun _ => ?_) fun _ =>
      .pure fun _ _ alike => alike
    refine .bind (fit_alike _ _ _) fun less => .bind (metaAt_alike _) fun above => ?_
    -- After a merge, both are done or go on from the parent.
    have rest : ∀ done : Unit, Lockstep (Alike sp)
        (if less / 2 = 0 then pure ()
          else do
            let level ← profile.sub level 1
            let iAtLevel ← atLevel profile (less / 2) level
            let buddyI ← buddyIndex profile iAtLevel level
            mergeLoop profile fuel (less / 2) buddyI level)
        (if less / 2 = 0 then pure ()
          else do
            let level ← profile.sub level 1
            let iAtLevel ← atLevel profile (less / 2) level
            let buddyI ← buddyIndex profile iAtLevel level
            mergeLoop profile fuel (less / 2) buddyI level) fun _ => Alike sp := by
      intro _
      refine .ite (fun _ => .pure fun _ _ alike => alike) fun _ => .bind (fit_alike _ _ _) ?_
      refine fun level => .bind (atLevel_alike profile _ level) fun iAtLevel => ?_
      exact .bind (buddyIndex_alike profile iAtLevel level) fun buddyI => ih _ _ _
    exact .ite (fun _ => .bind (setMeta_alike _ _) rest) fun _ => .bind (halt_alike _) rest

/-- Giving a block back leaves the stack alone, whatever the block is. -/
theorem buddyFree_alike (profile : Profile) (addr : PhysAddr) :
    Lockstep (Alike sp) (buddyFree profile addr) (buddyFree profile addr) fun _ => Alike sp := by
  -- An address without a size is of no block, and nothing is done with it.
  cases given : addr.size with
  | none =>
    unfold buddyFree
    rw [given]
    exact .pure fun _ _ alike => alike
  | some size =>
    unfold buddyFree
    rw [given]
    refine .get fun memory other alike => ?_
    rw [alike.start, alike.high]
    refine .bind (fit_alike _ _ _) fun offset => .bind (fit_alike _ _ _) fun level => ?_
    -- What follows the check of the size is the same in both runs.
    have rest : ∀ done : Unit, Lockstep (Alike sp)
        (do let begin ← profile.oneShl level
            let before ← profile.sub begin 1
            let i ← profile.add before (offset / size)
            let iAtLevel ← atLevel profile i level
            if (← metaAt i) = .allocated then
              setMeta i .free
            else throw (.notAllocated i)
            let buddyI ← buddyIndex profile iAtLevel level
            mergeLoop profile (2 * usizeBits) i buddyI level)
        (do let begin ← profile.oneShl level
            let before ← profile.sub begin 1
            let i ← profile.add before (offset / size)
            let iAtLevel ← atLevel profile i level
            if (← metaAt i) = .allocated then
              setMeta i .free
            else throw (.notAllocated i)
            let buddyI ← buddyIndex profile iAtLevel level
            mergeLoop profile (2 * usizeBits) i buddyI level) fun _ => Alike sp := by
      intro _
      refine .bind (oneShl_alike profile level) fun begin => .bind (fit_alike _ _ _) ?_
      refine fun before => .bind (fit_alike _ _ _) fun i => ?_
      refine .bind (atLevel_alike profile i level) fun iAtLevel => .bind (metaAt_alike i) ?_
      -- Once the node is found to be allocated, its buddies are merged.
      have merge : ∀ done : Unit, Lockstep (Alike sp)
          (do let buddyI ← buddyIndex profile iAtLevel level
              mergeLoop profile (2 * usizeBits) i buddyI level)
          (do let buddyI ← buddyIndex profile iAtLevel level
              mergeLoop profile (2 * usizeBits) i buddyI level) fun _ => Alike sp := fun _ =>
        .bind (buddyIndex_alike profile iAtLevel level) fun _ => mergeLoop_alike profile _ _ _ _
      exact fun state => .ite (fun _ => .bind (setMeta_alike i _) merge)
        fun _ => .bind (halt_alike _) merge
    exact .ite (fun _ => .bind (halt_alike _) rest) fun _ => rest ()

/-- A request starts with an empty stack, so that nothing on it matters. -/
theorem buddyAlloc_alike (profile : Profile) (n : Nat) :
    Lockstep (Alike (-1)) (buddyAlloc profile n) (buddyAlloc profile n) fun _ => Alike (-1) := by
  unfold buddyAlloc
  refine .get fun memory other alike => ?_
  rw [alike.size, alike.high, alike.nodes]
  have root : Lockstep (Alike (-1)) (setStack 0 0) (setStack 0 0) fun _ => Alike 0 :=
    setStack_alike (-1) 0
  -- Both requests are checked alike; then both searches start with the root on the stack.
  refine .ite (fun _ => .pure fun _ _ alike => alike) fun _ => ?_
  refine .ite (fun _ => .pure fun _ _ alike => alike) fun _ => ?_
  refine .bind (expect_alike _ _) fun size => .bind (fit_alike _ _ _) fun reqOrder => ?_
  exact .bind root fun _ => allocLoop_alike profile size reqOrder _ (by decide)

end Steps

variable {profile : Profile} {ramStart ramEnd : Nat} {boot memory other : Memory}
  {live otherLive : List LiveBlock}

/-- Allocators that differ in their stacks alone answer all calls in the same way. -/
theorem answers_eq (profile : Profile) (alike : Alike (-1) memory other) (calls : List Call) :
    answers profile memory calls = answers profile other calls := by
  -- The induction is on the calls, each of which leaves two such allocators.
  induction calls generalizing memory other with
  | nil => rfl
  | cons call rest ih =>
    cases call with
    | alloc n =>
      have outcome := buddyAlloc_alike profile n memory other alike
      unfold answers
      generalize (buddyAlloc profile n).run memory = left at outcome
      generalize (buddyAlloc profile n).run other = right at outcome
      cases outcome with
      | ok later => exact congrArg _ (ih later)
      | error => rfl
    | free addr =>
      have outcome := buddyFree_alike profile addr memory other alike
      unfold answers
      generalize (buddyFree profile addr).run memory = left at outcome
      generalize (buddyFree profile addr).run other = right at outcome
      cases outcome with
      | ok later => exact congrArg _ (ih later)
      | error => rfl

/-- Allocators of one arena with the same blocks in use differ in their stacks alone. -/
theorem Invariant.alike {depth : Nat} (invariant : Invariant memory depth live)
    (twin : Invariant other depth otherLive) (start : other.start = memory.start)
    (same : ∀ block, block ∈ live.map LiveBlock.block ↔ block ∈ otherLive.map LiveBlock.block) :
    Alike (-1) memory other where
  start := start.symm
  size := invariant.shape.size.trans twin.shape.size.symm
  nodes := invariant.shape.nodes.trans twin.shape.nodes.symm
  high := invariant.shape.high.trans twin.shape.high.symm
  states := invariant.states_eq twin start same
  room := invariant.shape.stack.trans twin.shape.stack.symm
  stack := fun j below => absurd below (by omega)

/--
The past of the allocator counts only through the blocks in use.

Two runs that end with the same blocks in use get the same answers to all later calls, panics and
calls that give back what is not in use included.
-/
theorem answers_forget_past (arena : PowerArena profile ramStart ramEnd boot)
    (first : Reach profile boot memory live) (second : Reach profile boot other otherLive)
    (same : ∀ block, block ∈ live.map LiveBlock.block ↔ block ∈ otherLive.map LiveBlock.block)
    (calls : List Call) : answers profile memory calls = answers profile other calls := by
  obtain ⟨depth, shape, canonical, _⟩ := arena.shape
  obtain ⟨start, invariant⟩ := first.invariant shape canonical
  obtain ⟨otherStart, twin⟩ := second.invariant shape canonical
  -- The states are a function of the blocks in use, so the two allocators are alike.
  exact answers_eq profile (invariant.alike twin (otherStart.trans start.symm) same) calls

/-- A page that was taken and given back leaves no trace, and then both pages can be had. -/
theorem answers_forget_page :
    answers .dev (twoPages [.free, .free, .free] [2, 1]) [.alloc 8192, .alloc 1] =
      answers .dev (twoPages [.free, .free, .free] [0, 0]) [.alloc 8192, .alloc 1] := by
  -- One page of two is taken and given back; the other run is the empty one.
  have ran : (buddyFree .dev ⟨0x80000000, some 0x1000⟩).run
      (twoPages [.split, .allocated, .free] [2, 1]) =
        .ok () (twoPages [.free, .free, .free] [2, 1]) := by
    simp [buddyFree, twoPages]
    rfl
  have freed := Reach.free twoPages_first List.mem_cons_self ran
  rw [List.erase_cons_head] at freed
  exact answers_forget_past twoPages_arena freed .boot (by simp) _

end Os1k.Memory
