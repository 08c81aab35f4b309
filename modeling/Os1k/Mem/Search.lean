import Os1k.Mem.Geometry

/-! The stack loop of an allocation is a recursive search of the tree, left subtree first. -/

namespace Os1k.Memory

open Implicit

/--
The search below one node, as a recursion on the levels left above the requested one.

It answers with the node it allocated, if any, and with the states it leaves behind.
-/
def dfs : Nat → Nat → List BlockState → Option Nat × List BlockState
  | 0, i, states =>
    -- At the requested level a free node is taken, and any other one is passed over.
    if states[i]? = some .free then (some i, states.set i .allocated) else (none, states)
  | below + 1, i, states =>
    let descend := fun states =>
      match dfs below (2 * i + 1) states with
      | (some found, states) => (some found, states)
      | (none, states) => dfs below (2 * i + 2) states
    match states[i]? with
    | some .free => descend (states.set i .split)
    | some .split => descend states
    | _ => (none, states)

/-- The search below both children, the right one only when the left one had nothing to give. -/
def dfsChildren (below i : Nat) (states : List BlockState) : Option Nat × List BlockState :=
  match dfs below (2 * i + 1) states with
  | (some found, states) => (some found, states)
  | (none, states) => dfs below (2 * i + 2) states

/-- A free node is split before its children are searched. -/
theorem dfs_free {below i : Nat} {states : List BlockState} (found : states[i]? = some .free) :
    dfs (below + 1) i states = dfsChildren below i (states.set i .split) := by
  simp only [dfs, found, dfsChildren]

/-- A split node only leads to its children. -/
theorem dfs_split {below i : Nat} {states : List BlockState} (found : states[i]? = some .split) :
    dfs (below + 1) i states = dfsChildren below i states := by
  simp only [dfs, found, dfsChildren]

/-- Nothing is searched below an allocated node. -/
theorem dfs_allocated {below i : Nat} {states : List BlockState}
    (found : states[i]? = some .allocated) : dfs (below + 1) i states = (none, states) := by
  simp only [dfs, found]

/-- The search keeps one state for each node. -/
theorem dfs_length (below i : Nat) (states : List BlockState) :
    (dfs below i states).2.length = states.length := by
  induction below generalizing i states with
  | zero =>
    simp only [dfs]
    split <;> simp
  | succ below ih =>
    -- Both children are searched in states as long as the ones the node was met in.
    have children : ∀ entered : List BlockState,
        (dfsChildren below i entered).2.length = entered.length := by
      intro entered
      have left := ih (2 * i + 1) entered
      unfold dfsChildren
      cases ran : dfs below (2 * i + 1) entered with
      | mk found after =>
        rw [ran] at left
        cases found with
        | some found => exact left
        | none => exact (ih (2 * i + 2) after).trans left
    cases found : states[i]? with
    | none => simp only [dfs, found]
    | some state =>
      cases state with
      | free => rw [dfs_free found, children]; simp
      | allocated => rw [dfs_allocated found]
      | split => rw [dfs_split found, children]

/-- The stack memory holds the pending nodes up to the stack pointer, the next one on top. -/
def Pending (memory : Memory) (sp : Int) (pending : List Nat) : Prop :=
  sp = pending.length - 1 ∧
    memory.buddyStack.elems.take pending.length = pending.reverse

namespace Pending

variable {memory : Memory} {sp : Int} {i : Nat} {pending : List Nat}

/-- With nodes pending, the stack pointer counts those below the next one. -/
theorem pointer (holds : memory.Pending sp (i :: pending)) : sp = pending.length := by
  have counted := holds.1
  rw [List.length_cons] at counted
  omega

/-- With no node pending, the stack pointer is negative, which ends the search. -/
theorem drained (holds : memory.Pending sp []) : sp < 0 := by
  have counted := holds.1
  rw [List.length_nil] at counted
  omega

/-- The next node is read at the stack pointer. -/
theorem run_stackAt (holds : memory.Pending sp (i :: pending)) :
    (stackAt sp).run memory = .ok i memory := by
  have pointer := holds.pointer
  have top : sp.toNat = pending.length := by omega
  -- The entry at the pointer is the last one of the pending part of the stack memory.
  have entry := congrArg (fun entries => entries[pending.length]?) holds.2
  have found : memory.buddyStack.elems[pending.length]? = some i := by
    simpa [List.getElem?_take] using entry
  simp [stackAt, Slice.index, top, found]

/-- Lowering the stack pointer drops the next node. -/
theorem pop (holds : memory.Pending sp (i :: pending)) : memory.Pending (sp - 1) pending := by
  have pointer := holds.pointer
  refine ⟨by omega, ?_⟩
  -- The rest of the pending nodes is the lower part of the stack memory.
  have shorter := congrArg (List.take pending.length) holds.2
  simpa [List.take_take] using shorter

/-- Writing just above the stack pointer adds a node. -/
theorem push (holds : memory.Pending sp pending)
    (room : pending.length < memory.buddyStack.elems.length) :
    ∃ stack, stack.length = memory.buddyStack.elems.length ∧
      (setStack (sp + 1) i).run memory = .ok () (memory.withStack stack) ∧
      (memory.withStack stack).Pending (sp + 1) (i :: pending) := by
  obtain ⟨pointer, held⟩ := holds
  have top : (sp + 1).toNat = pending.length := by omega
  refine ⟨memory.buddyStack.elems.set pending.length i, by simp, ?_, ?_, ?_⟩
  · rw [run_setStack (by omega), top]
  · simp; omega
  · -- The entries below the pointer are untouched, and the new one closes the list.
    simp only [withStack, List.length_cons, List.reverse_cons]
    rw [List.take_succ_eq_append_getElem (by simpa using room)]
    simp [List.take_set_of_le, held]

/-- The pending part of the stack does not depend on the node states. -/
theorem withStates (holds : memory.Pending sp pending) (states : List BlockState) :
    (memory.withStates states).Pending sp pending := holds

end Pending

/-- Both children become pending, the left one next. -/
theorem run_pushChildren {memory : Memory} {sp : Int} {i : Nat} {pending : List Nat}
    (holds : memory.Pending sp pending) (small : i < 2 ^ 30)
    (room : pending.length + 1 < memory.buddyStack.elems.length) (profile : Profile) :
    ∃ stack, stack.length = memory.buddyStack.elems.length ∧
      (pushChildren profile sp i).run memory = .ok (sp + 2) (memory.withStack stack) ∧
      (memory.withStack stack).Pending (sp + 2) ((2 * i + 1) :: (2 * i + 2) :: pending) := by
  -- The right child is pushed first, so that the left one comes next.
  have limit : wordLimit = 4294967296 := rfl
  obtain ⟨first, firstLength, firstRun, firstHolds⟩ := holds.push (i := 2 * i + 2) (by omega)
  obtain ⟨second, secondLength, secondRun, secondHolds⟩ := firstHolds.push (i := 2 * i + 1)
    (by simp only [List.length_cons]; simp only [withStack, firstLength]; omega)
  have above : sp + 1 + 1 = sp + 2 := by omega
  rw [above] at secondRun secondHolds
  refine ⟨second, by simpa [withStack, firstLength] using secondLength, ?_, secondHolds⟩
  unfold pushChildren
  rw [profile.mul_eq (by omega), pure_bind, profile.add_eq (by omega), pure_bind,
    profile.add_eq (by omega), pure_bind]
  simp only [EStateM.run_bind, firstRun, secondRun, EStateM.run_pure, withStack_twice]

/--
A computation has the effect of a search, on the way to working off the nodes still pending.

A successful search ends it, and a failed one leaves it at the next pending node.
-/
def Resumes (profile : Profile) (n reqOrder : Nat) (memory : Memory) (sp : Int)
    (pending : List Nat) (outcome : Option Nat × List BlockState)
    (computation : Nat → Exec Fault Memory (Except MemError PhysAddr)) : Prop :=
  ∃ stack, stack.length = memory.buddyStack.elems.length ∧
    match outcome with
    | (some found, states) => ∀ fuel,
      (computation fuel).run memory =
        .ok (.ok ⟨memory.nodeAddr found, some n⟩) ((memory.withStates states).withStack stack)
    | (none, states) =>
      ((memory.withStates states).withStack stack).Pending sp pending ∧ ∀ fuel,
        (computation fuel).run memory =
          (allocLoop profile n reqOrder fuel sp).run ((memory.withStates states).withStack stack)

/-- One turn of the loop pops the next node and looks at its level. -/
theorem allocLoop_pop {memory : Memory} {sp : Int} {i : Nat} {pending : List Nat}
    (holds : memory.Pending sp (i :: pending)) (small : i < 2 ^ 20)
    (profile : Profile) (n reqOrder fuel : Nat) :
    (allocLoop profile n reqOrder (fuel + 1) sp).run memory =
      (if reqOrder = level i then do
        if (← metaAt i) = .free then
          setMeta i .allocated
          let addr ← blockAddr profile i (level i)
          return .ok ⟨addr, some n⟩
        else allocLoop profile n reqOrder fuel (sp - 1)
      else do
        match ← metaAt i with
        | .free =>
          setMeta i .split
          let sp ← pushChildren profile (sp - 1) i
          allocLoop profile n reqOrder fuel sp
        | .allocated => allocLoop profile n reqOrder fuel (sp - 1)
        | .split =>
          let sp ← pushChildren profile (sp - 1) i
          allocLoop profile n reqOrder fuel sp : Exec Fault Memory _).run memory := by
  -- A pending node keeps the stack pointer from being negative.
  have pointer := holds.pointer
  have busy : ¬ sp < 0 := by omega
  have limit : wordLimit = 4294967296 := rfl
  have order : findOrder i = level i := findOrder_index (by omega)
  conv => lhs; unfold allocLoop
  rw [if_neg busy, ← order]
  exact Exec.run_bind_of_ok holds.run_stackAt

/-- A search of both children follows from a search of each. -/
theorem resumes_children {memory : Memory} {depth reqOrder below i : Nat} {sp : Int}
    {pending : List Nat} (shape : memory.Shape depth) (inside : reqOrder ≤ depth)
    (profile : Profile) (n : Nat) (levels : level i + (below + 1) = reqOrder)
    (holds : memory.Pending sp pending) (room : pending.length ≤ level i)
    (search : ∀ {memory : Memory}, memory.Shape depth → ∀ {sp : Int} {i : Nat} {pending : List Nat},
      level i + below = reqOrder → memory.Pending sp (i :: pending) → pending.length ≤ level i →
      ∃ cost ≤ 2 ^ (below + 1) - 1, Resumes profile n reqOrder memory (sp - 1) pending
        (dfs below i memory.states) fun fuel => allocLoop profile n reqOrder (fuel + cost) sp) :
    ∃ cost ≤ 2 * (2 ^ (below + 1) - 1), Resumes profile n reqOrder memory sp pending
      (dfsChildren below i memory.states) (fun fuel => do
        let sp ← pushChildren profile sp i
        allocLoop profile n reqOrder (fuel + cost) sp) := by
  have stackLength := shape.stack
  have small := shape.index_small (i := i) (by omega)
  obtain ⟨pushed, pushedLength, pushedRun, pushedHolds⟩ := run_pushChildren holds
    (by omega : i < 2 ^ 30) (by omega) profile
  -- The left child is on top, with its sibling and the older nodes below.
  obtain ⟨leftCost, leftBound, leftStack, leftLength, left⟩ := search
    (shape.withStack pushed pushedLength) (by rw [level_left]; omega) pushedHolds
    (by rw [level_left, List.length_cons]; omega)
  have leftStates := dfs_length below (2 * i + 1) memory.states
  have reached : sp + 2 - 1 = sp + 1 := by omega
  simp only [withStack_states] at left
  unfold dfsChildren
  cases ran : dfs below (2 * i + 1) memory.states with
  | mk found states =>
    rw [ran] at left leftStates
    cases found with
    -- Found on the left: the right child stays on the stack.
    | some found =>
      refine ⟨leftCost, by omega, leftStack, by simpa [withStack, pushedLength] using leftLength, ?_⟩
      intro fuel
      simp only [EStateM.run_bind, pushedRun, left fuel]
      rfl
    | none =>
      -- The left subtree gave nothing, which leaves the right child on top.
      obtain ⟨leftHolds, leftRun⟩ := left
      rw [reached] at leftHolds leftRun
      have shaped := (shape.withStates states leftStates).withStack leftStack
        (by simpa [withStack, withStates, pushedLength] using leftLength)
      obtain ⟨rightCost, rightBound, rightStack, rightLength, right⟩ := search
        shaped (by rw [level_right]; omega) leftHolds (by rw [level_right]; omega)
      have back : sp + 1 - 1 = sp := by omega
      rw [back] at right
      simp only [withStack_states, withStates_states] at right
      refine ⟨rightCost + leftCost, by omega, rightStack, ?_, ?_⟩
      · rw [rightLength]
        simpa [withStack, withStates, pushedLength] using leftLength
      cases ranRight : dfs below (2 * i + 2) states with
      | mk found after =>
        rw [ranRight] at right
        simp only [ranRight]
        cases found with
        | some found =>
          intro fuel
          have turns : fuel + (rightCost + leftCost) = fuel + rightCost + leftCost := by omega
          simp only [EStateM.run_bind, pushedRun, turns, leftRun]
          exact right fuel
        | none =>
          refine ⟨right.1, fun fuel => ?_⟩
          have turns : fuel + (rightCost + leftCost) = fuel + rightCost + leftCost := by omega
          simp only [EStateM.run_bind, pushedRun, turns, leftRun]
          exact right.2 fuel

/--
The loop carries out the recursive search of the next pending node.

It takes at most one turn for each node of that subtree down to the requested level.
Each level above leaves at most one node pending, so the stack memory never runs out.
-/
theorem allocLoop_dfs {memory : Memory} {depth reqOrder : Nat} (shape : memory.Shape depth)
    (inside : reqOrder ≤ depth) (profile : Profile) (n : Nat) {sp : Int} {i below : Nat}
    {pending : List Nat} (levels : level i + below = reqOrder)
    (holds : memory.Pending sp (i :: pending)) (room : pending.length ≤ level i) :
    ∃ cost ≤ 2 ^ (below + 1) - 1, Resumes profile n reqOrder memory (sp - 1) pending
      (dfs below i memory.states) fun fuel => allocLoop profile n reqOrder (fuel + cost) sp := by
  -- The induction is on the levels left between the node and the one asked for.
  induction below generalizing memory sp i pending with
  | zero =>
    have small := shape.index_small (i := i) (by omega)
    have index := shape.index_lt (i := i) (by omega)
    have here : reqOrder = level i := by omega
    obtain ⟨state, found⟩ : ∃ state, memory.states[i]? = some state :=
      ⟨_, List.getElem?_eq_getElem index⟩
    -- At the requested level one turn decides.
    refine ⟨1, by simp, memory.buddyStack.elems, rfl, ?_⟩
    by_cases free : state = .free
    · subst free
      simp only [dfs, found, if_true]
      intro fuel
      have shaped := shape.withStates (memory.states.set i .allocated) (by simp)
      rw [allocLoop_pop holds small, if_pos here]
      simp only [EStateM.run_bind, run_metaAt found, if_true, run_setMeta index,
        run_blockAddr shaped.located (by omega : level i ≤ depth), EStateM.run_pure]
      rfl
    · have passed : ¬ some state = some BlockState.free := by simpa using free
      simp only [dfs, found, if_neg passed]
      refine ⟨holds.pop, fun fuel => ?_⟩
      rw [allocLoop_pop holds small, if_pos here]
      simp only [EStateM.run_bind, run_metaAt found, if_neg free]
      rfl
  | succ below ih =>
    have small := shape.index_small (i := i) (by omega)
    have index := shape.index_lt (i := i) (by omega)
    have above : ¬ reqOrder = level i := by omega
    have positive : 0 < 2 ^ (below + 1) := Nat.two_pow_pos _
    -- Two subtrees and the node itself fit into the turns of the larger subtree.
    have budget : 2 * (2 ^ (below + 1) - 1) + 1 ≤ 2 ^ (below + 1 + 1) - 1 := by
      rw [Nat.pow_succ 2 (below + 1)]
      omega
    cases found : memory.states[i]? with
    | none => simp [List.getElem?_eq_getElem index] at found
    | some state =>
      cases state with
      | free =>
        -- The node is split first, so the children are searched in the changed states.
        obtain ⟨cost, bound, stack, length, resumes⟩ := resumes_children
          (shape.withStates (memory.states.set i .split) (by simp)) inside profile n
          (by omega : level i + (below + 1) = reqOrder) (holds.pop.withStates _) room ih
        refine ⟨cost + 1, by omega, stack, length, ?_⟩
        have turn : ∀ fuel, (allocLoop profile n reqOrder (fuel + (cost + 1)) sp).run memory =
            (do let sp ← pushChildren profile (sp - 1) i
                allocLoop profile n reqOrder (fuel + cost) sp : Exec Fault Memory _).run
              (memory.withStates (memory.states.set i .split)) := by
          intro fuel
          rw [← Nat.add_assoc, allocLoop_pop holds small, if_neg above]
          simp only [EStateM.run_bind, run_metaAt found, run_setMeta index]
        rw [dfs_free found]
        rw [withStates_states] at resumes
        cases ran : dfsChildren below i (memory.states.set i .split) with
        | mk found states =>
          rw [ran] at resumes
          cases found with
          | some found => exact fun fuel => (turn fuel).trans (resumes fuel)
          | none => exact ⟨resumes.1, fun fuel => (turn fuel).trans (resumes.2 fuel)⟩
      -- A block in use is popped and not looked into.
      | allocated =>
        refine ⟨1, by omega, memory.buddyStack.elems, rfl, ?_⟩
        rw [dfs_allocated found]
        refine ⟨holds.pop, fun fuel => ?_⟩
        rw [allocLoop_pop holds small, if_neg above]
        simp only [EStateM.run_bind, run_metaAt found]
        rfl
      -- A split node is searched below, in the states as they are.
      | split =>
        obtain ⟨cost, bound, stack, length, resumes⟩ := resumes_children shape inside profile n
          (by omega : level i + (below + 1) = reqOrder) holds.pop room ih
        refine ⟨cost + 1, by omega, stack, length, ?_⟩
        have turn : ∀ fuel, (allocLoop profile n reqOrder (fuel + (cost + 1)) sp).run memory =
            (do let sp ← pushChildren profile (sp - 1) i
                allocLoop profile n reqOrder (fuel + cost) sp : Exec Fault Memory _).run memory := by
          intro fuel
          rw [← Nat.add_assoc, allocLoop_pop holds small, if_neg above]
          simp only [EStateM.run_bind, run_metaAt found]
        rw [dfs_split found]
        cases ran : dfsChildren below i memory.states with
        | mk found states =>
          rw [ran] at resumes
          cases found with
          | some found => exact fun fuel => (turn fuel).trans (resumes fuel)
          | none => exact ⟨resumes.1, fun fuel => (turn fuel).trans (resumes.2 fuel)⟩

/-- A block that the search finds carries the size it looked for. -/
theorem allocLoop_sized {profile : Profile} {n reqOrder fuel : Nat} {sp : Int} {memory after : Memory}
    {block : PhysAddr}
    (ran : (allocLoop profile n reqOrder fuel sp).run memory = .ok (.ok block) after) :
    block.size = some n := by
  -- The only turn that returns a block is the last one, and it takes the size as given.
  induction fuel generalizing sp memory with
  | zero => simp [allocLoop] at ran
  | succ fuel ih =>
    rw [allocLoop] at ran
    by_cases empty : sp < 0
    · simp [empty] at ran
    · rw [if_neg empty] at ran
      obtain ⟨i, _, _, ran⟩ := Exec.run_bind_ok.mp ran
      simp only at ran
      by_cases here : reqOrder = findOrder i
      · rw [if_pos here] at ran
        obtain ⟨state, _, _, ran⟩ := Exec.run_bind_ok.mp ran
        by_cases free : state = .free
        · rw [if_pos free] at ran
          obtain ⟨_, _, _, ran⟩ := Exec.run_bind_ok.mp ran
          obtain ⟨addr, _, _, ran⟩ := Exec.run_bind_ok.mp ran
          simp only [EStateM.run_pure, EStateM.Result.ok.injEq, Except.ok.injEq] at ran
          rw [← ran.1]
        · rw [if_neg free] at ran
          exact ih ran
      · rw [if_neg here] at ran
        obtain ⟨state, _, _, ran⟩ := Exec.run_bind_ok.mp ran
        -- On a level above the one asked for, the loop goes on whatever it finds.
        cases state with
        | free =>
          obtain ⟨_, _, _, ran⟩ := Exec.run_bind_ok.mp ran
          obtain ⟨_, _, _, ran⟩ := Exec.run_bind_ok.mp ran
          exact ih ran
        | allocated => exact ih ran
        | split =>
          obtain ⟨_, _, _, ran⟩ := Exec.run_bind_ok.mp ran
          exact ih ran

end Os1k.Memory
