import Os1k.Mem.Canonical

/-! What an allocation returns, and which states it leaves behind. -/

namespace Os1k.Memory

open Implicit

/-- The block size an allocation of `n` bytes asks for, as an exponent of two. -/
structure Request (n depth order : Nat) : Prop where
  page : 12 ≤ order
  inside : order ≤ depth + 12
  covers : max n pageSize ≤ 2 ^ order
  tight : 2 ^ order < 2 * max n pageSize

/-- Every request that the arena can hold is rounded up to a block of the tree. -/
theorem exists_request {memory : Memory} {depth n : Nat} (shape : memory.Shape depth)
    (fits : n ≤ memory.memSize) :
    ∃ order, Request n depth order ∧
      nextPowerOfTwo usizeBits (if n < pageSize then pageSize else n) = some (2 ^ order) := by
  have size := shape.size
  have shallow := shape.shallow
  have page : pageSize = 2 ^ 12 := rfl
  -- A request below a page is taken for a page.
  have rounded : (if n < pageSize then pageSize else n) = max n pageSize := by
    split <;> omega
  have arena : 2 ^ (depth + 12) ≤ 2 ^ 31 := Nat.pow_le_pow_right (by omega) (by omega)
  have smallest : 2 ^ 12 ≤ 2 ^ (depth + 12) := Nat.pow_le_pow_right (by omega) (by omega)
  have bound : max n pageSize ≤ 2 ^ (depth + 12) := by omega
  obtain ⟨order, _, chosen, covers, tight⟩ :=
    nextPowerOfTwo_spec wordWidth_usize (by omega : 0 < max n pageSize) (bound.trans arena)
  refine ⟨order, ⟨?_, ?_, covers, tight⟩, by rw [rounded, chosen]⟩
  · -- A smaller order would not even hold a page.
    by_contra low
    have : 2 ^ (order + 1) ≤ 2 ^ 12 := Nat.pow_le_pow_right (by omega) (by omega)
    rw [Nat.pow_succ] at this
    omega
  · -- A larger order would be more than twice the request.
    by_contra high
    have : 2 ^ (depth + 12 + 1) ≤ 2 ^ order := Nat.pow_le_pow_right (by omega) (by omega)
    rw [Nat.pow_succ] at this
    omega

/-- The search starts with the root alone on the stack. -/
theorem pending_root {memory : Memory} (room : 0 < memory.buddyStack.elems.length) :
    (memory.withStack (memory.buddyStack.elems.set 0 0)).Pending 0 [0] := by
  -- The stack has room for at least one entry.
  refine ⟨by simp, ?_⟩
  cases elems : memory.buddyStack.elems with
  | nil =>
    rw [elems] at room
    simp at room
  | cons head tail => simp [withStack]

/--
An allocation the arena can hold is one search from the root, whatever the states are.

The turns granted to the loop always suffice.
-/
theorem run_buddyAlloc_dfs {memory : Memory} {depth n : Nat} (shape : memory.Shape depth)
    (positive : 0 < n) (fits : n ≤ memory.memSize) (profile : Profile) :
    ∃ order, Request n depth order ∧ ∃ stack, stack.length = memory.buddyStack.elems.length ∧
      (buddyAlloc profile n).run memory =
        match dfs (depth + 12 - order) 0 memory.states with
        | (some found, states) => .ok (.ok ⟨memory.nodeAddr found, some (2 ^ order)⟩)
          ((memory.withStates states).withStack stack)
        | (none, states) => .ok (.error .outOfMemory)
          ((memory.withStates states).withStack stack) := by
  obtain ⟨order, request, chosen⟩ := exists_request shape fits
  have shallow := shape.shallow
  have inside := request.inside
  have page := request.page
  have stackLength := shape.stack
  have top : depth + 12 < wordLimit := by unfold wordLimit usizeBits; omega
  have word : order < usizeBits := by unfold usizeBits; omega
  have first : ((0 : Int)).toNat < memory.buddyStack.elems.length := by
    simp only [Int.toNat_zero]
    omega
  have holds := pending_root first
  -- The checks pass and the root is pushed, which leaves the loop.
  have start : (buddyAlloc profile n).run memory =
      (allocLoop profile (2 ^ order) (depth + 12 - order) (memory.buddyNodeCount + 2) 0).run
        (memory.withStack (memory.buddyStack.elems.set 0 0)) := by
    unfold buddyAlloc
    simp only [EStateM.run_bind, EStateM.run_get, if_neg (by omega : ¬ memory.memSize < n),
      if_neg (by omega : ¬ n = 0), chosen, expect, findOrder_two_pow (by omega) word, shape.high,
      profile.sub_eq inside top, EStateM.run_pure, run_setStack first, Int.toNat_zero]
  obtain ⟨cost, bound, stack, length, resumes⟩ := allocLoop_dfs
    (shape.withStack (memory.buddyStack.elems.set 0 0) (by simp))
    (by omega : depth + 12 - order ≤ depth) profile (2 ^ order)
    (by simp : level 0 + (depth + 12 - order) = depth + 12 - order) holds (by simp)
  -- No more turns are taken than the tree has nodes.
  have turns : cost ≤ memory.buddyNodeCount := by
    have grows : 2 ^ (depth + 12 - order + 1) ≤ 2 ^ (depth + 1) :=
      Nat.pow_le_pow_right (by omega) (by omega)
    rw [shape.nodes]
    omega
  have budget : memory.buddyNodeCount + 2 = memory.buddyNodeCount - cost + 1 + 1 + cost := by omega
  refine ⟨order, request, stack, by simpa [withStack] using length, ?_⟩
  rw [start, budget]
  simp only [withStack_states] at resumes
  cases ran : dfs (depth + 12 - order) 0 memory.states with
  | mk found states =>
    rw [ran] at resumes
    cases found with
    | some found =>
      rw [resumes]
      rfl
    | none =>
      -- With nothing left on the stack the next turn reports the failure.
      rw [resumes.2]
      rfl

/-- The states are the canonical ones for a set of allocated nodes. -/
def Canonical (memory : Memory) (depth : Nat) (live : Set Nat) : Prop :=
  ∀ j, level j ≤ depth → memory.states[j]? = some (label live j)

/-- The set of allocated nodes determines the states. -/
theorem Canonical.states_eq {memory other : Memory} {depth : Nat} {live : Set Nat}
    (shape : memory.Shape depth) (otherShape : other.Shape depth)
    (canonical : memory.Canonical depth live) (otherCanonical : other.Canonical depth live) :
    memory.states = other.states := by
  apply List.ext_getElem?
  intro j
  by_cases inside : level j ≤ depth
  · rw [canonical j inside, otherCanonical j inside]
  · -- Both lists end where the tree does.
    have past : 2 ^ (depth + 1) - 1 ≤ j := by
      by_contra below
      exact inside (level_le_of_lt (by omega))
    rw [List.getElem?_eq_none (by rw [shape.states]; exact past),
      List.getElem?_eq_none (by rw [otherShape.states]; exact past)]

/-- What an allocation does to an allocator whose allocated nodes are known. -/
inductive AllocSpec (memory : Memory) (depth : Nat) (live : Set Nat) (order : Nat) :
    EStateM.Result Fault Memory (Except MemError PhysAddr) → Prop where
  /-- The first node of the requested size that meets no allocated one is handed out. -/
  | found {node : Nat} {after : Memory} (shape : after.Shape depth)
      (start : after.start = memory.start) (deep : level node + order = depth + 12)
      (clear : Clear live node)
      (first : ∀ k, level k + order = depth + 12 → Clear live k → node ≤ k)
      (canonical : after.Canonical depth (insert node live)) :
      AllocSpec memory depth live order (.ok (.ok (memory.nodeBlock node)) after)
  /-- Every node of the requested size meets an allocated one. -/
  | full {after : Memory} (shape : after.Shape depth) (start : after.start = memory.start)
      (states : after.states = memory.states)
      (refused : ∀ k, level k + order = depth + 12 → ¬ Clear live k) :
      AllocSpec memory depth live order (.ok (.error .outOfMemory) after)

/-- In a canonical allocator, a request the arena can hold is met whenever a clear node is left. -/
theorem run_buddyAlloc {memory : Memory} {depth n : Nat} {live : Set Nat}
    (shape : memory.Shape depth) (canonical : memory.Canonical depth live)
    (positive : 0 < n) (fits : n ≤ memory.memSize) (profile : Profile) :
    ∃ order, Request n depth order ∧
      AllocSpec memory depth live order ((buddyAlloc profile n).run memory) := by
  obtain ⟨order, request, stack, length, ran⟩ := run_buddyAlloc_dfs shape positive fits profile
  have inside := request.inside
  have page := request.page
  -- From the root, the whole tree is searched.
  have spec := dfs_spec (by rw [level_zero]; omega : level 0 + (depth + 12 - order) ≤ depth)
    (fun a _ under => Nat.le_zero.mp under.le : ∀ a ∈ live, Under a 0 → a = 0)
    (fun j shallow _ => canonical j shallow)
  have lengths := dfs_length (depth + 12 - order) 0 memory.states
  refine ⟨order, request, ?_⟩
  rw [ran]
  cases searched : dfs (depth + 12 - order) 0 memory.states with
  | mk found states =>
    rw [searched] at spec lengths
    have shaped := (shape.withStates states lengths).withStack stack length
    cases found with
    -- The node found is clear and comes before all others that are.
    | some node =>
      obtain ⟨_, deep, clear, first, inner, _⟩ := spec
      rw [level_zero] at deep first
      have order_eq : memory.buddyHighOrder - level node = order := by rw [shape.high]; omega
      have block : (⟨memory.nodeAddr node, some (2 ^ order)⟩ : PhysAddr) = memory.nodeBlock node := by
        simp only [nodeBlock, order_eq]
      simp only [block]
      exact .found shaped rfl (by omega) clear
        (fun k same vacant => first k (Under.zero k) (by omega) vacant)
        (fun j shallow => inner j shallow (Under.zero j))
    | none =>
      obtain ⟨same, refused⟩ := spec
      rw [level_zero] at refused
      exact .full shaped rfl same (fun k deep => refused k (Under.zero k) (by omega))

/-- Requests of no bytes and requests larger than the arena fail without touching anything. -/
theorem run_buddyAlloc_refused {memory : Memory} {n : Nat}
    (bad : n = 0 ∨ memory.memSize < n) (profile : Profile) :
    ∃ error, (buddyAlloc profile n).run memory = .ok (.error error) memory := by
  unfold buddyAlloc
  -- The size of the arena is checked first.
  by_cases large : memory.memSize < n
  · exact ⟨.outOfMemory, by simp [large]⟩
  · have zero : n = 0 := bad.resolve_right large
    exact ⟨.zeroSize, by simp [zero]⟩

/-- Every block that the allocator hands out carries its size. -/
theorem buddyAlloc_sized {profile : Profile} {n : Nat} {memory after : Memory} {block : PhysAddr}
    (ran : (buddyAlloc profile n).run memory = .ok (.ok block) after) :
    ∃ size, block.size = some size := by
  -- A request that is refused returns an error, and all others go through the search.
  unfold buddyAlloc at ran
  obtain ⟨_, _, got, ran⟩ := Exec.run_bind_ok.mp ran
  split at ran
  · simp at ran
  · split at ran
    · simp at ran
    · obtain ⟨size, _, _, ran⟩ := Exec.run_bind_ok.mp ran
      obtain ⟨_, _, _, ran⟩ := Exec.run_bind_ok.mp ran
      obtain ⟨_, _, _, ran⟩ := Exec.run_bind_ok.mp ran
      exact ⟨size, allocLoop_sized ran⟩

end Os1k.Memory
