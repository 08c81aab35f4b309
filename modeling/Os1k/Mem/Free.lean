import Os1k.Mem.Alloc

/-! What giving a block back does, and the one block that cannot be given back. -/

namespace Os1k.Memory

open Implicit

/-- The index of a node's buddy is computed without overflow. -/
theorem run_buddyIndex {memory : Memory} {i : Nat} (nonroot : 0 < i) (small : i < 2 ^ 20)
    (profile : Profile) :
    (buddyIndex profile (slot i) (level i)).run memory = .ok (sibling i) memory := by
  have limit : wordLimit = 4294967296 := rfl
  have flipped := slot_xor_one nonroot
  -- The buddy is one before or one after, so no index leaves the word.
  have near : sibling i ≤ i + 1 := by unfold sibling; split <;> omega
  have bounds := level_bounds i
  have short : level i < usizeBits := by
    by_contra deep
    have : 2 ^ usizeBits ≤ 2 ^ level i := Nat.pow_le_pow_right (by omega) (by omega)
    unfold usizeBits at this
    omega
  unfold buddyIndex
  rw [profile.twoPow_eq short, pure_bind, profile.add_eq (by omega), pure_bind,
    profile.sub_eq (by omega) (by omega), EStateM.run_pure, flipped]
  rfl

/--
The states are canonical, except above a clear node.

The nodes above are still split on account of the block just given back.
-/
structure Merging (memory : Memory) (depth : Nat) (live : Set Nat) (i : Nat) : Prop where
  clear : Clear live i
  stale : ∀ j, level j ≤ depth → Under j i → j ≠ i → memory.states[j]? = some .split
  canonical : ∀ j, level j ≤ depth → ¬ (Under j i ∧ j ≠ i) →
    memory.states[j]? = some (label live j)

namespace Merging

variable {memory : Memory} {depth i : Nat} {live : Set Nat}

/-- The buddy is beside the node and not above it, so its state is up to date. -/
theorem buddy (merging : memory.Merging depth live i) (nonroot : 0 < i) (inside : level i ≤ depth) :
    memory.states[sibling i]? = some (label live (sibling i)) := by
  -- A sibling is on the same level, and nothing on its own level is above a node but itself.
  have beside := level_sibling nonroot
  apply merging.canonical
  · omega
  · intro above
    exact above.2 (above.1.eq_of_level (by omega))

/-- The parent is still split. -/
theorem above (merging : memory.Merging depth live i) (nonroot : 0 < i) (inside : level i ≤ depth) :
    memory.states[parent i]? = some .split := by
  have higher := level_parent nonroot
  -- The parent lies strictly above the freed node, where nothing was updated.
  apply merging.stale
  · omega
  · exact Under.parent_self nonroot
  · intro same
    rw [same] at higher
    omega

/-- With a free buddy the parent is free, and its state is all that merging has to change. -/
theorem climb (merging : memory.Merging depth live i) (shape : memory.Shape depth)
    (nonroot : 0 < i) (inside : level i ≤ depth) (free : label live (sibling i) = .free) :
    (memory.withStates (memory.states.set (parent i) .free)).Merging depth live (parent i) := by
  have higher := level_parent nonroot
  have vacant := merging.clear.vacant_parent nonroot (label_eq_free.mp free)
  have index := shape.index_lt (by omega : level (parent i) ≤ depth)
  constructor
  case clear => exact merging.clear.parent nonroot vacant
  case stale =>
    -- A node above the parent is above the node itself, and its state was not touched.
    intro j shallow under strict
    rw [withStates_states, List.getElem?_set_ne (Ne.symm strict)]
    refine merging.stale j shallow (under.trans (Under.parent_self nonroot)) ?_
    rintro rfl
    have := under.level_le
    omega
  case canonical =>
    intro j shallow below
    rw [withStates_states]
    by_cases top : j = parent i
    · subst top
      rw [label_eq_free.mpr vacant]
      simp [index]
    · rw [List.getElem?_set_ne (Ne.symm top)]
      refine merging.canonical j shallow fun strict => below ⟨?_, top⟩
      exact (strict.1.of_parent strict.2).2

/-- At the root no node is left that might be out of date. -/
theorem root (merging : memory.Merging depth live 0) : memory.Canonical depth live := by
  intro j shallow
  apply merging.canonical j shallow
  -- Nothing lies strictly above the root.
  intro strict
  exact strict.2 (Nat.le_zero.mp strict.1.le)

/-- A buddy that is in use keeps every node above split, so that nothing is out of date. -/
theorem busy (merging : memory.Merging depth live i) (nonroot : 0 < i)
    (busy : label live (sibling i) ≠ .free) : memory.Canonical depth live := by
  intro j shallow
  -- A node above the freed one may hold a stale state; every other node is right already.
  by_cases strict : Under j i ∧ j ≠ i
  · have occupied : Occupied live (sibling i) := by
      by_contra vacant
      exact busy (label_eq_free.mpr vacant)
    -- The buddy is occupied, so every node above has a block in use: it is split.
    have split := merging.clear.occupied_above nonroot occupied strict.1 strict.2
    rw [merging.stale j shallow strict.1 strict.2, label_eq_split.mpr split]
  · exact merging.canonical j shallow strict

/-- Once a block has been marked free, only the nodes above it may be out of date. -/
theorem freed (shape : memory.Shape depth) (canonical : memory.Canonical depth live)
    (apart : Apart live) (member : i ∈ live) (inside : level i ≤ depth) :
    (memory.withStates (memory.states.set i .free)).Merging depth (live \ {i}) i := by
  have index := shape.index_lt inside
  -- With the block gone, nothing in use meets the node.
  have clear := apart.clear_diff member
  constructor
  case clear => exact clear
  case stale =>
    -- The nodes above were split on account of this block.
    intro j shallow under strict
    rw [withStates_states, List.getElem?_set_ne (Ne.symm strict), canonical j shallow]
    congr 1
    refine label_eq_split.mpr ⟨fun also => strict ?_, ⟨i, member, under⟩⟩
    exact apart j also i member under
  case canonical =>
    intro j shallow elsewhere
    rw [withStates_states]
    by_cases same : j = i
    · subst same
      have vacant : label (live \ {j}) j = .free :=
        label_eq_free.mpr fun ⟨k, other, under⟩ => (clear k other).1 under
      rw [vacant]
      simp [index]
    · -- A node that is not above the block does not see it go.
      have apartFrom : ¬ Under j i := fun under => elsewhere ⟨under, same⟩
      rw [List.getElem?_set_ne (Ne.symm same), canonical j shallow]
      congr 1
      apply label_congr
      · simp [same]
      · constructor
        · rintro ⟨k, other, under⟩
          refine ⟨k, ⟨other, ?_⟩, under⟩
          rintro rfl
          exact apartFrom under
        · rintro ⟨k, other, under⟩
          exact ⟨k, other.1, under⟩

end Merging

section MergeLoop

variable {memory : Memory} {i : Nat}

/-- The loop stops at a buddy that is not free. -/
theorem run_mergeLoop_busy {state : BlockState} (found : memory.states[sibling i]? = some state)
    (busy : state ≠ .free) (profile : Profile) (fuel : Nat) :
    (mergeLoop profile (fuel + 1) i (sibling i) (level i)).run memory = .ok () memory := by
  unfold mergeLoop
  simp only [EStateM.run_bind, run_metaAt found, if_neg busy, EStateM.run_pure]

/-- With a free buddy the parent becomes free, and above the root's children the loop goes on there. -/
theorem run_mergeLoop_free (nonroot : 0 < i) (small : i < 2 ^ 20)
    (buddy : memory.states[sibling i]? = some .free)
    (above : memory.states[parent i]? = some .split) (profile : Profile) (fuel : Nat) :
    (mergeLoop profile (fuel + 1) i (sibling i) (level i)).run memory =
      if parent i = 0 then .ok () (memory.withStates (memory.states.set (parent i) .free))
      else (mergeLoop profile fuel (parent i) (sibling (parent i)) (level (parent i))).run
        (memory.withStates (memory.states.set (parent i) .free)) := by
  have limit : wordLimit = 4294967296 := rfl
  have half : (i - 1) / 2 = parent i := rfl
  have index := (List.getElem?_eq_some_iff.mp above).1
  rw [mergeLoop]
  simp only [EStateM.run_bind, run_metaAt buddy, if_true,
    profile.sub_eq (by omega : 1 ≤ i) (by omega), EStateM.run_pure, half, run_metaAt above,
    run_setMeta index]
  by_cases root : parent i = 0
  · simp only [if_pos root, EStateM.run_pure]
  · -- The level of the parent is one less, and its buddy is computed from its position there.
    have higher : 0 < parent i := Nat.pos_of_ne_zero root
    have lower := level_parent nonroot
    have less : level i - 1 = level (parent i) := by omega
    have near : parent i < 2 ^ 20 := by omega
    have bounds := level_bounds i
    have short : level i < wordLimit := by
      have grows := Nat.lt_two_pow_self (n := level i)
      omega
    simp only [if_neg root, EStateM.run_bind, profile.sub_eq (by omega : 1 ≤ level i) short, less,
      EStateM.run_pure, run_atLevel near, run_buddyIndex higher near]

end MergeLoop

/-- Merging restores the canonical states once everything below a node is free. -/
theorem run_mergeLoop {memory : Memory} {depth : Nat} {live : Set Nat} (shape : memory.Shape depth)
    (profile : Profile) {i fuel : Nat} (nonroot : 0 < i) (inside : level i ≤ depth)
    (turns : level i < fuel) (merging : memory.Merging depth live i) :
    ∃ states, (mergeLoop profile fuel i (sibling i) (level i)).run memory =
        .ok () (memory.withStates states) ∧
      (memory.withStates states).Shape depth ∧ (memory.withStates states).Canonical depth live := by
  -- Each turn climbs one level, until a buddy is in use or the root is reached.
  induction fuel generalizing memory i with
  | zero => omega
  | succ fuel ih =>
    have lower := level_parent nonroot
    have buddy := merging.buddy nonroot inside
    by_cases free : label live (sibling i) = .free
    · rw [free] at buddy
      have climbed := merging.climb shape nonroot inside free
      have shaped := shape.withStates (memory.states.set (parent i) .free) (by simp)
      rw [run_mergeLoop_free nonroot (shape.index_small inside) buddy
        (merging.above nonroot inside)]
      by_cases root : parent i = 0
      · rw [if_pos root]
        rw [root] at climbed shaped ⊢
        exact ⟨_, rfl, shaped, climbed.root⟩
      · rw [if_neg root]
        obtain ⟨states, ran, finalShape, final⟩ := ih shaped (Nat.pos_of_ne_zero root) (by omega)
          (by omega) climbed
        rw [withStates_twice] at ran finalShape final
        exact ⟨states, ran, finalShape, final⟩
    · exact ⟨memory.states, run_mergeLoop_busy buddy free profile fuel, shape,
        merging.busy nonroot free⟩

/-- The index and the level that `buddy_free` computes from an address and a size. -/
def nodeOf (profile : Profile) (addr size : Nat) : Exec Fault Memory (Nat × Nat) := do
  let memory ← get
  let offset ← profile.sub addr memory.start.addr
  let level ← profile.sub memory.buddyHighOrder (trailingZeros usizeBits size)
  if size = 0 then throw .divideByZero
  let position := offset / size
  let begin ← profile.oneShl level
  let before ← profile.sub begin 1
  let i ← profile.add before position
  return (i, level)

/-- What `buddy_free` does once it has computed the index and the level of a node. -/
def freeNode (profile : Profile) (i level : Nat) : Exec Fault Memory Unit := do
  let iAtLevel ← atLevel profile i level
  if (← metaAt i) = .allocated then
    setMeta i .free
  else throw (.notAllocated i)
  let buddyI ← buddyIndex profile iAtLevel level
  mergeLoop profile (2 * usizeBits) i buddyI level

/-- Freeing a block finds its node, and goes on with that. -/
theorem buddyFree_eq (profile : Profile) (addr size : Nat) :
    buddyFree profile ⟨addr, some size⟩ = (do
      let (i, level) ← nodeOf profile addr size
      freeNode profile i level) := by
  -- The two halves of the code are taken apart, and an empty size fails in the first.
  unfold buddyFree nodeOf freeNode
  simp only [bind_assoc]
  congr 1
  funext memory
  congr 1
  funext offset
  congr 1
  funext level
  by_cases zero : size = 0
  · simp only [if_pos zero]
    rfl
  · simp only [if_neg zero, bind_assoc, pure_bind]

/-- A block of the tree leads back to the node it was handed out for. -/
theorem run_nodeOf {memory : Memory} {depth i : Nat} (located : memory.Located depth)
    (inside : level i ≤ depth) (profile : Profile) :
    (nodeOf profile (memory.nodeAddr i) (2 ^ (memory.buddyHighOrder - level i))).run memory =
      .ok (i, level i) memory := by
  have limit : wordLimit = 4294967296 := rfl
  have bits : usizeBits = 32 := rfl
  have small := located.index_small inside
  have shallow := located.shallow
  have total := slot_add i
  obtain ⟨offset, address⟩ := located.nodeAddr_lt inside
  have order : depth + 12 - level i < usizeBits := by omega
  have size : 0 < 2 ^ (depth + 12 - level i) := Nat.two_pow_pos _
  -- Subtracting the start and dividing by the size recovers the position within the level.
  have distance : memory.start.addr + slot i * 2 ^ (depth + 12 - level i) - memory.start.addr
      = slot i * 2 ^ (depth + 12 - level i) := by omega
  have position : slot i * 2 ^ (depth + 12 - level i) / 2 ^ (depth + 12 - level i) = slot i :=
    Nat.mul_div_cancel _ size
  have levels : depth + 12 - (depth + 12 - level i) = level i := by omega
  have first : 1 ≤ 2 ^ level i := Nat.two_pow_pos _
  have index : 2 ^ level i - 1 + slot i = i := by omega
  -- None of the steps overflows, so that both profiles compute this node.
  unfold nodeOf
  simp only [nodeAddr, located.high, EStateM.run_bind, EStateM.run_get,
    profile.sub_eq (by omega : memory.start.addr ≤
      memory.start.addr + slot i * 2 ^ (depth + 12 - level i)) address, EStateM.run_pure,
    distance, trailingZeros_two_pow order,
    profile.sub_eq (by omega : depth + 12 - level i ≤ depth + 12) (by omega : depth + 12 < wordLimit),
    if_neg (by omega : ¬ 2 ^ (depth + 12 - level i) = 0), position, levels,
    profile.oneShl_eq (by omega : level i < usizeBits),
    profile.sub_eq first (by omega : 2 ^ level i < wordLimit),
    profile.add_eq (by omega : 2 ^ level i - 1 + slot i < wordLimit), index]

/-- Freeing a block of the tree frees the node it was handed out for. -/
theorem run_buddyFree_node {memory : Memory} {depth i : Nat} (located : memory.Located depth)
    (inside : level i ≤ depth) (profile : Profile) :
    (buddyFree profile (memory.nodeBlock i)).run memory =
      (freeNode profile i (level i)).run memory := by
  rw [nodeBlock, buddyFree_eq, EStateM.run_bind, run_nodeOf located inside]

/-- Freeing a node starts with its state, and then looks at its buddy. -/
theorem run_freeNode {memory : Memory} {i : Nat} (small : i < 2 ^ 20) (profile : Profile) :
    (freeNode profile i (level i)).run memory = (do
      if (← metaAt i) = .allocated then
        setMeta i .free
      else throw (.notAllocated i)
      let buddyI ← buddyIndex profile (slot i) (level i)
      mergeLoop profile (2 * usizeBits) i buddyI (level i) : Exec Fault Memory Unit).run memory := by
  rw [freeNode, EStateM.run_bind, run_atLevel small]

/-- A block whose node is not allocated is refused before anything is written. -/
theorem run_buddyFree_refused {memory : Memory} {depth i : Nat} {state : BlockState}
    (shape : memory.Shape depth) (inside : level i ≤ depth)
    (found : memory.states[i]? = some state) (other : state ≠ .allocated) (profile : Profile) :
    (buddyFree profile (memory.nodeBlock i)).run memory = .error (.notAllocated i) memory := by
  -- The node is found from the address before its state is read.
  rw [run_buddyFree_node shape.located inside, run_freeNode (shape.index_small inside)]
  simp only [EStateM.run_bind, run_metaAt found, if_neg other]
  rfl

/-- Giving back an allocated block below the root succeeds and leaves canonical states. -/
theorem run_buddyFree {memory : Memory} {depth i : Nat} {live : Set Nat}
    (shape : memory.Shape depth) (canonical : memory.Canonical depth live) (apart : Apart live)
    (member : i ∈ live) (inside : level i ≤ depth) (nonroot : 0 < i) (profile : Profile) :
    ∃ states, (buddyFree profile (memory.nodeBlock i)).run memory =
        .ok () (memory.withStates states) ∧
      (memory.withStates states).Shape depth ∧
      (memory.withStates states).Canonical depth (live \ {i}) := by
  have bits : usizeBits = 32 := rfl
  have shallow := shape.shallow
  have index := shape.index_lt inside
  have allocated : memory.states[i]? = some .allocated := by
    rw [canonical i inside, label_eq_allocated.mpr member]
  -- The block is marked free before the loop looks at any buddy.
  have shaped := shape.withStates (memory.states.set i .free) (by simp)
  obtain ⟨states, ran, finalShape, final⟩ := run_mergeLoop shaped profile nonroot inside
    (by omega : level i < 2 * usizeBits) (.freed shape canonical apart member inside)
  rw [withStates_twice] at ran finalShape final
  -- The checks in front of the loop pass, since the node is allocated and is not the root.
  refine ⟨states, ?_, finalShape, final⟩
  rw [run_buddyFree_node shape.located inside, run_freeNode (shape.index_small inside)]
  simp only [EStateM.run_bind, run_metaAt allocated, if_true, run_setMeta index,
    run_buddyIndex nonroot (shape.index_small inside)]
  exact ran

/--
The block that is the root of the tree cannot be given back.

Its node has no buddy, and the index computed for one is either past the last node or that of a
free node, which sends the merge above the root.
-/
theorem run_buddyFree_zero {memory : Memory} {depth : Nat} (located : memory.Located depth)
    (allocated : memory.states[0]? = some .allocated)
    (unused : ∀ state, memory.states[1]? = some state → state = .free)
    (short : memory.states.length < 2 ^ 30) (profile : Profile) :
    ∃ fault after, (buddyFree profile (memory.nodeBlock 0)).run memory = .error fault after := by
  have index : 0 < memory.states.length := (List.getElem?_eq_some_iff.mp allocated).1
  -- Flipping the position of the root gives one, and one is the index of a child.
  have buddy : (buddyIndex profile (slot 0) (level 0)).run
      (memory.withStates (memory.states.set 0 .free))
      = .ok 1 (memory.withStates (memory.states.set 0 .free)) := by
    have start : slot 0 ^^^ 1 = 1 := by decide
    unfold buddyIndex
    rw [level_zero, start, profile.twoPow_eq (by decide), pure_bind,
      profile.add_eq (by decide), pure_bind, profile.sub_eq (by decide) (by decide)]
    rfl
  have entered : (buddyFree profile (memory.nodeBlock 0)).run memory =
      (mergeLoop profile 64 0 1 0).run (memory.withStates (memory.states.set 0 .free)) := by
    rw [run_buddyFree_node located (by simp), run_freeNode (by omega)]
    simp only [EStateM.run_bind, run_metaAt allocated, if_true, run_setMeta index, buddy]
    rfl
  rw [entered]
  unfold mergeLoop
  have other : (memory.withStates (memory.states.set 0 .free)).states[1]? = memory.states[1]? := by
    rw [withStates_states, List.getElem?_set_ne (by omega)]
  cases found : memory.states[1]? with
  | none =>
    -- In a tree of one node there is no second node to look at.
    rw [found] at other
    have past := run_metaAt_past (List.getElem?_eq_none_iff.mp other)
    exact ⟨_, _, by simp only [EStateM.run_bind, past]; rfl⟩
  | some state =>
    -- Otherwise that node is free, and the merge subtracts one from index zero.
    rw [unused state found] at found
    have child := other.trans found
    cases profile with
    | dev =>
      have checked : (Profile.dev.sub 0 1 : Exec Fault Memory Nat) = throw (.overflow .subtract) := by
        rfl
      exact ⟨_, _, by simp only [EStateM.run_bind, run_metaAt child, if_true, checked,
        Exec.run_throw]; rfl⟩
    | release =>
      have wrapped : (Profile.release.sub 0 1 : Exec Fault Memory Nat) = pure 4294967295 := by rfl
      have past : (memory.withStates (memory.states.set 0 .free)).states.length ≤ 4294967295 / 2 := by
        rw [withStates_states, List.length_set]
        omega
      exact ⟨_, _, by simp only [EStateM.run_bind, run_metaAt child, if_true, wrapped,
        EStateM.run_pure, run_metaAt_past past]; rfl⟩

/-- While the root is in use, the nodes below it count as free. -/
theorem Canonical.below_root {memory : Memory} {depth : Nat} {live : Set Nat}
    (canonical : memory.Canonical depth live) (apart : Apart live) (member : 0 ∈ live) {j : Nat}
    (nonroot : 0 < j) (inside : level j ≤ depth) : memory.states[j]? = some .free := by
  rw [canonical j inside]
  congr 1
  -- Nothing else is in use as long as the root is.
  refine label_eq_free.mpr fun ⟨k, other, under⟩ => ?_
  have top : k = 0 := (apart 0 member k other (Under.zero k)).symm
  have later := under.le
  omega

/-- The block that is the whole arena cannot be given back. -/
theorem run_buddyFree_root {memory : Memory} {depth : Nat} {live : Set Nat}
    (shape : memory.Shape depth) (canonical : memory.Canonical depth live) (apart : Apart live)
    (member : 0 ∈ live) (profile : Profile) :
    ∃ fault after, (buddyFree profile (memory.nodeBlock 0)).run memory = .error fault after := by
  -- With the root allocated all other nodes are free, and merging goes past the root.
  have shallow := shape.shallow
  refine run_buddyFree_zero shape.located ?_ (fun state found => ?_) ?_ profile
  · rw [canonical 0 (by simp), label_eq_allocated.mpr member]
  · have inside := shape.level_le (List.getElem?_eq_some_iff.mp found).1
    rw [canonical.below_root apart member (by omega) inside, Option.some.injEq] at found
    exact found.symm
  · have grows : 2 ^ (depth + 1) ≤ 2 ^ 20 := Nat.pow_le_pow_right (by omega) (by omega)
    rw [shape.states]
    omega

end Os1k.Memory
