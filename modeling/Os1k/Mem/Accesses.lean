import Os1k.Lib.Traced
import Os1k.Mem.Reachable

/-! Which entries of its stack and of its node states the search of an allocation touches. -/

namespace Os1k.Memory

open Implicit

/-- What the search does that can go wrong: using its two slices, and popping nodes. -/
inductive Access where
  | stack (index : Int)
  | node (index : Nat)
  | popped (node : Nat)
  deriving DecidableEq, Repr

/-- The allocator with a log of what its search did. -/
abbrev Logged := Traced Memory Access

/-- Read the state of a node, with a note. -/
def metaAtTraced (i : Nat) : Exec Fault Logged BlockState := do
  Traced.note (.node i)
  Traced.lift (metaAt i)

/-- Change the state of a node, with a note. -/
def setMetaTraced (i : Nat) (state : BlockState) : Exec Fault Logged Unit := do
  Traced.note (.node i)
  Traced.lift (setMeta i state)

/-- Put a pending node on the search stack, with a note. -/
def setStackTraced (sp : Int) (i : Nat) : Exec Fault Logged Unit := do
  Traced.note (.stack sp)
  Traced.lift (setStack sp i)

/-- Read a pending node off the search stack, with a note of it and of the entry. -/
def popTraced (sp : Int) : Exec Fault Logged Nat := do
  Traced.note (.stack sp)
  let i ← Traced.lift (stackAt sp)
  Traced.note (.popped i)
  return i

/-- Put both children of a node on the search stack, with notes. -/
def pushChildrenTraced (profile : Profile) (sp : Int) (i : Nat) : Exec Fault Logged Int := do
  let twice ← Traced.lift (profile.mul 2 i)
  let right ← Traced.lift (profile.add twice 2)
  setStackTraced (sp + 1) right
  let left ← Traced.lift (profile.add twice 1)
  setStackTraced (sp + 2) left
  return sp + 2

/-- The depth-first search, with notes. -/
def allocLoopTraced (profile : Profile) (n reqOrder : Nat) :
    Nat → Int → Exec Fault Logged (Except MemError PhysAddr)
  | 0, _ => throw .fuel
  | fuel + 1, sp => do
    if sp < 0 then return .error .outOfMemory
    let i ← popTraced sp
    let sp := sp - 1
    let level := findOrder i
    if reqOrder = level then
      if (← metaAtTraced i) = .free then
        setMetaTraced i .allocated
        let addr ← Traced.lift (blockAddr profile i level)
        return .ok ⟨addr, some n⟩
      else allocLoopTraced profile n reqOrder fuel sp
    else
      match ← metaAtTraced i with
      | .free =>
        setMetaTraced i .split
        let sp ← pushChildrenTraced profile sp i
        allocLoopTraced profile n reqOrder fuel sp
      | .allocated => allocLoopTraced profile n reqOrder fuel sp
      | .split =>
        let sp ← pushChildrenTraced profile sp i
        allocLoopTraced profile n reqOrder fuel sp

/-- An allocation, with notes of what its search does. -/
def buddyAllocTraced (profile : Profile) (n : Nat) :
    Exec Fault Logged (Except MemError PhysAddr) := do
  let memory ← Traced.lift get
  if memory.memSize < n then return .error .outOfMemory
  if n = 0 then return .error .zeroSize
  let n := if n < pageSize then pageSize else n
  let n ← Traced.lift (expect .hugeRequest (nextPowerOfTwo usizeBits n))
  let reqOrder ← Traced.lift (profile.sub memory.buddyHighOrder (findOrder n))
  setStackTraced 0 0
  allocLoopTraced profile n reqOrder (memory.buddyNodeCount + 2) 0

section Erasure

open Traced

theorem metaAtTraced_erases (i : Nat) : Erases (metaAtTraced i) (metaAt i) :=
  .note _ (.lift _)

theorem setMetaTraced_erases (i : Nat) (state : BlockState) :
    Erases (setMetaTraced i state) (setMeta i state) :=
  .note _ (.lift _)

theorem setStackTraced_erases (sp : Int) (i : Nat) :
    Erases (setStackTraced sp i) (setStack sp i) :=
  .note _ (.lift _)

theorem popTraced_erases (sp : Int) : Erases (popTraced sp) (stackAt sp) := by
  have read : Erases (popTraced sp) (stackAt sp >>= pure) :=
    .note _ (.bind (.lift _) fun _ => .note _ (.pure _))
  rwa [bind_pure] at read

theorem pushChildrenTraced_erases (profile : Profile) (sp : Int) (i : Nat) :
    Erases (pushChildrenTraced profile sp i) (pushChildren profile sp i) := by
  refine .bind (.lift _) fun twice => .bind (.lift _) fun right => ?_
  refine .bind (setStackTraced_erases _ _) fun _ => .bind (.lift _) fun left => ?_
  exact .bind (setStackTraced_erases _ _) fun _ => .pure _

/-- The search with notes is the search, once the notes are forgotten. -/
theorem allocLoopTraced_erases (profile : Profile) (n reqOrder fuel : Nat) (sp : Int) :
    Erases (allocLoopTraced profile n reqOrder fuel sp) (allocLoop profile n reqOrder fuel sp) := by
  -- Each turn does the same on both sides, up to the notes.
  induction fuel generalizing sp with
  | zero => exact .throw _
  | succ fuel ih =>
    unfold allocLoopTraced allocLoop
    refine .ite (.pure _) (.bind (popTraced_erases sp) fun i => .ite ?_ ?_)
    · -- On the requested level, a free node ends the search.
      refine .bind (metaAtTraced_erases i) fun state => .ite ?_ (ih _)
      exact .bind (setMetaTraced_erases i _) fun _ => .bind (.lift _) fun _ => .pure _
    · -- Above it, the search goes on according to the state.
      refine .bind (metaAtTraced_erases i) fun state => ?_
      cases state with
      | free =>
        refine .bind (setMetaTraced_erases i _) fun _ => ?_
        exact .bind (pushChildrenTraced_erases profile _ i) fun _ => ih _
      | allocated => exact ih _
      | split => exact .bind (pushChildrenTraced_erases profile _ i) fun _ => ih _

/-- An allocation with notes is the allocation, once the notes are forgotten. -/
theorem buddyAllocTraced_erases (profile : Profile) (n : Nat) :
    Erases (buddyAllocTraced profile n) (buddyAlloc profile n) := by
  -- The checks come before the search and leave no notes.
  refine .bind (.lift _) fun memory => .ite (.pure _) (.ite (.pure _) ?_)
  refine .bind (.lift _) fun size => .bind (.lift _) fun order => ?_
  exact .bind (setStackTraced_erases 0 0) fun _ => allocLoopTraced_erases profile _ _ _ _

end Erasure

/-- Changes of the allocator that replace nothing but the entry an access is about. -/
inductive Replaces : Access → (Memory → Memory) → Prop where
  | node (i : Nat) (state : BlockState) :
      Replaces (.node i) fun memory => memory.withStates (memory.states.set i state)
  | stack {index : Int} (inside : 0 ≤ index) (i : Nat) :
      Replaces (.stack index) fun memory =>
        memory.withStack (memory.buddyStack.elems.set index.toNat i)

section Confinement

open Exec Traced

variable {access : Access} {change : Memory → Memory}

/-- Where a block starts does not depend on any entry. -/
theorem Replaces.blockAddr (replaces : Replaces access change) (profile : Profile)
    (i level : Nat) : Oblivious change (Memory.blockAddr profile i level) := by
  -- Neither change touches the two fields that the address is computed from.
  have same : ∀ memory, (change memory).buddyHighOrder = memory.buddyHighOrder ∧
      (change memory).start = memory.start := by
    cases replaces with
    | node _ _ => exact fun _ => ⟨rfl, rfl⟩
    | stack _ _ => exact fun _ => ⟨rfl, rfl⟩
  unfold Memory.blockAddr
  refine .get (fun memory => ?_) fun memory => ?_
  · rw [(same memory).1, (same memory).2]
  · refine .bind (.bind (profile.oblivious_fit _ _) fun _ => .bind (profile.oblivious_fit _ _) fun _ =>
      profile.oblivious_fit _ _) fun _ => .bind (profile.oblivious_fit _ _) fun _ => ?_
    exact .bind (profile.oblivious_fit _ _) fun _ => .bind (profile.oblivious_fit _ _) fun _ => .pure _

/-- Reading one node does not depend on any other entry. -/
theorem Replaces.metaAt (replaces : Replaces access change) {i : Nat} (other : .node i ≠ access) :
    Oblivious change (Memory.metaAt i) := by
  refine .get (fun memory => ?_) fun memory => ?_
  · -- The entry that changed is not the one that is read.
    cases replaces with
    | node k state => exact memory.buddyMeta.index_set (fun same => other (by rw [same])) state
    | stack _ _ => rfl
  · unfold Slice.index
    cases memory.buddyMeta.elems[i]? with
    | some state => exact .pure _
    | none => exact .throw _

/-- Writing one node does not depend on any other entry. -/
theorem Replaces.setMeta (replaces : Replaces access change) {i : Nat} (other : .node i ≠ access)
    (state : BlockState) : Oblivious change (Memory.setMeta i state) := by
  intro memory
  obtain ⟨length, swap⟩ : (change memory).states.length = memory.states.length ∧
      (change memory).withStates ((change memory).states.set i state) =
        change (memory.withStates (memory.states.set i state)) := by
    cases replaces with
    | node k changed =>
      have different : k ≠ i := fun same => other (by rw [same])
      refine ⟨List.length_set, ?_⟩
      simp only [withStates_states, withStates_twice, List.set_comm _ _ different]
    | stack _ _ => exact ⟨rfl, rfl⟩
  -- Both writes are inside the slice, or neither is.
  by_cases inside : i < memory.states.length
  · rw [run_setMeta inside, run_setMeta (length.symm ▸ inside), swap]
    rfl
  · rw [run_setMeta_past (Nat.le_of_not_lt inside),
      run_setMeta_past (length.symm ▸ Nat.le_of_not_lt inside), length]
    rfl

/-- Reading one entry of the stack does not depend on any other entry. -/
theorem Replaces.stackAt (replaces : Replaces access change) {sp : Int} (pointer : 0 ≤ sp)
    (other : .stack sp ≠ access) : Oblivious change (Memory.stackAt sp) := by
  refine .get (fun memory => ?_) fun memory => ?_
  · -- The entry that changed is not the one that is read.
    cases replaces with
    | node _ _ => rfl
    | @stack index inside i =>
      refine memory.buddyStack.index_set (fun same => other ?_) i
      rw [(by omega : sp = index)]
  · unfold Slice.index
    cases memory.buddyStack.elems[sp.toNat]? with
    | some i => exact .pure _
    | none => exact .throw _

/-- Writing one entry of the stack does not depend on any other entry. -/
theorem Replaces.setStack (replaces : Replaces access change) {sp : Int} (pointer : 0 ≤ sp)
    (other : .stack sp ≠ access) (i : Nat) : Oblivious change (Memory.setStack sp i) := by
  intro memory
  obtain ⟨length, swap⟩ :
      (change memory).buddyStack.elems.length = memory.buddyStack.elems.length ∧
      (change memory).withStack ((change memory).buddyStack.elems.set sp.toNat i) =
        change (memory.withStack (memory.buddyStack.elems.set sp.toNat i)) := by
    cases replaces with
    | node _ _ => exact ⟨rfl, rfl⟩
    | @stack index inside changed =>
      have different : index.toNat ≠ sp.toNat := fun same => other (by
        rw [(by omega : sp = index)])
      refine ⟨List.length_set, ?_⟩
      simp only [withStack, List.set_comm _ _ different]
  -- Both writes are inside the slice, or neither is.
  by_cases inside : sp.toNat < memory.buddyStack.elems.length
  · rw [run_setStack inside, run_setStack (length.symm ▸ inside), swap]
    rfl
  · rw [run_setStack_past (Nat.le_of_not_lt inside),
      run_setStack_past (length.symm ▸ Nat.le_of_not_lt inside), length]
    rfl

theorem metaAtTraced_confined (replaces : Replaces access change) (i : Nat) :
    Confined change access (metaAtTraced i) :=
  .note _ fun other => replaces.metaAt other

theorem setMetaTraced_confined (replaces : Replaces access change) (i : Nat) (state : BlockState) :
    Confined change access (setMetaTraced i state) :=
  .note _ fun other => replaces.setMeta other state

theorem setStackTraced_confined (replaces : Replaces access change) {sp : Int} (pointer : 0 ≤ sp)
    (i : Nat) : Confined change access (setStackTraced sp i) :=
  .note _ fun other => replaces.setStack pointer other i

theorem popTraced_confined (replaces : Replaces access change) {sp : Int} (pointer : 0 ≤ sp) :
    Confined change access (popTraced sp) := by
  -- The entry is noted before it is read, and what was found there is noted as popped.
  have read : Confined change access (do
      let i ← (do Traced.note (.stack sp); Traced.lift (stackAt sp) : Exec Fault Logged Nat)
      Traced.note (.popped i)
      return i) :=
    .bind (.note _ fun other => replaces.stackAt pointer other) fun i =>
      .bind (.noted _) fun _ => .pure _
  rwa [bind_assoc] at read

/-- Pushing the children logs both entries, and what follows starts two entries further up. -/
theorem pushChildrenTraced_confined (replaces : Replaces access change) (profile : Profile)
    {sp : Int} (pointer : -1 ≤ sp) (i : Nat) {α : Type} {next : Int → Exec Fault Logged α}
    (rest : Confined change access (next (sp + 2))) :
    Confined change access (pushChildrenTraced profile sp i >>= next) := by
  unfold pushChildrenTraced
  simp only [bind_assoc, pure_bind]
  -- Arithmetic reads no slice; the two writes are noted before they are made.
  refine .bind (.lift (profile.oblivious_fit _ _)) fun twice => ?_
  refine .bind (.lift (profile.oblivious_fit _ _)) fun right => ?_
  refine .bind (setStackTraced_confined replaces (by omega) _) fun _ => ?_
  refine .bind (.lift (profile.oblivious_fit _ _)) fun left => ?_
  exact .bind (setStackTraced_confined replaces (by omega) _) fun _ => rest

/-- The search logs all entries that it uses. -/
theorem allocLoopTraced_confined (replaces : Replaces access change) (profile : Profile)
    (n reqOrder fuel : Nat) {sp : Int} (pointer : -1 ≤ sp) :
    Confined change access (allocLoopTraced profile n reqOrder fuel sp) := by
  -- Induction on the turns, with the pointer on an entry whenever one is popped.
  induction fuel generalizing sp with
  | zero => exact .throw _
  | succ fuel ih =>
    unfold allocLoopTraced
    by_cases drained : sp < 0
    · rw [if_pos drained]
      exact .pure _
    · rw [if_neg drained]
      refine .bind (popTraced_confined replaces (by omega)) fun i => .ite ?_ ?_
      · -- On the requested level, a free node ends the search.
        refine .bind (metaAtTraced_confined replaces i) fun state => .ite ?_ (ih (by omega))
        refine .bind (setMetaTraced_confined replaces i _) fun _ => ?_
        exact .bind (.lift (replaces.blockAddr profile i _)) fun _ => .pure _
      · -- Above it, the children are pushed unless the node is in use.
        refine .bind (metaAtTraced_confined replaces i) fun state => ?_
        have push : Confined change access (do
            let sp ← pushChildrenTraced profile (sp - 1) i
            allocLoopTraced profile n reqOrder fuel sp) :=
          pushChildrenTraced_confined replaces profile (by omega) i (ih (by omega))
        cases state with
        | free => exact .bind (setMetaTraced_confined replaces i _) fun _ => push
        | allocated => exact ih (by omega)
        | split => exact push

/-- An allocation logs all entries that it uses. -/
theorem buddyAllocTraced_confined (replaces : Replaces access change) (profile : Profile)
    (n : Nat) : Confined change access (buddyAllocTraced profile n) := by
  have same : ∀ memory, (change memory).memSize = memory.memSize ∧
      (change memory).buddyHighOrder = memory.buddyHighOrder ∧
      (change memory).buddyNodeCount = memory.buddyNodeCount := by
    cases replaces with
    | node _ _ => exact fun _ => ⟨rfl, rfl, rfl⟩
    | stack _ _ => exact fun _ => ⟨rfl, rfl, rfl⟩
  refine .get (fun memory => ?_) fun memory => ?_
  · rw [(same memory).1, (same memory).2.1, (same memory).2.2]
  · refine .ite (.pure _) (.ite (.pure _) (.bind (.lift ?_) fun size => ?_))
    · -- The size is rounded up without looking at the allocator.
      cases nextPowerOfTwo usizeBits (if n < pageSize then pageSize else n) with
      | some size => exact .pure _
      | none => exact .throw _
    · refine .bind (.lift (profile.oblivious_fit _ _)) fun order => ?_
      refine .bind (setStackTraced_confined replaces (Int.le_refl 0) _) fun _ => ?_
      exact allocLoopTraced_confined replaces profile _ _ _ (by omega)

/--
What an allocation does not note, it neither reads nor writes.

With another value in an entry that is not in its notes, it answers the same, and leaves that value
where it is.
-/
theorem buddyAlloc_notes_all (replaces : Replaces access change) {profile : Profile} {n : Nat}
    {memory after : Memory} {result : Except MemError PhysAddr} {log : List Access}
    (logged : (buddyAllocTraced profile n).run ⟨memory, []⟩ = .ok result ⟨after, log⟩)
    (absent : access ∉ log) :
    (buddyAlloc profile n).run (change memory) = .ok result (change after) := by
  -- The traced search takes no notice of the change, and without its log it is the search itself.
  have unnoticed := (buddyAllocTraced_confined replaces profile n).unnoticed ⟨memory, []⟩
  rw [logged] at unnoticed
  have same := buddyAllocTraced_erases profile n (Traced.map change ⟨memory, []⟩)
  rw [unnoticed absent] at same
  exact same.symm

end Confinement

/-- An access to an entry that exists, for a tree of the given depth. -/
def Access.Inside (depth : Nat) : Access → Prop
  -- The stack has one entry for each level of the tree.
  | .stack index => 0 ≤ index ∧ index < depth + 1
  | .node index => index < 2 ^ (depth + 1) - 1
  | .popped _ => True

/-- The nodes that were popped, in order. -/
def poppedNodes (log : List Access) : List Nat :=
  log.filterMap fun
    | .popped i => some i
    | _ => none

@[simp] theorem poppedNodes_stack (log : List Access) (index : Int) :
    poppedNodes (log ++ [.stack index]) = poppedNodes log := by
  simp [poppedNodes]

@[simp] theorem poppedNodes_node (log : List Access) (index : Nat) :
    poppedNodes (log ++ [.node index]) = poppedNodes log := by
  simp [poppedNodes]

@[simp] theorem poppedNodes_popped (log : List Access) (i : Nat) :
    poppedNodes (log ++ [.popped i]) = poppedNodes log ++ [i] := by
  simp [poppedNodes]

/-- Every access was to an entry that exists, and no node was popped twice. -/
structure Sound (depth : Nat) (log : List Access) : Prop where
  inside : ∀ access ∈ log, access.Inside depth
  once : (poppedNodes log).Nodup

/--
The pending nodes are down to the requested level, with room for all of them.

The nodes below a pending one on the stack are no more than its levels above.
-/
def Fits (reqOrder : Nat) : List Nat → Prop
  | [] => True
  | i :: rest => rest.length ≤ level i ∧ level i ≤ reqOrder ∧ Fits reqOrder rest

/-- Two nodes with a common descendant. -/
def Meets (i j : Nat) : Prop := ∃ k, Under i k ∧ Under j k

/-- What holds between two turns of the search: what is pending is still unexplored. -/
structure Unexplored (depth reqOrder : Nat) (pending : List Nat) (log : List Access) : Prop where
  sound : Sound depth log
  fits : Fits reqOrder pending
  apart : pending.Pairwise fun i j => ¬ Meets i j
  fresh : ∀ i ∈ pending, ∀ k, Under i k → k ∉ poppedNodes log

namespace Unexplored

variable {depth reqOrder i : Nat} {rest pending : List Nat} {log : List Access}

/-- Using an entry of the stack leaves the pending nodes unexplored. -/
theorem stack (unexplored : Unexplored depth reqOrder pending log) {index : Int}
    (inside : 0 ≤ index ∧ index < depth + 1) :
    Unexplored depth reqOrder pending (log ++ [.stack index]) := by
  -- Only the list of accesses grows, and that by one that is inside.
  refine ⟨⟨fun access member => ?_, ?_⟩, unexplored.fits, unexplored.apart, ?_⟩
  · rcases List.mem_append.mp member with old | new
    · exact unexplored.sound.inside access old
    · rw [List.mem_singleton.mp new]
      exact inside
  · rw [poppedNodes_stack]
    exact unexplored.sound.once
  · rw [poppedNodes_stack]
    exact unexplored.fresh

/-- Using a node of the tree leaves the pending nodes unexplored. -/
theorem node (unexplored : Unexplored depth reqOrder pending log) {index : Nat}
    (inside : level index ≤ depth) :
    Unexplored depth reqOrder pending (log ++ [.node index]) := by
  -- Only the list of accesses grows, and that by one that is inside.
  refine ⟨⟨fun access member => ?_, ?_⟩, unexplored.fits, unexplored.apart, ?_⟩
  · rcases List.mem_append.mp member with old | new
    · exact unexplored.sound.inside access old
    · rw [List.mem_singleton.mp new]
      exact lt_of_level_le inside
  · rw [poppedNodes_node]
    exact unexplored.sound.once
  · rw [poppedNodes_node]
    exact unexplored.fresh

/-- A pending node was not popped before. -/
theorem sound_pop (unexplored : Unexplored depth reqOrder (i :: rest) log) :
    Sound depth (log ++ [.popped i]) := by
  refine ⟨fun access member => ?_, ?_⟩
  · rcases List.mem_append.mp member with old | new
    · exact unexplored.sound.inside access old
    · rw [List.mem_singleton.mp new]
      exact trivial
  · -- A pending node counts as one below itself, none of which was popped.
    rw [poppedNodes_popped]
    have unseen := unexplored.fresh i List.mem_cons_self i (Under.refl i)
    exact List.nodup_append.mpr ⟨unexplored.sound.once, List.nodup_singleton i, fun j seen k new => by
      rw [List.mem_singleton.mp new]
      rintro rfl
      exact unseen seen⟩

/-- The other pending nodes are still unexplored once the next one is popped. -/
theorem drop (unexplored : Unexplored depth reqOrder (i :: rest) log) :
    Unexplored depth reqOrder rest (log ++ [.popped i]) := by
  obtain ⟨others, apart⟩ := List.pairwise_cons.mp unexplored.apart
  refine ⟨unexplored.sound_pop, unexplored.fits.2.2, apart, fun j member k under => ?_⟩
  rw [poppedNodes_popped, List.mem_append, List.mem_singleton, not_or]
  refine ⟨unexplored.fresh j (List.mem_cons_of_mem i member) k under, ?_⟩
  -- The node just popped is not below another pending one, as it meets none.
  rintro rfl
  exact others j member ⟨k, Under.refl k, under⟩

/-- The children of the node just popped are unexplored as well. -/
theorem expand (unexplored : Unexplored depth reqOrder (i :: rest) log) (above : level i < reqOrder) :
    Unexplored depth reqOrder ((2 * i + 1) :: (2 * i + 2) :: rest) (log ++ [.popped i]) := by
  obtain ⟨others, _⟩ := List.pairwise_cons.mp unexplored.apart
  obtain ⟨room, _, fits⟩ := unexplored.fits
  have dropped := unexplored.drop
  -- What lies below a child lies strictly below the node.
  have below : ∀ child, child = 2 * i + 1 ∨ child = 2 * i + 2 → ∀ k, Under child k →
      Under i k ∧ k ≠ i := by
    intro child which k under
    have later := under.le
    rcases which with rfl | rfl
    · exact ⟨(Under.left i).trans under, by omega⟩
    · exact ⟨(Under.right i).trans under, by omega⟩
  -- The node is the first of its subtree to be popped.
  have unseen : ∀ child, child = 2 * i + 1 ∨ child = 2 * i + 2 → ∀ k, Under child k →
      k ∉ poppedNodes (log ++ [.popped i]) := by
    intro child which k under
    obtain ⟨inside, strict⟩ := below child which k under
    rw [poppedNodes_popped, List.mem_append, List.mem_singleton, not_or]
    exact ⟨unexplored.fresh i List.mem_cons_self k inside, strict⟩
  -- What a child meets, its parent meets as well.
  have away : ∀ child, child = 2 * i + 1 ∨ child = 2 * i + 2 → ∀ j ∈ rest, ¬ Meets child j := by
    rintro child which j member ⟨k, under, also⟩
    exact others j member ⟨k, (below child which k under).1, also⟩
  refine ⟨unexplored.sound_pop, ⟨?_, ?_, ?_, ?_, fits⟩, ?_, ?_⟩
  · -- One more node waits below the left child, which is one level further down.
    rw [level_left, List.length_cons]
    omega
  · rw [level_left]
    omega
  · rw [level_right]
    omega
  · rw [level_right]
    omega
  · -- The children are apart from each other, and from the others as their parent was.
    refine List.pairwise_cons.mpr ⟨fun j member => ?_, List.pairwise_cons.mpr
      ⟨away _ (.inr rfl), dropped.apart⟩⟩
    cases member with
    | head => exact fun ⟨k, first, second⟩ => Under.disjoint_children first second
    | tail _ member => exact away _ (.inl rfl) j member
  · intro j member
    cases member with
    | head => exact unseen _ (.inl rfl)
    | tail _ member =>
      cases member with
      | head => exact unseen _ (.inr rfl)
      | tail _ member => exact dropped.fresh j member

end Unexplored

section Runs

variable {memory : Memory} {log : List Access}

theorem run_metaAtTraced {i : Nat} {state : BlockState} (found : memory.states[i]? = some state) :
    (metaAtTraced i).run ⟨memory, log⟩ = .ok state ⟨memory, log ++ [.node i]⟩ :=
  (metaAtTraced_erases i).run_ok (.bind (.note _) fun _ => .lift _) (run_metaAt found)

theorem run_setMetaTraced {i : Nat} (inside : i < memory.states.length) (state : BlockState) :
    (setMetaTraced i state).run ⟨memory, log⟩ =
      .ok () ⟨memory.withStates (memory.states.set i state), log ++ [.node i]⟩ :=
  (setMetaTraced_erases i state).run_ok (.bind (.note _) fun _ => .lift _) (run_setMeta inside state)

theorem run_popTraced {sp : Int} {i : Nat} {pending : List Nat}
    (holds : memory.Pending sp (i :: pending)) :
    (popTraced sp).run ⟨memory, log⟩ = .ok i ⟨memory, log ++ [.stack sp] ++ [.popped i]⟩ := by
  unfold popTraced
  have read := Traced.run_lift_ok ⟨memory, log ++ [.stack sp]⟩ holds.run_stackAt
  simp only [EStateM.run_bind, Traced.run_note, read, EStateM.run_pure]

/-- A note of an entry of the stack is all that is logged when a node is put there. -/
theorem setStackTraced_appends (sp : Int) (i : Nat) :
    Traced.Appends [.stack sp] (setStackTraced sp i) := .bind (.note _) fun _ => .lift _

theorem run_setStackTraced {sp : Int} {i : Nat} {after : Memory}
    (ran : (setStack sp i).run memory = .ok () after) :
    (setStackTraced sp i).run ⟨memory, log⟩ = .ok () ⟨after, log ++ [.stack sp]⟩ :=
  (setStackTraced_erases sp i).run_ok (setStackTraced_appends sp i) ran

/-- Both children become pending, in two entries next to each other. -/
theorem run_pushChildrenTraced (log : List Access) {sp : Int} {i : Nat} {pending : List Nat}
    (holds : memory.Pending sp pending) (small : i < 2 ^ 20)
    (room : pending.length + 1 < memory.buddyStack.elems.length) (profile : Profile) :
    ∃ stack, stack.length = memory.buddyStack.elems.length ∧
      (pushChildrenTraced profile sp i).run ⟨memory, log⟩ =
        .ok (sp + 2) ⟨memory.withStack stack, log ++ [.stack (sp + 1)] ++ [.stack (sp + 2)]⟩ ∧
      (memory.withStack stack).Pending (sp + 2) ((2 * i + 1) :: (2 * i + 2) :: pending) := by
  obtain ⟨stack, length, ran, pushed⟩ := run_pushChildren holds (by omega : i < 2 ^ 30) room profile
  refine ⟨stack, length, ?_, pushed⟩
  -- The arithmetic logs nothing, so that the notes are those of the two writes.
  have appends : Traced.Appends [.stack (sp + 1), .stack (sp + 2)]
      (pushChildrenTraced profile sp i) :=
    .plain _ fun twice => .plain _ fun right => .bind (setStackTraced_appends _ _) fun _ =>
      .plain _ fun left => .bind (setStackTraced_appends _ _) fun _ => .pure _
  rw [List.append_assoc]
  exact (pushChildrenTraced_erases profile sp i).run_ok appends ran

/-- One turn of the search with notes pops the next node and looks at its level. -/
theorem allocLoopTraced_pop {sp : Int} {i : Nat} {pending : List Nat}
    (holds : memory.Pending sp (i :: pending)) (small : i < 2 ^ 20)
    (profile : Profile) (n reqOrder fuel : Nat) :
    (allocLoopTraced profile n reqOrder (fuel + 1) sp).run ⟨memory, log⟩ =
      (if reqOrder = level i then do
        if (← metaAtTraced i) = .free then
          setMetaTraced i .allocated
          let addr ← Traced.lift (blockAddr profile i (level i))
          return .ok ⟨addr, some n⟩
        else allocLoopTraced profile n reqOrder fuel (sp - 1)
      else do
        match ← metaAtTraced i with
        | .free =>
          setMetaTraced i .split
          let sp ← pushChildrenTraced profile (sp - 1) i
          allocLoopTraced profile n reqOrder fuel sp
        | .allocated => allocLoopTraced profile n reqOrder fuel (sp - 1)
        | .split =>
          let sp ← pushChildrenTraced profile (sp - 1) i
          allocLoopTraced profile n reqOrder fuel sp : Exec Fault Logged _).run
        ⟨memory, log ++ [.stack sp] ++ [.popped i]⟩ := by
  -- A pending node keeps the stack pointer from being negative.
  have pointer := holds.pointer
  have busy : ¬ sp < 0 := by omega
  have limit : wordLimit = 4294967296 := rfl
  have order : findOrder i = level i := findOrder_index (by omega)
  conv => lhs; unfold allocLoopTraced
  rw [if_neg busy, ← order]
  exact Exec.run_bind_of_ok (run_popTraced holds)

end Runs

/-- However far the search gets, its log is sound. -/
theorem allocLoopTraced_sound {memory : Memory} {depth reqOrder : Nat} {pending : List Nat}
    {log : List Access} {sp : Int} (shape : memory.Shape depth) (inside : reqOrder ≤ depth)
    (profile : Profile) (n fuel : Nat) (holds : memory.Pending sp pending)
    (unexplored : Unexplored depth reqOrder pending log) :
    Sound depth
      (Traced.final ((allocLoopTraced profile n reqOrder fuel sp).run ⟨memory, log⟩)).log := by
  -- Induction on the turns, with the pending nodes unexplored before each of them.
  induction fuel generalizing memory sp pending log with
  | zero => exact unexplored.sound
  | succ fuel ih =>
    cases pending with
    -- With nothing pending, the search ends and makes no further note.
    | nil =>
      unfold allocLoopTraced
      rw [if_pos holds.drained]
      exact unexplored.sound
    | cons i rest =>
      obtain ⟨room, shallow, _⟩ := unexplored.fits
      have pointer := holds.pointer
      have small := shape.index_small (i := i) (by omega)
      have index := shape.index_lt (i := i) (by omega)
      have stackLength := shape.stack
      -- Popping uses the entry at the stack pointer.
      have noted := unexplored.stack (by omega : 0 ≤ sp ∧ sp < (depth : Int) + 1)
      obtain ⟨state, found⟩ : ∃ state, memory.states[i]? = some state :=
        ⟨_, List.getElem?_eq_getElem index⟩
      rw [allocLoopTraced_pop holds small]
      by_cases here : reqOrder = level i
      · -- A node of the requested level is taken or passed by.
        rw [if_pos here]
        have looked := noted.drop.node (by omega : level i ≤ depth)
        simp only [EStateM.run_bind, run_metaAtTraced found]
        by_cases free : state = .free
        · have shaped := shape.withStates (memory.states.set i .allocated) (by simp)
          rw [if_pos free]
          simp only [EStateM.run_bind, run_setMetaTraced index]
          rw [Traced.run_lift_ok _ (run_blockAddr shaped.located (by omega : level i ≤ depth) profile)]
          exact (looked.node (by omega : level i ≤ depth)).sound
        · rw [if_neg free]
          exact ih shape holds.pop looked
      · -- A node above it is replaced by its children, unless it is in use.
        rw [if_neg here]
        have expanded := noted.expand (by omega)
        simp only [EStateM.run_bind, run_metaAtTraced found]
        -- There is room for the children, since each level adds one pending node only.
        have push : ∀ {memory : Memory} {log : List Access}, memory.Shape depth →
            memory.Pending (sp - 1) rest →
            Unexplored depth reqOrder ((2 * i + 1) :: (2 * i + 2) :: rest) log →
            Sound depth (Traced.final ((do
              let sp ← pushChildrenTraced profile (sp - 1) i
              allocLoopTraced profile n reqOrder fuel sp : Exec Fault Logged _).run
                ⟨memory, log⟩)).log := by
          intro memory log shape holds unexplored
          have stackLength := shape.stack
          obtain ⟨stack, length, ran, pushed⟩ := run_pushChildrenTraced log holds small
            (by omega) profile
          simp only [EStateM.run_bind, ran]
          exact ih (shape.withStack stack length) pushed
            ((unexplored.stack (by omega)).stack (by omega))
        cases state with
        | free =>
          simp only [EStateM.run_bind, run_setMetaTraced index]
          have looked := (expanded.node (by omega : level i ≤ depth)).node
            (by omega : level i ≤ depth)
          exact push (shape.withStates (memory.states.set i .split) (by simp))
            (holds.pop.withStates _) looked
        | allocated => exact ih shape holds.pop (noted.drop.node (by omega : level i ≤ depth))
        | split => exact push shape holds.pop (expanded.node (by omega : level i ≤ depth))

/-- The smallest order is that of a page. -/
theorem PowerArena.low {profile : Profile} {ramStart ramEnd : Nat} {boot : Memory}
    (arena : PowerArena profile ramStart ramEnd boot) : boot.buddyLowOrder = 12 := by
  obtain ⟨_, _, _, built⟩ := arena.built
  obtain ⟨_, _, _, _, rfl, _⟩ := new_ok arena.ordered arena.word arena.page built
  rfl

/-- The log of an allocation that the arena can hold is sound. -/
theorem buddyAllocTraced_sound {memory : Memory} {depth n : Nat} (shape : memory.Shape depth)
    (positive : 0 < n) (fits : n ≤ memory.memSize) (profile : Profile) :
    Sound depth (Traced.final ((buddyAllocTraced profile n).run ⟨memory, []⟩)).log := by
  -- The requested level is one of the tree.
  obtain ⟨order, request, chosen⟩ := exists_request shape fits
  have shallow := shape.shallow
  have inside := request.inside
  have page := request.page
  have stackLength := shape.stack
  have top : depth + 12 < wordLimit := by unfold wordLimit usizeBits; omega
  have word : order < usizeBits := by unfold usizeBits; omega
  have first : ((0 : Int)).toNat < memory.buddyStack.elems.length := by
    simp only [Int.toNat_zero]
    omega
  have holds := pending_root first
  have read : (Traced.lift get : Exec Fault Logged Memory).run ⟨memory, []⟩ =
      .ok memory ⟨memory, []⟩ := rfl
  -- Before the search, only the root is noted as it is pushed.
  have start : (buddyAllocTraced profile n).run ⟨memory, []⟩ =
      (allocLoopTraced profile (2 ^ order) (depth + 12 - order) (memory.buddyNodeCount + 2) 0).run
        ⟨memory.withStack (memory.buddyStack.elems.set 0 0), [.stack 0]⟩ := by
    unfold buddyAllocTraced
    simp only [EStateM.run_bind, read, if_neg (by omega : ¬ memory.memSize < n),
      if_neg (by omega : ¬ n = 0), chosen, expect, findOrder_two_pow (by omega) word, shape.high,
      profile.sub_eq inside top, Traced.lift_pure, EStateM.run_pure,
      run_setStackTraced (run_setStack first 0), Int.toNat_zero, List.nil_append]
  rw [start]
  -- The root alone is pending, and nothing was popped.
  have unexplored : Unexplored depth (depth + 12 - order) [0] [.stack 0] := by
    refine ⟨⟨fun access member => ?_, List.nodup_nil⟩, ⟨?_, ?_, trivial⟩,
      List.pairwise_singleton _ 0, fun _ _ _ _ => List.not_mem_nil⟩
    · rw [List.mem_singleton.mp member]
      exact ⟨Int.le_refl 0, by omega⟩
    · exact Nat.zero_le _
    · rw [level_zero]
      exact Nat.zero_le _
  exact allocLoopTraced_sound (shape.withStack _ (by simp)) (by omega) profile (2 ^ order) _ holds
    unexplored

/--
The search of an allocation ends within its fixed stack, whatever the node states are.

It returns, uses only entries of the stack and of the node states that exist, and pops no node
twice. The notes are those of the allocation itself, which does the same without them.
-/
theorem buddyAlloc_bounded {profile : Profile} {ramStart ramEnd : Nat} {boot : Memory}
    (arena : PowerArena profile ramStart ramEnd boot) {states : List BlockState} {stack : List Nat}
    (nodes : states.length = boot.buddyNodeCount)
    (entries : stack.length = boot.buddyHighOrder - boot.buddyLowOrder + 1) {n : Nat}
    (positive : 0 < n) (fits : n ≤ boot.memSize) :
    ∃ result after log,
      (buddyAlloc profile n).run ((boot.withStates states).withStack stack) = .ok result after ∧
      (buddyAllocTraced profile n).run ⟨(boot.withStates states).withStack stack, []⟩ =
        .ok result ⟨after, log⟩ ∧
      (∀ index : Int, .stack index ∈ log →
        0 ≤ index ∧ index < (boot.buddyHighOrder - boot.buddyLowOrder + 1 : Nat)) ∧
      (∀ index, .node index ∈ log → index < boot.buddyNodeCount) ∧
      (poppedNodes log).Nodup := by
  obtain ⟨depth, bootShape, _, _⟩ := arena.shape
  have low := arena.low
  have high := bootShape.high
  have count := bootShape.nodes
  -- Other states and another stack of the same lengths leave the tree a tree.
  have shape : ((boot.withStates states).withStack stack).Shape depth := by
    refine (bootShape.withStates states ?_).withStack stack ?_
    · rw [nodes, count, bootShape.states]
    · rw [entries, high, low]
      exact (by omega : depth + 12 - 12 + 1 = depth + 1).trans bootShape.stack.symm
  have held : n ≤ ((boot.withStates states).withStack stack).memSize := fits
  have sound := buddyAllocTraced_sound shape positive held profile
  have same := buddyAllocTraced_erases profile n ⟨(boot.withStates states).withStack stack, []⟩
  -- The search returns, and forgetting the notes of the logged one gives the same outcome.
  obtain ⟨result, after, ran⟩ : ∃ result after,
      (buddyAlloc profile n).run ((boot.withStates states).withStack stack) = .ok result after := by
    obtain ⟨order, _, last, _, ran⟩ := run_buddyAlloc_dfs shape positive held profile
    rw [ran]
    cases dfs (depth + 12 - order) 0 ((boot.withStates states).withStack stack).states with
    | mk found left =>
      cases found with
      | some found => exact ⟨_, _, rfl⟩
      | none => exact ⟨_, _, rfl⟩
  rw [ran] at same
  refine ⟨result, after, ?_⟩
  cases logged : (buddyAllocTraced profile n).run ⟨(boot.withStates states).withStack stack, []⟩ with
  -- The logged search cannot halt where the search itself returns.
  | error fault traced =>
    rw [logged] at same
    exact absurd same nofun
  | ok value traced =>
    rw [logged] at same sound
    simp only [Traced.forget, EStateM.Result.ok.injEq] at same
    obtain ⟨rfl, rfl⟩ := same
    refine ⟨traced.log, ran, rfl, fun index member => ?_, fun index member => ?_, sound.once⟩
    · -- The stack has as many entries as the tree has levels.
      have inside : 0 ≤ index ∧ index < depth + 1 := sound.inside _ member
      rw [high, low]
      omega
    · rw [count]
      exact sound.inside (.node index) member

/-- With every node marked as split, which no run leaves behind, the search still ends. -/
theorem buddyAlloc_bounded_split :
    ∃ result after log,
      (buddyAlloc .dev 1).run (twoPages [.split, .split, .split] [7, 7]) = .ok result after ∧
      (buddyAllocTraced .dev 1).run ⟨twoPages [.split, .split, .split] [7, 7], []⟩ =
        .ok result ⟨after, log⟩ ∧
      (∀ index : Int, .stack index ∈ log → 0 ≤ index ∧ index < (13 - 12 + 1 : Nat)) ∧
      (∀ index, .node index ∈ log → index < 3) ∧ (poppedNodes log).Nodup := by
  -- Every node is split, though no block is in use, and the stack holds what fits no node.
  have nodes : [BlockState.split, .split, .split].length =
      (twoPages [.free, .free, .free] [0, 0]).buddyNodeCount := rfl
  have entries : [7, 7].length = (twoPages [.free, .free, .free] [0, 0]).buddyHighOrder -
      (twoPages [.free, .free, .free] [0, 0]).buddyLowOrder + 1 := rfl
  have positive : 0 < 1 := by decide
  exact buddyAlloc_bounded twoPages_arena nodes entries positive (by decide)

end Os1k.Memory
