import Os1k.Mem.Reachable

/-! Arenas whose size is not a power of two: what of them the tree manages, and what goes wrong. -/

namespace Os1k.Memory

open Implicit

/-- The allocator that `Memory::new` builds over any number of pages. -/
structure PageArena (profile : Profile) (ramStart ramEnd : Nat) (memory : Memory) : Prop where
  ordered : ramStart ≤ ramEnd
  word : ramEnd < wordLimit
  built : ∃ allocMemStart allocMemEnd written,
    (new profile (some ramStart) (some ramEnd) (some allocMemStart) (some allocMemEnd)).run []
      = .ok memory written
  aligned : ramStart % pageSize = 0
  pages : ∃ count, 0 < count ∧ ramEnd - ramStart = count * pageSize

/-- What an arena has beyond the part that its tree manages. -/
structure Beyond where
  memSize : Nat
  nodeCount : Nat
  stop : PhysAddr
  /-- The states that no node of the tree has. -/
  spare : List BlockState

/-- An allocator of a full tree, with what lies beyond. -/
def widen (beyond : Beyond) (memory : Memory) : Memory :=
  { memory with
    memSize := beyond.memSize
    buddyNodeCount := beyond.nodeCount
    stop := beyond.stop
    buddyMeta := { memory.buddyMeta with elems := memory.states ++ beyond.spare } }

section Widen

open Exec

variable {beyond : Beyond}

theorem metaAt_widen (i : Nat) : Carries (widen beyond) (metaAt i) (metaAt i) := by
  intro memory state after ran
  -- A node that the tree does not have cannot be read there.
  cases found : memory.states[i]? with
  | none =>
    rw [run_metaAt_past (List.getElem?_eq_none_iff.mp found)] at ran
    exact absurd ran nofun
  | some held =>
    rw [run_metaAt found, EStateM.Result.ok.injEq] at ran
    obtain ⟨rfl, rfl⟩ := ran
    -- The nodes of the tree come first.
    have inside := (List.getElem?_eq_some_iff.mp found).1
    refine run_metaAt ?_
    exact (List.getElem?_append_left inside).trans found

theorem setMeta_widen (i : Nat) (state : BlockState) :
    Carries (widen beyond) (setMeta i state) (setMeta i state) := by
  intro memory value after ran
  -- Writing a state of the tree leaves those behind the tree.
  by_cases inside : i < memory.states.length
  · rw [run_setMeta inside, EStateM.Result.ok.injEq] at ran
    obtain ⟨rfl, rfl⟩ := ran
    have wider : i < (widen beyond memory).states.length := by
      show i < (memory.states ++ beyond.spare).length
      rw [List.length_append]
      omega
    rw [run_setMeta wider]
    have split : (memory.states ++ beyond.spare).set i state =
        memory.states.set i state ++ beyond.spare := List.set_append_left _ _ inside
    show EStateM.Result.ok _ ((widen beyond memory).withStates
      ((memory.states ++ beyond.spare).set i state)) = _
    rw [split]
    rfl
  · have past : ¬ i < memory.buddyMeta.elems.length := inside
    simp [setMeta, Slice.assign, past] at ran

theorem stackAt_widen (sp : Int) : Carries (widen beyond) (stackAt sp) (stackAt sp) := by
  intro memory i after ran
  unfold stackAt Slice.index at *
  simp only [EStateM.run_bind, EStateM.run_get] at ran ⊢
  have same : (widen beyond memory).buddyStack = memory.buddyStack := rfl
  rw [same]
  -- Both have the same stack.
  cases found : memory.buddyStack.elems[sp.toNat]? with
  | none =>
    rw [found] at ran
    exact absurd ran nofun
  | some held =>
    rw [found] at ran
    simp only [EStateM.run_pure, EStateM.Result.ok.injEq] at ran ⊢
    exact ⟨ran.1, by rw [ran.2]⟩

theorem setStack_widen (sp : Int) (i : Nat) :
    Carries (widen beyond) (setStack sp i) (setStack sp i) := by
  intro memory value after ran
  -- A write past the end panics, and here the shorter stack did not.
  by_cases inside : sp.toNat < memory.buddyStack.elems.length
  · rw [run_setStack inside, EStateM.Result.ok.injEq] at ran
    obtain ⟨rfl, rfl⟩ := ran
    have same : sp.toNat < (widen beyond memory).buddyStack.elems.length := inside
    rw [run_setStack same]
    rfl
  · simp [setStack, Slice.assign, inside] at ran

/-- Word arithmetic does not look at the state. -/
theorem fit_widen (profile : Profile) (operator : Operator) (exact : Int) :
    Carries (widen beyond) (profile.fit operator exact) (profile.fit operator exact) := by
  cases profile with
  | release => exact .pure _
  | dev => exact .ite (.pure _) (.throw _ _)

theorem oneShl_widen (profile : Profile) (amount : Nat) :
    Carries (widen beyond) (profile.oneShl amount) (profile.oneShl amount) := by
  cases profile with
  | release => exact .pure _
  | dev => exact .ite (.pure _) (.throw _ _)

theorem pushChildren_widen (profile : Profile) (sp : Int) (i : Nat) :
    Carries (widen beyond) (pushChildren profile sp i) (pushChildren profile sp i) := by
  refine .bind (fit_widen _ _ _) fun twice => .bind (fit_widen _ _ _) fun right => ?_
  refine .bind (setStack_widen _ _) fun _ => .bind (fit_widen _ _ _) fun left => ?_
  exact .bind (setStack_widen _ _) fun _ => .pure _

theorem atLevel_widen (profile : Profile) (i level : Nat) :
    Carries (widen beyond) (atLevel profile i level) (atLevel profile i level) :=
  .bind (fit_widen _ _ _) fun _ => .bind (fit_widen _ _ _) fun _ => fit_widen _ _ _

theorem blockAddr_widen (profile : Profile) (i level : Nat) :
    Carries (widen beyond) (blockAddr profile i level) (blockAddr profile i level) := by
  -- The order of the root and the start of the arena are those of the tree.
  refine .get fun memory => .bind (atLevel_widen profile i level) fun position => ?_
  refine .bind (fit_widen _ _ _) fun order => .bind (fit_widen _ _ _) fun size => ?_
  exact .bind (fit_widen _ _ _) fun offset => .pure _

/-- The search of the tree, for which more turns than it needs are no matter. -/
theorem allocLoop_widen (profile : Profile) (n reqOrder : Nat) {fuel more : Nat}
    (enough : fuel ≤ more) (sp : Int) :
    Carries (widen beyond) (allocLoop profile n reqOrder fuel sp)
      (allocLoop profile n reqOrder more sp) := by
  -- The search in the tree is followed turn by turn.
  induction fuel generalizing more sp with
  | zero => exact .throw _ _
  | succ fuel ih =>
    -- What is left of the turns is still enough.
    obtain ⟨rest, rfl⟩ : ∃ rest, more = rest + 1 := ⟨more - 1, by omega⟩
    have turn := fun sp => ih (by omega : fuel ≤ rest) sp
    unfold allocLoop
    refine .ite (.pure _) (.bind (stackAt_widen sp) fun i => .ite ?_ ?_)
    · refine .bind (metaAt_widen i) fun state => .ite ?_ (turn _)
      exact .bind (setMeta_widen i _) fun _ => .bind (blockAddr_widen profile i _) fun _ => .pure _
    · refine .bind (metaAt_widen i) fun state => ?_
      cases state with
      | free =>
        refine .bind (setMeta_widen i _) fun _ => ?_
        exact .bind (pushChildren_widen profile _ i) fun _ => turn _
      | allocated => exact turn _
      | split => exact .bind (pushChildren_widen profile _ i) fun _ => turn _

theorem buddyIndex_widen (profile : Profile) (iAtLevel level : Nat) :
    Carries (widen beyond) (buddyIndex profile iAtLevel level) (buddyIndex profile iAtLevel level) :=
  .bind (fit_widen _ _ _) fun _ => .bind (fit_widen _ _ _) fun _ => fit_widen _ _ _

/-- Merging happens inside the tree. -/
theorem mergeLoop_widen (profile : Profile) (fuel i buddyI level : Nat) :
    Carries (widen beyond) (mergeLoop profile fuel i buddyI level)
      (mergeLoop profile fuel i buddyI level) := by
  -- Both climb from the same node, and read the same states on the way.
  induction fuel generalizing i buddyI level with
  | zero => exact .throw _ _
  | succ fuel ih =>
    unfold mergeLoop
    refine .bind (metaAt_widen buddyI) fun state => .ite ?_ (.pure _)
    refine .bind (fit_widen _ _ _) fun less => .bind (metaAt_widen _) fun above => ?_
    -- After a merge, both are done or go on from the parent.
    have rest : ∀ done : Unit, Carries (widen beyond)
        (if less / 2 = 0 then pure ()
          else do
            let level ← profile.sub level 1
            let iAtLevel ← atLevel profile (less / 2) level
            let buddyI ← buddyIndex profile iAtLevel level
            mergeLoop profile fuel (less / 2) buddyI level)
        (if less / 2 = 0 then pure ()
          else do
            let level ← profile.sub level 1
            let iAtLevel ← atLevel profile (less / 2) level
            let buddyI ← buddyIndex profile iAtLevel level
            mergeLoop profile fuel (less / 2) buddyI level) := by
      intro _
      refine .ite (.pure _) (.bind (fit_widen _ _ _) fun level => ?_)
      refine .bind (atLevel_widen profile _ level) fun iAtLevel => ?_
      exact .bind (buddyIndex_widen profile iAtLevel level) fun buddyI => ih _ _ _
    exact .ite (.bind (setMeta_widen _ _) rest) (.bind (.throw _ _) rest)

/-- Giving a block back happens inside the tree. -/
theorem buddyFree_widen (profile : Profile) (addr : PhysAddr) :
    Carries (widen beyond) (buddyFree profile addr) (buddyFree profile addr) := by
  -- A block without a size is not given back at all.
  cases given : addr.size with
  | none =>
    unfold buddyFree
    rw [given]
    exact .pure _
  | some size =>
    unfold buddyFree
    rw [given]
    refine .get fun memory => .bind (fit_widen _ _ _) fun offset => ?_
    refine .bind (fit_widen _ _ _) fun level => ?_
    refine .ite (.bind (.throw _ _) fun _ => ?_) ?_
    all_goals
      refine .bind (oneShl_widen profile level) fun begin => .bind (fit_widen _ _ _) fun before => ?_
      refine .bind (fit_widen _ _ _) fun i => .bind (atLevel_widen profile i level) fun iAtLevel => ?_
      refine .bind (metaAt_widen i) fun state => ?_
      have rest : ∀ done : Unit, Carries (widen beyond)
          (do let buddyI ← buddyIndex profile iAtLevel level
              mergeLoop profile (2 * usizeBits) i buddyI level)
          (do let buddyI ← buddyIndex profile iAtLevel level
              mergeLoop profile (2 * usizeBits) i buddyI level) := fun _ =>
        .bind (buddyIndex_widen profile iAtLevel level) fun _ => mergeLoop_widen profile _ _ _ _
      exact .ite (.bind (setMeta_widen _ _) rest) (.bind (.throw _ _) rest)

/-- A request that the tree can hold is met as if there were nothing beyond. -/
theorem buddyAlloc_widen {profile : Profile} {memory after : Memory} {n : Nat}
    {result : Except MemError PhysAddr} (positive : 0 < n) (fits : n ≤ memory.memSize)
    (larger : memory.memSize ≤ beyond.memSize) (turns : memory.buddyNodeCount ≤ beyond.nodeCount)
    (ran : (buddyAlloc profile n).run memory = .ok result after) :
    (buddyAlloc profile n).run (widen beyond memory) = .ok result (widen beyond after) := by
  -- The request is rounded up without a look at the state.
  have expect_widen : ∀ size : Option Nat, Carries (widen beyond)
      (expect .hugeRequest size) (expect .hugeRequest size) := by
    intro size
    cases size with
    | none => exact .throw _ _
    | some size => exact .pure size
  -- The search has the order of the root, which is that of the tree.
  have search := fun order => expect_widen
    (nextPowerOfTwo usizeBits (if n < pageSize then pageSize else n)) |>.bind fun size =>
      (fit_widen profile .subtract (order - findOrder size)).bind fun reqOrder =>
        (setStack_widen 0 0).bind fun _ => allocLoop_widen profile size reqOrder
          (by omega : memory.buddyNodeCount + 2 ≤ beyond.nodeCount + 2) 0
  unfold buddyAlloc at ran ⊢
  rw [EStateM.run_bind, EStateM.run_get] at ran ⊢
  simp only [if_neg (by omega : ¬ memory.memSize < n), if_neg (by omega : ¬ n = 0)] at ran
  -- The first check compares with the whole arena, which is larger still.
  have wide : ¬ (widen beyond memory).memSize < n := by
    show ¬ beyond.memSize < n
    omega
  simp only [if_neg wide, if_neg (by omega : ¬ n = 0)]
  exact search memory.buddyHighOrder memory result after ran

end Widen

/-- What lies beyond a tree of the given depth: less than the tree, and unused. -/
structure Beyond.Fits (beyond : Beyond) (depth : Nat) : Prop where
  size_le : 2 ^ (depth + 12) ≤ beyond.memSize
  size_lt : beyond.memSize < 2 ^ (depth + 13)
  word : beyond.memSize < wordLimit
  nodes : 2 ^ (depth + 1) - 1 ≤ beyond.nodeCount
  unused : ∀ state ∈ beyond.spare, state = .free
  few : beyond.spare.length < 2 ^ (depth + 1)

/-- Children that were pushed are pending, and there was room for them. -/
theorem pushChildren_ok {memory after : Memory} {sp next : Int} {i : Nat} {pending : List Nat}
    {profile : Profile} (holds : memory.Pending sp pending) (small : i < 2 ^ 30)
    (ran : (pushChildren profile sp i).run memory = .ok next after) :
    ∃ stack, stack.length = memory.buddyStack.elems.length ∧ next = sp + 2 ∧
      after = memory.withStack stack ∧
      (memory.withStack stack).Pending (sp + 2) ((2 * i + 1) :: (2 * i + 2) :: pending) := by
  by_cases room : pending.length + 1 < memory.buddyStack.elems.length
  · obtain ⟨stack, length, pushed, now⟩ := run_pushChildren holds small room profile
    rw [ran, EStateM.Result.ok.injEq] at pushed
    exact ⟨stack, length, pushed.1, pushed.2, now⟩
  · -- The second entry would lie past the end of the stack.
    have write : ∀ {memory after : Memory} {sp : Int} {j : Nat} {done : Unit},
        (setStack sp j).run memory = .ok done after →
        sp.toNat < memory.buddyStack.elems.length ∧
          after.buddyStack.elems.length = memory.buddyStack.elems.length := by
      intro memory after sp j done wrote
      by_cases inside : sp.toNat < memory.buddyStack.elems.length
      · rw [run_setStack inside, EStateM.Result.ok.injEq] at wrote
        refine ⟨inside, ?_⟩
        rw [← wrote.2]
        simp [withStack]
      · simp [setStack, Slice.assign, inside] at wrote
    have pointer := holds.1
    have limit : wordLimit = 4294967296 := rfl
    unfold pushChildren at ran
    rw [profile.mul_eq (by omega), pure_bind, profile.add_eq (by omega), pure_bind,
      profile.add_eq (by omega), pure_bind] at ran
    -- Both writes went through, so that there was room for the second one.
    obtain ⟨_, middle, first, ran⟩ := Exec.run_bind_ok.mp ran
    obtain ⟨_, _, second, _⟩ := Exec.run_bind_ok.mp ran
    have inside := (write second).1
    rw [(write first).2] at inside
    omega

/-- A turn of a search that returns has popped the next node and found its state. -/
theorem allocLoop_ok {memory after : Memory} {sp : Int} {i fuel n reqOrder : Nat}
    {pending : List Nat} {profile : Profile} {result : Except MemError PhysAddr}
    (large : 32 < reqOrder) (short : memory.states.length < 2 ^ 30)
    (holds : memory.Pending sp (i :: pending))
    (ran : (allocLoop profile n reqOrder (fuel + 1) sp).run memory = .ok result after) :
    ∃ state, memory.states[i]? = some state ∧
      (match state with
        | .free => do
          setMeta i .split
          let sp ← pushChildren profile (sp - 1) i
          allocLoop profile n reqOrder fuel sp
        | .allocated => allocLoop profile n reqOrder fuel (sp - 1)
        | .split => do
          let sp ← pushChildren profile (sp - 1) i
          allocLoop profile n reqOrder fuel sp : Exec Fault Memory _).run memory =
        .ok result after := by
  have pointer := holds.pointer
  have busy : ¬ sp < 0 := by omega
  unfold allocLoop at ran
  simp only [if_neg busy, EStateM.run_bind, holds.run_stackAt] at ran
  -- The state of the node is looked up at every level.
  cases found : memory.states[i]? with
  | none =>
    have past := run_metaAt_past (List.getElem?_eq_none_iff.mp found)
    split at ran
    · simp only [EStateM.run_bind, past] at ran
      exact absurd ran nofun
    · simp only [EStateM.run_bind, past] at ran
      exact absurd ran nofun
  | some state =>
    have inside := (List.getElem?_eq_some_iff.mp found).1
    have limit : wordLimit = 4294967296 := rfl
    -- No node is on a level as deep as the one that is looked for.
    have never : ¬ reqOrder = findOrder i := by
      rw [findOrder_index (by omega)]
      have bound : level i ≤ 29 := level_le_of_lt (by omega)
      omega
    simp only [if_neg never, EStateM.run_bind, run_metaAt found] at ran
    refine ⟨state, rfl, ?_⟩
    cases state with
    | free => exact ran
    | allocated => exact ran
    | split => exact ran

/--
A search for a level that the tree does not have never gets past a free node.

It follows the left children, all of them free, until there is no node or no room left.
-/
theorem allocLoop_free_halts {memory : Memory} {sp : Int} {i fuel n reqOrder : Nat}
    {pending : List Nat} {profile : Profile} (large : 32 < reqOrder)
    (short : memory.states.length < 2 ^ 30) (holds : memory.Pending sp (i :: pending))
    (chain : ∀ down state, memory.states[(i + 1) * 2 ^ down - 1]? = some state → state = .free)
    (result : Except MemError PhysAddr) (after : Memory) :
    (allocLoop profile n reqOrder fuel sp).run memory ≠ .ok result after := by
  -- Each turn goes one node further down the chain, and the turns run out.
  induction fuel generalizing memory sp i pending with
  | zero => exact nofun
  | succ fuel ih =>
    intro ran
    obtain ⟨state, found, ran⟩ := allocLoop_ok large short holds ran
    have inside := (List.getElem?_eq_some_iff.mp found).1
    have free : state = .free := chain 0 state (by simpa using found)
    subst free
    simp only [EStateM.run_bind, run_setMeta inside] at ran
    obtain ⟨next, middle, pushed, ran⟩ := Exec.run_bind_ok.mp ran
    obtain ⟨stack, length, rfl, rfl, now⟩ := pushChildren_ok (holds.pop.withStates _)
      (by omega : i < 2 ^ 30) pushed
    -- The left child starts the rest of the chain, in which the node itself does not occur.
    refine ih (by simpa using short) now (fun down state there => chain (down + 1) state ?_) ran
    have lower : (2 * i + 1 + 1) * 2 ^ down = (i + 1) * 2 ^ (down + 1) := by
      rw [Nat.pow_succ]
      ring
    have deeper : i + 1 < (i + 1) * 2 ^ (down + 1) := by
      have grows : 2 ≤ 2 ^ (down + 1) := Nat.le_self_pow (by omega) 2
      nlinarith
    rw [lower] at there
    rw [← there]
    simp only [withStack_states, withStates_states]
    exact (List.getElem?_set_ne (by omega)).symm

/-- A search for a level that the tree does not have can only fail, and then changes no state. -/
theorem allocLoop_deep {memory after : Memory} {sp : Int} {fuel n reqOrder : Nat}
    {pending : List Nat} {profile : Profile} {result : Except MemError PhysAddr}
    (large : 32 < reqOrder) (short : memory.states.length < 2 ^ 30)
    (holds : memory.Pending sp pending)
    (chains : ∀ i, memory.states[i]? = some .free →
      ∀ down state, memory.states[(i + 1) * 2 ^ down - 1]? = some state → state = .free)
    (ran : (allocLoop profile n reqOrder fuel sp).run memory = .ok result after) :
    result = .error .outOfMemory ∧ ∃ stack,
      stack.length = memory.buddyStack.elems.length ∧ after = memory.withStack stack := by
  -- No node is taken, so the search can only come to an end with nothing pending.
  induction fuel generalizing memory sp pending with
  | zero => exact absurd ran nofun
  | succ fuel ih =>
    cases pending with
    | nil =>
      unfold allocLoop at ran
      rw [if_pos holds.drained, EStateM.run_pure, EStateM.Result.ok.injEq] at ran
      exact ⟨ran.1.symm, _, rfl, ran.2.symm⟩
    | cons i rest =>
      obtain ⟨state, found, next⟩ := allocLoop_ok large short holds ran
      have inside := (List.getElem?_eq_some_iff.mp found).1
      cases state with
      | free =>
        -- A free node would have been the end of it.
        exact absurd ran (allocLoop_free_halts large short holds (chains i found) result after)
      | allocated => exact ih short holds.pop chains next
      | split =>
        obtain ⟨_, _, pushed, next⟩ := Exec.run_bind_ok.mp next
        obtain ⟨stack, length, rfl, rfl, now⟩ := pushChildren_ok holds.pop (by omega) pushed
        have still : (memory.withStack stack).states.length < 2 ^ 30 := short
        obtain ⟨failed, last, same, rfl⟩ := ih still now chains next
        exact ⟨failed, last, same.trans length, rfl⟩

section Ragged

variable {profile : Profile} {memory : Memory} {beyond : Beyond} {depth : Nat} {live : Set Nat}

/-- The nodes of the tree and those beyond are few. -/
theorem Beyond.Fits.short (fits : beyond.Fits depth) (shape : memory.Shape depth) :
    (widen beyond memory).states.length < 2 ^ 30 := by
  have shallow := shape.shallow
  have few := fits.few
  -- A tree of at most twenty levels has fewer than a million nodes.
  have grows : 2 ^ (depth + 1) ≤ 2 ^ 20 := Nat.pow_le_pow_right (by omega) (by omega)
  show (memory.states ++ beyond.spare).length < 2 ^ 30
  rw [List.length_append, shape.states]
  omega

/-- Below a free node there are only free nodes, in the tree and beyond. -/
theorem Beyond.Fits.chains (fits : beyond.Fits depth) (shape : memory.Shape depth)
    (canonical : memory.Canonical depth live) {i : Nat}
    (free : (widen beyond memory).states[i]? = some .free) (down : Nat) {state : BlockState}
    (found : (widen beyond memory).states[(i + 1) * 2 ^ down - 1]? = some state) :
    state = .free := by
  have positive : 0 < 2 ^ down := Nat.two_pow_pos down
  have enough : i + 1 ≤ (i + 1) * 2 ^ down := Nat.le_mul_of_pos_right _ positive
  generalize target : (i + 1) * 2 ^ down - 1 = j at found
  -- Going left from a node stays below it.
  have under : Under i j := by
    refine ⟨down, ?_⟩
    rw [← target, Nat.sub_add_cancel (by omega), Nat.mul_div_cancel _ positive]
  have free : (memory.states ++ beyond.spare)[i]? = some .free := free
  have found : (memory.states ++ beyond.spare)[j]? = some state := found
  -- In the tree, what is below a free node is free.
  by_cases inside : j < memory.states.length
  · rw [List.getElem?_append_left inside, canonical j (shape.level_le inside),
      Option.some.injEq] at found
    have above : i < memory.states.length := by
      have earlier := under.le
      omega
    rw [List.getElem?_append_left above, canonical i (shape.level_le above),
      Option.some.injEq, label_eq_free] at free
    rw [← found]
    exact label_eq_free.mpr fun ⟨k, member, lower⟩ => free ⟨k, member, under.trans lower⟩
  · -- Behind the tree, every state is the one that boot filled in.
    rw [List.getElem?_append_right (by omega)] at found
    exact fits.unused state (List.mem_of_getElem? found)

/-- A request larger than the root is rounded up to twice the root, if a word can hold that. -/
theorem nextPowerOfTwo_large {n : Nat} (fits : beyond.Fits depth) (large : 2 ^ (depth + 12) < n)
    (asked : n ≤ beyond.memSize) :
    (if n < pageSize then pageSize else n) = n ∧
      (nextPowerOfTwo usizeBits n = none ∨
        depth + 13 ≤ 31 ∧ nextPowerOfTwo usizeBits n = some (2 ^ (depth + 13))) := by
  have page : pageSize = 2 ^ 12 := rfl
  have smallest : 2 ^ 12 ≤ 2 ^ (depth + 12) := Nat.pow_le_pow_right (by omega) (by omega)
  have size := fits.size_lt
  refine ⟨if_neg (by omega), ?_⟩
  -- Above the largest power of two of a word, rounding up fails.
  by_cases word : n ≤ 2 ^ 31
  · -- Otherwise the next power of two is the one after the root.
    obtain ⟨order, small, chosen, covers, tight⟩ := nextPowerOfTwo_spec wordWidth_usize (by omega : 0 < n) word
    have low : depth + 12 < order := (Nat.pow_lt_pow_iff_right (by omega : 1 < 2)).mp (by omega)
    have high : order < depth + 14 := by
      refine (Nat.pow_lt_pow_iff_right (by omega : 1 < 2)).mp ?_
      rw [Nat.pow_succ 2 (depth + 13)]
      omega
    have exact : order = depth + 13 := by omega
    rw [exact] at small chosen
    exact .inr ⟨small, chosen⟩
  · exact .inl (nextPowerOfTwo_none wordWidth_usize (Nat.not_le.mp word))

/--
A request between the size of the root and that of the arena underflows.

The build that checks for it stops there.
-/
theorem run_buddyAlloc_underflow {n : Nat} (fits : beyond.Fits depth) (shape : memory.Shape depth)
    (large : 2 ^ (depth + 12) < n) (asked : n ≤ beyond.memSize) :
    ∃ fault, (buddyAlloc .dev n).run (widen beyond memory) = .error fault (widen beyond memory) := by
  obtain ⟨size, rounded⟩ := nextPowerOfTwo_large fits large asked
  have positive : ¬ n = 0 := Nat.ne_zero_of_lt large
  have small : ¬ (widen beyond memory).memSize < n := by
    show ¬ beyond.memSize < n
    omega
  have high : (widen beyond memory).buddyHighOrder = depth + 12 := shape.high
  unfold buddyAlloc
  simp only [EStateM.run_bind, EStateM.run_get, if_neg small, if_neg positive, size]
  -- Either rounding up panics, or the order of the result is larger than that of the root.
  rcases rounded with huge | ⟨word, double⟩
  · exact ⟨.hugeRequest, by rw [huge]; rfl⟩
  · have order : findOrder (2 ^ (depth + 13)) = depth + 13 :=
      findOrder_two_pow (by omega) (by unfold usizeBits; omega)
    have checked : (Profile.dev.sub (depth + 12) (depth + 13) : Exec Fault Memory Nat) =
        throw (.overflow .subtract) := by
      simp only [Profile.sub, Profile.fit]
      rw [if_neg (by omega)]
    refine ⟨.overflow .subtract, ?_⟩
    simp only [double, expect, EStateM.run_pure, order, high, checked, Exec.run_throw]

/-- Where such a request returns all the same, it reports a failure and changes no state. -/
theorem run_buddyAlloc_large {n : Nat} {result : Except MemError PhysAddr} {after : Memory}
    (fits : beyond.Fits depth) (shape : memory.Shape depth) (canonical : memory.Canonical depth live)
    (large : 2 ^ (depth + 12) < n) (asked : n ≤ beyond.memSize)
    (ran : (buddyAlloc profile n).run (widen beyond memory) = .ok result after) :
    result = .error .outOfMemory ∧ ∃ stack, stack.length = memory.buddyStack.elems.length ∧
      after = (widen beyond memory).withStack stack := by
  cases profile with
  | dev =>
    obtain ⟨fault, halted⟩ := run_buddyAlloc_underflow fits shape large asked
    rw [ran] at halted
    exact absurd halted nofun
  | release =>
    obtain ⟨size, rounded⟩ := nextPowerOfTwo_large fits large asked
    have positive : ¬ n = 0 := Nat.ne_zero_of_lt large
    have small : ¬ (widen beyond memory).memSize < n := by
      show ¬ beyond.memSize < n
      omega
    have high : (widen beyond memory).buddyHighOrder = depth + 12 := shape.high
    unfold buddyAlloc at ran
    simp only [EStateM.run_bind, EStateM.run_get, if_neg small, if_neg positive,
      size] at ran
    -- Rounding up panics in this build as well.
    rcases rounded with huge | ⟨word, double⟩
    · rw [huge] at ran
      exact absurd ran nofun
    · have order : findOrder (2 ^ (depth + 13)) = depth + 13 :=
        findOrder_two_pow (by omega) (by unfold usizeBits; omega)
      -- The level that is looked for wraps around to the largest word.
      have wrapped : (Profile.release.sub (depth + 12) (depth + 13) : Exec Fault Memory Nat) =
          pure 4294967295 := by
        have below : ((depth + 12 : Nat) : Int) - ((depth + 13 : Nat) : Int) = -1 := by omega
        rw [Profile.sub, below]
        rfl
      have first : ((0 : Int)).toNat < (widen beyond memory).buddyStack.elems.length := by
        have length := shape.stack
        show 0 < memory.buddyStack.elems.length
        omega
      simp only [double, expect, EStateM.run_pure, order, high, wrapped, run_setStack first,
        Int.toNat_zero] at ran
      have holds : ((widen beyond memory).withStack
          ((widen beyond memory).buddyStack.elems.set 0 0)).Pending 0 [0] := pending_root first
      have short : ((widen beyond memory).withStack
          ((widen beyond memory).buddyStack.elems.set 0 0)).states.length < 2 ^ 30 :=
        fits.short shape
      -- No level is that deep, so the search cannot find anything.
      obtain ⟨failed, stack, length, rfl⟩ := allocLoop_deep (by decide : 32 < 4294967295) short
        holds (fun i free down state found => fits.chains shape canonical free down found) ran
      exact ⟨failed, stack, by simpa [withStack, widen] using length, rfl⟩

/-- The block of the root cannot be given back, whatever lies beyond. -/
theorem run_buddyFree_root_widen (profile : Profile) (fits : beyond.Fits depth)
    (shape : memory.Shape depth) (canonical : memory.Canonical depth live) (apart : Apart live)
    (member : 0 ∈ live) :
    ∃ fault after, (buddyFree profile (memory.nodeBlock 0)).run (widen beyond memory) =
      .error fault after := by
  have located : (widen beyond memory).Located depth :=
    ⟨shape.shallow, shape.high, shape.located.fits⟩
  have root : 0 < memory.states.length := shape.index_lt (by simp)
  refine run_buddyFree_zero located ?_ (fun state found => ?_) (fits.short shape) profile
  · show (memory.states ++ beyond.spare)[0]? = some .allocated
    rw [List.getElem?_append_left root, canonical 0 (by simp), label_eq_allocated.mpr member]
  · -- The first child of the root is free, be it of the tree or behind it.
    have found : (memory.states ++ beyond.spare)[1]? = some state := found
    by_cases inside : 1 < memory.states.length
    · rw [List.getElem?_append_left inside,
        canonical.below_root apart member (by omega) (shape.level_le inside),
        Option.some.injEq] at found
      exact found.symm
    · rw [List.getElem?_append_right (by omega)] at found
      exact fits.unused state (List.mem_of_getElem? found)

end Ragged

/-- The size of the largest block that the tree of an arena can represent. -/
def rootSize (ramStart ramEnd : Nat) : Nat := 2 ^ Nat.log2 (ramEnd - ramStart)

/-- The tree of an arena of pages, and what lies beyond it. -/
theorem PageArena.split {profile : Profile} {ramStart ramEnd : Nat} {boot : Memory}
    (arena : PageArena profile ramStart ramEnd boot) :
    ∃ depth beyond small, rootSize ramStart ramEnd = 2 ^ (depth + 12) ∧ beyond.Fits depth ∧
      beyond.memSize = ramEnd - ramStart ∧ small.Shape depth ∧ small.Canonical depth ∅ ∧
      boot = widen beyond small := by
  have page : pageSize = 4096 := rfl
  have limit : wordLimit = 2 ^ 32 := rfl
  obtain ⟨metaAddr, _, _, built⟩ := arena.built
  obtain ⟨count, positive, size⟩ := arena.pages
  rw [page] at size
  have word := arena.word
  have ordered := arena.ordered
  have pages : (ramEnd - ramStart) % pageSize = 0 := by
    rw [size, page]
    exact Nat.mul_mod_left count 4096
  -- Boot makes two nodes for each page, less one.
  have nodes : nodesFor (ramEnd - ramStart) = 2 * count - 1 := by
    rw [nodesFor, size, page, Nat.mul_div_cancel _ (by omega)]
  obtain ⟨stackAddr, _, _, _, rfl, _⟩ := new_ok ordered word (by omega) built
  -- The order is that of the size rounded down to a power of two.
  have order := findOrder_pages (by omega : 0 < ramEnd - ramStart) pages
  have low := (findOrder_bounds (by omega : pageSize ≤ ramEnd - ramStart) (by omega)).1
  have leaves := findOrder_leaves (by omega) pages
  obtain ⟨depth, exact⟩ := Nat.exists_eq_add_of_le' low
  rw [exact, Nat.add_sub_cancel, size, page, Nat.mul_div_cancel _ (by omega)] at leaves
  -- The tree has a leaf for each page up to a power of two.
  have double : 2 ^ (depth + 1) = 2 * 2 ^ depth := by rw [Nat.pow_succ, Nat.mul_comm]
  have first : 2 ^ (depth + 12) = 2 ^ depth * 4096 := Nat.pow_add 2 depth 12
  have second : 2 ^ (depth + 13) = 2 ^ (depth + 1) * 4096 := Nat.pow_add 2 (depth + 1) 12
  have short : depth + 12 < 32 := (Nat.pow_lt_pow_iff_right (by omega : 1 < 2)).mp (by omega)
  -- The tree is what a smaller arena would have, and the rest of the states is behind it.
  refine ⟨depth, ⟨ramEnd - ramStart, nodesFor (ramEnd - ramStart), ⟨ramEnd, none⟩,
      List.replicate (2 * count - 1 - (2 ^ (depth + 1) - 1)) .free⟩,
    { laidOut ramStart ramEnd metaAddr stackAddr with
      memSize := 2 ^ (depth + 12)
      buddyNodeCount := 2 ^ (depth + 1) - 1
      stop := ⟨ramStart + 2 ^ (depth + 12), none⟩
      buddyMeta := ⟨metaAddr, List.replicate (2 ^ (depth + 1) - 1) .free⟩ },
    ?_, ⟨?_, ?_, ?_, ?_, ?_, ?_⟩, rfl, ⟨?_, ?_, rfl, rfl, ?_, ?_, rfl, ?_⟩, ?_, ?_⟩
  · rw [rootSize, ← order, exact]
  · show 2 ^ (depth + 12) ≤ ramEnd - ramStart
    omega
  · show ramEnd - ramStart < 2 ^ (depth + 13)
    omega
  · show ramEnd - ramStart < wordLimit
    omega
  · show 2 ^ (depth + 1) - 1 ≤ nodesFor (ramEnd - ramStart)
    omega
  · exact fun state member => List.eq_of_mem_replicate member
  · show (List.replicate _ _).length < 2 ^ (depth + 1)
    rw [List.length_replicate]
    omega
  · omega
  · exact exact
  · exact List.length_replicate
  · simp [laidOut, exact]
  · show ramStart + 2 ^ (depth + 12) < wordLimit
    omega
  · -- At boot, every node of the tree is free.
    intro j inside
    have vacant : label ∅ j = .free := label_eq_free.mpr (by simp [Occupied])
    rw [vacant]
    exact List.getElem?_replicate_of_lt (lt_of_level_le inside)
  · -- Together the two parts have the states that boot filled in.
    have total : 2 ^ (depth + 1) - 1 + (2 * count - 1 - (2 ^ (depth + 1) - 1)) =
        nodesFor (ramEnd - ramStart) := by omega
    have together : List.replicate (2 ^ (depth + 1) - 1) BlockState.free ++
        List.replicate (2 * count - 1 - (2 ^ (depth + 1) - 1)) .free =
        List.replicate (nodesFor (ramEnd - ramStart)) .free := by
      rw [List.replicate_append_replicate, total]
    simp only [widen, Memory.states, together]
    rfl

section Checked

open Exec

/-- A result that the checking build returns is the result in either build. -/
theorem fit_checked (profile : Profile) (operator : Operator) (exact : Int) :
    Carries id (Profile.dev.fit operator exact : Exec Fault Memory Nat)
      (profile.fit operator exact) := by
  -- A result that fits a word is not changed by either build.
  by_cases inside : 0 ≤ exact ∧ exact < wordLimit
  · rw [Profile.fit_eq .dev operator inside.1 inside.2, profile.fit_eq operator inside.1 inside.2]
    exact .refl _
  · have checked : (Profile.dev.fit operator exact : Exec Fault Memory Nat) =
        throw (.overflow operator) := if_neg inside
    rw [checked]
    exact .throw _ _

theorem pushChildren_checked (profile : Profile) (sp : Int) (i : Nat) :
    Carries id (pushChildren .dev sp i) (pushChildren profile sp i) := by
  refine .bind (fit_checked _ _ _) fun twice => .bind (fit_checked _ _ _) fun right => ?_
  refine .bind (.refl _) fun _ => .bind (fit_checked _ _ _) fun left => ?_
  exact .bind (.refl _) fun _ => .pure _

theorem blockAddr_checked (profile : Profile) (i level : Nat) :
    Carries id (blockAddr .dev i level) (blockAddr profile i level) := by
  -- Where the checked arithmetic returns, the wrapping one returns the same.
  have position : Carries id (atLevel .dev i level) (atLevel profile i level) :=
    .bind (fit_checked _ _ _) fun _ => .bind (fit_checked _ _ _) fun _ => fit_checked _ _ _
  refine .get fun memory => .bind position fun _ => .bind (fit_checked _ _ _) fun _ => ?_
  exact .bind (fit_checked _ _ _) fun _ => .bind (fit_checked _ _ _) fun _ => .pure _

theorem allocLoop_checked (profile : Profile) (n reqOrder fuel : Nat) (sp : Int) :
    Carries id (allocLoop .dev n reqOrder fuel sp) (allocLoop profile n reqOrder fuel sp) := by
  -- The builds differ in their arithmetic only.
  induction fuel generalizing sp with
  | zero => exact .throw _ _
  | succ fuel ih =>
    unfold allocLoop
    refine .ite (.pure _) (.bind (.refl _) fun i => .ite ?_ ?_)
    · refine .bind (.refl _) fun state => .ite ?_ (ih _)
      exact .bind (.refl _) fun _ => .bind (blockAddr_checked profile i _) fun _ => .pure _
    · refine .bind (.refl _) fun state => ?_
      cases state with
      | free =>
        exact .bind (.refl _) fun _ => .bind (pushChildren_checked profile _ i) fun _ => ih _
      | allocated => exact ih _
      | split => exact .bind (pushChildren_checked profile _ i) fun _ => ih _

/-- An allocation in which nothing overflows is the same in either build. -/
theorem buddyAlloc_checked (profile : Profile) (n : Nat) :
    Carries id (buddyAlloc .dev n) (buddyAlloc profile n) := by
  refine .get fun memory => .ite (.pure _) (.ite (.pure _) ?_)
  refine .bind (.refl _) fun size => .bind (fit_checked _ _ _) fun order => ?_
  exact .bind (.refl _) fun _ => allocLoop_checked profile _ _ _ _

end Checked

section Runs

variable {profile : Profile} {boot small memory after : Memory} {beyond : Beyond} {depth : Nat}
  {live : List LiveBlock}

/-- What is in use once a request has returned. -/
def inUse (n : Nat) (live : List LiveBlock) : Except MemError PhysAddr → List LiveBlock
  | .ok block => ⟨n, block⟩ :: live
  | .error _ => live

/-- Requests up to the root, and requests for more than the arena, are dealt with as they should. -/
theorem run_buddyAlloc_widen (fits : beyond.Fits depth) (invariant : Invariant small depth live)
    {n : Nat} (good : n ≤ 2 ^ (depth + 12) ∨ beyond.memSize < n) (profile : Profile) :
    ∃ result next, (buddyAlloc profile n).run (widen beyond small) =
        .ok result (widen beyond next) ∧
      next.start = small.start ∧ Invariant next depth (inUse n live result) ∧
      (2 ^ (depth + 12) < n → result = .error .outOfMemory) := by
  have size := invariant.shape.size
  have larger := fits.size_le
  have positive : 0 < 2 ^ (depth + 12) := Nat.two_pow_pos _
  by_cases bad : n = 0 ∨ beyond.memSize < n
  · -- Nothing is touched, and only a request for too much can be larger than the root.
    have same : (widen beyond small).memSize = beyond.memSize := rfl
    by_cases large : beyond.memSize < n
    · refine ⟨.error .outOfMemory, small, ?_, rfl, invariant, fun _ => rfl⟩
      unfold buddyAlloc
      rw [EStateM.run_bind, EStateM.run_get]
      simp only [same, if_pos large, EStateM.run_pure]
    · have zero : n = 0 := bad.resolve_right large
      refine ⟨.error .zeroSize, small, ?_, rfl, invariant, fun above => by omega⟩
      unfold buddyAlloc
      rw [EStateM.run_bind, EStateM.run_get]
      simp only [same, if_neg large, if_pos zero, EStateM.run_pure]
  · -- A request that the tree can hold is dealt with as in the tree alone.
    have asked : n ≤ 2 ^ (depth + 12) := by omega
    obtain ⟨order, request, spec⟩ := run_buddyAlloc invariant.shape invariant.canonical
      (by omega : 0 < n) (by omega) profile
    have above : ¬ 2 ^ (depth + 12) < n := by omega
    have nodes : small.buddyNodeCount ≤ beyond.nodeCount := by
      rw [invariant.shape.nodes]
      exact fits.nodes
    -- The tree alone never panics, and what it does is carried over.
    cases ran : (buddyAlloc profile n).run small with
    | error fault halted =>
      rw [ran] at spec
      exact absurd spec nofun
    | ok result next =>
      have carried := buddyAlloc_widen (by omega) (by omega) (by omega) nodes ran
      refine ⟨result, next, carried, ?_⟩
      cases result with
      | ok block =>
        obtain ⟨start, kept⟩ := invariant.run_alloc ran
        exact ⟨start, kept, fun large => absurd large above⟩
      | error error =>
        obtain ⟨start, _, kept⟩ := invariant.run_refused ran
        exact ⟨start, kept, fun large => absurd large above⟩

/-- A request that returns leaves a tree that satisfies the invariant, however large it was. -/
theorem inUse_of_run (fits : beyond.Fits depth) (invariant : Invariant small depth live) {n : Nat}
    {result : Except MemError PhysAddr}
    (ran : (buddyAlloc profile n).run (widen beyond small) = .ok result after) :
    ∃ next, after = widen beyond next ∧ next.start = small.start ∧
      Invariant next depth (inUse n live result) := by
  by_cases good : n ≤ 2 ^ (depth + 12) ∨ beyond.memSize < n
  · obtain ⟨found, next, returned, start, kept, _⟩ :=
      run_buddyAlloc_widen fits invariant good profile
    rw [ran, EStateM.Result.ok.injEq] at returned
    obtain ⟨rfl, rfl⟩ := returned
    exact ⟨next, rfl, start, kept⟩
  · -- In between, a search that returned has found nothing and left the states.
    obtain ⟨rfl, stack, length, rfl⟩ := run_buddyAlloc_large fits invariant.shape
      invariant.canonical (by omega) (by omega) ran
    refine ⟨small.withStack stack, rfl, rfl, ?_⟩
    exact invariant.congr (invariant.shape.withStack stack length) rfl rfl

/-- A block in use that is given back leaves a tree that satisfies the invariant. -/
theorem erased_of_run (fits : beyond.Fits depth) (invariant : Invariant small depth live)
    {used : LiveBlock} (member : used ∈ live)
    (ran : (buddyFree profile used.block).run (widen beyond small) = .ok () after) :
    ∃ next, after = widen beyond next ∧ next.start = small.start ∧
      Invariant next depth (live.erase used) := by
  by_cases whole : used.block.size = some small.memSize
  · -- A free that returned was not a free of the root.
    obtain ⟨i, inside, block, _⟩ := invariant.node used member
    have root : i = 0 := by
      by_contra nonroot
      have less := (root_iff_size invariant.shape inside).mpr (Nat.pos_of_ne_zero nonroot)
      rw [block] at whole
      simp only [nodeBlock, invariant.shape.high, Option.some.injEq] at whole
      omega
    subst root
    obtain ⟨fault, halted, stopped⟩ := run_buddyFree_root_widen profile fits
      invariant.shape invariant.canonical invariant.apart
      (Invariant.mem_liveNodes member inside block)
    rw [← block, ran] at stopped
    simp only [reduceCtorEq] at stopped
  · obtain ⟨states, returned, kept⟩ := invariant.run_free profile member whole
    have carried : (buddyFree profile used.block).run (widen beyond small) =
        .ok () (widen beyond (small.withStates states)) :=
      buddyFree_widen profile used.block _ _ _ returned
    rw [ran, EStateM.Result.ok.injEq] at carried
    exact ⟨small.withStates states, carried.2, rfl, kept⟩

/-- In every run the tree satisfies the invariant, and what lies beyond it is never touched. -/
theorem Reach.widen (fits : beyond.Fits depth) (shape : small.Shape depth)
    (canonical : small.Canonical depth ∅)
    (reach : Reach profile (Memory.widen beyond small) memory live) :
    ∃ tree, memory = Memory.widen beyond tree ∧ tree.start = small.start ∧
      Invariant tree depth live := by
  -- The tree goes through a run of its own.
  induction reach with
  -- Boot leaves the tree with nothing in use.
  | boot => exact ⟨small, rfl, rfl, Invariant.boot shape canonical⟩
  | alloc _ ran ih =>
    obtain ⟨tree, rfl, start, invariant⟩ := ih
    obtain ⟨next, rfl, same, kept⟩ := inUse_of_run fits invariant ran
    exact ⟨next, rfl, same.trans start, kept⟩
  | refused _ ran ih =>
    obtain ⟨tree, rfl, start, invariant⟩ := ih
    obtain ⟨next, rfl, same, kept⟩ := inUse_of_run fits invariant ran
    exact ⟨next, rfl, same.trans start, kept⟩
  | free _ member ran ih =>
    obtain ⟨tree, rfl, start, invariant⟩ := ih
    obtain ⟨next, rfl, same, kept⟩ := erased_of_run fits invariant member ran
    exact ⟨next, rfl, same.trans start, kept⟩

end Runs

/--
The allocator of an arena of any number of pages deals with a request exactly when it should.

Requests up to the root and requests for more than the arena return, and nothing overflows: the
build that checks for overflow returns the same. Between the two, the level underflows.
-/
theorem buddyAlloc_pages_iff {profile : Profile} {ramStart ramEnd : Nat} {boot memory : Memory}
    {live : List LiveBlock} (arena : PageArena profile ramStart ramEnd boot)
    (reach : Reach profile boot memory live) (n : Nat) :
    (∃ result after, (buddyAlloc profile n).run memory = .ok result after ∧
      (buddyAlloc .dev n).run memory = .ok result after ∧
      (rootSize ramStart ramEnd < n → result = .error .outOfMemory)) ↔
    n ≤ rootSize ramStart ramEnd ∨ ramEnd - ramStart < n := by
  -- In every run, the allocator is a tree with something behind it.
  obtain ⟨depth, beyond, small, root, fits, size, shape, canonical, rfl⟩ := arena.split
  obtain ⟨tree, rfl, _, invariant⟩ := reach.widen fits shape canonical
  rw [root, ← size]
  constructor
  · -- In between, the build that checks would have stopped.
    rintro ⟨result, after, _, checked, _⟩
    by_contra bad
    obtain ⟨fault, halted⟩ := run_buddyAlloc_underflow fits invariant.shape
      (by omega : 2 ^ (depth + 12) < n) (by omega)
    rw [checked] at halted
    exact absurd halted nofun
  · -- What the checking build returns is what either build returns.
    intro good
    obtain ⟨result, next, checked, _, _, large⟩ := run_buddyAlloc_widen fits invariant good .dev
    exact ⟨result, _, buddyAlloc_checked profile n _ _ _ checked, checked, large⟩

/-- The allocator of an arena of three pages, with the given node states and search stack. -/
def threePages (states : List BlockState) (stack : List Nat) : Memory where
  start := ⟨0x80000000, none⟩
  stop := ⟨0x80003000, none⟩
  memSize := 0x3000
  buddyNodeCount := 5
  buddyHighOrder := 13
  buddyLowOrder := 12
  buddyStackSize := 20
  buddyStack := { addr := 0x70001000, elems := stack }
  buddyMeta := { addr := 0x70000000, elems := states }

/-- Boot builds the allocator of three pages. -/
theorem threePages_arena (profile : Profile) : PageArena profile 0x80000000 0x80003000
    (threePages [.free, .free, .free, .free, .free] [0, 0]) where
  ordered := by decide
  word := by decide
  built := by
    cases profile with
    | dev => exact ⟨0x70000000, 0x70080000, _, rfl⟩
    | release => exact ⟨0x70000000, 0x70080000, _, rfl⟩
  aligned := by decide
  pages := ⟨3, by decide, by decide⟩

/-- Of three pages, two are handed out. -/
theorem buddyAlloc_pages_two :
    ∃ result after, (buddyAlloc .dev 0x2000).run
      (threePages [.free, .free, .free, .free, .free] [0, 0]) = .ok result after := by
  obtain ⟨result, after, ran, _⟩ := (buddyAlloc_pages_iff (threePages_arena .dev) .boot 0x2000).mpr
    (.inl (by decide))
  exact ⟨result, after, ran⟩

/-- A request for all three pages, which is to be refused, panics in both builds. -/
theorem buddyAlloc_pages_three :
    PageArena .dev 0x80000000 0x80003000 (threePages [.free, .free, .free, .free, .free] [0, 0]) ∧
    Reach .dev (threePages [.free, .free, .free, .free, .free] [0, 0])
      (threePages [.free, .free, .free, .free, .free] [0, 0]) [] ∧
    rootSize 0x80000000 0x80003000 < 0x3000 ∧
    (buddyAlloc .dev 0x3000).run (threePages [.free, .free, .free, .free, .free] [0, 0]) =
      .error (.overflow .subtract) (threePages [.free, .free, .free, .free, .free] [0, 0]) ∧
    (buddyAlloc .release 0x3000).run (threePages [.free, .free, .free, .free, .free] [0, 0]) =
      .error (.sliceIndex 2 2) (threePages [.split, .split, .free, .free, .free] [2, 4]) := by
  refine ⟨threePages_arena .dev, .boot, by decide, ?_, ?_⟩
  · rfl
  · rfl

end Os1k.Memory
