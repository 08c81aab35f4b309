import Os1k.Lib.Implicit
import Os1k.Mem.Rounding

/-! The full tree a power-of-two arena is managed by, and what each access to it does. -/

namespace Os1k

open Implicit

/-- On node indices, the order of an index is its level in the tree. -/
theorem findOrder_index {i : Nat} (small : i < wordLimit - 1) : findOrder i = level i := by
  -- Only the largest word is treated apart, and no node has that index.
  unfold findOrder level
  rw [if_neg (by omega)]

/-- The order of a power of two is its exponent. -/
theorem findOrder_two_pow {order : Nat} (positive : 0 < order) (fits : order < usizeBits) :
    findOrder (2 ^ order) = order := by
  have bound : 2 ^ order < wordLimit := Nat.pow_lt_pow_right (by omega) fits
  have even : 2 ^ order % 2 = 0 := by
    obtain ⟨below, rfl⟩ := Nat.exists_eq_add_of_lt positive
    rw [Nat.pow_succ]
    omega
  unfold findOrder
  -- The largest word is odd, so the power takes the general branch.
  rw [if_neg (by unfold wordLimit usizeBits at *; omega)]
  -- Adding one to a positive even number stays below the next power of two.
  refine (Nat.log2_eq_iff (by omega)).mpr ⟨by omega, ?_⟩
  have : 2 ≤ 2 ^ order := Nat.le_self_pow (by omega) 2
  rw [Nat.pow_succ]
  omega

/-- The trailing zeros of a power of two count its exponent. -/
theorem trailingZeros_two_pow {bits order : Nat} (fits : order < bits) :
    Memory.trailingZeros bits (2 ^ order) = order := by
  induction bits generalizing order with
  | zero => omega
  | succ bits ih =>
    cases order with
    | zero => simp [Memory.trailingZeros]
    | succ order =>
      -- One halving removes one factor of two and one trailing zero.
      have even : 2 ^ (order + 1) % 2 = 0 := by rw [Nat.pow_succ]; omega
      have half : 2 ^ (order + 1) / 2 = 2 ^ order := by rw [Nat.pow_succ]; omega
      simp [Memory.trailingZeros, even, half, ih (by omega : order < bits)]

namespace Memory

/-- The states of all nodes. -/
def states (memory : Memory) : List BlockState := memory.buddyMeta.elems

/-- The same allocator with other node states. -/
def withStates (memory : Memory) (states : List BlockState) : Memory :=
  { memory with buddyMeta := { memory.buddyMeta with elems := states } }

/-- The same allocator with another search stack. -/
def withStack (memory : Memory) (stack : List Nat) : Memory :=
  { memory with buddyStack := { memory.buddyStack with elems := stack } }

@[simp] theorem withStates_states (memory : Memory) (states : List BlockState) :
    (memory.withStates states).states = states := rfl

@[simp] theorem withStack_states (memory : Memory) (stack : List Nat) :
    (memory.withStack stack).states = memory.states := rfl

@[simp] theorem withStates_self (memory : Memory) : memory.withStates memory.states = memory := rfl

@[simp] theorem withStates_twice (memory : Memory) (first second : List BlockState) :
    (memory.withStates first).withStates second = memory.withStates second := rfl

@[simp] theorem withStack_twice (memory : Memory) (first second : List Nat) :
    (memory.withStack first).withStack second = memory.withStack second := rfl

/--
The allocator manages a full tree of the given depth.

The root block is the whole arena, and the blocks of the last level are single pages.
-/
structure Shape (memory : Memory) (depth : Nat) : Prop where
  shallow : depth ≤ 19
  high : memory.buddyHighOrder = depth + 12
  size : memory.memSize = 2 ^ (depth + 12)
  nodes : memory.buddyNodeCount = 2 ^ (depth + 1) - 1
  states : memory.states.length = 2 ^ (depth + 1) - 1
  stack : memory.buddyStack.elems.length = depth + 1
  stop : memory.stop.addr = memory.start.addr + 2 ^ (depth + 12)
  fits : memory.stop.addr < wordLimit

/-- What the addresses of blocks depend on: where the arena starts and how large its tree is. -/
structure Located (memory : Memory) (depth : Nat) : Prop where
  shallow : depth ≤ 19
  high : memory.buddyHighOrder = depth + 12
  fits : memory.start.addr + 2 ^ (depth + 12) ≤ wordLimit

/-- Node indices stay far below the word limit. -/
theorem Located.index_small {memory : Memory} {depth i : Nat} (located : memory.Located depth)
    (inside : level i ≤ depth) : i < 2 ^ 20 := by
  have bound := lt_of_level_le inside
  have shallow := located.shallow
  -- The arena fits 32 bits and a page has 12, which leaves at most 20 levels.
  have grows : 2 ^ (depth + 1) ≤ 2 ^ 20 := Nat.pow_le_pow_right (by omega) (by omega)
  omega

namespace Shape

variable {memory : Memory} {depth : Nat}

/-- A full tree has its place. -/
theorem located (shape : memory.Shape depth) : memory.Located depth :=
  ⟨shape.shallow, shape.high, shape.stop ▸ Nat.le_of_lt shape.fits⟩

/-- Node indices stay far below the word limit. -/
theorem index_small (shape : memory.Shape depth) {i : Nat} (inside : level i ≤ depth) :
    i < 2 ^ 20 := shape.located.index_small inside

/-- Changing node states keeps the shape. -/
theorem withStates (shape : memory.Shape depth) (states : List BlockState)
    (length : states.length = memory.states.length) : (memory.withStates states).Shape depth :=
  { shape with states := length.trans shape.states }

/-- Changing the search stack keeps the shape. -/
theorem withStack (shape : memory.Shape depth) (stack : List Nat)
    (length : stack.length = memory.buddyStack.elems.length) :
    (memory.withStack stack).Shape depth :=
  { shape with stack := length.trans shape.stack }

/-- Every node down to the last level has a state. -/
theorem index_lt (shape : memory.Shape depth) {i : Nat} (inside : level i ≤ depth) :
    i < memory.states.length := by
  rw [shape.states]
  exact lt_of_level_le inside

/-- Only the nodes of the tree have a state. -/
theorem level_le (shape : memory.Shape depth) {i : Nat} (inside : i < memory.states.length) :
    level i ≤ depth := by
  rw [shape.states] at inside
  exact level_le_of_lt inside

end Shape

/-- Reading a node of the tree returns its state and changes nothing. -/
theorem run_metaAt {memory : Memory} {i : Nat} {state : BlockState}
    (found : memory.states[i]? = some state) :
    (metaAt i).run memory = .ok state memory := by
  have found : memory.buddyMeta.elems[i]? = some state := found
  simp [metaAt, Slice.index, found]

/-- Reading past the last node panics. -/
theorem run_metaAt_past {memory : Memory} {i : Nat} (past : memory.states.length ≤ i) :
    (metaAt i).run memory = .error (.sliceIndex i memory.states.length) memory := by
  have found : memory.buddyMeta.elems[i]? = none := List.getElem?_eq_none past
  simp [metaAt, Slice.index, found, Memory.states]

/-- Writing a node of the tree changes that node's state. -/
theorem run_setMeta {memory : Memory} {i : Nat} (inside : i < memory.states.length)
    (state : BlockState) :
    (setMeta i state).run memory = .ok () (memory.withStates (memory.states.set i state)) := by
  have inside : i < memory.buddyMeta.elems.length := inside
  simp [setMeta, Slice.assign, inside, Memory.withStates, Memory.states]

/-- Writing past the last node panics. -/
theorem run_setMeta_past {memory : Memory} {i : Nat} (past : memory.states.length ≤ i)
    (state : BlockState) :
    (setMeta i state).run memory = .error (.sliceIndex i memory.states.length) memory := by
  have outside : ¬ i < memory.buddyMeta.elems.length := Nat.not_lt.mpr past
  simp [setMeta, Slice.assign, outside, Memory.states]

/-- Writing below the top of the stack memory changes that entry. -/
theorem run_setStack {memory : Memory} {sp : Int}
    (inside : sp.toNat < memory.buddyStack.elems.length) (i : Nat) :
    (setStack sp i).run memory =
      .ok () (memory.withStack (memory.buddyStack.elems.set sp.toNat i)) := by
  simp [setStack, Slice.assign, inside, Memory.withStack]

/-- Writing above the stack memory panics. -/
theorem run_setStack_past {memory : Memory} {sp : Int}
    (past : memory.buddyStack.elems.length ≤ sp.toNat) (i : Nat) :
    (setStack sp i).run memory =
      .error (.sliceIndex sp.toNat memory.buddyStack.elems.length) memory := by
  simp [setStack, Slice.assign, Nat.not_lt.mpr past]

/-- The address of the block that a node stands for. -/
def nodeAddr (memory : Memory) (i : Nat) : Nat :=
  memory.start.addr + slot i * 2 ^ (memory.buddyHighOrder - level i)

/-- The block that a node stands for, as the allocator hands it out. -/
def nodeBlock (memory : Memory) (i : Nat) : PhysAddr :=
  ⟨memory.nodeAddr i, some (2 ^ (memory.buddyHighOrder - level i))⟩

/-- The position of a node within its level is computed without overflow. -/
theorem run_atLevel {memory : Memory} {i : Nat} (small : i < 2 ^ 20) (profile : Profile) :
    (atLevel profile i (level i)).run memory = .ok (slot i) memory := by
  -- The first node of a level has a number one below a power of two.
  have bounds := level_bounds i
  have short : level i < usizeBits := by
    by_contra deep
    have : 2 ^ usizeBits ≤ 2 ^ level i := Nat.pow_le_pow_right (by omega) (by omega)
    unfold usizeBits at this
    omega
  have limit : wordLimit = 4294967296 := rfl
  unfold atLevel
  rw [profile.add_eq (by omega), profile.twoPow_eq short]
  simp only [pure_bind]
  rw [profile.sub_eq (by omega) (by omega)]
  simp only [EStateM.run_pure, slot]
  congr 1
  omega

/-- The block of a node starts inside the address space. -/
theorem Located.nodeAddr_lt {memory : Memory} {depth i : Nat} (located : memory.Located depth)
    (inside : level i ≤ depth) :
    slot i * 2 ^ (depth + 12 - level i) < wordLimit ∧
      memory.start.addr + slot i * 2 ^ (depth + 12 - level i) < wordLimit := by
  -- The block starts inside the arena, and the arena ends inside the address space.
  have first := (covers_first (by omega : level i ≤ depth + 12)).1
  have fits := located.fits
  omega

/-- The address of a node's block is computed without overflow. -/
theorem run_blockAddr {memory : Memory} {depth i : Nat} (located : memory.Located depth)
    (inside : level i ≤ depth) (profile : Profile) :
    (blockAddr profile i (level i)).run memory = .ok (memory.nodeAddr i) memory := by
  -- Each step of the computation stays inside the arena, or below its size.
  have shallow := located.shallow
  have order : depth + 12 - level i < usizeBits := by unfold usizeBits; omega
  have top : depth + 12 < wordLimit := by unfold wordLimit usizeBits; omega
  obtain ⟨offset, address⟩ := located.nodeAddr_lt inside
  unfold blockAddr
  simp only [EStateM.run_bind, EStateM.run_get, run_atLevel (located.index_small inside) profile,
    located.high, profile.sub_eq (by omega : level i ≤ depth + 12) top, profile.twoPow_eq order,
    profile.mul_eq offset, EStateM.run_pure, pointerAdd_eq address, nodeAddr]

end Memory

end Os1k
