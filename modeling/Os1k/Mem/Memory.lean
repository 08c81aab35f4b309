import Os1k.Rust.Usize

/-! The physical memory allocator of `mem.rs`: its bootstrap, and the buddy tree it keeps. -/

namespace Os1k

/-- The size of a page, and of the smallest block. -/
def pageSize : Nat := 4096

/-- A physical address, with the size of its block when the allocator handed it out. -/
structure PhysAddr where
  addr : Nat
  size : Option Nat
  deriving DecidableEq, Repr

/-- A run of bytes, given by its first address and its length. -/
structure ByteRange where
  first : Nat
  length : Nat
  deriving DecidableEq, Repr

/-- A slice carved out of raw memory: where it starts and what it holds. -/
structure Slice (α : Type) where
  addr : Nat
  elems : List α
  deriving Repr

namespace Slice

variable {α σ : Type}

/-- Read one element, or panic outside the slice. -/
def index (slice : Slice α) (i : Nat) : Exec Fault σ α :=
  match slice.elems[i]? with
  | some value => pure value
  | none => throw (.sliceIndex i slice.elems.length)

/-- Overwrite one element, or panic outside the slice. -/
def assign (slice : Slice α) (i : Nat) (value : α) : Exec Fault σ (Slice α) :=
  if i < slice.elems.length then pure { slice with elems := slice.elems.set i value }
  else throw (.sliceIndex i slice.elems.length)

/-- Reading an element does not depend on the others. -/
theorem index_set (slice : Slice α) {i k : Nat} (other : k ≠ i) (value : α) :
    ({ slice with elems := slice.elems.set k value }.index i : Exec Fault σ α) = slice.index i := by
  simp only [index, List.getElem?_set_ne other, List.length_set]

end Slice

/-- The value of an option, or the fault its `expect` reports. -/
def expect {σ α : Type} (fault : Fault) : Option α → Exec Fault σ α
  | some value => pure value
  | none => throw fault

/-- The allocator that supplies the buddy allocator's own memory. -/
structure InitialAlloc where
  start : Nat
  stop : Nat
  next : Nat
  deriving DecidableEq, Repr

/-- Record that a run of bytes was overwritten. -/
def writeBytes (first length : Nat) : Exec Fault (List ByteRange) Unit :=
  modify (⟨first, length⟩ :: ·)

/-- Take over a reserved region, zeroing it. -/
def InitialAlloc.new (start stop : Nat) : Exec Fault (List ByteRange) InitialAlloc := do
  -- The pointer difference is signed, and its conversion to a length wraps.
  writeBytes start (((stop : Int) - start) % wordLimit).toNat
  return { start, stop, next := start }

/-- Hand out the next pages of the reserved region. -/
def InitialAlloc.pageAlloc (profile : Profile) (alloc : InitialAlloc) (n : Nat) :
    Exec Fault (List ByteRange) (PhysAddr × InitialAlloc) := do
  let size ← profile.mul n pageSize
  let addr := alloc.next
  let top ← profile.add addr size
  if top ≤ alloc.stop then
    let next ← profile.add alloc.next size
    return (⟨addr, some size⟩, { alloc with next })
  else throw (.initialAlloc .outOfMemory)

/-- The state of one block of the buddy tree. -/
inductive BlockState where
  | free
  | allocated
  | split
  deriving DecidableEq, Repr

/-- The level of a node, or the order of a block size. -/
def findOrder (n : Nat) : Nat :=
  if n = wordLimit - 1 then usizeBits else Nat.log2 (n + 1)

/--
The least power of two that is at least `n`, if a word of `bits` bits holds it.

The last shift is compiled in for words of 64 bits only.
-/
def nextPowerOfTwo (bits n : Nat) : Option Nat :=
  if n = 0 then some 1
  else if (2 ^ bits - 1) / 2 + 1 < n then none
  else
    let x := n - 1
    let x := x ||| x >>> 1
    let x := x ||| x >>> 2
    let x := x ||| x >>> 4
    let x := x ||| x >>> 8
    let x := x ||| x >>> 16
    let x := if bits = 64 then x ||| x >>> 32 else x
    some (x + 1)

/-- The buddy allocator. -/
structure Memory where
  start : PhysAddr
  stop : PhysAddr
  memSize : Nat
  buddyNodeCount : Nat
  buddyHighOrder : Nat
  buddyLowOrder : Nat
  buddyStackSize : Nat
  buddyStack : Slice Nat
  buddyMeta : Slice BlockState
  deriving Repr

/-- The quotient rounded up. -/
def divCeil (a b : Nat) : Nat := if a % b = 0 then a / b else a / b + 1

namespace Memory

/-- Build the allocator for a RAM range, with its own data in the reserved region. -/
def new (profile : Profile) (ramStart ramEnd allocMemStart allocMemEnd : Option Nat) :
    Exec Fault (List ByteRange) Memory := do
  let allocMemStart ← expect .noAllocMemStart allocMemStart
  let allocMemEnd ← expect .noAllocMemEnd allocMemEnd
  let scAlloc ← InitialAlloc.new allocMemStart allocMemEnd
  let start ← expect .noRamStart ramStart
  let stop ← expect .noRamEnd ramEnd
  let memSize ← profile.sub stop start
  -- Initialize metadata memory, one byte for each node.
  let twice ← profile.mul 2 (memSize / pageSize)
  let buddyNodeCount ← profile.sub twice 1
  let buddyMetaSize ← profile.mul buddyNodeCount 1
  let (metaAddr, scAlloc) ← scAlloc.pageAlloc profile (divCeil buddyMetaSize pageSize)
  writeBytes metaAddr.addr buddyNodeCount
  let buddyMeta := { addr := metaAddr.addr, elems := List.replicate buddyNodeCount .free }
  -- Initialize stack memory for the search on metadata, in words of four bytes.
  let buddyHighOrder := findOrder memSize
  let buddyLowOrder := findOrder pageSize
  let orders ← profile.sub buddyHighOrder buddyLowOrder
  let buddyStackLen ← profile.add orders 1
  let buddyStackSize ← profile.mul buddyMetaSize 4
  let (stackAddr, _) ← scAlloc.pageAlloc profile (divCeil buddyStackSize pageSize)
  writeBytes stackAddr.addr (4 * buddyMetaSize)
  let buddyStack := { addr := stackAddr.addr, elems := List.replicate buddyStackLen 0 }
  return {
    start := ⟨start, none⟩
    stop := ⟨stop, none⟩
    memSize
    buddyNodeCount
    buddyHighOrder
    buddyLowOrder
    buddyStackSize
    buddyStack
    buddyMeta }

/-- Read the state of a node. -/
def metaAt (i : Nat) : Exec Fault Memory BlockState := do
  (← get).buddyMeta.index i

/-- Change the state of a node. -/
def setMeta (i : Nat) (state : BlockState) : Exec Fault Memory Unit := do
  let buddyMeta ← (← get).buddyMeta.assign i state
  modify ({ · with buddyMeta })

/-- Read a pending node off the search stack. -/
def stackAt (sp : Int) : Exec Fault Memory Nat := do
  (← get).buddyStack.index sp.toNat

/-- Put a pending node on the search stack. -/
def setStack (sp : Int) (i : Nat) : Exec Fault Memory Unit := do
  let buddyStack ← (← get).buddyStack.assign sp.toNat i
  modify ({ · with buddyStack })

/-- Put both children of a node on the search stack, the left one on top. -/
def pushChildren (profile : Profile) (sp : Int) (i : Nat) : Exec Fault Memory Int := do
  let twice ← profile.mul 2 i
  let right ← profile.add twice 2
  setStack (sp + 1) right
  let left ← profile.add twice 1
  setStack (sp + 2) left
  return sp + 2

/-- The position of a node within its level. -/
def atLevel (profile : Profile) (i level : Nat) : Exec Fault Memory Nat := do
  let next ← profile.add 1 i
  let begin ← profile.twoPow level
  profile.sub next begin

/-- The address of the block a node stands for. -/
def blockAddr (profile : Profile) (i level : Nat) : Exec Fault Memory Nat := do
  let memory ← get
  let position ← atLevel profile i level
  let order ← profile.sub memory.buddyHighOrder level
  let size ← profile.twoPow order
  let offset ← profile.mul position size
  return pointerAdd memory.start.addr offset

/-- The depth-first search for a free node of the requested level, one pop per turn. -/
def allocLoop (profile : Profile) (n reqOrder : Nat) :
    Nat → Int → Exec Fault Memory (Except MemError PhysAddr)
  | 0, _ => throw .fuel
  | fuel + 1, sp => do
    if sp < 0 then return .error .outOfMemory
    let i ← stackAt sp
    let sp := sp - 1
    let level := findOrder i
    if reqOrder = level then
      if (← metaAt i) = .free then
        setMeta i .allocated
        let addr ← blockAddr profile i level
        return .ok ⟨addr, some n⟩
      else allocLoop profile n reqOrder fuel sp
    else
      match ← metaAt i with
      | .free =>
        setMeta i .split
        let sp ← pushChildren profile sp i
        allocLoop profile n reqOrder fuel sp
      | .allocated => allocLoop profile n reqOrder fuel sp
      | .split =>
        let sp ← pushChildren profile sp i
        allocLoop profile n reqOrder fuel sp

/-- Allocate at least `n` bytes. -/
def buddyAlloc (profile : Profile) (n : Nat) : Exec Fault Memory (Except MemError PhysAddr) := do
  let memory ← get
  if memory.memSize < n then return .error .outOfMemory
  if n = 0 then return .error .zeroSize
  let n := if n < pageSize then pageSize else n
  let n ← expect .hugeRequest (nextPowerOfTwo usizeBits n)
  let reqOrder ← profile.sub memory.buddyHighOrder (findOrder n)
  setStack 0 0
  -- No node is pending twice, so a turn for each node and one to stop are enough.
  allocLoop profile n reqOrder (memory.buddyNodeCount + 2) 0

/-- The index of the node next to a position of a level. -/
def buddyIndex (profile : Profile) (iAtLevel level : Nat) : Exec Fault Memory Nat := do
  let begin ← profile.twoPow level
  let past ← profile.add (iAtLevel ^^^ 1) begin
  profile.sub past 1

/-- Merge free buddies upwards, one level per turn. -/
def mergeLoop (profile : Profile) : Nat → Nat → Nat → Nat → Exec Fault Memory Unit
  | 0, _, _, _ => throw .fuel
  | fuel + 1, i, buddyI, level => do
    if (← metaAt buddyI) = .free then
      let less ← profile.sub i 1
      let i := less / 2
      if (← metaAt i) = .split then
        setMeta i .free
      else throw (.notSplit i)
      if i = 0 then return
      let level ← profile.sub level 1
      let iAtLevel ← atLevel profile i level
      let buddyI ← buddyIndex profile iAtLevel level
      mergeLoop profile fuel i buddyI level

/-- The number of trailing zero bits of a word with the given number of bits. -/
def trailingZeros : Nat → Nat → Nat
  | 0, _ => 0
  | bits + 1, n => if n % 2 = 1 then 0 else trailingZeros bits (n / 2) + 1

/-- Give a block back. -/
def buddyFree (profile : Profile) (addr : PhysAddr) : Exec Fault Memory Unit := do
  match addr.size with
  | none => return
  | some size =>
    let memory ← get
    let offset ← profile.sub addr.addr memory.start.addr
    let level ← profile.sub memory.buddyHighOrder (trailingZeros usizeBits size)
    if size = 0 then throw .divideByZero
    let position := offset / size
    let begin ← profile.oneShl level
    let before ← profile.sub begin 1
    let i ← profile.add before position
    let iAtLevel ← atLevel profile i level
    if (← metaAt i) = .allocated then
      setMeta i .free
    else throw (.notAllocated i)
    -- Merge with the buddy. The index at least halves every turn, so a word's bits bound the turns.
    let buddyI ← buddyIndex profile iAtLevel level
    mergeLoop profile (2 * usizeBits) i buddyI level

end Memory

end Os1k
