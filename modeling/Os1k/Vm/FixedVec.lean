import Os1k.Mem.Memory

/-! Owned arrays in physical memory, as `stdlib.rs` builds them over the allocator. -/

namespace Os1k

/-- Something that was done to memory. -/
inductive Event where
  /-- The allocator handed out a block. -/
  | alloc (request : Nat) (block : PhysAddr)
  /-- An address was given back. -/
  | free (addr : PhysAddr)
  /-- A word was written. -/
  | store (addr : Nat)
  deriving DecidableEq, Repr

/-- The allocator and the words of RAM, with what was done to them so far, the latest first. -/
structure Kernel where
  memory : Memory
  ram : Nat → Nat
  trace : List Event

namespace Kernel

/-- Note what was done. -/
def record (event : Event) : Exec Fault Kernel Unit :=
  modify fun kernel => { kernel with trace := event :: kernel.trace }

/-- Write one word. -/
def store (addr value : Nat) : Exec Fault Kernel Unit := do
  modify fun kernel => { kernel with ram := Function.update kernel.ram addr value }
  record (.store addr)

end Kernel

/-- Allocate at least `n` bytes of contiguous physical memory. -/
def phalloc (profile : Profile) (n : Nat) : Exec Fault Kernel (Except MemError PhysAddr) := do
  let result ← Exec.zoom Kernel.memory (fun kernel memory => { kernel with memory })
    (Memory.buddyAlloc profile n)
  match result with
  | .ok block =>
    Kernel.record (.alloc n block)
    return .ok block
  | .error error => return .error error

/-- Give a physical memory region back. -/
def phree (profile : Profile) (addr : PhysAddr) : Exec Fault Kernel Unit := do
  Exec.zoom Kernel.memory (fun kernel memory => { kernel with memory })
    (Memory.buddyFree profile addr)
  Kernel.record (.free addr)

/-- What an array needs to know of its element type. -/
class Elem (α : Type) where
  /-- The bytes of one element. -/
  size : Nat
  /-- The element that the words at an address make up. -/
  read : (Nat → Nat) → Nat → α
  /-- The words an element is stored as, by their offsets. -/
  words : α → List (Nat × Nat)
  /-- What happens to an element that goes out of use. -/
  dropInPlace : Profile → α → Exec Fault Kernel Unit

/-- A plain word owns nothing. -/
instance : Elem Nat where
  size := 4
  read ram addr := ram addr
  words value := [(0, value)]
  dropInPlace _ _ := pure ()

/-- A fixed number of elements in a block of their own. -/
structure FixedVec (α : Type) where
  ptr : Nat
  cap : Nat
  physAddr : PhysAddr
  deriving DecidableEq, Repr

/-- The largest signed word. -/
def isizeMax : Nat := 0x7fffffff

namespace FixedVec

variable {α : Type} [Elem α]

/-- Allocate room for `cap` elements, which are whatever the memory holds. -/
def new (profile : Profile) (cap : Nat) : Exec Fault Kernel (FixedVec α) := do
  if Elem.size α = 0 then throw .zeroSized
  let size ← profile.mul cap (Elem.size α)
  if isizeMax < size then throw .tooLarge
  match ← phalloc profile size with
  | .error error => throw (.unwrapError error)
  | .ok physAddr =>
    if physAddr.addr = 0 then throw .unwrapNone
    return { ptr := physAddr.addr, cap, physAddr }

/-- The address of an element, whether or not it is inside. -/
def slotAddr (vec : FixedVec α) (i : Nat) : Nat := pointerAdd vec.ptr (i * Elem.size α)

/-- Read one element, or panic outside the capacity. -/
def index (vec : FixedVec α) (i : Nat) : Exec Fault Kernel α := do
  if vec.cap ≤ i then throw .vecIndex
  return Elem.read (← get).ram (vec.slotAddr i)

/-- Overwrite one element, or panic outside the capacity. -/
def assign (profile : Profile) (vec : FixedVec α) (i : Nat) (value : α) :
    Exec Fault Kernel Unit := do
  if vec.cap ≤ i then throw .vecIndex
  -- The element that is replaced goes out of use first.
  Elem.dropInPlace profile (Elem.read (← get).ram (vec.slotAddr i) : α)
  forM (Elem.words value) fun word => Kernel.store (vec.slotAddr i + word.1) word.2

/-- Drop every element and give the block back. -/
def drop (profile : Profile) (vec : FixedVec α) : Exec Fault Kernel Unit := do
  forM (List.range vec.cap) fun i => do
    Elem.dropInPlace profile (Elem.read (← get).ram (vec.slotAddr i) : α)
  phree profile vec.physAddr

end FixedVec

/-- The words of an array's own record. -/
inductive VecField where
  | ptr
  | cap
  | addr
  | tag
  | size
  deriving DecidableEq, Repr

/--
How the compiler lays an array's record out, in five words.

The order of the fields is the compiler's own affair.
-/
class VecLayout where
  offset : VecField → Nat
  word : ∀ field, ∃ k < 5, offset field = 4 * k
  injective : Function.Injective offset

/-- An array as an element of another one, where a zero tag stands for an absent size. -/
instance {α : Type} [Elem α] [layout : VecLayout] : Elem (FixedVec α) where
  size := 20
  read ram addr :=
    { ptr := ram (addr + layout.offset .ptr)
      cap := ram (addr + layout.offset .cap)
      physAddr :=
        { addr := ram (addr + layout.offset .addr)
          size := if ram (addr + layout.offset .tag) = 0 then none
            else some (ram (addr + layout.offset .size)) } }
  words vec :=
    [(layout.offset .ptr, vec.ptr), (layout.offset .cap, vec.cap),
      (layout.offset .addr, vec.physAddr.addr)] ++
    match vec.physAddr.size with
    | none => [(layout.offset .tag, 0)]
    | some size => [(layout.offset .tag, 1), (layout.offset .size, size)]
  dropInPlace := FixedVec.drop

end Os1k
