import Os1k.C.Scheduler
import Os1k.Lib.Bytes
import Os1k.Lib.Exec
import Os1k.Lib.Sv32

/-! How the C kernel gets memory, and builds the page table of a new process from it. -/

namespace Os1k.C

open Riscv (wordLimit)
open Bytes

def pageV : Nat := 1 <<< 0

def pageR : Nat := 1 <<< 1

def pageW : Nat := 1 <<< 2

def pageX : Nat := 1 <<< 3

def pageU : Nat := 1 <<< 4

/-- Where the linker puts the kernel. -/
def kernelBase : Nat := 0x80200000

/-- The memory that the linker leaves behind the kernel. -/
def freeRamSize : Nat := 64 * 1024 * 1024

/--
Where the linker puts the rest: the process array, the next address of `alloc_pages` and the code of
the kernel, and then the free memory, at the start of a page.

All of it has addresses of one word.
-/
structure LinkerMap where
  procs : Nat
  nextAddr : Nat
  userEntry : Nat
  freeRam : Nat
  aligned : freeRam % pageSize = 0
  base : kernelBase ≤ procs
  below : procs + procSize * procNoMax ≤ freeRam
  nextBase : kernelBase ≤ nextAddr
  nextBelow : nextAddr + 4 ≤ freeRam
  apart : nextAddr + 4 ≤ procs ∨ procs + procSize * procNoMax ≤ nextAddr
  word : freeRam + freeRamSize < wordLimit

/-- Why the kernel halts. -/
inductive Halt where
  | outOfMemory
  | unalignedVaddr (vaddr : Nat)
  | unalignedPaddr (paddr : Nat)
  | noFreeSlots
  /-- A loop whose counter has wrapped around does not end. -/
  | loops
  deriving DecidableEq, Repr

/-- A `struct process`. -/
structure ProcStruct where
  pid : Int
  state : Nat
  sp : Nat
  pageTable : Nat
  stack : Nat → UInt8

/-- One of the four bytes of a word. -/
def wordByte (word i : Nat) : UInt8 := .ofNat (word / 2 ^ (8 * i))

/-- A byte of a process, whose fields follow each other. -/
def ProcStruct.byte (proc : ProcStruct) (o : Nat) : UInt8 :=
  if o < 4 then wordByte (proc.pid % 2 ^ 32).toNat o
  else if o < 8 then wordByte proc.state (o - 4)
  else if o < 12 then wordByte proc.sp (o - 8)
  else if o < 16 then wordByte proc.pageTable (o - 12)
  else proc.stack (o - 16)

/--
The address that `alloc_pages` hands out next, the process array, and the rest of memory.

The array and the address are kept apart from the rest, but they have their bytes in memory as well:
what a pointer finds there is what `bytes` says.
-/
structure Ram where
  mem : Nat → UInt8
  nextAddr : Nat
  procs : Nat → ProcStruct

namespace LinkerMap

/-- An address in the process array. -/
def InProcs (map : LinkerMap) (a : Nat) : Prop :=
  map.procs ≤ a ∧ a < map.procs + procSize * procNoMax

/-- An address in the word that holds the next address. -/
def InNextAddr (map : LinkerMap) (a : Nat) : Prop := map.nextAddr ≤ a ∧ a < map.nextAddr + 4

instance (map : LinkerMap) (a : Nat) : Decidable (map.InProcs a) :=
  inferInstanceAs (Decidable (_ ∧ _))

instance (map : LinkerMap) (a : Nat) : Decidable (map.InNextAddr a) :=
  inferInstanceAs (Decidable (_ ∧ _))

/-- The address of a process. -/
def slot (map : LinkerMap) (i : Nat) : Nat := map.procs + procSize * i

/-- An address in the process of a slot. -/
def InSlot (map : LinkerMap) (i a : Nat) : Prop := map.slot i ≤ a ∧ a < map.slot i + procSize

/-- The byte at an address, as a pointer finds it. -/
def bytes (map : LinkerMap) (ram : Ram) (a : Nat) : UInt8 :=
  if map.InProcs a then
    (ram.procs ((a - map.procs) / procSize)).byte ((a - map.procs) % procSize)
  else if map.InNextAddr a then wordByte ram.nextAddr (a - map.nextAddr)
  else ram.mem a

end LinkerMap

/--
Copy bytes one after another.

They may come from anywhere, and go to memory that was handed out.
-/
def Ram.memcpy (ram : Ram) (map : LinkerMap) (d s : Nat) : Nat → Ram
  | 0 => ram
  | n + 1 =>
    Ram.memcpy { ram with mem := Function.update ram.mem d (map.bytes ram s) } map (d + 1) (s + 1) n

/-- Store a word in memory. -/
def store (a word : Nat) : Exec Halt Ram Unit :=
  modify fun ram => { ram with mem := storeWord ram.mem a word }

/--
Hand out the bytes at the next address, filled with zeros, if the next address then is before `stop`.

Addresses are below `limit`.
-/
def bump (limit stop bytes : Nat) : Exec Halt Ram Nat := do
  let paddr := (← get).nextAddr
  modify fun ram => { ram with nextAddr := (ram.nextAddr + bytes) % limit }
  if stop ≤ (← get).nextAddr then throw .outOfMemory
  modify fun ram => { ram with mem := memset ram.mem paddr 0 bytes }
  return paddr

/-- Hand out so many pages of memory that ends at `stop`. Their size is a word, like an address. -/
def allocPagesBelow (stop n : Nat) : Exec Halt Ram Nat :=
  bump wordLimit stop (n * pageSize % wordLimit)

/-- Change a process. -/
def modifyProc (i : Nat) (change : ProcStruct → ProcStruct) : Exec Halt Ram Unit :=
  modify fun ram => { ram with procs := Function.update ram.procs i (change (ram.procs i)) }

/-- Set an entry of the second-level table that an index of the root points to. -/
def enterPage (table1 vpn1 vpn0 word : Nat) : Exec Halt Ram Unit := do
  let table0 := (loadWord (← get).mem (table1 + 4 * vpn1) >>> 10) * pageSize % wordLimit
  store (table0 + 4 * vpn0) word

/-- A loop that counts up by pages, for at most so many turns. -/
def forPages (bound : Nat) (body : Nat → Exec Halt Ram Unit) : Nat → Nat → Exec Halt Ram Unit
  | 0, _ => throw .loops
  | fuel + 1, counter =>
    if counter < bound then do
      body counter
      forPages bound body fuel ((counter + pageSize) % wordLimit)
    else pure ()

/-- A loop that is over before its counter takes a value again has at most so many turns. -/
def maxTurns : Nat := wordLimit / pageSize + 1

namespace LinkerMap

/-- The end of the free memory. -/
def freeRamEnd (map : LinkerMap) : Nat := map.freeRam + freeRamSize

variable (map : LinkerMap)

/-- Hand out pages that were never handed out before, filled with zeros. -/
def allocPages (n : Nat) : Exec Halt Ram Nat := allocPagesBelow map.freeRamEnd n

/-- Create the second-level table for an index of the root, unless it exists. -/
def ensureTable0 (table1 vpn1 : Nat) : Exec Halt Ram Unit := do
  if loadWord (← get).mem (table1 + 4 * vpn1) &&& pageV = 0 then
    let ptPaddr ← map.allocPages 1
    store (table1 + 4 * vpn1) ((ptPaddr / pageSize) <<< 10 % wordLimit ||| pageV)

/-- Map one page. -/
def mapPage (table1 vaddr paddr flags : Nat) : Exec Halt Ram Unit := do
  if vaddr % pageSize ≠ 0 then throw (.unalignedVaddr vaddr)
  if paddr % pageSize ≠ 0 then throw (.unalignedPaddr paddr)
  let vpn1 := vaddr >>> 22 &&& 0x3ff
  map.ensureTable0 table1 vpn1
  let vpn0 := vaddr >>> 12 &&& 0x3ff
  enterPage table1 vpn1 vpn0 ((paddr / pageSize) <<< 10 % wordLimit ||| pageV ||| flags)

/-- Map one page of the kernel where it is. -/
def mapKernelPage (table1 paddr : Nat) : Exec Halt Ram Unit :=
  map.mapPage table1 paddr paddr (pageR ||| pageW ||| pageX)

/-- Copy one page of an image into a new page, and map it for the user. -/
def loadPage (table1 image imageSize off : Nat) : Exec Halt Ram Unit := do
  let page ← map.allocPages 1
  let remaining := imageSize - off
  let copySize := if pageSize ≤ remaining then pageSize else remaining
  modify fun ram => ram.memcpy map page (image + off) copySize
  map.mapPage table1 ((userBase + off) % wordLimit) page (pageU ||| pageR ||| pageW ||| pageX)

/-- Create a process in the first free slot, which is the result. -/
def createProcess (image imageSize : Nat) : Exec Halt Ram Nat := do
  let ram ← get
  match (List.range procNoMax).find? fun i => (ram.procs i).state = procStateUnused with
  | none => throw .noFreeSlots
  | some i =>
    -- The stack starts with room for thirteen registers, the first of them the return address.
    modifyProc i fun proc =>
      { proc with stack := storeWord (memset proc.stack 0 0 8192) (8192 - 13 * 4) map.userEntry }
    let pageTable ← map.allocPages 1
    forPages map.freeRamEnd (map.mapKernelPage pageTable) maxTurns kernelBase
    forPages imageSize (map.loadPage pageTable image imageSize) maxTurns 0
    modifyProc i fun proc =>
      { proc with
        pid := i + 1, state := procStateRunnable, sp := map.slot i + 16 + 8192 - 13 * 4, pageTable }
    return i

end LinkerMap

end Os1k.C
