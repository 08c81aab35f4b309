import Os1k.Vm.FixedVec
import Os1k.Lib.Sv32

/-! The two-level page tables of `vm.rs`. -/

namespace Os1k

/-- The satp bit that turns Sv32 translation on. -/
def satpSv32 : Nat := 1 <<< 31

def pageV : Nat := 1 <<< 0

def pageR : Nat := 1 <<< 1

def pageW : Nat := 1 <<< 2

def pageX : Nat := 1 <<< 3

/-- A word shifted left, losing the bits that leave it. -/
def shl (word amount : Nat) : Nat := (word <<< amount) % wordLimit

/-- A page table, with the second-level tables it owns by their root index. -/
structure PageTable where
  rootPt : FixedVec Nat
  secondPts : FixedVec (FixedVec Nat)
  deriving DecidableEq, Repr

namespace PageTable

variable [VecLayout]

/-- Allocate a table, each level of which has 1024 entries. -/
def new (profile : Profile) : Exec Fault Kernel PageTable := do
  let rootPt ← FixedVec.new profile 1024
  let secondPts ← FixedVec.new profile 1024
  return { rootPt, secondPts }

/-- The address of the root table. -/
def rootPtAddr (table : PageTable) : Nat := table.rootPt.ptr

/-- The satp value that `give_up` installs for a table. -/
def satp (table : PageTable) : Nat := satpSv32 ||| table.rootPtAddr / pageSize

/-- Map one page. -/
def mapPage (profile : Profile) (table : PageTable) (vaddr paddr flags : Nat) :
    Exec Fault Kernel Unit := do
  if vaddr % pageSize ≠ 0 then throw (.unalignedVaddr vaddr)
  if paddr % pageSize ≠ 0 then throw (.unalignedPaddr paddr)
  let vpn1 := vaddr >>> 22 &&& 0x3ff
  if (← table.rootPt.index vpn1) &&& pageV = 0 then
    -- The entry is not valid, so the second-level table does not exist yet.
    let secondPt : FixedVec Nat ← FixedVec.new profile 1024
    table.secondPts.assign profile vpn1 secondPt
    table.rootPt.assign profile vpn1 (shl (secondPt.ptr / pageSize) 10 ||| pageV)
  let vpn0 := vaddr >>> 12 &&& 0x3ff
  let secondPt ← table.secondPts.index vpn1
  secondPt.assign profile vpn0 (shl (paddr / pageSize) 10 ||| flags ||| pageV)

/-- Drop a table, field by field. -/
def drop (profile : Profile) (table : PageTable) : Exec Fault Kernel Unit := do
  table.rootPt.drop profile
  table.secondPts.drop profile

end PageTable

end Os1k
