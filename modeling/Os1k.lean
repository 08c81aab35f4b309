import Os1k.C.Budget
import Os1k.C.Bump
import Os1k.C.Creation
import Os1k.C.Entry
import Os1k.C.Exit
import Os1k.C.Fairness
import Os1k.C.Format
import Os1k.C.Handling
import Os1k.C.Isolation
import Os1k.C.Loading
import Os1k.C.Mapping
import Os1k.C.Paging
import Os1k.C.Printf
import Os1k.C.Scheduler
import Os1k.C.Shell
import Os1k.C.Space
import Os1k.C.Strings
import Os1k.C.Suspension
import Os1k.C.System
import Os1k.C.Transcript
import Os1k.C.Transparency
import Os1k.C.Trap
import Os1k.C.UserMemory
import Os1k.C.Yield
import Os1k.Lib.Arena
import Os1k.Lib.Bits
import Os1k.Lib.Bytes
import Os1k.Lib.Exec
import Os1k.Lib.Implicit
import Os1k.Lib.Interleaving
import Os1k.Lib.Lines
import Os1k.Lib.Lockstep
import Os1k.Lib.Marking
import Os1k.Lib.Numeral
import Os1k.Lib.Oblivious
import Os1k.Lib.Packing
import Os1k.Lib.Riscv
import Os1k.Lib.Rotation
import Os1k.Lib.Sv32
import Os1k.Lib.Text
import Os1k.Lib.Traced
import Os1k.Mem.Accesses
import Os1k.Mem.Accounting
import Os1k.Mem.Alloc
import Os1k.Mem.Blocks
import Os1k.Mem.Bootstrap
import Os1k.Mem.Canonical
import Os1k.Mem.Fit
import Os1k.Mem.Free
import Os1k.Mem.Futures
import Os1k.Mem.Geometry
import Os1k.Mem.Managed
import Os1k.Mem.Memory
import Os1k.Mem.Ragged
import Os1k.Mem.Reachable
import Os1k.Mem.RoundTrip
import Os1k.Mem.Rounding
import Os1k.Mem.Runs
import Os1k.Mem.Search
import Os1k.Mem.Shared
import Os1k.Mem.Stale
import Os1k.Proc.Capacity
import Os1k.Proc.Identity
import Os1k.Proc.Main
import Os1k.Proc.Process
import Os1k.Proc.Record
import Os1k.Proc.Resumption
import Os1k.Proc.Scheduler
import Os1k.Proc.Slots
import Os1k.Proc.Switching
import Os1k.Proc.Views
import Os1k.Rust.Usize
import Os1k.Sync.Mutex
import Os1k.Sync.OnceCell
import Os1k.Vm.Arrays
import Os1k.Vm.Capacity
import Os1k.Vm.Entries
import Os1k.Vm.FixedVec
import Os1k.Vm.Frames
import Os1k.Vm.History
import Os1k.Vm.Lifetime
import Os1k.Vm.Mapping
import Os1k.Vm.Ownership
import Os1k.Vm.PageTable
import Os1k.Vm.Supply
import Os1k.Vm.Teardown
import Os1k.Vm.Translation
