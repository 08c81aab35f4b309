import Os1k.Mem.Reachable

/-! Handles that outlive their blocks, and how the allocator refuses them. -/

namespace Os1k.Memory

open Implicit

/--
The runs of the allocator, with every handle that any allocation has returned so far.

Handles are copied freely, so giving a block back takes nothing off that list.
-/
inductive Issue (profile : Profile) (boot : Memory) :
    Memory → List LiveBlock → List PhysAddr → Prop where
  | boot : Issue profile boot boot [] []
  | alloc {memory after : Memory} {live : List LiveBlock} {issued : List PhysAddr} {n : Nat}
      {block : PhysAddr} (before : Issue profile boot memory live issued)
      (ran : (buddyAlloc profile n).run memory = .ok (.ok block) after) :
      Issue profile boot after (⟨n, block⟩ :: live) (block :: issued)
  | refused {memory after : Memory} {live : List LiveBlock} {issued : List PhysAddr} {n : Nat}
      {error : MemError} (before : Issue profile boot memory live issued)
      (ran : (buddyAlloc profile n).run memory = .ok (.error error) after) :
      Issue profile boot after live issued
  | free {memory after : Memory} {live : List LiveBlock} {issued : List PhysAddr}
      {used : LiveBlock} (before : Issue profile boot memory live issued) (member : used ∈ live)
      (ran : (buddyFree profile used.block).run memory = .ok () after) :
      Issue profile boot after (live.erase used) issued

namespace Issue

variable {profile : Profile} {boot memory : Memory} {live : List LiveBlock}
  {issued : List PhysAddr}

/-- Forgetting the handles leaves a run. -/
theorem reach (run : Issue profile boot memory live issued) : Reach profile boot memory live := by
  -- Every step is one of the allocator.
  induction run with
  | boot => exact .boot
  | alloc _ ran ih => exact .alloc ih ran
  | refused _ ran ih => exact .refused ih ran
  | free _ member ran ih => exact .free ih member ran

/-- Every handle that was ever returned names a block of the tree. -/
theorem node {depth : Nat} (shape : boot.Shape depth) (canonical : boot.Canonical depth ∅)
    (run : Issue profile boot memory live issued) :
    ∀ handle ∈ issued, ∃ i, level i ≤ depth ∧ handle = boot.nodeBlock i := by
  -- Blocks do not move, so what the older handles name is no matter of the step.
  induction run with
  | boot => exact nofun
  | refused _ _ ih => exact ih
  | free _ _ _ ih => exact ih
  | @alloc held after live issued n block before ran ih =>
    intro handle member
    cases member with
    | tail _ older => exact ih handle older
    -- The block just handed out is a node of the tree after this step.
    | head =>
      obtain ⟨start, invariant⟩ := (Reach.alloc before.reach ran).invariant shape canonical
      obtain ⟨i, inside, found, _⟩ := invariant.node _ List.mem_cons_self
      exact ⟨i, inside, found.trans (nodeBlock_congr shape invariant.shape start i)⟩

end Issue

variable {profile : Profile} {ramStart ramEnd : Nat} {boot memory : Memory} {live : List LiveBlock}
  {issued : List PhysAddr}

/--
A handle whose block is not in use is always detected.

However the block was merged, split again or covered since, giving it back ends in the panic that
reports it, and the allocator is left exactly as it was.
-/
theorem buddyFree_stale (arena : PowerArena profile ramStart ramEnd boot)
    (run : Issue profile boot memory live issued) {handle : PhysAddr} (returned : handle ∈ issued)
    (stale : handle ∉ live.map LiveBlock.block) :
    ∃ i, (buddyFree profile handle).run memory = .error (.notAllocated i) memory := by
  obtain ⟨depth, shape, canonical, _⟩ := arena.shape
  obtain ⟨start, invariant⟩ := run.reach.invariant shape canonical
  -- Whatever happened since, the handle still names a node.
  obtain ⟨i, inside, rfl⟩ := run.node shape canonical handle returned
  rw [← nodeBlock_congr shape invariant.shape start] at stale ⊢
  -- Only the nodes of blocks in use are marked as allocated.
  have other : label (memory.liveNodes depth live) i ≠ .allocated := by
    intro allocated
    exact stale (label_eq_allocated.mp allocated).2
  exact ⟨i, run_buddyFree_refused invariant.shape inside (invariant.canonical i inside) other profile⟩

/-- A page that was given back, and merged with the other one since, is refused. -/
theorem buddyFree_stale_page :
    ∃ i, (buddyFree .dev ⟨0x80000000, some 0x1000⟩).run (twoPages [.free, .free, .free] [2, 1]) =
      .error (.notAllocated i) (twoPages [.free, .free, .free] [2, 1]) := by
  -- The page is handed out, and given back once.
  have taken : Issue .dev (twoPages [.free, .free, .free] [0, 0])
      (twoPages [.split, .allocated, .free] [2, 1]) [⟨100, ⟨0x80000000, some 0x1000⟩⟩]
      [⟨0x80000000, some 0x1000⟩] := .alloc .boot rfl
  have merged : (buddyFree .dev ⟨0x80000000, some 0x1000⟩).run
      (twoPages [.split, .allocated, .free] [2, 1]) =
        .ok () (twoPages [.free, .free, .free] [2, 1]) := by
    simp [buddyFree, twoPages]
    rfl
  have returned : Issue .dev (twoPages [.free, .free, .free] [0, 0])
      (twoPages [.free, .free, .free] [2, 1]) [] [⟨0x80000000, some 0x1000⟩] :=
    .free taken List.mem_cons_self merged
  exact buddyFree_stale twoPages_arena returned List.mem_cons_self List.not_mem_nil

end Os1k.Memory
