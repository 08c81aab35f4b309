import Os1k.Vm.Ownership

/-! Histories of page tables that are created, mapped into and dropped, from boot on. -/

namespace Os1k

open Memory (LiveBlock)

/-- A page table that was created and not dropped, with the blocks that its calls were handed. -/
structure Held where
  table : PageTable
  owned : List LiveBlock

/-- The blocks of all tables. -/
def ownedBlocks (tables : List Held) : List LiveBlock := tables.flatMap Held.owned

/-- One table's blocks can be listed before all others. -/
theorem ownedBlocks_middle (front back : List Held) (held : Held) :
    (ownedBlocks (front ++ held :: back)).Perm (held.owned ++ ownedBlocks (front ++ back)) := by
  simp only [ownedBlocks, List.flatMap_append, List.flatMap_cons]
  rw [← List.append_assoc, ← List.append_assoc]
  exact List.perm_append_comm.append_right _

section Tables

variable [layout : VecLayout]

/--
The states that histories of page tables reach from zeroed RAM.

With the kernel go the blocks in use, as the calls made so far leave them, and the tables in use. A
new table is created only where the condition admits it, which speaks of the kernel and the blocks
in use. Histories with every creation admitted are those of the trivial condition.
-/
inductive History (profile : Profile) (boot : Memory) (admits : Kernel → List LiveBlock → Prop) :
    Kernel → List LiveBlock → List Held → Prop where
  | boot : History profile boot admits ⟨boot, fun _ => 0, []⟩ [] []
  | new {kernel after : Kernel} {live : List LiveBlock} {tables : List Held} {table : PageTable}
      (before : History profile boot admits kernel live tables) (admitted : admits kernel live)
      (ran : (PageTable.new profile).run kernel.quiet = .ok table after) :
      History profile boot admits after (replay after.trace live)
        (⟨table, handedOut after.trace⟩ :: tables)
  | map {kernel after : Kernel} {live : List LiveBlock} {front back : List Held} {held : Held}
      {vaddr paddr flags : Nat}
      (before : History profile boot admits kernel live (front ++ held :: back))
      (ran : (held.table.mapPage profile vaddr paddr flags).run kernel.quiet = .ok () after) :
      History profile boot admits after (replay after.trace live)
        (front ++ { held with owned := handedOut after.trace ++ held.owned } :: back)
  | drop {kernel after : Kernel} {live : List LiveBlock} {front back : List Held} {held : Held}
      (before : History profile boot admits kernel live (front ++ held :: back))
      (ran : (held.table.drop profile).run kernel.quiet = .ok () after) :
      History profile boot admits after (replay after.trace live) (front ++ back)

/-- The blocks in use are those of the tables, and memory represents every table. -/
structure Possession (kernel : Kernel) (depth : Nat) (live : List LiveBlock) (tables : List Held) :
    Prop where
  invariant : Memory.Invariant kernel.memory depth live
  perm : live.Perm (ownedBlocks tables)
  represents : ∀ held ∈ tables, ∃ frames, held.owned.Perm frames.blocks ∧
    Represents kernel.ram held.table frames

namespace Possession

variable {profile : Profile} {kernel after : Kernel} {depth : Nat} {live : List LiveBlock}
  {tables front back : List Held} {held : Held}

/-- Each table owns its blocks, the others being those of the other tables. -/
theorem owns (possession : Possession kernel depth live (front ++ held :: back)) :
    ∃ frames, Owns kernel depth live held.table held.owned (ownedBlocks (front ++ back)) frames := by
  obtain ⟨frames, owned, represents⟩ := possession.represents held (by simp)
  refine ⟨frames, possession.invariant, ?_, owned, represents⟩
  -- The blocks in use can be listed with this table's first.
  exact possession.perm.trans ((ownedBlocks_middle front back held).trans (owned.append_right _))

/-- The other tables are still represented when only words outside their blocks changed. -/
theorem others (possession : Possession kernel depth live tables) (changed : Set Nat)
    {kept : List Held} (sub : ∀ other ∈ kept, other ∈ tables)
    (agree : ∀ a, a ∉ changed → after.ram a = kernel.ram a)
    (clear : ∀ other ∈ kept, ∀ used ∈ other.owned, Disjoint changed used.block.bytes) :
    ∀ other ∈ kept, ∃ frames, other.owned.Perm frames.blocks ∧
      Represents after.ram other.table frames := by
  intro other member
  obtain ⟨frames, owned, represents⟩ := possession.represents other (sub other member)
  -- The blocks of each table are among those in use.
  have placed : Placed frames.blocks := by
    have all := possession.invariant.placed.perm possession.perm.symm
    have mine := (List.singleton_sublist.mpr (sub other member)).flatMap Held.owned
    rw [List.flatMap_singleton] at mine
    exact (all.sublist mine).perm owned.symm
  refine ⟨frames, owned, represents.frame placed fun used found a inside => agree a fun bad => ?_⟩
  exact Set.disjoint_left.mp (clear other member used (owned.symm.subset found)) bad inside

/-- A new table of zeroed blocks joins the others. -/
theorem new {table : PageTable} (possession : Possession kernel depth live tables)
    (zero : FreeZero kernel live)
    (ran : (PageTable.new profile).run kernel.quiet = .ok table after) :
    Possession after depth (replay after.trace live) (⟨table, handedOut after.trace⟩ :: tables) := by
  obtain ⟨frames, owns, same, _⟩ :=
    Owns.new possession.invariant (zero.nextBlocks possession.invariant) ran
  refine ⟨owns.invariant, ?_, ?_⟩
  · exact owns.perm.trans (owns.owned.symm.append possession.perm)
  · -- RAM is not written, so the others are represented as before.
    intro held member
    rcases List.mem_cons.mp member with rfl | old
    · exact ⟨frames, owns.owned, owns.represents⟩
    · exact possession.others ∅ (fun _ found => found) (fun a _ => by rw [same])
        (fun _ _ _ _ => Set.empty_disjoint _) held old

/-- A new table leaves the rest of free RAM zero. -/
theorem freeZero_new {table : PageTable} (possession : Possession kernel depth live tables)
    (zero : FreeZero kernel live)
    (ran : (PageTable.new profile).run kernel.quiet = .ok table after) :
    FreeZero after (replay after.trace live) := by
  obtain ⟨_, owns, same, start, _⟩ :=
    Owns.new possession.invariant (zero.nextBlocks possession.invariant) ran
  -- Making a table writes nothing to RAM, and what it took was free.
  refine zero.frame possession.invariant owns.invariant start (fun used member => ?_)
    fun a _ => by rw [same]
  exact owns.perm.symm.subset (List.mem_append_right _ member)

/-- A mapped page is written in blocks in use, and leaves the rest of free RAM zero. -/
theorem freeZero_map {vaddr paddr flags : Nat}
    (possession : Possession kernel depth live (front ++ held :: back))
    (zero : FreeZero kernel live)
    (ran : (held.table.mapPage profile vaddr paddr flags).run kernel.quiet = .ok () after) :
    FreeZero after (replay after.trace live) := by
  obtain ⟨frames, owns⟩ := possession.owns
  obtain ⟨grown, grownOwns, framed, _, start, _⟩ := owns.map ran
  refine zero.frame possession.invariant grownOwns.invariant start (fun used member => ?_)
    fun a outside => framed a fun used mine => outside used ?_
  · -- The blocks of the table stay its own, and those of others stay theirs.
    rcases List.mem_append.mp (owns.perm.subset member) with mine | theirs
    · have still := grownOwns.owned.subset (List.mem_append_right _ (owns.owned.symm.subset mine))
      exact grownOwns.perm.symm.subset (List.mem_append_left _ still)
    · exact grownOwns.perm.symm.subset (List.mem_append_right _ theirs)
  · exact grownOwns.perm.symm.subset (List.mem_append_left _ mine)

/-- A mapped page changes its own table, which leaves the others as they were. -/
theorem map {vaddr paddr flags : Nat}
    (possession : Possession kernel depth live (front ++ held :: back))
    (ran : (held.table.mapPage profile vaddr paddr flags).run kernel.quiet = .ok () after) :
    Possession after depth (replay after.trace live)
      (front ++ { held with owned := handedOut after.trace ++ held.owned } :: back) := by
  obtain ⟨frames, owns⟩ := possession.owns
  obtain ⟨grown, grownOwns, framed, _⟩ := owns.map ran
  refine ⟨grownOwns.invariant, ?_, ?_⟩
  · have middle := ownedBlocks_middle front back
      { held with owned := handedOut after.trace ++ held.owned }
    exact grownOwns.perm.trans ((grownOwns.owned.symm.append_right _).trans middle.symm)
  · -- What changed lies in the blocks of the table, which overlap no other table's.
    have rest := possession.others { a | ∃ used ∈ grown.blocks, a ∈ used.block.bytes }
      (fun other (member : other ∈ front ++ back) => by
        rcases List.mem_append.mp member with first | last
        · exact List.mem_append_left _ first
        · exact List.mem_append_right _ (List.mem_cons_of_mem _ last))
      (fun a outside => framed a fun used found inside => outside ⟨used, found, inside⟩)
      (fun other member used found => by
        rw [Set.disjoint_left]
        rintro a ⟨mine, block, inside⟩ also
        have theirs : used ∈ ownedBlocks (front ++ back) :=
          List.mem_flatMap.mpr ⟨other, member, found⟩
        exact Set.disjoint_left.mp (grownOwns.apart block theirs) inside also)
    intro other member
    rcases List.mem_append.mp member with first | last
    · exact rest other (List.mem_append_left _ first)
    · rcases List.mem_cons.mp last with rfl | last
      · exact ⟨grown, grownOwns.owned, grownOwns.represents⟩
      · exact rest other (List.mem_append_right _ last)

/-- A dropped table leaves the others as they were. -/
theorem drop (possession : Possession kernel depth live (front ++ held :: back))
    (ran : (held.table.drop profile).run kernel.quiet = .ok () after) :
    Possession after depth (replay after.trace live) (front ++ back) := by
  obtain ⟨frames, owns⟩ := possession.owns
  obtain ⟨final, states, returned, same, _, _, invariant, left⟩ := owns.drop profile
  rw [ran, EStateM.Result.ok.injEq] at returned
  obtain ⟨_, rfl⟩ := returned
  refine ⟨invariant, left, possession.others ∅ (fun other member => ?_)
    (fun a _ => by rw [same]) (fun _ _ _ _ => Set.empty_disjoint _)⟩
  -- Giving blocks back writes no RAM.
  rcases List.mem_append.mp member with first | last
  · exact List.mem_append_left _ first
  · exact List.mem_append_right _ (List.mem_cons_of_mem _ last)

end Possession

/-- In a history that creates tables only where free RAM is zero, tables keep to their blocks. -/
theorem History.possession {profile : Profile} {boot : Memory} {depth : Nat} {kernel : Kernel}
    {live : List LiveBlock} {tables : List Held} (shape : boot.Shape depth)
    (canonical : boot.Canonical depth ∅)
    (history : History profile boot FreeZero kernel live tables) :
    Possession kernel depth live tables := by
  -- Each step keeps the tables to their blocks.
  induction history with
  | boot => exact ⟨Memory.Invariant.boot shape canonical, List.Perm.refl _, by simp⟩
  | new before zero ran ih => exact ih.new zero ran
  | map before ran ih => exact ih.map ran
  | drop before ran ih => exact ih.drop ran

/--
In a history that creates tables only where RAM outside the blocks in use is zero, new tables are
empty.

Whatever happened before, a page mapped in a table is written in blocks that are in use and were
handed to that table.
-/
theorem new_table_empty {profile : Profile} {ramStart ramEnd : Nat} {boot : Memory}
    {kernel : Kernel} {live : List LiveBlock} {tables : List Held}
    (arena : Memory.PowerArena profile ramStart ramEnd boot)
    (history : History profile boot FreeZero kernel live tables) :
    (∀ table after, FreeZero kernel live →
      (PageTable.new profile).run kernel.quiet = .ok table after → ∀ vpn1 < 1024,
      ∃ entry, (table.rootPt.index vpn1).run after = .ok entry after ∧ entry &&& pageV = 0) ∧
    ∀ held ∈ tables, ∀ vaddr paddr flags after,
      (held.table.mapPage profile vaddr paddr flags).run kernel.quiet = .ok () after →
      ∀ a, Event.store a ∈ after.trace → ∃ used ∈ handedOut after.trace ++ held.owned,
        used ∈ replay after.trace live ∧ a ∈ used.block.bytes := by
  obtain ⟨depth, shape, canonical, _⟩ := arena.shape
  have possession := history.possession shape canonical
  constructor
  · -- The blocks handed out were free, so they are zero, and no root entry is valid.
    intro table after zero ran vpn1 small
    obtain ⟨frames, owns, _, _, empty⟩ :=
      Owns.new possession.invariant (zero.nextBlocks possession.invariant) ran
    have cap : table.rootPt.cap = 1024 := by rw [owns.represents.root]
    refine ⟨_, FixedVec.run_index (by omega) after, ?_⟩
    rw [owns.represents.root_slot owns.placed small]
    exact (owns.represents.absent vpn1 small (empty vpn1)).1
  · -- The table's blocks are in use after the call, and all that is written is inside.
    intro held member vaddr paddr flags after ran a stored
    obtain ⟨front, back, rfl⟩ := List.append_of_mem member
    obtain ⟨frames, owns⟩ := possession.owns
    obtain ⟨grown, grownOwns, _, writes, _⟩ := owns.map ran
    obtain ⟨used, mine, inside⟩ := writes a stored
    refine ⟨used, grownOwns.owned.symm.subset mine, ?_, inside⟩
    exact grownOwns.perm.symm.subset (List.mem_append_left _ mine)

end Tables

/-- The allocator of an arena of thirty-two pages, all of them free. -/
def thirtyTwoPages : Memory where
  start := ⟨0x80020000, none⟩
  stop := ⟨0x80040000, none⟩
  memSize := 0x20000
  buddyNodeCount := 63
  buddyHighOrder := 17
  buddyLowOrder := 12
  buddyStackSize := 252
  buddyStack := { addr := 0x70001000, elems := List.replicate 6 0 }
  buddyMeta := { addr := 0x70000000, elems := List.replicate 63 .free }

/-- Boot builds the allocator of thirty-two pages. -/
theorem thirtyTwoPages_arena :
    Memory.PowerArena .dev 0x80020000 0x80040000 thirtyTwoPages where
  ordered := by decide
  word := by decide
  built := ⟨0x70000000, 0x70080000, _, rfl⟩
  power := ⟨17, rfl⟩
  page := by decide

/--
A table is created and dropped, its blocks are handed to a second one, and a page is mapped there.

A third table is still empty, and what the second one wrote lies in its own blocks.
-/
theorem new_table_empty_recycled : letI := declaredLayout
    ∃ (first second third : PageTable) (created dropped again mapped after : Kernel),
      (PageTable.new .dev).run ⟨thirtyTwoPages, fun _ => 0, []⟩ = .ok first created ∧
      (first.drop .dev).run created.quiet = .ok () dropped ∧
      (PageTable.new .dev).run dropped.quiet = .ok second again ∧
      second.rootPt.ptr = first.rootPt.ptr ∧
      (second.mapPage .dev 0x400000 0x80005000 (pageR ||| pageW)).run again.quiet = .ok () mapped ∧
      (PageTable.new .dev).run mapped.quiet = .ok third after ∧
      (∀ vpn1 < 1024, ∃ entry, (third.rootPt.index vpn1).run after = .ok entry after ∧
        entry &&& pageV = 0) ∧
      ∀ a, Event.store a ∈ mapped.trace →
        ∃ used ∈ handedOut mapped.trace ++ handedOut again.trace, a ∈ used.block.bytes := by
  let := declaredLayout
  let boot : Kernel := ⟨thirtyTwoPages, fun _ => 0, []⟩
  -- One table is made and dropped, and the next one has its blocks.
  have seen : Exec.observe (do
      let first ← PageTable.new .dev
      modify Kernel.quiet
      first.drop .dev
      modify Kernel.quiet
      let second ← PageTable.new .dev
      modify Kernel.quiet
      second.mapPage .dev 0x400000 0x80005000 (pageR ||| pageW)
      modify Kernel.quiet
      let third ← PageTable.new .dev
      return (first, second, third) : Exec Fault Kernel (PageTable × PageTable × PageTable))
      boot.quiet (fun tables _ => (tables.1.rootPt.ptr, tables.2.1.rootPt.ptr))
      = some (0x80020000, 0x80020000) := by decide +kernel
  obtain ⟨⟨_, _, _⟩, last, ran, same⟩ := Exec.observe_eq_some.mp seen
  obtain ⟨first, created, newRan, ran⟩ := Exec.run_bind_ok.mp ran
  rw [Kernel.run_quiet] at ran
  obtain ⟨_, dropped, dropRan, ran⟩ := Exec.run_bind_ok.mp ran
  rw [Kernel.run_quiet] at ran
  obtain ⟨second, again, againRan, ran⟩ := Exec.run_bind_ok.mp ran
  rw [Kernel.run_quiet] at ran
  obtain ⟨_, mapped, mapRan, ran⟩ := Exec.run_bind_ok.mp ran
  rw [Kernel.run_quiet] at ran
  obtain ⟨third, after, thirdRan, returned⟩ := Exec.run_bind_ok.mp ran
  simp only [EStateM.run_pure, EStateM.Result.ok.injEq, Prod.mk.injEq] at returned
  obtain ⟨⟨rfl, rfl, rfl⟩, rfl⟩ := returned
  obtain ⟨firstAt, secondAt⟩ := Prod.mk.injEq .. ▸ same
  -- RAM is zero at boot, and neither a new table nor one that is dropped writes to it.
  obtain ⟨depth, shape, canonical, _⟩ := thirtyTwoPages_arena.shape
  have bootZero : FreeZero boot [] := fun _ _ _ _ => rfl
  have fresh : History .dev thirtyTwoPages FreeZero created (replay created.trace [])
      ([] ++ ⟨first, handedOut created.trace⟩ :: []) := .new .boot bootZero newRan
  have gone : History .dev thirtyTwoPages FreeZero dropped
      (replay dropped.trace (replay created.trace [])) ([] ++ []) := .drop fresh dropRan
  have droppedZero : FreeZero dropped (replay dropped.trace (replay created.trace [])) := by
    obtain ⟨_, _, written, _⟩ := Owns.new (Memory.Invariant.boot shape canonical)
      (bootZero.nextBlocks (Memory.Invariant.boot shape canonical)) newRan
    obtain ⟨_, owns⟩ := (fresh.possession shape canonical).owns
    obtain ⟨_, _, returned, unwritten, _⟩ := owns.drop .dev
    rw [dropRan, EStateM.Result.ok.injEq] at returned
    intro a _ _ _
    rw [returned.2, unwritten, written]
  have used : History .dev thirtyTwoPages FreeZero again
      (replay again.trace (replay dropped.trace (replay created.trace [])))
      ([] ++ ⟨second, handedOut again.trace⟩ :: []) := .new gone droppedZero againRan
  have againZero := (gone.possession shape canonical).freeZero_new droppedZero againRan
  -- What the page is mapped with is in use, so free RAM is still zero for the third table.
  have grown := History.map used mapRan
  have mappedZero := (used.possession shape canonical).freeZero_map againZero mapRan
  refine ⟨first, second, third, created, dropped, again, mapped, after, newRan, dropRan, againRan,
    secondAt.trans firstAt.symm, mapRan, thirdRan,
    (new_table_empty thirtyTwoPages_arena grown).1 third after mappedZero thirdRan, ?_⟩
  intro a stored
  obtain ⟨block, mine, _, inside⟩ := (new_table_empty thirtyTwoPages_arena used).2 _
    List.mem_cons_self _ _ _ mapped mapRan a stored
  exact ⟨block, mine, inside⟩

/-- After a table was mapped into and dropped, the next table is not empty. -/
theorem new_table_stale : letI := declaredLayout
    ∃ (kernel after : Kernel) (live : List LiveBlock) (tables : List Held) (table : PageTable)
      (entry : Nat),
      Memory.PowerArena .dev 0x80000000 0x80010000 sixteenPages ∧
      History .dev sixteenPages (fun _ _ => True) kernel live tables ∧
      (PageTable.new .dev).run kernel.quiet = .ok table after ∧
      (table.rootPt.index 1).run after = .ok entry after ∧ entry &&& pageV ≠ 0 := by
  let := declaredLayout
  -- Create a table, map the page at 0x400000, drop the table, create another one.
  have seen : Exec.observe (do
      let first ← PageTable.new .dev
      modify Kernel.quiet
      first.mapPage .dev 0x400000 0x80005000 (pageR ||| pageW)
      modify Kernel.quiet
      first.drop .dev
      modify Kernel.quiet
      let second ← PageTable.new .dev
      second.rootPt.index 1 : Exec Fault Kernel Nat) bootKernel.quiet
      (fun entry _ => entry &&& pageV) = some 1 := by decide +kernel
  obtain ⟨entry, last, ran, valid⟩ := Exec.observe_eq_some.mp seen
  obtain ⟨first, created, newRan, ran⟩ := Exec.run_bind_ok.mp ran
  rw [Kernel.run_quiet] at ran
  obtain ⟨_, mapped, mapRan, ran⟩ := Exec.run_bind_ok.mp ran
  rw [Kernel.run_quiet] at ran
  obtain ⟨_, dropped, dropRan, ran⟩ := Exec.run_bind_ok.mp ran
  rw [Kernel.run_quiet] at ran
  obtain ⟨second, after, secondRan, indexRan⟩ := Exec.run_bind_ok.mp ran
  obtain rfl := FixedVec.index_state indexRan
  -- Each step is one of a history, in which the second table finds the entry of the first.
  have fresh : History .dev sixteenPages (fun _ _ => True) created (replay created.trace [])
      ([] ++ ⟨first, handedOut created.trace⟩ :: []) := .new .boot trivial newRan
  have used : History .dev sixteenPages (fun _ _ => True) mapped
      (replay mapped.trace (replay created.trace []))
      ([] ++ ⟨first, handedOut mapped.trace ++ handedOut created.trace⟩ :: []) := .map fresh mapRan
  have gone : History .dev sixteenPages (fun _ _ => True) dropped
      (replay dropped.trace (replay mapped.trace (replay created.trace []))) ([] ++ []) :=
    .drop used dropRan
  refine ⟨dropped, _, _, _, second, entry, sixteenPages_arena, gone, secondRan, indexRan, ?_⟩
  rw [valid]
  decide

end Os1k
