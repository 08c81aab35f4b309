import Os1k.C.UserMemory

/-! What it takes to create a process of the C kernel, to the page, and what happens without it. -/

namespace Os1k.C

open Riscv (wordLimit)
open Bytes

variable {map : LinkerMap} {start image imageSize : Nat} {source mem : Nat → UInt8}
  {frames : List Nat} {ram after : Ram} {space grown : Space}

/-- How many tables of the second level are needed for the pages that have a meaning. -/
def tablesOf (leaf : Nat → Option (Nat × Nat)) : Nat :=
  ((Finset.range 1024).filter fun i => ∃ j ∈ Finset.range 1024, leaf (i * 1024 + j) ≠ none).card

/-- More pages need no fewer tables. -/
theorem tablesOf_mono {leaf more : Nat → Option (Nat × Nat)}
    (kept : ∀ number, leaf number ≠ none → more number ≠ none) : tablesOf leaf ≤ tablesOf more := by
  -- Each table that is needed for the first pages is needed for the others.
  apply Finset.card_le_card
  intro i
  rw [Finset.mem_filter, Finset.mem_filter]
  rintro ⟨inside, j, small, mapped⟩
  exact ⟨inside, j, small, kept _ mapped⟩

/-- The first page in the range of a table needs one table more. -/
theorem tablesOf_update {leaf : Nat → Option (Nat × Nat)} {i j : Nat} {page : Nat × Nat}
    (small : i < 1024) (low : j < 1024) (absent : ∀ j < 1024, leaf (i * 1024 + j) = none) :
    tablesOf (Function.update leaf (i * 1024 + j) (some page)) = tablesOf leaf + 1 := by
  -- The indices that are needed are those before, and the new one.
  have grows : (Finset.range 1024).filter (fun k => ∃ l ∈ Finset.range 1024,
      Function.update leaf (i * 1024 + j) (some page) (k * 1024 + l) ≠ none) =
      insert i ((Finset.range 1024).filter fun k =>
        ∃ l ∈ Finset.range 1024, leaf (k * 1024 + l) ≠ none) := by
    ext k
    rw [Finset.mem_insert, Finset.mem_filter, Finset.mem_filter, Finset.mem_range]
    by_cases here : k = i
    · subst here
      simp only [small, true_and, true_or, iff_true]
      exact ⟨j, Finset.mem_range.mpr low, by simp⟩
    · -- In the range of another table nothing changes.
      have same : ∀ l < 1024, Function.update leaf (i * 1024 + j) (some page) (k * 1024 + l) =
          leaf (k * 1024 + l) := fun l inside => Function.update_of_ne (by omega) _ _
      simp only [here, false_or]
      refine and_congr_right fun _ => exists_congr fun l => and_congr_right fun inside => ?_
      rw [same l (Finset.mem_range.mp inside)]
  have fresh : i ∉ (Finset.range 1024).filter fun k =>
      ∃ l ∈ Finset.range 1024, leaf (k * 1024 + l) ≠ none := by
    rw [Finset.mem_filter]
    rintro ⟨_, l, inside, mapped⟩
    exact mapped (absent l (Finset.mem_range.mp inside))
  rw [tablesOf, grows, Finset.card_insert_of_notMem fresh, tablesOf]

/-- A table that has no second-level tables but those that are needed. -/
def Space.Tight (space : Space) : Prop := space.count ≤ tablesOf space.leaf

/-- Memory that holds a table has all second-level tables that are needed. -/
theorem Space.Holds.tablesOf_le (holds : space.Holds mem) : tablesOf space.leaf ≤ space.count := by
  -- Without a table, no page in its range has a meaning.
  apply Finset.card_le_card
  intro i
  rw [Finset.mem_filter, Finset.mem_filter]
  rintro ⟨inside, j, low, mapped⟩
  refine ⟨inside, ?_⟩
  cases table : space.table i with
  | none =>
    have unmapped := (holds.absent i (Finset.mem_range.mp inside) table).2
    exact absurd (unmapped j (Finset.mem_range.mp low)) mapped
  | some page => rfl

/-- Setting an entry moves no address. -/
theorem enterPage_nextAddr {table1 vpn1 vpn0 word : Nat}
    (ran : (enterPage table1 vpn1 vpn0 word).run ram = .ok () after) :
    after.nextAddr = ram.nextAddr := by
  unfold enterPage at ran
  rw [EStateM.run_bind, EStateM.run_get] at ran
  simp only [run_store, EStateM.Result.ok.injEq] at ran
  -- It stores a word, and hands nothing out.
  rw [← ran.2, Ram.stored_nextAddr]

/-- Mapping a page makes a table only if one is needed. -/
theorem mapPage_tight {vaddr paddr flags : Nat} (holds : space.Holds ram.mem)
    (within : space.Within start ram.nextAddr) (aligned : ram.nextAddr % pageSize = 0)
    (room : ram.nextAddr + pageSize ≤ map.freeRamEnd) (word : vaddr < wordLimit)
    (inside : paddr < wordLimit) (bits : pageV ||| flags < 1024) (tight : space.Tight)
    (ran : (map.mapPage space.root vaddr paddr flags).run ram = .ok () after) :
    after.nextAddr < map.freeRamEnd ∧ ∃ grown, Grown start ram space after grown ∧
      grown.leaf = Function.update space.leaf (vaddr / pageSize) (some (paddr, pageV ||| flags)) ∧
      grown.Tight := by
  have size : pageSize = 4096 := rfl
  have small := Sv32.vpn1_lt vaddr
  have low := Sv32.vpn0_lt vaddr
  have number := Space.Holds.number_eq word
  obtain ⟨high, grown, growth, leaf⟩ :=
    mapPage_grown holds within aligned room word inside bits ran
  obtain ⟨_, _, made, ensured, entered⟩ := (run_mapPage_ok inside).mp ran
  have moved := enterPage_nextAddr entered
  have counted := growth.size
  rw [size] at counted
  refine ⟨high, grown, growth, leaf, ?_⟩
  rw [Space.Tight] at tight ⊢
  rw [leaf, ← number]
  rcases (run_ensureTable0_ok holds small room).mp ensured with ⟨_, rfl⟩ | ⟨absent, _, rfl⟩
  · -- The table was there, so that no page was taken.
    have kept : tablesOf space.leaf ≤ tablesOf (Function.update space.leaf
        (Sv32.vpn1 vaddr * 1024 + Sv32.vpn0 vaddr) (some (paddr, pageV ||| flags))) := by
      apply tablesOf_mono
      intro other mapped
      by_cases here : other = Sv32.vpn1 vaddr * 1024 + Sv32.vpn0 vaddr
      · rw [here, Function.update_self]
        exact Option.some_ne_none _
      · rw [Function.update_of_ne here]
        exact mapped
    omega
  · -- A new table is the first in its range, where no page had a meaning.
    rw [tablesOf_update small low (holds.absent _ small absent).2]
    rw [Ram.stored_nextAddr, Ram.handedOut_nextAddr] at moved
    omega

/-- The last page is refused. -/
theorem run_allocPages_full (room : ram.nextAddr + pageSize ≤ map.freeRamEnd)
    (full : map.freeRamEnd ≤ ram.nextAddr + pageSize) :
    (map.allocPages 1).run ram =
      .error .outOfMemory { ram with nextAddr := ram.nextAddr + pageSize } := by
  -- The next address comes to the end of free memory, and does not wrap around.
  have fits : ram.nextAddr + pageSize < wordLimit := Nat.lt_of_le_of_lt room map.word
  have size : 1 * pageSize % wordLimit = pageSize := rfl
  rw [LinkerMap.allocPages, allocPagesBelow, size, run_bump fits, if_pos full]

/-- A table that is missing cannot be made of a page that is refused. -/
theorem ensureTable0_refused {vpn1 : Nat} {stopped : Ram} (holds : space.Holds ram.mem)
    (small : vpn1 < 1024) (absent : space.table vpn1 = none)
    (refused : (map.allocPages 1).run ram = .error .outOfMemory stopped) :
    (map.ensureTable0 space.root vpn1).run ram = .error .outOfMemory stopped := by
  -- The entry of the root is zero, so that a page is asked for.
  have invalid : loadWord ram.mem (space.root + 4 * vpn1) &&& pageV = 0 := by
    rw [(holds.absent _ small absent).1]
    decide
  unfold LinkerMap.ensureTable0
  rw [EStateM.run_bind, EStateM.run_get]
  dsimp only
  rw [if_pos invalid]
  exact Exec.run_bind_error refused

/-- Then the page that needs it cannot be mapped. -/
theorem mapPage_refused {vaddr paddr flags : Nat} {stopped : Ram} (whole : vaddr % pageSize = 0)
    (also : paddr % pageSize = 0)
    (refused : (map.ensureTable0 space.root (Sv32.vpn1 vaddr)).run ram =
      .error .outOfMemory stopped) :
    (map.mapPage space.root vaddr paddr flags).run ram = .error .outOfMemory stopped := by
  -- Both checks come first, and pass.
  unfold LinkerMap.mapPage
  simp only [if_neg (not_not.mpr whole), if_neg (not_not.mpr also), Sv32.vpn1_eq]
  exact Exec.run_bind_error refused

/-- Mapping a page returns, unless it takes a table for which there is no page. -/
theorem mapPage_outcome {vaddr paddr : Nat} (flags : Nat) (holds : space.Holds ram.mem)
    (within : space.Within start ram.nextAddr) (aligned : ram.nextAddr % pageSize = 0)
    (room : ram.nextAddr + pageSize ≤ map.freeRamEnd) (word : vaddr < wordLimit)
    (inside : paddr < wordLimit) (whole : vaddr % pageSize = 0) (also : paddr % pageSize = 0)
    (tight : space.Tight) :
    (∃ after, (map.mapPage space.root vaddr paddr flags).run ram = .ok () after) ∨
    ((∃ after, (map.mapPage space.root vaddr paddr flags).run ram = .error .outOfMemory after) ∧
      map.freeRamEnd ≤ ram.nextAddr + pageSize ∧
      space.count < tablesOf (Function.update space.leaf (vaddr / pageSize)
        (some (paddr, pageV ||| flags)))) := by
  have small := Sv32.vpn1_lt vaddr
  by_cases absent : space.table (Sv32.vpn1 vaddr) = none
  · by_cases more : ram.nextAddr + pageSize < map.freeRamEnd
    · exact .inl (mapPage_returns holds within aligned more whole also inside)
    · have full := Nat.not_lt.mp more
      have refused := ensureTable0_refused holds small absent (run_allocPages_full room full)
      refine .inr ⟨⟨_, mapPage_refused whole also refused⟩, full, ?_⟩
      rw [← Space.Holds.number_eq word,
        tablesOf_update small (Sv32.vpn0_lt vaddr) (holds.absent _ small absent).2]
      exact Nat.lt_succ_of_le tight
  · -- The table is there.
    have ensured : (map.ensureTable0 space.root (Sv32.vpn1 vaddr)).run ram = .ok () ram :=
      (run_ensureTable0_ok holds small room).mpr (.inl ⟨absent, rfl⟩)
    obtain ⟨_, _, _, _, _, first, limit, points⟩ :=
      ensureTable0_grown holds within aligned room small ensured
    exact .inl ⟨_, (run_mapPage_ok inside).mpr
      ⟨whole, also, ram, ensured, run_enterPage points first limit⟩⟩

/--
A loop that counts up by pages ends with its last turn, or with the first turn that fails.

Its counter stays below a limit, and there are enough turns to get there.
-/
theorem forPages_outcome {bound limit : Nat} {body : Nat → Exec Halt Ram Unit} {fault : Halt}
    {stuck : Prop} (invariant : Nat → Ram → Prop)
    (turn : ∀ counter ram, counter < bound → invariant counter ram →
      (∃ after, (body counter).run ram = .ok () after ∧ invariant (counter + pageSize) after) ∨
      ((∃ after, (body counter).run ram = .error fault after) ∧ stuck))
    (inside : ∀ counter ram, invariant counter ram → counter ≤ limit) (word : limit < wordLimit)
    {fuel counter : Nat} (enough : limit < counter + fuel * pageSize)
    (first : invariant counter ram) :
    (∃ after last, (forPages bound body fuel counter).run ram = .ok () after ∧
      bound ≤ last ∧ invariant last after) ∨
    ((∃ after, (forPages bound body fuel counter).run ram = .error fault after) ∧ stuck) := by
  -- The induction is on the turns that are left, of which there are enough.
  induction fuel generalizing counter ram with
  | zero =>
    have below := inside counter ram first
    omega
  | succ fuel ih =>
    unfold forPages
    by_cases more : counter < bound
    · rw [if_pos more]
      rcases turn counter ram more first with ⟨middle, once, next⟩ | ⟨⟨middle, failed⟩, why⟩
      · have below := inside _ _ next
        have advanced : (counter + pageSize) % wordLimit = counter + pageSize :=
          Nat.mod_eq_of_lt (Nat.lt_of_le_of_lt below word)
        rw [Nat.succ_mul] at enough
        rcases ih (by omega) next with ⟨after, last, rest, reached, holds⟩ | ⟨⟨after, rest⟩, why⟩
        · rw [← advanced] at rest
          exact .inl ⟨after, last, Exec.run_bind_ok.mpr ⟨(), middle, once, rest⟩, reached, holds⟩
        · refine .inr ⟨⟨after, ?_⟩, why⟩
          rw [Exec.run_bind_of_ok once, advanced]
          exact rest
      · exact .inr ⟨⟨middle, Exec.run_bind_error failed⟩, why⟩
    · rw [if_neg more]
      exact .inl ⟨ram, counter, EStateM.run_pure _ _, Nat.not_lt.mp more, first⟩

/-- The tables that the pages of the kernel and of free memory need. -/
def LinkerMap.kernelTables (map : LinkerMap) : Nat :=
  (map.freeRamEnd - 1) / (1024 * pageSize) + 1 - kernelBase / (1024 * pageSize)

/-- The frames that an image needs. -/
def framesFor (imageSize : Nat) : Nat := (imageSize + (pageSize - 1)) / pageSize

/-- The tables that so many frames of an image need. -/
def userTables (frames : Nat) : Nat := (frames + 1023) / 1024

/-- The pages that creating a process takes: its root, its tables, and its frames. -/
def LinkerMap.pagesFor (map : LinkerMap) (imageSize : Nat) : Nat :=
  1 + (map.kernelTables + userTables (framesFor imageSize)) + framesFor imageSize

/-- The pages of free memory. -/
def freePages : Nat := freeRamSize / pageSize

/-- Which pages of a process have a meaning. -/
theorem pagesOf_ne_none {top number : Nat} : pagesOf top frames number ≠ none ↔
    (kernelBase ≤ number * pageSize ∧ number * pageSize < top) ∨
      (userBase ≤ number * pageSize ∧ number - userBase / pageSize < frames.length) := by
  -- The cases are those of the definition, and its first one comes first.
  rw [pagesOf]
  by_cases kernel : kernelBase ≤ number * pageSize ∧ number * pageSize < top
  · rw [if_pos kernel]
    exact iff_of_true (Option.some_ne_none _) (.inl kernel)
  · rw [if_neg kernel]
    by_cases user : userBase ≤ number * pageSize
    · rw [if_pos user, Ne, Option.map_eq_none_iff, List.getElem?_eq_none_iff, not_le]
      exact ⟨fun early => .inr ⟨user, early⟩, fun either =>
        either.elim (fun inside => absurd inside kernel) fun late => late.2⟩
    · rw [if_neg user]
      exact iff_of_false (fun different => different rfl) fun either =>
        either.elim kernel fun late => user late.1

/-- The indices of the root for so many frames of an image. -/
def userIndices (frames : Nat) : Finset Nat :=
  Finset.Ico (userBase / (1024 * pageSize)) (userBase / (1024 * pageSize) + userTables frames)

/-- The indices of the root for the kernel and free memory. -/
def LinkerMap.kernelIndices (map : LinkerMap) : Finset Nat :=
  Finset.Ico (kernelBase / (1024 * pageSize)) ((map.freeRamEnd - 1) / (1024 * pageSize) + 1)

/-- The frames that fit into free memory are mapped far below the kernel. -/
theorem disjoint_indices (map : LinkerMap) {count : Nat} (few : count ≤ freePages) :
    Disjoint (userIndices count) map.kernelIndices := by
  -- The user lives between 16 MiB and 80 MiB, the kernel above 2 GiB.
  rw [Finset.disjoint_left]
  intro i user kernel
  rw [userIndices, Finset.mem_Ico] at user
  rw [LinkerMap.kernelIndices, Finset.mem_Ico] at kernel
  simp only [freePages, freeRamSize, userBase, kernelBase, pageSize, userTables] at *
  omega

/-- The indices of the root in whose range a page of a process has a meaning. -/
theorem pagesOf_indices (map : LinkerMap) (few : frames.length ≤ freePages) :
    ((Finset.range 1024).filter fun i =>
      ∃ j ∈ Finset.range 1024, pagesOf map.freeRamEnd frames (i * 1024 + j) ≠ none) =
      userIndices frames.length ∪ map.kernelIndices := by
  have above := map.kernelBase_le
  have word := map.word
  have size : 0 < freeRamSize := by decide
  have base := map.base
  have procs := map.below
  ext i
  rw [Finset.mem_filter, Finset.mem_union, userIndices, LinkerMap.kernelIndices, Finset.mem_Ico,
    Finset.mem_Ico, Finset.mem_range]
  simp only [pagesOf_ne_none, Finset.mem_range]
  simp only [LinkerMap.freeRamEnd, freePages, freeRamSize, userBase, kernelBase, pageSize,
    wordLimit, userTables] at *
  constructor
  · rintro ⟨_, j, low, kernel | user⟩
    · omega
    · omega
  · rintro (user | kernel)
    · exact ⟨by omega, 0, by omega, .inr (by omega)⟩
    · -- The kernel starts in the middle of the range of its first table.
      refine ⟨by omega, ?_⟩
      by_cases first : i = 512
      · exact ⟨512, by omega, .inl (by omega)⟩
      · exact ⟨0, by omega, .inl (by omega)⟩

/-- The pages of a process need the tables of the kernel and those of its frames. -/
theorem tablesOf_pagesOf (map : LinkerMap) (few : frames.length ≤ freePages) :
    tablesOf (pagesOf map.freeRamEnd frames) = map.kernelTables + userTables frames.length := by
  rw [tablesOf, pagesOf_indices map few, Finset.card_union_of_disjoint (disjoint_indices map few),
    userIndices, LinkerMap.kernelIndices, Nat.card_Ico, Nat.card_Ico, Nat.add_sub_cancel_left,
    LinkerMap.kernelTables, Nat.add_comm]

variable {procs : Nat → ProcStruct} {counter off : Nat}

/-- Free memory from an address on is too small for a process. -/
def LinkerMap.Short (map : LinkerMap) (start imageSize : Nat) : Prop :=
  map.freeRamEnd ≤ start + pageSize * map.pagesFor imageSize

/-- A turn maps one more page of the kernel, unless memory is too small. -/
theorem KernelTurn.mapKernelPage_outcome
    (turn : KernelTurn map start source image imageSize procs counter ram space)
    (tight : space.Tight) (more : counter < map.freeRamEnd) :
    (∃ after grown, (map.mapKernelPage start counter).run ram = .ok () after ∧
      KernelTurn map start source image imageSize procs (counter + pageSize) after grown ∧
      grown.Tight) ∨
    ((∃ after, (map.mapKernelPage start counter).run ram = .error .outOfMemory after) ∧
      map.Short start imageSize) := by
  have building := turn.building
  have word : counter < wordLimit := Nat.lt_trans more map.word
  obtain ⟨last, _⟩ := turn.next more
  rw [LinkerMap.mapKernelPage]
  rcases mapPage_outcome (pageR ||| pageW ||| pageX) building.holds building.within
    building.next_aligned building.room word word turn.aligned turn.aligned tight with
    ⟨after, ran⟩ | ⟨failed, full, needed⟩
  · -- The page was mapped, with a table only if its index had none.
    obtain ⟨high, grown, growth, leaf, still⟩ := mapPage_tight building.holds building.within
      building.next_aligned building.room word word (by decide) tight ran
    rw [building.root] at ran
    exact .inl ⟨after, grown, ran, turn.grow more growth high leaf, still⟩
  · -- The table that is missing is one of those that the kernel needs.
    have later : tablesOf (pagesOf (counter + pageSize) []) ≤
        tablesOf (pagesOf map.freeRamEnd []) := by
      refine tablesOf_mono fun number mapped => ?_
      rw [pagesOf_ne_none] at mapped ⊢
      exact mapped.imp_left fun inside => ⟨inside.1, Nat.lt_of_lt_of_le inside.2 last⟩
    have all : tablesOf (pagesOf map.freeRamEnd []) = map.kernelTables + userTables 0 :=
      tablesOf_pagesOf map (Nat.zero_le _)
    have kernel := pagesOf_kernel turn.aligned turn.first
    have flags : pageV ||| (pageR ||| pageW ||| pageX) = kernelFlags := rfl
    rw [turn.leaf, flags, kernel] at needed
    have size := building.size
    rw [building.root] at failed
    refine .inr ⟨failed, ?_⟩
    simp only [LinkerMap.Short, LinkerMap.pagesFor, List.length_nil, userTables, pageSize] at *
    omega

/-- A filled page that cannot be mapped ends the turn. -/
theorem run_loadPage_error {table1 : Nat} {fault : Halt} {stopped : Ram}
    (room : ram.nextAddr + pageSize < map.freeRamEnd) (word : userBase + off < wordLimit)
    (failed : (map.mapPage table1 (userBase + off) ram.nextAddr
      (pageU ||| pageR ||| pageW ||| pageX)).run ((ram.handedOut pageSize).memcpy map ram.nextAddr
        (image + off) (Building.copySize imageSize off)) = .error fault stopped) :
    (map.loadPage table1 image imageSize off).run ram = .error fault stopped := by
  unfold LinkerMap.loadPage
  rw [Nat.mod_eq_of_lt word]
  have given := (run_allocPages_ok (Nat.le_of_lt room)).mpr ⟨room, rfl, rfl⟩
  -- The copy always returns.
  rw [Exec.run_bind_of_ok given]
  exact (Exec.run_bind_of_ok (EStateM.run_modify _ _)).trans failed

/-- A turn loads one more page of the image, unless memory is too small. -/
theorem UserTurn.loadPage_outcome
    (turn : UserTurn map start source image imageSize procs off ram space frames)
    (tight : space.Tight) (outside : map.Outside image imageSize) (more : off < imageSize) :
    (∃ after grown, (map.loadPage start image imageSize off).run ram = .ok () after ∧
      UserTurn map start source image imageSize procs (off + pageSize) after grown
        (frames ++ [ram.nextAddr]) ∧ grown.Tight) ∨
    ((∃ after, (map.loadPage start image imageSize off).run ram = .error .outOfMemory after) ∧
      map.Short start imageSize) := by
  have building := turn.building
  have below := turn.below
  have count := turn.count
  have size := building.size
  have low := building.low
  have limit : kernelBase < wordLimit := by decide
  have word : userBase + off < wordLimit := by omega
  -- First comes the page for the frame, then perhaps one for its table.
  by_cases room : ram.nextAddr + pageSize < map.freeRamEnd
  · have loaded := turn.fill outside more room
    have few : (frames ++ [ram.nextAddr]).length ≤ freePages := by
      rw [List.length_append, List.length_singleton]
      simp only [LinkerMap.freeRamEnd, freePages, freeRamSize, pageSize] at *
      omega
    have inside : ram.nextAddr < wordLimit := Nat.lt_trans building.high map.word
    have aligned : (userBase + off) % pageSize = 0 := by
      rw [count]
      simp only [userBase, pageSize]
      omega
    rcases mapPage_outcome (pageU ||| pageR ||| pageW ||| pageX) loaded.holds loaded.within
      loaded.next_aligned loaded.room word inside aligned building.next_aligned tight with
      ⟨after, ran⟩ | ⟨⟨stopped, failed⟩, full, needed⟩
    · -- Both are there, and no table was made that the frames do not need.
      obtain ⟨high, grown, growth, leaf, still⟩ := mapPage_tight loaded.holds loaded.within
        loaded.next_aligned loaded.room word inside (by decide) tight ran
      rw [loaded.root] at ran
      exact .inl ⟨after, grown, (run_loadPage_ok building.room word).mpr ⟨room, ran⟩,
        turn.grow outside more room growth high leaf, still⟩
    · -- The table that is missing is one of those that the frames need.
      have all := tablesOf_pagesOf map few
      have user : Function.update (pagesOf map.freeRamEnd frames)
          ((userBase + pageSize * frames.length) / pageSize) (some (ram.nextAddr, userFlags)) =
          pagesOf map.freeRamEnd (frames ++ [ram.nextAddr]) :=
        pagesOf_user ram.nextAddr (by omega)
      have flags : pageV ||| (pageU ||| pageR ||| pageW ||| pageX) = userFlags := rfl
      rw [turn.leaf, count, flags, user, all, List.length_append, List.length_singleton] at needed
      rw [loaded.root] at failed
      refine .inr ⟨⟨stopped, run_loadPage_error room word failed⟩, ?_⟩
      rw [Ram.memcpy_nextAddr, Ram.handedOut_nextAddr] at full
      simp only [LinkerMap.Short, LinkerMap.pagesFor, framesFor, userTables, pageSize] at *
      omega
  · -- There is no page for the frame.
    have full := Nat.not_lt.mp room
    have few : frames.length ≤ freePages := by
      have high := building.high
      simp only [LinkerMap.freeRamEnd, freePages, freeRamSize, pageSize] at *
      omega
    have all := tablesOf_pagesOf map few
    rw [Space.Tight, turn.leaf, all] at tight
    refine .inr ⟨⟨_, Exec.run_bind_error (run_allocPages_full building.room full)⟩, ?_⟩
    simp only [LinkerMap.Short, LinkerMap.pagesFor, framesFor, userTables, pageSize] at *
    omega

/-- The turns of a loop take its counter beyond every address. -/
theorem maxTurns_enough {counter limit : Nat} (word : limit < wordLimit) :
    limit < counter + maxTurns * pageSize := by
  have turns : maxTurns * pageSize = wordLimit + pageSize := by decide
  omega

/-- The first loop maps the kernel, unless memory is too small. -/
theorem KernelTurn.loop_outcome
    (first : KernelTurn map start source image imageSize procs kernelBase ram space)
    (tight : space.Tight) :
    (∃ after grown, (forPages map.freeRamEnd (map.mapKernelPage start) maxTurns kernelBase).run ram
        = .ok () after ∧
      UserTurn map start source image imageSize procs 0 after grown [] ∧ grown.Tight) ∨
    ((∃ after, (forPages map.freeRamEnd (map.mapKernelPage start) maxTurns kernelBase).run ram
        = .error .outOfMemory after) ∧ map.Short start imageSize) := by
  have turns : ∀ counter now, counter < map.freeRamEnd →
      (∃ space, KernelTurn map start source image imageSize procs counter now space ∧ space.Tight) →
      (∃ after, (map.mapKernelPage start counter).run now = .ok () after ∧
        ∃ space, KernelTurn map start source image imageSize procs (counter + pageSize) after
          space ∧ space.Tight) ∨
      ((∃ after, (map.mapKernelPage start counter).run now = .error .outOfMemory after) ∧
        map.Short start imageSize) := by
    rintro counter now more ⟨space, turn, tight⟩
    rcases turn.mapKernelPage_outcome tight more with ⟨after, grown, ran, next, still⟩ | short
    · exact .inl ⟨after, ran, grown, next, still⟩
    · exact .inr short
  rcases forPages_outcome _ turns (fun _ _ ⟨_, turn, _⟩ => turn.last) map.word
    (maxTurns_enough map.word) ⟨space, first, tight⟩ with
    ⟨after, last, ran, reached, grown, turn, still⟩ | short
  · -- The counter never goes beyond the end, so the loop leaves it there.
    have finished : last = map.freeRamEnd := Nat.le_antisymm turn.last reached
    rw [finished] at turn
    exact .inl ⟨after, grown, ran, ⟨turn.building, turn.leaf, rfl, Nat.add_pos_right _ (by decide),
      turn.procs⟩, still⟩
  · exact .inr short

/-- The second loop loads the image, unless memory is too small. -/
theorem UserTurn.loop_outcome
    (first : UserTurn map start source image imageSize procs 0 ram space [])
    (tight : space.Tight) (outside : map.Outside image imageSize) :
    (∃ after, (forPages imageSize (map.loadPage start image imageSize) maxTurns 0).run ram
        = .ok () after ∧ after.nextAddr < map.freeRamEnd ∧
        after.nextAddr = start + pageSize * map.pagesFor imageSize) ∨
    ((∃ after, (forPages imageSize (map.loadPage start image imageSize) maxTurns 0).run ram
        = .error .outOfMemory after) ∧ map.Short start imageSize) := by
  -- One turn of the loop, without the names of what it builds.
  have turns : ∀ off now, off < imageSize →
      (∃ space frames, UserTurn map start source image imageSize procs off now space frames ∧
        space.Tight) →
      (∃ after, (map.loadPage start image imageSize off).run now = .ok () after ∧
        ∃ space frames, UserTurn map start source image imageSize procs (off + pageSize) after space
          frames ∧ space.Tight) ∨
      ((∃ after, (map.loadPage start image imageSize off).run now = .error .outOfMemory after) ∧
        map.Short start imageSize) := by
    rintro off now more ⟨space, frames, turn, tight⟩
    rcases turn.loadPage_outcome tight outside more with ⟨after, grown, ran, next, still⟩ | short
    · exact .inl ⟨after, ran, grown, _, next, still⟩
    · exact .inr short
  have limit : kernelBase < wordLimit := by decide
  have inside : ∀ off now, (∃ space frames, UserTurn map start source image imageSize procs off now
      space frames ∧ space.Tight) → off ≤ kernelBase := by
    rintro off now ⟨space, frames, turn, _⟩
    have below := turn.below
    omega
  -- The loop ends after the last page, or when a page is missing.
  rcases forPages_outcome _ turns inside limit (maxTurns_enough limit)
    ⟨space, [], first, tight⟩ with ⟨after, off, ran, reached, grown, frames, turn, still⟩ | short
  · -- All that was taken is the root, the tables that are needed, and the frames.
    have building := turn.building
    have high := building.high
    have low := building.low
    have size := building.size
    have count := turn.count
    have last := turn.last
    have few : frames.length ≤ freePages := by
      simp only [LinkerMap.freeRamEnd, freePages, freeRamSize, pageSize] at *
      omega
    have least := building.holds.tablesOf_le
    have all := tablesOf_pagesOf map few
    rw [Space.Tight, turn.leaf, all] at still
    rw [turn.leaf, all] at least
    have whole : framesFor imageSize = frames.length := by
      simp only [framesFor, pageSize] at *
      omega
    refine .inl ⟨after, ran, high, ?_⟩
    rw [size, LinkerMap.pagesFor, whole, Nat.le_antisymm still least]
  · exact .inr short

/--
With a free slot, a process is created if memory has its pages, and memory runs out otherwise.

A call that returns has taken exactly so many pages.
-/
theorem createProcess_outcome (reached : Reached map ram) (outside : map.Outside image imageSize)
    {slot : Nat} (free :
      (List.range procNoMax).find? (fun i => (ram.procs i).state = procStateUnused) = some slot) :
    (∃ after, (map.createProcess image imageSize).run ram = .ok slot after ∧
      after.nextAddr < map.freeRamEnd ∧
      after.nextAddr = ram.nextAddr + pageSize * map.pagesFor imageSize) ∨
    ((∃ after, (map.createProcess image imageSize).run ram = .error .outOfMemory after) ∧
      map.Short ram.nextAddr imageSize) := by
  obtain ⟨low, aligned, high⟩ := reached.next
  -- The stack is cleared before memory is handed out.
  obtain ⟨cleared, stacked⟩ : ∃ cleared, (modifyProc slot fun proc =>
      { proc with
        stack := storeWord (memset proc.stack 0 0 8192) (8192 - 13 * 4) map.userEntry }).run ram
      = .ok () cleared := ⟨_, EStateM.run_modify _ _⟩
  obtain ⟨_, sameNext, _⟩ := run_modifyProc stacked
  rw [← sameNext] at low aligned high ⊢
  unfold LinkerMap.createProcess
  rw [Exec.run_bind_of_ok (EStateM.run_get ram), free]
  dsimp only
  rw [Exec.run_bind_of_ok stacked]
  by_cases more : cleared.nextAddr + pageSize < map.freeRamEnd
  · have given := (run_allocPages_ok (map.room aligned high)).mpr ⟨more, rfl, rfl⟩
    have first := KernelTurn.begin low aligned more image imageSize
    have tight : Space.Tight ⟨cleared.nextAddr, fun _ => none, fun _ => none⟩ := by
      rw [Space.Tight, Space.count]
      simp
    rw [Exec.run_bind_of_ok given]
    -- The loop over the kernel and the free memory, then the one over the image.
    rcases first.loop_outcome tight with
      ⟨mapped, grown, ran, second, still⟩ | ⟨⟨stopped, ran⟩, short⟩
    · rw [Exec.run_bind_of_ok ran]
      rcases second.loop_outcome still outside with
        ⟨loaded, ran, inside, taken⟩ | ⟨⟨stopped, ran⟩, short⟩
      · rw [Exec.run_bind_of_ok ran]
        obtain ⟨named, fields⟩ : ∃ named, (modifyProc slot fun proc =>
            { proc with
              pid := slot + 1, state := procStateRunnable
              sp := map.slot slot + 16 + 8192 - 13 * 4, pageTable := cleared.nextAddr }).run loaded
            = .ok () named := ⟨_, EStateM.run_modify _ _⟩
        obtain ⟨_, next, _⟩ := run_modifyProc fields
        rw [Exec.run_bind_of_ok fields]
        rw [← next] at inside taken
        exact .inl ⟨named, EStateM.run_pure _ _, inside, taken⟩
      · exact .inr ⟨⟨stopped, Exec.run_bind_error ran⟩, short⟩
    · exact .inr ⟨⟨stopped, Exec.run_bind_error ran⟩, short⟩
  · -- There is no page for the root.
    have full := Nat.not_lt.mp more
    refine .inr ⟨⟨_, Exec.run_bind_error (run_allocPages_full (map.room aligned high) full)⟩, ?_⟩
    simp only [LinkerMap.Short, LinkerMap.pagesFor, pageSize] at *
    omega

/-- Without a free slot, no process is created. -/
theorem createProcess_full
    (full : (List.range procNoMax).find? (fun i => (ram.procs i).state = procStateUnused) = none) :
    (map.createProcess image imageSize).run ram = .error .noFreeSlots ram := by
  unfold LinkerMap.createProcess
  rw [Exec.run_bind_of_ok (EStateM.run_get ram), full]
  rfl

/-- A call that returns has found a slot, and has taken the pages that it needs. -/
theorem createProcess_taken (reached : Reached map ram) (outside : map.Outside image imageSize)
    {slot : Nat} (ran : (map.createProcess image imageSize).run ram = .ok slot after) :
    (List.range procNoMax).find? (fun i => (ram.procs i).state = procStateUnused) = some slot ∧
      after.nextAddr < map.freeRamEnd ∧
      after.nextAddr = ram.nextAddr + pageSize * map.pagesFor imageSize := by
  cases free : (List.range procNoMax).find? fun i => (ram.procs i).state = procStateUnused with
  -- With no free slot the creation panics.
  | none =>
    rw [createProcess_full free] at ran
    exact absurd ran nofun
  | some i =>
    -- With one it either has the pages that it needs, or fails for want of them.
    rcases createProcess_outcome reached outside free with
      ⟨_, same, inside, taken⟩ | ⟨⟨_, failed⟩, _⟩
    · rw [ran, EStateM.Result.ok.injEq] at same
      obtain ⟨rfl, rfl⟩ := same
      exact ⟨rfl, inside, taken⟩
    · rw [ran] at failed
      exact absurd failed nofun

/-- The pages that were taken for the processes that some events have created. -/
def LinkerMap.pagesTaken (map : LinkerMap) (events : List MemoryEvent) : Nat :=
  ((createdIn events).map fun p => map.pagesFor p.imageSize).sum

variable {atBoot : Nat → UInt8} {events : List MemoryEvent}

/-- An event takes pages for the process that it creates. -/
theorem LinkerMap.pagesTaken_concat (map : LinkerMap) (events : List MemoryEvent)
    (event : MemoryEvent) : map.pagesTaken (events ++ [event]) = map.pagesTaken events +
      (event.creation.toList.map fun p => map.pagesFor p.imageSize).sum := by
  rw [pagesTaken, createdIn_concat, List.map_append, List.sum_append, pagesTaken]

/-- All that was ever handed out are the pages of the processes that were created. -/
theorem MemoryRun.nextAddr_eq (run : MemoryRun map atBoot ram events) :
    ram.nextAddr = map.freeRam + pageSize * map.pagesTaken events := by
  -- Nothing but `create_process` moves the next address.
  induction run with
  | boot _ => rfl
  | create before outside ran ih =>
    obtain ⟨_, _, taken⟩ := createProcess_taken before.reached outside ran
    rw [taken, ih, LinkerMap.pagesTaken_concat, Nat.mul_add, Nat.add_assoc]
    simp [MemoryEvent.creation]
  | store before member word allowed byte ih =>
    rw [LinkerMap.pagesTaken_concat]
    exact ih
  | kernel before mem tables taken ih =>
    rw [LinkerMap.pagesTaken_concat]
    exact ih

/--
The budget of the C kernel, to the page.

Each process takes a root, the tables that its pages need, and its frames, and nothing else is ever
handed out. A call of `create_process` returns exactly if a slot is free and free memory has one
page more than all of this, and otherwise reports what has run out.
-/
theorem MemoryRun.createProcess_budget (run : MemoryRun map atBoot ram events)
    (outside : map.Outside image imageSize) :
    ram.nextAddr = map.freeRam + pageSize * map.pagesTaken events ∧
    (∀ slot, (∃ after, (map.createProcess image imageSize).run ram = .ok slot after) ↔
      (List.range procNoMax).find? (fun i => (ram.procs i).state = procStateUnused) = some slot ∧
      map.pagesTaken events + map.pagesFor imageSize < freePages) ∧
    ((∃ after, (map.createProcess image imageSize).run ram = .error .noFreeSlots after) ↔
      ∀ slot < procNoMax, (ram.procs slot).state ≠ procStateUnused) ∧
    ((∃ after, (map.createProcess image imageSize).run ram = .error .outOfMemory after) ↔
      (∃ slot < procNoMax, (ram.procs slot).state = procStateUnused) ∧
      freePages ≤ map.pagesTaken events + map.pagesFor imageSize) := by
  have start := run.nextAddr_eq
  have stop : map.freeRamEnd = map.freeRam + pageSize * freePages := rfl
  have enough : map.Short ram.nextAddr imageSize ↔
      freePages ≤ map.pagesTaken events + map.pagesFor imageSize := by
    rw [LinkerMap.Short, start, stop]
    simp only [pageSize]
    omega
  refine ⟨start, ?_⟩
  cases free : (List.range procNoMax).find? fun i => (ram.procs i).state = procStateUnused with
  -- A full array is found before any page is taken.
  | none =>
    have full : ∀ slot < procNoMax, (ram.procs slot).state ≠ procStateUnused := by
      intro slot small
      simpa using List.find?_eq_none.mp free slot (List.mem_range.mpr small)
    rw [createProcess_full free]
    refine ⟨fun slot => iff_of_false (by simp) (by simp), iff_of_true ⟨_, rfl⟩ full,
      iff_of_false (by simp) ?_⟩
    rintro ⟨⟨slot, small, unused⟩, _⟩
    exact full slot small unused
  | some i =>
    obtain ⟨small, unused⟩ := findSlot_eq_some free
    have taken : ¬ ∀ slot < procNoMax, (ram.procs slot).state ≠ procStateUnused :=
      fun full => full i small unused
    rcases createProcess_outcome run.reached outside free with
      ⟨after, ran, inside, next⟩ | ⟨⟨stopped, ran⟩, short⟩
    · -- What the call has taken ends before the end of free memory.
      have fits : map.pagesTaken events + map.pagesFor imageSize < freePages := by
        rw [next] at inside
        exact Nat.not_le.mp fun short => Nat.not_lt.mpr (enough.mpr short) inside
      rw [ran]
      refine ⟨fun slot => ?_, iff_of_false (by simp) taken,
        iff_of_false (by simp) fun short => ?_⟩
      · rw [Option.some.injEq]
        constructor
        · rintro ⟨_, same⟩
          rw [EStateM.Result.ok.injEq] at same
          exact ⟨same.1, fits⟩
        · rintro ⟨rfl, _⟩
          exact ⟨after, rfl⟩
      · exact Nat.not_lt.mpr short.2 fits
    · rw [ran]
      -- The call ran out of pages, which it does only if they are too few.
      have lacks := enough.mp short
      refine ⟨fun slot => iff_of_false (by simp) fun fits => Nat.not_lt.mpr lacks fits.2,
        iff_of_false (by simp) taken, iff_of_true ⟨stopped, rfl⟩ ⟨⟨i, small, unused⟩, lacks⟩⟩

/-- After two calls a small image takes 21 more pages, and one as big as free memory takes too many. -/
theorem createProcess_budget_third : ∃ ram,
    MemoryRun smallKernel bootRam.mem ram
      [.create 0 0x80201000 5000, .create 1 0x80201000 5000] ∧
    ram.nextAddr = smallKernel.freeRam + pageSize * 42 ∧
    (∃ after, (smallKernel.createProcess 0x80201000 5000).run ram = .ok 2 after) ∧
    ∃ after, (smallKernel.createProcess 0x10000000 freeRamSize).run ram
      = .error .outOfMemory after := by
  obtain ⟨ram, run, free⟩ := exists_two_programs
  have budget := run.createProcess_budget
    (.inl (by decide) : smallKernel.Outside 0x80201000 5000)
  refine ⟨ram, run, budget.1, (budget.2.1 2).mpr ⟨free, by decide⟩, ?_⟩
  -- Two programs are there, the third slot is unused, and there are pages left.
  obtain ⟨_, unused⟩ := findSlot_eq_some free
  exact (run.createProcess_budget (.inl (by decide))).2.2.2.mpr
    ⟨⟨2, by decide, unused⟩, by decide⟩

end Os1k.C
