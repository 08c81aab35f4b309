import Os1k.C.Creation

/-! What the processes of the C kernel share: no page of a user program, whoever is created. -/

namespace Os1k.C

open Riscv (wordLimit)
open Bytes

/-- A process that was created, and the size of its image. -/
structure Creation where
  slot : Nat
  imageSize : Nat
  deriving DecidableEq, Repr

/-- The processes that some calls of `create_process` have created, one after another. -/
inductive Creations (map : LinkerMap) : Ram → List Creation → Prop where
  | boot (mem : Nat → UInt8) {procs : Nat → ProcStruct}
      (unused : ∀ i, (procs i).state = procStateUnused) : Creations map ⟨mem, map.freeRam, procs⟩ []
  | create {ram after : Ram} {made : List Creation} {image imageSize slot : Nat}
      (before : Creations map ram made) (outside : map.Outside image imageSize)
      (ran : (map.createProcess image imageSize).run ram = .ok slot after) :
      Creations map after (made ++ [⟨slot, imageSize⟩])

/-- What the table of a process gives for an address. -/
def Ram.translate (ram : Ram) (slot v : Nat) : Sv32.Outcome :=
  Sv32.walk (loadWord ram.mem) (satpOf (ram.procs slot).pageTable) v

/-- A page that the hardware reads as a table of a process: the root, or one that it points to. -/
def Ram.TablePage (ram : Ram) (slot page : Nat) : Prop :=
  page = (ram.procs slot).pageTable ∨ ∃ i < 1024,
    Sv32.Valid (Sv32.flags (loadWord ram.mem ((ram.procs slot).pageTable + 4 * i))) ∧
      page = Sv32.ppn (loadWord ram.mem ((ram.procs slot).pageTable + 4 * i)) * pageSize

/-- The memory that was handed out for a process, and what it is used for. -/
structure Region where
  start : Nat
  stop : Nat
  space : Space
  frames : List Nat

/-- A process has its table and its frames in its region. -/
structure Resident (map : LinkerMap) (ram : Ram) (made : Creation) (region : Region) : Prop where
  table : (ram.procs made.slot).pageTable = region.space.root
  taken : (ram.procs made.slot).state ≠ procStateUnused
  low : map.freeRam ≤ region.start
  high : region.stop ≤ ram.nextAddr
  holds : region.space.Holds ram.mem
  within : region.space.Within region.start region.stop
  leaf : region.space.leaf = pagesOf map.freeRamEnd region.frames
  frame : ∀ frame ∈ region.frames, region.start ≤ frame ∧ frame + pageSize ≤ region.stop ∧
    frame % pageSize = 0 ∧ ¬ region.space.IsTable frame
  distinct : region.frames.Nodup
  fits : pageSize * region.frames.length < made.imageSize + pageSize

/-- Every process has a region of its own. -/
structure Separate (map : LinkerMap) (ram : Ram) (made : List Creation) (region : Nat → Region) :
    Prop where
  high : ram.nextAddr < map.freeRamEnd
  resident : ∀ p ∈ made, Resident map ram p (region p.slot)
  apart : ∀ p ∈ made, ∀ q ∈ made, p.slot ≠ q.slot →
    (region p.slot).stop ≤ (region q.slot).start ∨ (region q.slot).stop ≤ (region p.slot).start

variable {map : LinkerMap} {ram after : Ram} {made : List Creation}

/-- Calls of `create_process` are among what may happen to memory. -/
theorem Creations.reached (creations : Creations map ram made) : Reached map ram := by
  -- The two differ in what else may happen.
  induction creations with
  | boot mem _ => exact .boot mem _
  | create _ outside ran ih => exact ih.create outside ran

namespace Resident

variable {p : Creation} {region : Region}

/-- A process that was created before is not touched by another call. -/
theorem create (resident : Resident map ram p region) {slot : Nat} {proc : ProcStruct}
    (memory : ∀ a < ram.nextAddr, after.mem a = ram.mem a) (later : ram.nextAddr ≤ after.nextAddr)
    (procs : after.procs = Function.update ram.procs slot proc) (other : p.slot ≠ slot) :
    Resident map after p region := by
  -- All that was handed out before lies below the new region, where nothing is written.
  have high := resident.high
  have same : after.procs p.slot = ram.procs p.slot := by
    rw [procs, Function.update_of_ne other]
  refine ⟨?_, ?_, resident.low, by omega, ?_, resident.within, resident.leaf, resident.frame,
    resident.distinct, resident.fits⟩
  · rw [same]
    exact resident.table
  · rw [same]
    exact resident.taken
  · refine resident.holds.congr fun page table o byte => memory _ ?_
    have bounds := resident.within.isTable table
    omega

/-- The hardware reads only pages of the table as tables. -/
theorem isTable (resident : Resident map ram p region) {page : Nat}
    (read : ram.TablePage p.slot page) : region.space.IsTable page := by
  unfold Ram.TablePage at read
  rw [resident.table] at read
  rcases read with root | ⟨i, small, valid, rfl⟩
  · exact .inl root
  · cases table : region.space.table i with
    | none =>
      -- An entry for which there is no table is zero.
      rw [(resident.holds.absent i small table).1] at valid
      exact absurd valid (by decide)
    | some page =>
      have aligned := (resident.within.table i small page table).2.2.1
      rw [(resident.holds.present i small page table).1, Sv32.ppn_entry (by decide)]
      exact .inr ⟨i, small, table.trans (congrArg some (number_mul aligned).symm)⟩

/-- An address that the user may touch lies in a page of the image, and leads to its frame. -/
theorem frame_of_translate (resident : Resident map ram p region)
    (high : ram.nextAddr < map.freeRamEnd) {v paddr flags : Nat} (word : v < wordLimit)
    (walked : ram.translate p.slot v = .leaf paddr flags) (user : flags &&& pageU ≠ 0) :
    ∃ k frame, region.frames[k]? = some frame ∧ v / pageSize = userBase / pageSize + k ∧
      paddr / pageSize * pageSize = frame := by
  -- Only what the table maps can be found, and of that only the image is for the user.
  have limit : region.stop < wordLimit :=
    Nat.lt_of_le_of_lt resident.high (Nat.lt_trans high map.word)
  unfold Ram.translate at walked
  rw [resident.table] at walked
  cases mapped : region.space.leaf (v / pageSize) with
  | none =>
    rw [resident.holds.walk_none resident.within limit word mapped] at walked
    exact absurd walked nofun
  | some leaf =>
    obtain ⟨target, bits⟩ := leaf
    have shape := mapped
    rw [resident.leaf] at shape
    rcases pagesOf_cases shape with ⟨here, rfl⟩ | ⟨k, number, found, rfl⟩
    · -- The pages of the kernel are not for the user.
      have aligned : target % pageSize = 0 := by rw [here, Nat.mul_mod_left]
      rw [resident.holds.walk_some resident.within limit word mapped aligned (by decide) (by decide)
        (by decide) (by decide), Sv32.Outcome.leaf.injEq] at walked
      rw [← walked.2] at user
      exact absurd rfl user
    · -- A page for the user is a page of the image.
      have aligned := (resident.frame target (List.mem_of_getElem? found)).2.2.1
      rw [resident.holds.walk_some resident.within limit word mapped aligned (by decide) (by decide)
        (by decide) (by decide), Sv32.Outcome.leaf.injEq] at walked
      refine ⟨k, target, found, number, ?_⟩
      rw [← walked.1]
      simp only [pageSize] at *
      omega

end Resident

namespace Separate

variable {region : Nat → Region}

/-- Nothing was created at boot. -/
theorem boot (mem : Nat → UInt8) (procs : Nat → ProcStruct) (region : Nat → Region) :
    Separate map ⟨mem, map.freeRam, procs⟩ [] region := by
  -- There is nothing to keep apart.
  have high := (Reached.boot mem procs : Reached map _).next.2.2
  refine ⟨high, fun p member => ?_, fun p member => ?_⟩
  · exact absurd member List.not_mem_nil
  · exact absurd member List.not_mem_nil

/-- The region of a new process lies behind all others. -/
theorem created (separate : Separate map ram made region) {image imageSize slot : Nat}
    {space : Space} {frames : List Nat} {seen : Nat → ProcStruct} (low : map.freeRam ≤ ram.nextAddr)
    (free : (ram.procs slot).state = procStateUnused)
    (procs : after.procs = Function.update ram.procs slot
      (map.created (ram.procs slot) slot ram.nextAddr))
    (building : Building map ram.nextAddr ram.mem image imageSize seen frames after space)
    (leaf : space.leaf = pagesOf map.freeRamEnd frames)
    (fits : pageSize * frames.length < imageSize + pageSize) :
    Separate map after (made ++ [⟨slot, imageSize⟩])
      (Function.update region slot ⟨ram.nextAddr, after.nextAddr, space, frames⟩) := by
  have later : ram.nextAddr ≤ after.nextAddr := by
    have size := building.size
    omega
  have memory : ∀ a < ram.nextAddr, after.mem a = ram.mem a := fun a early =>
    building.other a (.inl early)
  -- The slot was free, so it is not that of a process created before.
  have fresh : ∀ p ∈ made, p.slot ≠ slot := by
    intro p member same
    have taken := (separate.resident p member).taken
    rw [same] at taken
    exact taken free
  -- The new process lives between the old next address and the new one.
  have new : Resident map after ⟨slot, imageSize⟩ ⟨ram.nextAddr, after.nextAddr, space, frames⟩ := by
    refine ⟨?_, ?_, low, Nat.le_refl _, building.holds, building.within, leaf, building.frame,
      building.distinct, fits⟩
    · simp only [procs, Function.update_self, LinkerMap.created]
      exact building.root.symm
    · simp only [procs, Function.update_self, LinkerMap.created]
      decide
  refine ⟨building.high, fun p member => ?_, fun p first q second different => ?_⟩
  · rcases List.mem_append.mp member with old | last
    · rw [Function.update_of_ne (fresh p old)]
      exact (separate.resident p old).create memory later procs (fresh p old)
    · rw [List.mem_singleton] at last
      subst last
      rw [Function.update_self]
      exact new
  · -- Of two processes, the one created first has the lower region.
    rcases List.mem_append.mp first with old | last
    · rw [Function.update_of_ne (fresh p old)]
      have before := (separate.resident p old).high
      rcases List.mem_append.mp second with also | final
      · rw [Function.update_of_ne (fresh q also)]
        exact separate.apart p old q also different
      · rw [List.mem_singleton] at final
        subst final
        rw [Function.update_self]
        exact .inl before
    · rw [List.mem_singleton] at last
      subst last
      rcases List.mem_append.mp second with also | final
      · have before := (separate.resident q also).high
        rw [Function.update_self, Function.update_of_ne (fresh q also)]
        exact .inr before
      · rw [List.mem_singleton] at final
        subst final
        exact absurd rfl different

/-- A new process gets a region of its own. -/
theorem create (separate : Separate map ram made region) (reached : Reached map ram)
    {image imageSize slot : Nat} (outside : map.Outside image imageSize)
    (ran : (map.createProcess image imageSize).run ram = .ok slot after) :
    ∃ regions, Separate map after (made ++ [⟨slot, imageSize⟩]) regions := by
  obtain ⟨low, aligned, high⟩ := reached.next
  obtain ⟨_, free, procs, space, frames, building, leaf, _, fits⟩ :=
    createProcess_ok low aligned high outside ran
  exact ⟨_, separate.created low free procs building leaf fits⟩

end Separate

/-- However many processes are created, they have regions of their own. -/
theorem Creations.separate (creations : Creations map ram made) :
    ∃ region, Separate map ram made region := by
  -- The regions are chosen one after another, as the processes are created.
  induction creations with
  | boot mem _ => exact ⟨fun _ => ⟨0, 0, ⟨0, fun _ => none, fun _ => none⟩, []⟩, .boot mem _ _⟩
  | create before outside ran ih =>
    obtain ⟨region, separate⟩ := ih
    exact separate.create before.reached outside ran

/--
A user program can touch only the pages of its own image, and no one else can.

The frame of such a page lies in free memory, is mapped for the user at no other page of any
process, and is no part of a page table.
-/
theorem user_pages_isolated (creations : Creations map ram made) {p : Creation} (member : p ∈ made)
    {v paddr flags : Nat} (word : v < wordLimit)
    (walked : ram.translate p.slot v = .leaf paddr flags) (user : flags &&& pageU ≠ 0) :
    userBase ≤ v ∧ v < userBase + (p.imageSize + pageSize - 1) / pageSize * pageSize ∧
    map.freeRam ≤ paddr / pageSize * pageSize ∧
    (∀ q ∈ made, ∀ w other bits, w < wordLimit → ram.translate q.slot w = .leaf other bits →
      bits &&& pageU ≠ 0 → other / pageSize = paddr / pageSize →
        q.slot = p.slot ∧ w / pageSize = v / pageSize) ∧
    ∀ q ∈ made, ∀ page, ram.TablePage q.slot page →
      page + pageSize ≤ paddr / pageSize * pageSize ∨
        paddr / pageSize * pageSize + pageSize ≤ page := by
  obtain ⟨region, separate⟩ := creations.separate
  have resident := separate.resident p member
  obtain ⟨k, frame, found, number, target⟩ :=
    resident.frame_of_translate separate.high word walked user
  obtain ⟨first, last, aligned, table⟩ := resident.frame frame (List.mem_of_getElem? found)
  have low := resident.low
  have fits := resident.fits
  have early := (List.getElem?_eq_some_iff.mp found).1
  rw [target]
  have place : userBase ≤ v ∧ v < userBase + (p.imageSize + pageSize - 1) / pageSize * pageSize := by
    simp only [userBase, pageSize] at *
    omega
  refine ⟨place.1, place.2, by omega, fun q also w other bits small reads touch same => ?_,
    fun q also page read => ?_⟩
  · -- No page that is read as a table is the frame, whosever table it is.
    have neighbour := separate.resident q also
    obtain ⟨l, shared, there, index, leads⟩ :=
      neighbour.frame_of_translate separate.high small reads touch
    have equal : shared = frame := by rw [← leads, ← target, same]
    subst equal
    obtain ⟨begins, ends, _⟩ := neighbour.frame shared (List.mem_of_getElem? there)
    -- The frames of different processes lie in different regions.
    have slots : q.slot = p.slot := by
      by_contra different
      have size : pageSize = 4096 := rfl
      rcases separate.apart q also p member different with before | behind
      · omega
      · omega
    -- A frame is in the list of its process once.
    rw [slots] at there
    have inside := (List.getElem?_eq_some_iff.mp there).1
    have pages : l = k := (List.getElem?_inj inside resident.distinct).mp (there.trans found.symm)
    exact ⟨slots, by rw [index, number, pages]⟩
  · have neighbour := separate.resident q also
    have own := neighbour.isTable read
    obtain ⟨begins, ends, whole⟩ := neighbour.within.isTable own
    by_cases slots : q.slot = p.slot
    · rw [slots] at own
      have different : page ≠ frame := by
        rintro rfl
        exact table own
      exact page_apart whole aligned different
    · rcases separate.apart q also p member slots with before | behind
      · omega
      · omega

/-- A small kernel creates the idle process, and one with an image of 5000 bytes. -/
theorem exists_two_creations : ∃ ram, Creations smallKernel ram [⟨0, 0⟩, ⟨1, 5000⟩] ∧
    ∃ paddr, ram.translate 1 (userBase + 4096) = .leaf paddr userFlags := by
  have none : Creations smallKernel bootRam [] := .boot _ fun _ => rfl
  have empty : smallKernel.Outside 0 0 := .inl (by decide)
  have firstRoom : smallKernel.Room bootRam.nextAddr 0 := by
    unfold LinkerMap.Room
    decide
  obtain ⟨ram, first⟩ := createProcess_returns none.reached empty
    (by decide : (List.range procNoMax).find? (fun i => (bootRam.procs i).state = procStateUnused)
      = some 0) (Nat.zero_le _) firstRoom
  have idle := none.create empty first
  -- The first process takes slot 0, and no more than a table for each index.
  obtain ⟨low, aligned, high⟩ := none.reached.next
  obtain ⟨_, _, procs, space, frames, building, _, _, fits⟩ :=
    createProcess_ok low aligned high empty first
  have free : (List.range procNoMax).find? (fun i => (ram.procs i).state = procStateUnused)
      = some 1 := by
    rw [procs]
    decide
  have secondRoom : smallKernel.Room ram.nextAddr 2 := by
    have size := building.size
    have tables := space.count_le
    have start : bootRam.nextAddr = 0x80300000 := rfl
    have stop : smallKernel.freeRamEnd = 0x84300000 := by decide
    unfold LinkerMap.Room
    simp only [pageSize] at *
    omega
  have outside : smallKernel.Outside 0x80201000 5000 := .inl (by decide)
  obtain ⟨after, second⟩ := createProcess_returns idle.reached outside free
    (by decide : 5000 ≤ pageSize * 2) secondRoom
  -- The second page of the image is in a frame of the second process.
  obtain ⟨low, aligned, high⟩ := idle.reached.next
  obtain ⟨_, _, procs, space, frames, building, leaf, enough, _⟩ :=
    createProcess_ok low aligned high outside second
  have table : (after.procs 1).pageTable = ram.nextAddr := by
    rw [procs, Function.update_self]
    rfl
  obtain ⟨paddr, walked, _⟩ := building.walk_user leaf building.holds (by omega : 4096 < _)
  refine ⟨after, idle.create outside second, paddr, ?_⟩
  rw [Ram.translate, table]
  exact walked

/-- The second page of the one program is not mapped by the other, and is no table. -/
theorem user_pages_isolated_pair : ∃ ram paddr,
    Creations smallKernel ram [⟨0, 0⟩, ⟨1, 5000⟩] ∧
    ram.translate 1 (userBase + 4096) = .leaf paddr userFlags ∧
    smallKernel.freeRam ≤ paddr / pageSize * pageSize ∧
    ∀ page, ram.TablePage 0 page → page + pageSize ≤ paddr / pageSize * pageSize ∨
      paddr / pageSize * pageSize + pageSize ≤ page := by
  -- The idle process has no image, but it has a table.
  obtain ⟨ram, creations, paddr, walked⟩ := exists_two_creations
  have member : (⟨1, 5000⟩ : Creation) ∈ [⟨0, 0⟩, ⟨1, 5000⟩] := by decide
  obtain ⟨_, _, low, _, tables⟩ :=
    user_pages_isolated creations member (by decide) walked (by decide)
  exact ⟨ram, paddr, creations, walked, low, tables ⟨0, 0⟩ (by decide)⟩

end Os1k.C
