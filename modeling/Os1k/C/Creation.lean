import Os1k.C.Loading

/-! What a process of the C kernel sees of memory once it is created. -/

namespace Os1k.C

open Riscv (wordLimit)
open Bytes

variable {map : LinkerMap} {start image imageSize : Nat} {source : Nat → UInt8}
  {procs : Nat → ProcStruct} {frames : List Nat} {ram after : Ram} {space : Space}

/-- A page is loaded into the next page that is handed out, and mapped. -/
theorem run_loadPage_ok {table1 off : Nat} (room : ram.nextAddr + pageSize ≤ map.freeRamEnd)
    (word : userBase + off < wordLimit) :
    (map.loadPage table1 image imageSize off).run ram = .ok () after ↔
      ram.nextAddr + pageSize < map.freeRamEnd ∧
      (map.mapPage table1 (userBase + off) ram.nextAddr
        (pageU ||| pageR ||| pageW ||| pageX)).run ((ram.handedOut pageSize).memcpy map ram.nextAddr
          (image + off) (Building.copySize imageSize off)) = .ok () after := by
  -- The copy always returns, so only the page and the mapping can fail.
  unfold LinkerMap.loadPage
  rw [Nat.mod_eq_of_lt word]
  constructor
  · intro ran
    obtain ⟨page, middle, given, ran⟩ := Exec.run_bind_ok.mp ran
    obtain ⟨more, rfl, rfl⟩ := (run_allocPages_ok room).mp given
    obtain ⟨_, copied, same, ran⟩ := Exec.run_bind_ok.mp ran
    rw [EStateM.run_modify, EStateM.Result.ok.injEq] at same
    obtain ⟨_, rfl⟩ := same
    exact ⟨more, ran⟩
  · intro ⟨more, ran⟩
    refine Exec.run_bind_ok.mpr ⟨_, _, (run_allocPages_ok room).mpr ⟨more, rfl, rfl⟩, ?_⟩
    exact Exec.run_bind_ok.mpr ⟨(), _, EStateM.run_modify _ _, ran⟩

/-- The table of a new process is an empty page. -/
theorem Building.begin (low : map.freeRam ≤ ram.nextAddr) (aligned : ram.nextAddr % pageSize = 0)
    (high : ram.nextAddr + pageSize < map.freeRamEnd) (image imageSize : Nat)
    (procs : Nat → ProcStruct) :
    Building map ram.nextAddr ram.mem image imageSize procs [] (ram.handedOut pageSize)
      ⟨ram.nextAddr, fun _ => none, fun _ => none⟩ := by
  -- The page is zeroed, which is what a table without entries looks like.
  have size : pageSize = 4096 := rfl
  have none : Space.count ⟨ram.nextAddr, fun _ => none, fun _ => none⟩ = 0 := by
    simp [Space.count]
  refine ⟨rfl, low, high, aligned, ?_, ⟨fun i small _ => ⟨?_, fun _ _ => rfl⟩, ?_⟩, ?_,
    fun a outside => ?_, ?_, ?_, List.nodup_nil⟩
  · rw [none, List.length_nil, Ram.handedOut_nextAddr, Nat.mul_one]
  · refine loadWord_zero fun k byte => ?_
    rw [Ram.handedOut_mem, memset_apply, if_pos (by simp only; omega)]
  · exact fun i small page known => absurd known.symm (Option.some_ne_none page)
  · refine ⟨⟨Nat.le_refl _, Nat.le_refl _, aligned⟩, ?_, ?_⟩
    · exact fun i small page known => absurd known.symm (Option.some_ne_none page)
    · exact fun i small j also page known => absurd known.symm (Option.some_ne_none page)
  · rw [Ram.handedOut_nextAddr] at outside
    rw [Ram.handedOut_mem, memset_apply, if_neg (by omega)]
  · exact fun frame member => absurd member List.not_mem_nil
  · intro k frame found
    rw [List.getElem?_nil] at found
    exact absurd found.symm (Option.some_ne_none frame)

/-- What holds before each turn of the loop that maps the kernel. -/
structure KernelTurn (map : LinkerMap) (start : Nat) (source : Nat → UInt8) (image imageSize : Nat)
    (procs : Nat → ProcStruct) (counter : Nat) (ram : Ram) (space : Space) : Prop where
  building : Building map start source image imageSize procs [] ram space
  leaf : space.leaf = pagesOf counter []
  aligned : counter % pageSize = 0
  first : kernelBase ≤ counter
  last : counter ≤ map.freeRamEnd
  procs : ram.procs = procs

/-- What holds before each turn of the loop that loads the image. -/
structure UserTurn (map : LinkerMap) (start : Nat) (source : Nat → UInt8) (image imageSize : Nat)
    (procs : Nat → ProcStruct) (off : Nat) (ram : Ram) (space : Space) (frames : List Nat) :
    Prop where
  building : Building map start source image imageSize procs frames ram space
  leaf : space.leaf = pagesOf map.freeRamEnd frames
  count : off = pageSize * frames.length
  last : off < imageSize + pageSize
  procs : ram.procs = procs

variable {counter off : Nat}

namespace KernelTurn

/-- A counter below the end of free memory stays so for a whole page. -/
theorem next (turn : KernelTurn map start source image imageSize procs counter ram space)
    (more : counter < map.freeRamEnd) :
    counter + pageSize ≤ map.freeRamEnd ∧ (counter + pageSize) % pageSize = 0 := by
  -- The end of free memory is the start of a page, and so is the counter.
  refine ⟨map.room turn.aligned more, ?_⟩
  rw [Nat.add_mod_right]
  exact turn.aligned

/-- One more page of the kernel has its meaning. -/
theorem grow (turn : KernelTurn map start source image imageSize procs counter ram space)
    (more : counter < map.freeRamEnd) {grown : Space} (growth : Grown start ram space after grown)
    (high : after.nextAddr < map.freeRamEnd)
    (leaf : grown.leaf =
      Function.update space.leaf (counter / pageSize) (some (counter, kernelFlags))) :
    KernelTurn map start source image imageSize procs (counter + pageSize) after grown := by
  -- The page is mapped where it is, which is the meaning that it is to have.
  obtain ⟨last, aligned⟩ := turn.next more
  have first := turn.first
  refine ⟨turn.building.grow growth high, ?_, aligned, by omega, last,
    growth.procs.trans turn.procs⟩
  rw [leaf, turn.leaf]
  exact pagesOf_kernel turn.aligned turn.first

/-- A turn maps one more page of the kernel. -/
theorem mapKernelPage (turn : KernelTurn map start source image imageSize procs counter ram space)
    (more : counter < map.freeRamEnd)
    (ran : (map.mapKernelPage start counter).run ram = .ok () after) :
    ∃ grown, KernelTurn map start source image imageSize procs (counter + pageSize) after grown := by
  have building := turn.building
  have word : counter < wordLimit := Nat.lt_trans more map.word
  rw [LinkerMap.mapKernelPage, ← building.root] at ran
  -- The entry is set, with a new second-level table if its index had none.
  obtain ⟨high, grown, growth, leaf⟩ := mapPage_grown building.holds building.within
    building.next_aligned building.room word word (by decide) ran
  exact ⟨grown, turn.grow more growth high leaf⟩

end KernelTurn

namespace UserTurn

/-- So many frames fit into free memory that they are mapped below the kernel. -/
theorem below (turn : UserTurn map start source image imageSize procs off ram space frames) :
    userBase + off + pageSize < kernelBase := by
  -- The frames are in free memory, which has 64 MiB, and the kernel is far above.
  have size := turn.building.size
  have low := turn.building.low
  have high := turn.building.high
  rw [turn.count]
  simp only [LinkerMap.freeRamEnd, freeRamSize, userBase, kernelBase, pageSize] at *
  omega

/-- The next page is filled, before it is mapped. -/
theorem fill (turn : UserTurn map start source image imageSize procs off ram space frames)
    (outside : map.Outside image imageSize) (more : off < imageSize)
    (room : ram.nextAddr + pageSize < map.freeRamEnd) :
    Building map start source image imageSize procs (frames ++ [ram.nextAddr])
      ((ram.handedOut pageSize).memcpy map ram.nextAddr (image + off)
        (Building.copySize imageSize off)) space := by
  have count := turn.count
  rw [count] at more ⊢
  exact turn.building.copy outside turn.procs more room

/-- The page that was filled has its meaning. -/
theorem grow (turn : UserTurn map start source image imageSize procs off ram space frames)
    (outside : map.Outside image imageSize) (more : off < imageSize)
    (room : ram.nextAddr + pageSize < map.freeRamEnd) {grown : Space}
    (growth : Grown start ((ram.handedOut pageSize).memcpy map ram.nextAddr (image + off)
      (Building.copySize imageSize off)) space after grown)
    (high : after.nextAddr < map.freeRamEnd)
    (leaf : grown.leaf = Function.update space.leaf ((userBase + off) / pageSize)
      (some (ram.nextAddr, userFlags))) :
    UserTurn map start source image imageSize procs (off + pageSize) after grown
      (frames ++ [ram.nextAddr]) := by
  -- Mapping the page does not touch what it was filled with.
  have below := turn.below
  have count := turn.count
  refine ⟨(turn.fill outside more room).grow growth high, ?_, ?_, by omega, ?_⟩
  · rw [leaf, turn.leaf, count]
    exact pagesOf_user ram.nextAddr (by omega)
  · rw [count, List.length_append, List.length_singleton, Nat.mul_succ]
  · rw [growth.procs, Ram.memcpy_procs, Ram.handedOut_procs]
    exact turn.procs

/-- A turn loads one more page of the image. -/
theorem loadPage (turn : UserTurn map start source image imageSize procs off ram space frames)
    (outside : map.Outside image imageSize) (more : off < imageSize)
    (ran : (map.loadPage start image imageSize off).run ram = .ok () after) :
    ∃ grown, UserTurn map start source image imageSize procs (off + pageSize) after grown
      (frames ++ [ram.nextAddr]) := by
  have building := turn.building
  have below := turn.below
  have limit : kernelBase < wordLimit := by decide
  -- The page was there to take, and it is full of the image before it is mapped.
  obtain ⟨room, ran⟩ := (run_loadPage_ok building.room (by omega)).mp ran
  have loaded := turn.fill outside more room
  have inside : ram.nextAddr < wordLimit := Nat.lt_trans building.high map.word
  rw [← loaded.root] at ran
  -- Mapping it may take one more page, for a second-level table.
  obtain ⟨high, grown, growth, leaf⟩ := mapPage_grown loaded.holds loaded.within
    loaded.next_aligned loaded.room (by omega) inside (by decide) ran
  exact ⟨grown, turn.grow outside more room growth high leaf⟩

end UserTurn

/-- Each slot of the array that is found is free. -/
theorem findSlot_eq_some {procs : Nat → ProcStruct} {slot : Nat}
    (found : (List.range procNoMax).find? (fun i => (procs i).state = procStateUnused) = some slot) :
    slot < procNoMax ∧ (procs slot).state = procStateUnused := by
  -- What a search finds is one of the slots, and passes the test.
  have member := List.mem_of_find?_eq_some found
  have free := List.find?_some found
  exact ⟨List.mem_range.mp member, by simpa using free⟩

/-- A process is changed in the array, and nothing else. -/
theorem run_modifyProc {i : Nat} {change : ProcStruct → ProcStruct}
    (ran : (modifyProc i change).run ram = .ok () after) :
    after.mem = ram.mem ∧ after.nextAddr = ram.nextAddr ∧
      after.procs = Function.update ram.procs i (change (ram.procs i)) := by
  -- The array is an object of its own.
  rw [modifyProc, EStateM.run_modify, EStateM.Result.ok.injEq] at ran
  obtain ⟨_, rfl⟩ := ran
  exact ⟨rfl, rfl, rfl⟩

/-- The kernel starts before the end of free memory. -/
theorem LinkerMap.kernelBase_le (map : LinkerMap) : kernelBase ≤ map.freeRamEnd := by
  -- The process array lies between the two.
  have base := map.base
  have below := map.below
  unfold LinkerMap.freeRamEnd
  omega

/-- The first loop starts with an empty table. -/
theorem KernelTurn.begin (low : map.freeRam ≤ ram.nextAddr) (aligned : ram.nextAddr % pageSize = 0)
    (high : ram.nextAddr + pageSize < map.freeRamEnd) (image imageSize : Nat) :
    KernelTurn map ram.nextAddr ram.mem image imageSize ram.procs kernelBase
      (ram.handedOut pageSize) ⟨ram.nextAddr, fun _ => none, fun _ => none⟩ :=
  ⟨.begin low aligned high image imageSize ram.procs, pagesOf_kernelBase.symm, by decide, Nat.le_refl _,
    map.kernelBase_le, Ram.handedOut_procs _ _⟩

/-- The first loop maps the kernel, and the second one goes on from there. -/
theorem KernelTurn.loop
    (first : KernelTurn map start source image imageSize procs kernelBase ram space) {fuel : Nat}
    (ran : (forPages map.freeRamEnd (map.mapKernelPage start) fuel kernelBase).run ram
      = .ok () after) :
    ∃ grown, UserTurn map start source image imageSize procs 0 after grown [] := by
  -- The counter never goes beyond the end, so the loop leaves it there.
  have kept := forPages_keeps
    (fun counter now => ∃ space, KernelTurn map start source image imageSize procs counter now space)
    (fun counter now next more holds ran => ?_) ran ⟨space, first⟩
  · obtain ⟨last, reached, grown, turn⟩ := kept
    have finished : last = map.freeRamEnd := Nat.le_antisymm turn.last reached
    rw [finished] at turn
    exact ⟨grown, turn.building, turn.leaf, rfl, Nat.add_pos_right _ (by decide), turn.procs⟩
  · obtain ⟨space, turn⟩ := holds
    obtain ⟨grown, after⟩ := turn.mapKernelPage more ran
    obtain ⟨last, _⟩ := turn.next more
    rw [Nat.mod_eq_of_lt (Nat.lt_of_le_of_lt last map.word)]
    exact ⟨grown, after⟩

/-- The second loop loads the image. -/
theorem UserTurn.loop (first : UserTurn map start source image imageSize procs 0 ram space [])
    (outside : map.Outside image imageSize) {fuel : Nat}
    (ran : (forPages imageSize (map.loadPage start image imageSize) fuel 0).run ram = .ok () after) :
    ∃ grown frames off, UserTurn map start source image imageSize procs off after grown frames ∧
      imageSize ≤ off := by
  have kept := forPages_keeps
    (fun off now => ∃ space frames, UserTurn map start source image imageSize procs off now space
      frames)
    (fun off now next more holds ran => ?_) ran ⟨space, [], first⟩
  · obtain ⟨off, enough, grown, frames, turn⟩ := kept
    exact ⟨grown, frames, off, turn, enough⟩
  · obtain ⟨space, frames, turn⟩ := holds
    obtain ⟨grown, after⟩ := turn.loadPage outside more ran
    -- The counter does not wrap around, since the pages are mapped below the kernel.
    have below := turn.below
    have word : kernelBase < wordLimit := by decide
    rw [Nat.mod_eq_of_lt (by omega)]
    exact ⟨grown, _, after⟩

/-- Memory, and the next address, are all that matters to a table in the making. -/
theorem Building.congr (building : Building map start source image imageSize procs frames ram space)
    (mem : after.mem = ram.mem) (next : after.nextAddr = ram.nextAddr) :
    Building map start source image imageSize procs frames after space := by
  -- Each part is about memory or about the next address.
  obtain ⟨root, low, high, aligned, size, holds, within, other, frame, bytes, distinct⟩ := building
  rw [← next] at high size within other frame
  rw [← mem] at holds other bytes
  exact ⟨root, low, high, aligned, size, holds, within, other, frame, bytes, distinct⟩

/-- A process with its stack as a new process starts with it, and the other fields as they are. -/
def LinkerMap.cleared (map : LinkerMap) (proc : ProcStruct) : ProcStruct :=
  { proc with stack := storeWord (memset proc.stack 0 0 8192) (8192 - 13 * 4) map.userEntry }

/-- The fields of a process that was created. -/
def LinkerMap.created (map : LinkerMap) (proc : ProcStruct) (slot table : Nat) : ProcStruct where
  pid := slot + 1
  state := procStateRunnable
  sp := map.slot slot + 16 + 8192 - 13 * 4
  pageTable := table
  stack := (map.cleared proc).stack

/--
What `create_process` leaves.

The new process has the first page handed out for it as its page table, and a frame for each page of
the image.
-/
theorem createProcess_ok {slot : Nat} (low : map.freeRam ≤ ram.nextAddr)
    (aligned : ram.nextAddr % pageSize = 0) (high : ram.nextAddr < map.freeRamEnd)
    (outside : map.Outside image imageSize)
    (ran : (map.createProcess image imageSize).run ram = .ok slot after) :
    slot < procNoMax ∧ (ram.procs slot).state = procStateUnused ∧
    after.procs = Function.update ram.procs slot
      (map.created (ram.procs slot) slot ram.nextAddr) ∧
    ∃ space frames, Building map ram.nextAddr ram.mem image imageSize
      (Function.update ram.procs slot (map.cleared (ram.procs slot))) frames after space ∧
      space.leaf = pagesOf map.freeRamEnd frames ∧ imageSize ≤ pageSize * frames.length ∧
      pageSize * frames.length < imageSize + pageSize := by
  unfold LinkerMap.createProcess at ran
  obtain ⟨_, _, got, ran⟩ := Exec.run_bind_ok.mp ran
  rw [EStateM.run_get, EStateM.Result.ok.injEq] at got
  obtain ⟨rfl, rfl⟩ := got
  cases found : (List.range procNoMax).find? fun i => (ram.procs i).state = procStateUnused with
  | none =>
    rw [found] at ran
    exact absurd ran nofun
  | some i =>
    rw [found] at ran
    obtain ⟨inside, free⟩ := findSlot_eq_some found
    -- The stack is cleared before memory is handed out.
    obtain ⟨_, cleared, stacked, ran⟩ := Exec.run_bind_ok.mp ran
    obtain ⟨sameMem, sameNext, stack⟩ := run_modifyProc stacked
    obtain ⟨table, begun, given, ran⟩ := Exec.run_bind_ok.mp ran
    obtain ⟨_, mapped, kernelRan, ran⟩ := Exec.run_bind_ok.mp ran
    obtain ⟨_, loaded, userRan, ran⟩ := Exec.run_bind_ok.mp ran
    obtain ⟨_, named, fields, ran⟩ := Exec.run_bind_ok.mp ran
    rw [EStateM.run_pure, EStateM.Result.ok.injEq] at ran
    obtain ⟨rfl, rfl⟩ := ran
    obtain ⟨memory, next, changed⟩ := run_modifyProc fields
    rw [← sameNext] at low aligned high
    obtain ⟨room, rfl, rfl⟩ := (run_allocPages_ok (map.room aligned high)).mp given
    obtain ⟨_, turn⟩ := (KernelTurn.begin low aligned room image imageSize).loop kernelRan
    obtain ⟨space, frames, off, turn, enough⟩ := turn.loop outside userRan
    -- What was built is seen from memory before the call.
    have building := turn.building
    have count := turn.count
    have last := turn.last
    have procs := turn.procs
    rw [sameMem, sameNext, stack] at building
    refine ⟨inside, free, ?_, space, frames, building.congr memory next, turn.leaf, by omega,
      by omega⟩
    rw [changed, procs, stack, sameNext]
    simp only [Function.update_self, Function.update_idem, LinkerMap.created, LinkerMap.cleared]

/--
Memory as it is when processes are created.

Whatever else runs may change memory and the processes, but not the next address.
-/
inductive Reached (map : LinkerMap) : Ram → Prop where
  | boot (mem : Nat → UInt8) (procs : Nat → ProcStruct) : Reached map ⟨mem, map.freeRam, procs⟩
  | create {ram after : Ram} {image imageSize slot : Nat} (before : Reached map ram)
      (outside : map.Outside image imageSize)
      (ran : (map.createProcess image imageSize).run ram = .ok slot after) : Reached map after
  | run {ram : Ram} (before : Reached map ram) (mem : Nat → UInt8) (procs : Nat → ProcStruct) :
      Reached map { ram with mem, procs }

/-- The next address is that of a page in free memory. -/
theorem Reached.next (reached : Reached map ram) :
    map.freeRam ≤ ram.nextAddr ∧ ram.nextAddr % pageSize = 0 ∧ ram.nextAddr < map.freeRamEnd := by
  -- Nothing but `create_process` moves the next address.
  induction reached with
  | boot mem procs =>
    have size : 0 < freeRamSize := by decide
    exact ⟨Nat.le_refl _, map.aligned, Nat.lt_add_of_pos_right size⟩
  | create before outside ran ih =>
    obtain ⟨low, aligned, high⟩ := ih
    obtain ⟨_, _, _, space, frames, building, _⟩ := createProcess_ok low aligned high outside ran
    have grows := building.size
    exact ⟨by omega, building.next_aligned, building.high⟩
  | run before mem procs ih => exact ih

/-- The pages of the image are mapped in order. -/
theorem pagesOf_frame {k frame : Nat} (found : frames[k]? = some frame)
    (below : userBase + pageSize * frames.length < kernelBase) (kernelTop : Nat) :
    pagesOf kernelTop frames (userBase / pageSize + k) = some (frame, userFlags) := by
  -- The page is too low to be one of the kernel.
  have early := (List.getElem?_eq_some_iff.mp found).1
  have place : ¬ (kernelBase ≤ (userBase / pageSize + k) * pageSize ∧
      (userBase / pageSize + k) * pageSize < kernelTop) ∧
      userBase ≤ (userBase / pageSize + k) * pageSize := by
    simp only [userBase, pageSize, kernelBase] at *
    omega
  rw [pagesOf, if_neg place.1, if_pos place.2, Nat.add_sub_cancel_left, found]
  rfl

/-- Every page that is mapped is one of the kernel or one of the image. -/
theorem pagesOf_cases {kernelTop number paddr flags : Nat}
    (mapped : pagesOf kernelTop frames number = some (paddr, flags)) :
    (paddr = number * pageSize ∧ flags = kernelFlags) ∨
      ∃ k, number = userBase / pageSize + k ∧ frames[k]? = some paddr ∧ flags = userFlags := by
  -- The cases follow the definition.
  unfold pagesOf at mapped
  by_cases kernel : kernelBase ≤ number * pageSize ∧ number * pageSize < kernelTop
  · rw [if_pos kernel, Option.some.injEq, Prod.mk.injEq] at mapped
    exact .inl ⟨mapped.1.symm, mapped.2.symm⟩
  rw [if_neg kernel] at mapped
  by_cases above : userBase ≤ number * pageSize
  · rw [if_pos above] at mapped
    obtain ⟨frame, found, same⟩ := Option.map_eq_some_iff.mp mapped
    rw [Prod.mk.injEq] at same
    obtain ⟨rfl, rfl⟩ := same
    refine .inr ⟨number - userBase / pageSize, ?_, found, rfl⟩
    simp only [userBase, pageSize] at *
    omega
  · rw [if_neg above] at mapped
    exact absurd mapped.symm (Option.some_ne_none _)

namespace Building

/-- The table and the frames have addresses of one word. -/
theorem word (building : Building map start source image imageSize procs frames ram space) :
    ram.nextAddr < wordLimit := Nat.lt_trans building.high map.word

/-- So many frames fit into free memory that they are mapped below the kernel. -/
theorem frames_below (building : Building map start source image imageSize procs frames ram space) :
    userBase + pageSize * frames.length < kernelBase := by
  -- The frames are in free memory, which has 64 MiB, and the kernel is far above.
  have size := building.size
  have low := building.low
  have high := building.high
  simp only [LinkerMap.freeRamEnd, freeRamSize, userBase, kernelBase, pageSize] at *
  omega

/-- As a pointer finds it, memory holds the table as well, since the table lies in free memory. -/
theorem holds_bytes (building : Building map start source image imageSize procs frames ram space) :
    space.Holds (map.bytes ram) := by
  -- Only the two variables read otherwise through a pointer, and no table lies there.
  refine building.holds.congr fun page table o byte => map.bytes_free ?_
  have bounds := building.within.isTable table
  have low := building.low
  omega

/-- A walk at an address of the image ends in the frame that holds the byte. -/
theorem walk_user (building : Building map start source image imageSize procs frames ram space)
    (leaf : space.leaf = pagesOf map.freeRamEnd frames) {mem : Nat → UInt8} (holds : space.Holds mem)
    {k : Nat} (inside : k < pageSize * frames.length) :
    ∃ paddr, Sv32.walk (loadWord mem) (satpOf start) (userBase + k) = .leaf paddr userFlags ∧
      map.freeRam ≤ paddr ∧ ((k < imageSize → ¬ map.InNextAddr (image + k)) → ram.mem paddr =
        if k < imageSize then map.bytes ⟨source, start, procs⟩ (image + k) else 0) := by
  have below := building.frames_below
  have limit : kernelBase < wordLimit := by decide
  have page : k / pageSize < frames.length := Nat.div_lt_of_lt_mul inside
  have found : frames[k / pageSize]? = some (frames.get ⟨k / pageSize, page⟩) :=
    List.getElem?_eq_getElem page
  generalize frames.get ⟨k / pageSize, page⟩ = frame at found
  have bounds := building.frame frame (List.mem_of_getElem? found)
  have low := building.low
  -- The address is split into a page of the image and an offset.
  have number : (userBase + k) / pageSize = userBase / pageSize + k / pageSize := by
    simp only [userBase, pageSize]
    omega
  have offset : (userBase + k) % pageSize = k % pageSize := by
    simp only [userBase, pageSize]
    omega
  have split : k / pageSize * pageSize + k % pageSize = k := by
    simp only [pageSize]
    omega
  -- That page is mapped to the frame that was loaded with it.
  have mapped : space.leaf ((userBase + k) / pageSize) = some (frame, userFlags) := by
    rw [leaf, number]
    exact pagesOf_frame found below _
  have walked := holds.walk_some building.within building.word (by omega) mapped bounds.2.2.1
    (by decide) (by decide) (by decide) (by decide)
  rw [building.root, offset] at walked
  refine ⟨_, walked, by omega, fun clear => ?_⟩
  rw [← split] at clear
  rw [building.bytes _ frame found _ (Nat.mod_lt _ (by decide)) clear, split]

/-- A walk at an address of the kernel ends there. -/
theorem walk_kernel (building : Building map start source image imageSize procs frames ram space)
    (leaf : space.leaf = pagesOf map.freeRamEnd frames) {mem : Nat → UInt8} (holds : space.Holds mem)
    {a : Nat} (low : kernelBase ≤ a) (high : a < map.freeRamEnd) :
    Sv32.walk (loadWord mem) (satpOf start) a = .leaf a kernelFlags := by
  -- The page of the address starts in the range of the kernel, and has its own number.
  have whole := map.aligned
  have place : kernelBase ≤ a / pageSize * pageSize ∧ a / pageSize * pageSize < map.freeRamEnd ∧
      a / pageSize * pageSize % pageSize = 0 ∧ a / pageSize * pageSize + a % pageSize = a := by
    simp only [kernelBase, pageSize] at *
    omega
  have mapped : space.leaf (a / pageSize) = some (a / pageSize * pageSize, kernelFlags) := by
    rw [leaf, pagesOf, if_pos ⟨place.1, place.2.1⟩]
  have walked := holds.walk_some building.within building.word
    (Nat.lt_trans high map.word) mapped place.2.2.1 (by decide) (by decide) (by decide)
    (by decide)
  rw [building.root, place.2.2.2] at walked
  exact walked

end Building

/--
A process is loaded exactly.

Its table shows the bytes of the image from `USER_BASE` on, zeros up to the end of the last page,
and the kernel where it is, but not to the user. Bytes of an image that are part of the new process
itself, or of the next address, are shown as well, but they change while the process is created.
-/
theorem createProcess_loads {slot : Nat} (reached : Reached map ram)
    (outside : map.Outside image imageSize)
    (ran : (map.createProcess image imageSize).run ram = .ok slot after) :
    (∀ k < imageSize, ∃ paddr,
      Sv32.walk (loadWord (map.bytes after)) (satpOf (after.procs slot).pageTable) (userBase + k)
        = .leaf paddr (pageV ||| (pageU ||| pageR ||| pageW ||| pageX)) ∧
      (¬ map.InSlot slot (image + k) → ¬ map.InNextAddr (image + k) →
        map.bytes after paddr = map.bytes ram (image + k) ∧
        map.bytes after (image + k) = map.bytes ram (image + k))) ∧
    (∀ k, imageSize ≤ k → k < (imageSize + pageSize - 1) / pageSize * pageSize → ∃ paddr,
      Sv32.walk (loadWord (map.bytes after)) (satpOf (after.procs slot).pageTable) (userBase + k)
        = .leaf paddr (pageV ||| (pageU ||| pageR ||| pageW ||| pageX)) ∧
      map.bytes after paddr = 0) ∧
    ∀ a, kernelBase ≤ a → a < map.freeRamEnd →
      Sv32.walk (loadWord (map.bytes after)) (satpOf (after.procs slot).pageTable) a
        = .leaf a (pageV ||| (pageR ||| pageW ||| pageX)) := by
  -- All three parts are walks of the table that was built.
  obtain ⟨low, aligned, high⟩ := reached.next
  obtain ⟨_, _, procs, space, frames, building, leaf, enough, least⟩ :=
    createProcess_ok low aligned high outside ran
  have table : (after.procs slot).pageTable = ram.nextAddr := by
    rw [procs, Function.update_self]
    rfl
  rw [table]
  refine ⟨fun k inside => ?_, fun k past inside => ?_, fun a above below => ?_⟩
  · obtain ⟨paddr, walked, free, byte⟩ :=
      building.walk_user leaf building.holds_bytes (by omega : k < _)
    refine ⟨paddr, walked, fun other clear => ⟨?_, ?_⟩⟩
    · -- What was copied was seen with the new process's stack already cleared.
      rw [map.bytes_free free, byte fun _ => clear, if_pos inside]
      exact LinkerMap.bytes_outside rfl other clear rfl
    · have late := building.size
      have before := building.high
      unfold LinkerMap.Outside at outside
      exact LinkerMap.bytes_outside procs other clear (building.other _ (by omega))
  · -- Past the image, the rest of its last page holds zeros.
    have last : k < pageSize * frames.length := by
      have rounded : (imageSize + pageSize - 1) / pageSize * pageSize = pageSize * frames.length := by
        simp only [pageSize] at *
        omega
      omega
    obtain ⟨paddr, walked, free, byte⟩ := building.walk_user leaf building.holds_bytes last
    refine ⟨paddr, walked, ?_⟩
    rw [map.bytes_free free, byte fun inside => absurd inside (Nat.not_lt.mpr past),
      if_neg (Nat.not_lt.mpr past)]
  · exact building.walk_kernel leaf building.holds_bytes above below

/-- The free memory ends before the last page of the address space. -/
theorem LinkerMap.freeRamEnd_fits (map : LinkerMap) : map.freeRamEnd + pageSize ≤ wordLimit := by
  -- The end is the start of a page, and below the last address.
  have whole := map.aligned
  have word := map.word
  simp only [LinkerMap.freeRamEnd, freeRamSize, pageSize, wordLimit] at *
  omega

/--
There is room for a table at every index of the root, and for so many frames.

Two more pages are not counted: the root, and the last one, which is never handed out.
-/
def LinkerMap.Room (map : LinkerMap) (start pages : Nat) : Prop :=
  start + pageSize * (1026 + pages) < map.freeRamEnd

namespace Building

/-- What is handed out for so many frames leaves room for a page. -/
theorem more_room (building : Building map start source image imageSize procs frames ram space)
    {pages : Nat} (room : map.Room start pages) (fewer : frames.length ≤ pages) :
    ram.nextAddr + pageSize < map.freeRamEnd := by
  -- No index of the root has more than one table.
  have size := building.size
  have tables := space.count_le
  unfold LinkerMap.Room at room
  simp only [pageSize] at *
  omega

end Building

/-- The loop that maps the kernel returns. -/
theorem KernelTurn.returns (first : KernelTurn map start source image imageSize procs kernelBase ram
    space) (room : map.Room start 0) :
    ∃ after, (forPages map.freeRamEnd (map.mapKernelPage start) maxTurns kernelBase).run ram
      = .ok () after := by
  -- Every turn has room for the table that it may need.
  have turns : maxTurns = 1048576 + 1 := by decide
  have enough : map.freeRamEnd ≤ kernelBase + 1048576 * pageSize := by
    have fits := map.freeRamEnd_fits
    have limit : wordLimit = 1048576 * pageSize := by decide
    omega
  rw [turns]
  refine forPages_returns
    (fun counter now => ∃ space, KernelTurn map start source image imageSize procs counter now space)
    (fun counter now more holds => ?_) map.freeRamEnd_fits enough ⟨space, first⟩
  obtain ⟨space, turn⟩ := holds
  have building := turn.building
  have word : counter < wordLimit := Nat.lt_trans more map.word
  obtain ⟨after, ran⟩ := mapPage_returns building.holds building.within building.next_aligned
    (building.more_room room (Nat.le_refl _)) turn.aligned turn.aligned word
  rw [building.root] at ran
  exact ⟨after, ran, turn.mapKernelPage more ran⟩

/-- The loop that loads the image returns. -/
theorem UserTurn.returns (first : UserTurn map start source image imageSize procs 0 ram space [])
    (outside : map.Outside image imageSize) {pages : Nat} (fits : imageSize ≤ pageSize * pages)
    (room : map.Room start pages) :
    ∃ after, (forPages imageSize (map.loadPage start image imageSize) maxTurns 0).run ram
      = .ok () after := by
  have turns : maxTurns = 1048576 + 1 := by decide
  have small : imageSize + pageSize ≤ wordLimit ∧ imageSize ≤ 0 + 1048576 * pageSize := by
    have word := map.word
    unfold LinkerMap.Room at room
    simp only [LinkerMap.freeRamEnd, freeRamSize, pageSize, wordLimit] at *
    omega
  -- There are more turns than pages, and no offset wraps.
  rw [turns]
  refine forPages_returns
    (fun off now => ∃ space frames, UserTurn map start source image imageSize procs off now space
      frames)
    (fun off now more holds => ?_) small.1 small.2 ⟨space, [], first⟩
  obtain ⟨space, frames, turn⟩ := holds
  have building := turn.building
  have below := turn.below
  have count := turn.count
  have limit : kernelBase < wordLimit := by decide
  -- This frame is one of those that there is room for.
  have fewer : frames.length + 1 ≤ pages := by
    simp only [pageSize] at *
    omega
  have more' := building.more_room room (by omega)
  have loaded := turn.fill outside more more'
  have inside : now.nextAddr < wordLimit := building.word
  have aligned : (userBase + off) % pageSize = 0 := by
    rw [count]
    simp only [userBase, pageSize]
    omega
  obtain ⟨after, ran⟩ := mapPage_returns loaded.holds loaded.within loaded.next_aligned
    (loaded.more_room room (by simpa using fewer)) aligned building.next_aligned inside
  rw [loaded.root] at ran
  have page := (run_loadPage_ok building.room (by omega)).mpr ⟨more', ran⟩
  obtain ⟨grown, next⟩ := turn.loadPage outside more page
  exact ⟨after, page, grown, _, next⟩

/-- A process is created if a slot is free, and there is room for its tables and frames. -/
theorem createProcess_returns (reached : Reached map ram) (outside : map.Outside image imageSize)
    {slot pages : Nat}
    (free : (List.range procNoMax).find? (fun i => (ram.procs i).state = procStateUnused) = some slot)
    (fits : imageSize ≤ pageSize * pages) (room : map.Room ram.nextAddr pages) :
    ∃ after, (map.createProcess image imageSize).run ram = .ok slot after := by
  obtain ⟨low, aligned, high⟩ := reached.next
  -- Each part returns, and leaves what the next one needs.
  obtain ⟨cleared, stacked⟩ : ∃ cleared, (modifyProc slot fun proc =>
      { proc with stack := storeWord (memset proc.stack 0 0 8192) (8192 - 13 * 4) map.userEntry }).run
        ram = .ok () cleared := ⟨_, EStateM.run_modify _ _⟩
  obtain ⟨_, sameNext, _⟩ := run_modifyProc stacked
  rw [← sameNext] at low aligned high room
  have fewer : map.Room cleared.nextAddr 0 := by
    unfold LinkerMap.Room at *
    simp only [pageSize] at *
    omega
  have more : cleared.nextAddr + pageSize < map.freeRamEnd := by
    unfold LinkerMap.Room at *
    simp only [pageSize] at *
    omega
  have given := (run_allocPages_ok (map.room aligned high)).mpr ⟨more, rfl, rfl⟩
  have first := KernelTurn.begin low aligned more image imageSize
  obtain ⟨mapped, kernelRan⟩ := first.returns fewer
  obtain ⟨_, second⟩ := first.loop kernelRan
  obtain ⟨loaded, userRan⟩ := second.returns outside fits room
  obtain ⟨named, fields⟩ : ∃ named, (modifyProc slot fun proc =>
      { proc with
        pid := slot + 1, state := procStateRunnable, sp := map.slot slot + 16 + 8192 - 13 * 4,
        pageTable := cleared.nextAddr }).run loaded = .ok () named := ⟨_, EStateM.run_modify _ _⟩
  refine ⟨named, ?_⟩
  -- The parts follow each other as in the source.
  unfold LinkerMap.createProcess
  refine Exec.run_bind_ok.mpr ⟨ram, ram, EStateM.run_get ram, ?_⟩
  rw [free]
  refine Exec.run_bind_ok.mpr ⟨(), cleared, stacked, ?_⟩
  refine Exec.run_bind_ok.mpr ⟨_, _, given, ?_⟩
  refine Exec.run_bind_ok.mpr ⟨(), mapped, kernelRan, ?_⟩
  refine Exec.run_bind_ok.mpr ⟨(), loaded, userRan, ?_⟩
  exact Exec.run_bind_ok.mpr ⟨(), named, fields, EStateM.run_pure _ _⟩

/-- A kernel of one megabyte. -/
def smallKernel : LinkerMap where
  procs := 0x80210000
  nextAddr := 0x80221000
  userEntry := 0x80200100
  freeRam := 0x80300000
  aligned := by decide
  base := by decide
  below := by decide
  nextBase := by decide
  nextBelow := by decide
  apart := by decide
  word := by decide

/-- Memory at boot, where each byte is the lowest one of its address. -/
def bootRam : Ram :=
  ⟨fun a => .ofNat a, smallKernel.freeRam, fun _ => ⟨0, procStateUnused, 0, 0, fun _ => 0⟩⟩

theorem reached_bootRam : Reached smallKernel bootRam := .boot _ _

/-- At boot, a process with an image of up to three pages is created in the first slot. -/
theorem exists_createProcess_bootRam {image imageSize : Nat}
    (outside : smallKernel.Outside image imageSize) (fits : imageSize ≤ pageSize * 3) :
    ∃ after, (smallKernel.createProcess image imageSize).run bootRam = .ok 0 after := by
  have free : (List.range procNoMax).find? (fun i => (bootRam.procs i).state = procStateUnused)
      = some 0 := by decide
  -- Free memory is all there, which is far more than three pages and their tables.
  have room : smallKernel.Room bootRam.nextAddr 3 := by
    unfold LinkerMap.Room
    decide
  exact createProcess_returns reached_bootRam outside free fits room

/-- An image of 5000 bytes in the kernel is loaded, and the rest of its second page is zero. -/
theorem createProcess_loads_image : ∃ after,
    (smallKernel.createProcess 0x80201000 5000).run bootRam = .ok 0 after ∧
    (∃ paddr, Sv32.walk (loadWord (smallKernel.bytes after)) (satpOf (after.procs 0).pageTable)
        (userBase + 4999) = .leaf paddr (pageV ||| (pageU ||| pageR ||| pageW ||| pageX)) ∧
      smallKernel.bytes after paddr = .ofNat (0x80201000 + 4999)) ∧
    (∃ paddr, Sv32.walk (loadWord (smallKernel.bytes after)) (satpOf (after.procs 0).pageTable)
        (userBase + 5000) = .leaf paddr (pageV ||| (pageU ||| pageR ||| pageW ||| pageX)) ∧
      smallKernel.bytes after paddr = 0) ∧
    Sv32.walk (loadWord (smallKernel.bytes after)) (satpOf (after.procs 0).pageTable) 0x80210004
      = .leaf 0x80210004 (pageV ||| (pageR ||| pageW ||| pageX)) := by
  have outside : smallKernel.Outside 0x80201000 5000 := .inl (by decide)
  obtain ⟨after, ran⟩ := exists_createProcess_bootRam outside (by decide)
  obtain ⟨image, zeros, kernel⟩ := createProcess_loads reached_bootRam outside ran
  obtain ⟨paddr, walked, byte⟩ := image 4999 (by decide)
  -- The image lies below the process array.
  have other : ¬ smallKernel.InSlot 0 (0x80201000 + 4999) := fun inside => absurd inside.1 (by decide)
  have clear : ¬ smallKernel.InNextAddr (0x80201000 + 4999) := by decide
  refine ⟨after, ran, ⟨paddr, walked, (byte other clear).1.trans ?_⟩,
    zeros 5000 (Nat.le_refl _) (by decide), kernel _ (by decide) (by decide)⟩
  exact LinkerMap.bytes_rest (by decide) clear

/--
A process whose image is its own slot of the array does not see that image.

The return address is on its stack when the stack is copied, and was not there before. Its number is
copied before it is set.
-/
theorem createProcess_loads_itself : ∃ after,
    smallKernel.Outside smallKernel.procs procSize ∧
    (smallKernel.createProcess smallKernel.procs procSize).run bootRam = .ok 0 after ∧
    (∃ paddr, Sv32.walk (loadWord (smallKernel.bytes after)) (satpOf (after.procs 0).pageTable)
        (userBase + 8157) = .leaf paddr (pageV ||| (pageU ||| pageR ||| pageW ||| pageX)) ∧
      smallKernel.bytes after paddr = 1 ∧
      smallKernel.bytes bootRam (smallKernel.procs + 8157) = 0) ∧
    ∃ paddr, Sv32.walk (loadWord (smallKernel.bytes after)) (satpOf (after.procs 0).pageTable)
        (userBase + 0) = .leaf paddr (pageV ||| (pageU ||| pageR ||| pageW ||| pageX)) ∧
      smallKernel.bytes after paddr = 0 ∧ smallKernel.bytes after (smallKernel.procs + 0) = 1 := by
  have outside : smallKernel.Outside smallKernel.procs procSize := .inl (by decide)
  obtain ⟨after, ran⟩ := exists_createProcess_bootRam outside (by decide)
  obtain ⟨low, aligned, high⟩ := reached_bootRam.next
  obtain ⟨_, _, procs, space, frames, building, leaf, enough, _⟩ :=
    createProcess_ok low aligned high outside ran
  have table : (after.procs 0).pageTable = bootRam.nextAddr := by
    rw [procs, Function.update_self]
    rfl
  have size : procSize = 8208 := rfl
  -- While the image is copied, its bytes are those of the slot with its stack cleared.
  have seen : ∀ (now : Ram) (o : Nat), o < procSize →
      smallKernel.bytes now (smallKernel.procs + o) = (now.procs 0).byte o := by
    intro now o small
    have inside : smallKernel.InProcs (smallKernel.procs + o) := by
      unfold LinkerMap.InProcs
      have whole : procSize * procNoMax = 65664 := rfl
      omega
    rw [LinkerMap.bytes, if_pos inside, Nat.add_sub_cancel_left, Nat.div_eq_of_lt small,
      Nat.mod_eq_of_lt small]
  -- The slot has no byte of the next address.
  have clear : ∀ o < procSize, ¬ smallKernel.InNextAddr (smallKernel.procs + o) := by
    intro o small inside
    have first : smallKernel.procs = 0x80210000 := rfl
    have word : smallKernel.nextAddr = 0x80221000 := rfl
    unfold LinkerMap.InNextAddr at inside
    omega
  refine ⟨after, outside, ran, ?_, ?_⟩
  · -- The entry of the new stack was there when the copy was made, and not before.
    obtain ⟨paddr, walked, free, byte⟩ :=
      building.walk_user leaf building.holds_bytes (by omega : 8157 < _)
    refine ⟨paddr, table ▸ walked, ?_, seen bootRam 8157 (by decide)⟩
    rw [smallKernel.bytes_free free, byte fun small => clear _ small, if_pos (by decide),
      seen _ _ (by decide)]
    simp [ProcStruct.byte, LinkerMap.cleared, storeWord, smallKernel]
  · -- The number of the process was written after the copy.
    obtain ⟨paddr, walked, free, byte⟩ :=
      building.walk_user leaf building.holds_bytes (by omega : 0 < _)
    refine ⟨paddr, table ▸ walked, ?_, ?_⟩
    · rw [smallKernel.bytes_free free, byte fun small => clear _ small, if_pos (by decide),
        seen _ _ (by decide)]
      simp [ProcStruct.byte, LinkerMap.cleared, bootRam, wordByte]
    · rw [seen _ _ (by decide), procs]
      simp [ProcStruct.byte, LinkerMap.created, wordByte]

end Os1k.C
