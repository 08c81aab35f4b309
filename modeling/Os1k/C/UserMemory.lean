import Os1k.C.Isolation

/-! What the programs of the C kernel keep in memory: each has one of its own, and no other. -/

namespace Os1k.C

open Riscv (wordLimit)
open Bytes
open Sv32 (Access)

/-- What may happen to memory. -/
inductive MemoryEvent where
  /-- The kernel creates a process. -/
  | create (slot image imageSize : Nat)
  /-- A program stores a byte. -/
  | store (slot v : Nat) (byte : UInt8)
  /-- The kernel changes memory of its own. -/
  | kernel (mem : Nat → UInt8)

/-- Memory as it is meant: one for the kernel, and one for each program. -/
structure PrivateMemory where
  kernel : Nat → UInt8
  user : Nat → Nat → UInt8

namespace PrivateMemory

/-- A new program starts with its image, and what a program stores goes to its own memory. -/
def step (memory : PrivateMemory) : MemoryEvent → PrivateMemory
  | .create slot image imageSize =>
    { memory with
      user := Function.update memory.user slot fun v =>
        if v - userBase < imageSize then memory.kernel (image + (v - userBase)) else 0 }
  | .store slot v byte =>
    { memory with
      user := Function.update memory.user slot (Function.update (memory.user slot) v byte) }
  | .kernel mem => { memory with kernel := mem }

/-- What is in memory after some events. -/
def ofEvents (boot : Nat → UInt8) (events : List MemoryEvent) : PrivateMemory :=
  events.foldl step ⟨boot, fun _ _ => 0⟩

/-- One more event happens to what the events before have left. -/
theorem ofEvents_concat (boot : Nat → UInt8) (events : List MemoryEvent) (event : MemoryEvent) :
    ofEvents boot (events ++ [event]) = (ofEvents boot events).step event := by
  rw [ofEvents, List.foldl_append]
  rfl

end PrivateMemory

/-- The process that an event creates. -/
def MemoryEvent.creation : MemoryEvent → Option Creation
  | .create slot _ imageSize => some ⟨slot, imageSize⟩
  | .store _ _ _ => none
  | .kernel _ => none

/-- The processes that some events have created. -/
def createdIn (events : List MemoryEvent) : List Creation := events.filterMap MemoryEvent.creation

/-- An address of the memory that the kernel hands out. -/
def LinkerMap.InFree (map : LinkerMap) (a : Nat) : Prop := map.freeRam ≤ a ∧ a < map.freeRamEnd

instance (map : LinkerMap) (a : Nat) : Decidable (map.InFree a) := inferInstanceAs (Decidable (_ ∧ _))

/-- An image has no byte in the process array, and none in the next address. -/
def LinkerMap.Apart (map : LinkerMap) (image imageSize : Nat) : Prop :=
  ∀ k < imageSize, ¬ map.InProcs (image + k) ∧ ¬ map.InNextAddr (image + k)

/-- The address that a program reaches at an address of its own. -/
def Ram.userAccess (ram : Ram) (slot v : Nat) (access : Access) : Option Nat :=
  Sv32.userAccess (loadWord ram.mem) (satpOf (ram.procs slot).pageTable) v access

/--
Memory as the kernel and the programs change it, in any order.

A program stores where its page table lets it. The kernel itself writes to no memory that it has
handed out, and leaves the page tables of processes alone and their slots taken.
-/
inductive MemoryRun (map : LinkerMap) (boot : Nat → UInt8) : Ram → List MemoryEvent → Prop where
  | boot {procs : Nat → ProcStruct} (unused : ∀ i, (procs i).state = procStateUnused) :
      MemoryRun map boot ⟨boot, map.freeRam, procs⟩ []
  | create {ram after : Ram} {events : List MemoryEvent} {image imageSize slot : Nat}
      (before : MemoryRun map boot ram events) (outside : map.Outside image imageSize)
      (ran : (map.createProcess image imageSize).run ram = .ok slot after) :
      MemoryRun map boot after (events ++ [.create slot image imageSize])
  | store {ram : Ram} {events : List MemoryEvent} {p : Creation} {v paddr : Nat}
      (before : MemoryRun map boot ram events) (member : p ∈ createdIn events)
      (word : v < wordLimit) (allowed : ram.userAccess p.slot v .store = some paddr)
      (byte : UInt8) :
      MemoryRun map boot { ram with mem := Function.update ram.mem paddr byte }
        (events ++ [.store p.slot v byte])
  | kernel {ram : Ram} {events : List MemoryEvent} (before : MemoryRun map boot ram events)
      (mem : Nat → UInt8) {procs : Nat → ProcStruct}
      (tables : ∀ i, (procs i).pageTable = (ram.procs i).pageTable)
      (taken : ∀ i, (ram.procs i).state ≠ procStateUnused → (procs i).state ≠ procStateUnused) :
      MemoryRun map boot
        { ram with mem := fun a => if map.InFree a then ram.mem a else mem a, procs }
        (events ++ [.kernel mem])

/-- What memory holds of the memories of the kernel and the programs, the two objects apart. -/
structure Mirrors (map : LinkerMap) (ram : Ram) (made : List Creation) (memory : PrivateMemory)
    (region : Nat → Region) : Prop where
  separate : Separate map ram made region
  kernel : ∀ a, ¬ map.InFree a → ram.mem a = memory.kernel a
  enough : ∀ p ∈ made, p.imageSize ≤ pageSize * (region p.slot).frames.length
  below : ∀ p ∈ made, userBase + pageSize * (region p.slot).frames.length < kernelBase
  bytes : ∀ p ∈ made, ∀ k frame, (region p.slot).frames[k]? = some frame → ∀ o < pageSize,
    ram.mem (frame + o) = memory.user p.slot (userBase + (k * pageSize + o))

variable {map : LinkerMap} {ram after : Ram} {made : List Creation} {memory : PrivateMemory}
  {region : Nat → Region} {atBoot : Nat → UInt8} {events : List MemoryEvent}

/-- The events of a run are among what may happen to memory. -/
theorem MemoryRun.reached (run : MemoryRun map atBoot ram events) : Reached map ram := by
  -- A store and a step of the kernel leave the next address alone.
  induction run with
  | boot _ => exact .boot atBoot _
  | create _ outside ran ih => exact ih.create outside ran
  | store _ _ _ _ _ ih => exact ih.run _ _
  | kernel _ _ _ _ ih => exact ih.run _ _

namespace Resident

variable {p : Creation} {own : Region}

/-- A process keeps its region while nothing is written to its table. -/
theorem untouched (resident : Resident map ram p own)
    (same : ∀ page, own.space.IsTable page → ∀ o < pageSize, after.mem (page + o) = ram.mem (page + o))
    (next : after.nextAddr = ram.nextAddr)
    (table : (after.procs p.slot).pageTable = (ram.procs p.slot).pageTable)
    (taken : (after.procs p.slot).state ≠ procStateUnused) : Resident map after p own := by
  -- All that the region says about memory is what the table holds.
  have high := resident.high
  exact ⟨table.trans resident.table, taken, resident.low, by omega, resident.holds.congr same,
    resident.within, resident.leaf, resident.frame, resident.distinct, resident.fits⟩

/-- A table lies in free memory. -/
theorem inFree (resident : Resident map ram p own) (high : ram.nextAddr < map.freeRamEnd) {page : Nat}
    (table : own.space.IsTable page) {o : Nat} (byte : o < pageSize) : map.InFree (page + o) := by
  -- Tables lie between the bounds of their region, and those lie in free memory.
  have bounds := resident.within.isTable table
  have low := resident.low
  have last := resident.high
  unfold LinkerMap.InFree
  omega

/-- A program reaches the frames of its image, in order, and nothing else. -/
theorem userAccess_eq (resident : Resident map ram p own) (high : ram.nextAddr < map.freeRamEnd)
    (below : userBase + pageSize * own.frames.length < kernelBase) {v : Nat} (word : v < wordLimit)
    (access : Access) :
    ram.userAccess p.slot v access =
      if userBase ≤ v then own.frames[(v - userBase) / pageSize]?.map (· + v % pageSize) else none := by
  have limit : own.stop < wordLimit :=
    Nat.lt_of_le_of_lt resident.high (Nat.lt_trans high map.word)
  -- Pages of the image are numbered from `USER_BASE` on.
  have index : userBase ≤ v → v / pageSize = userBase / pageSize + (v - userBase) / pageSize := by
    intro first
    simp only [userBase, pageSize] at *
    omega
  unfold Ram.userAccess Sv32.userAccess
  rw [resident.table]
  -- The walk of the real tables is known from the space that they hold.
  cases mapped : own.space.leaf (v / pageSize) with
  | none =>
    rw [resident.holds.walk_none resident.within limit word mapped]
    by_cases first : userBase ≤ v
    · -- The page of a frame would be mapped.
      rw [if_pos first]
      cases found : own.frames[(v - userBase) / pageSize]? with
      | none => rfl
      | some frame =>
        rw [resident.leaf, index first, pagesOf_frame found below] at mapped
        exact absurd mapped (Option.some_ne_none _)
    · rw [if_neg first]
  | some leaf =>
    obtain ⟨target, bits⟩ := leaf
    have shape := mapped
    rw [resident.leaf] at shape
    rcases pagesOf_cases shape with ⟨here, rfl⟩ | ⟨k, number, found, rfl⟩
    · -- A page of the kernel is not for the user, and is none of the image.
      have aligned : target % pageSize = 0 := by rw [here, Nat.mul_mod_left]
      rw [resident.holds.walk_some resident.within limit word mapped aligned (by decide) (by decide)
        (by decide) (by decide)]
      simp only
      rw [if_neg (fun allowed => absurd rfl allowed.1)]
      by_cases first : userBase ≤ v
      · rw [if_pos first]
        cases found : own.frames[(v - userBase) / pageSize]? with
        | none => rfl
        | some frame =>
          rw [resident.leaf, index first, pagesOf_frame found below, Option.some.injEq,
            Prod.mk.injEq] at mapped
          exact absurd mapped.2 (by decide)
      · rw [if_neg first]
    · -- A page of the image leads to its frame, and its flags allow every access.
      have aligned := (resident.frame target (List.mem_of_getElem? found)).2.2.1
      rw [resident.holds.walk_some resident.within limit word mapped aligned (by decide) (by decide)
        (by decide) (by decide)]
      have first : userBase ≤ v := by
        simp only [userBase, pageSize] at *
        omega
      have same : (v - userBase) / pageSize = k := by
        have split := index first
        omega
      rw [if_pos first, same, found]
      cases access <;> rfl

end Resident

/-- An event adds the process that it creates. -/
theorem createdIn_concat (events : List MemoryEvent) (event : MemoryEvent) :
    createdIn (events ++ [event]) = createdIn events ++ event.creation.toList := by
  rw [createdIn, List.filterMap_append]
  cases event <;> rfl

namespace Mirrors

/-- At boot there is the memory of the kernel. -/
theorem boot (mem : Nat → UInt8) (procs : Nat → ProcStruct) (region : Nat → Region) :
    Mirrors map ⟨mem, map.freeRam, procs⟩ [] ⟨mem, fun _ _ => 0⟩ region := by
  refine ⟨.boot mem procs region, fun _ _ => rfl, ?_, ?_, ?_⟩
  · exact fun p member => absurd member List.not_mem_nil
  · exact fun p member => absurd member List.not_mem_nil
  · exact fun p member => absurd member List.not_mem_nil

/-- A new program starts with its image, and the others have what they had. -/
theorem create (mirrors : Mirrors map ram made memory region) (reached : Reached map ram)
    {image imageSize slot : Nat} (outside : map.Outside image imageSize)
    (apart : map.Apart image imageSize)
    (ran : (map.createProcess image imageSize).run ram = .ok slot after) :
    ∃ regions, Mirrors map after (made ++ [⟨slot, imageSize⟩])
      (memory.step (.create slot image imageSize)) regions := by
  obtain ⟨low, aligned, high⟩ := reached.next
  obtain ⟨_, free, procs, space, frames, building, leaf, enough, fits⟩ :=
    createProcess_ok low aligned high outside ran
  have separate := mirrors.separate.created low free procs building leaf fits
  -- The slots in use are not the new one, and their frames lie before the new region.
  have fresh : ∀ p ∈ made, p.slot ≠ slot := by
    intro p member same
    have taken := (mirrors.separate.resident p member).taken
    rw [same] at taken
    exact taken free
  refine ⟨_, separate, fun a far => ?_, fun p member => ?_, fun p member => ?_,
    fun p member k frame found o byte => ?_⟩
  · -- What lies outside the free memory is as it was.
    have size := building.size
    have stop := building.high
    show after.mem a = memory.kernel a
    rw [← mirrors.kernel a far]
    apply building.other
    unfold LinkerMap.InFree at far
    omega
  · rcases List.mem_append.mp member with old | new
    · rw [Function.update_of_ne (fresh p old)]
      exact mirrors.enough p old
    · rw [List.mem_singleton] at new
      subst new
      rw [Function.update_self]
      exact enough
  · rcases List.mem_append.mp member with old | new
    · rw [Function.update_of_ne (fresh p old)]
      exact mirrors.below p old
    · rw [List.mem_singleton] at new
      subst new
      rw [Function.update_self]
      exact building.frames_below
  · -- Each page of an older process is as it was; a page of the new one is what was copied.
    simp only [PrivateMemory.step]
    rcases List.mem_append.mp member with old | new
    · rw [Function.update_of_ne (fresh p old)] at found ⊢
      have resident := mirrors.separate.resident p old
      have bounds := resident.frame frame (List.mem_of_getElem? found)
      have before := resident.high
      rw [building.other _ (.inl (by omega))]
      exact mirrors.bytes p old k frame found o byte
    · rw [List.mem_singleton] at new
      subst new
      rw [Function.update_self] at found ⊢
      rw [building.bytes k frame found o byte fun inside => (apart _ inside).2,
        Nat.add_sub_cancel_left]
      by_cases inside : k * pageSize + o < imageSize
      · -- The image lies in memory of the kernel, and has no byte of the two objects.
        obtain ⟨first, second⟩ := apart _ inside
        rw [if_pos inside, if_pos inside, LinkerMap.bytes_rest first second]
        apply mirrors.kernel
        unfold LinkerMap.InFree
        unfold LinkerMap.Outside at outside
        omega
      · rw [if_neg inside, if_neg inside]

/-- The kernel changes its own memory, and not what it has handed out. -/
theorem kernelStep (mirrors : Mirrors map ram made memory region) (mem : Nat → UInt8)
    {procs : Nat → ProcStruct} (tables : ∀ i, (procs i).pageTable = (ram.procs i).pageTable)
    (taken : ∀ i, (ram.procs i).state ≠ procStateUnused → (procs i).state ≠ procStateUnused) :
    Mirrors map { ram with mem := fun a => if map.InFree a then ram.mem a else mem a, procs } made
      (memory.step (.kernel mem)) region := by
  have high := mirrors.separate.high
  -- What belongs to a process lies in the free memory, which this step leaves alone.
  refine ⟨⟨high, fun p member => ?_, mirrors.separate.apart⟩, fun a far => if_neg far,
    mirrors.enough, mirrors.below, fun p member k frame found o byte => ?_⟩
  · have resident := mirrors.separate.resident p member
    refine resident.untouched (fun page table o byte => ?_) rfl (tables p.slot)
      (taken p.slot resident.taken)
    exact if_pos (resident.inFree high table byte)
  · have resident := mirrors.separate.resident p member
    have bounds := resident.frame frame (List.mem_of_getElem? found)
    have low := resident.low
    have last := resident.high
    have inside : map.InFree (frame + o) := by
      unfold LinkerMap.InFree
      omega
    exact (if_pos inside).trans (mirrors.bytes p member k frame found o byte)

/-- The byte that a program reaches is that of its own memory. -/
theorem read (mirrors : Mirrors map ram made memory region) {p : Creation} (member : p ∈ made)
    {v paddr : Nat} (word : v < wordLimit) {access : Access}
    (allowed : ram.userAccess p.slot v access = some paddr) :
    ∃ k frame, (region p.slot).frames[k]? = some frame ∧ paddr = frame + v % pageSize ∧
      v = userBase + (k * pageSize + v % pageSize) := by
  have resident := mirrors.separate.resident p member
  rw [resident.userAccess_eq mirrors.separate.high (mirrors.below p member) word] at allowed
  -- Below `USER_BASE` nothing is mapped for the user.
  by_cases first : userBase ≤ v
  · rw [if_pos first] at allowed
    obtain ⟨frame, found, same⟩ := Option.map_eq_some_iff.mp allowed
    refine ⟨_, frame, found, same.symm, ?_⟩
    simp only [userBase, pageSize] at *
    omega
  · rw [if_neg first] at allowed
    exact absurd allowed.symm (Option.some_ne_none _)

/-- A program stores a byte in its own memory. -/
theorem store (mirrors : Mirrors map ram made memory region) {p : Creation} (member : p ∈ made)
    {v paddr : Nat} (word : v < wordLimit) (allowed : ram.userAccess p.slot v .store = some paddr)
    (byte : UInt8) :
    Mirrors map { ram with mem := Function.update ram.mem paddr byte } made
      (memory.step (.store p.slot v byte)) region := by
  -- The store goes to a byte of one frame, which is page `k` of the image.
  obtain ⟨k, frame, found, rfl, place⟩ := mirrors.read member word allowed
  have high := mirrors.separate.high
  have resident := mirrors.separate.resident p member
  obtain ⟨first, last, aligned, table⟩ := resident.frame frame (List.mem_of_getElem? found)
  have offset : v % pageSize < pageSize := Nat.mod_lt _ (by decide)
  refine ⟨⟨high, fun q also => ?_, mirrors.separate.apart⟩, fun a far => ?_, mirrors.enough,
    mirrors.below, fun q also l other there o inside => ?_⟩
  · -- The frame is no table of the program itself, and none of another one.
    have neighbour := mirrors.separate.resident q also
    refine neighbour.untouched (fun page tables o inside => ?_) rfl rfl neighbour.taken
    apply Function.update_of_ne
    have whole := neighbour.within.isTable tables
    by_cases slots : q.slot = p.slot
    · rw [slots] at tables
      have different : page ≠ frame := by
        rintro rfl
        exact table tables
      have beside := page_apart whole.2.2 aligned different
      omega
    · have beside := mirrors.separate.apart q also p member slots
      omega
  · -- Memory of the kernel is not handed out, so the frame is no part of it.
    have low := resident.low
    have stop := resident.high
    refine (Function.update_of_ne ?_ _ _).trans (mirrors.kernel a far)
    unfold LinkerMap.InFree at far
    omega
  · -- The same byte changes in the private memory, and no other one.
    simp only [PrivateMemory.step]
    have before := mirrors.bytes q also l other there o inside
    have bounds := (mirrors.separate.resident q also).frame other (List.mem_of_getElem? there)
    by_cases slots : q.slot = p.slot
    · rw [slots] at there bounds before ⊢
      rw [Function.update_self]
      by_cases same : other = frame
      · -- A frame is in the list of its process once.
        subst same
        have early := (List.getElem?_eq_some_iff.mp there).1
        have pages : l = k :=
          (List.getElem?_inj early resident.distinct).mp (there.trans found.symm)
        subst pages
        by_cases here : o = v % pageSize
        · rw [here, ← place, Function.update_self, Function.update_self]
        · rw [Function.update_of_ne (by omega), Function.update_of_ne (by omega)]
          exact before
      · -- Another frame of the same process holds another page of it.
        have pages : l ≠ k := by
          rintro rfl
          exact same (Option.some.inj (there.symm.trans found))
        have beside := page_apart bounds.2.2.1 aligned same
        have elsewhere : userBase + (l * pageSize + o) ≠ v := by
          simp only [pageSize] at *
          omega
        rw [Function.update_of_ne (by omega), Function.update_of_ne elsewhere]
        exact before
    · -- Another process has its frames elsewhere.
      have beside := mirrors.separate.apart q also p member slots
      rw [Function.update_of_ne slots, Function.update_of_ne (by omega)]
      exact before

end Mirrors

/-- Whatever happens, memory holds the memories of the kernel and the programs. -/
theorem MemoryRun.mirrors (run : MemoryRun map atBoot ram events)
    (apart : ∀ slot image imageSize, .create slot image imageSize ∈ events →
      map.Apart image imageSize) :
    ∃ region, Mirrors map ram (createdIn events) (.ofEvents atBoot events) region := by
  -- The induction is on the run: each event has a lemma that says what it leaves mirrored.
  induction run with
  | boot _ => exact ⟨fun _ => ⟨0, 0, ⟨0, fun _ => none, fun _ => none⟩, []⟩, .boot atBoot _ _⟩
  | create before outside ran ih =>
    obtain ⟨region, mirrors⟩ := ih fun slot image imageSize member =>
      apart slot image imageSize (List.mem_append_left _ member)
    rw [createdIn_concat, PrivateMemory.ofEvents_concat]
    exact mirrors.create before.reached outside (apart _ _ _ List.mem_concat_self) ran
  | store before member word allowed byte ih =>
    obtain ⟨region, mirrors⟩ := ih fun slot image imageSize member =>
      apart slot image imageSize (List.mem_append_left _ member)
    rw [createdIn_concat, PrivateMemory.ofEvents_concat]
    -- A store creates nothing.
    simp only [MemoryEvent.creation, Option.toList_none, List.append_nil]
    exact ⟨region, mirrors.store member word allowed byte⟩
  | kernel before mem tables taken ih =>
    obtain ⟨region, mirrors⟩ := ih fun slot image imageSize member =>
      apart slot image imageSize (List.mem_append_left _ member)
    rw [createdIn_concat, PrivateMemory.ofEvents_concat]
    simp only [MemoryEvent.creation, Option.toList_none, List.append_nil]
    exact ⟨region, mirrors.kernelStep mem tables taken⟩

/--
Each program has its image and what it stores to itself, and the kernel its own memory.

Whatever the kernel and the other programs do in between, an access finds the byte that the program
would find if it were alone with its memory. It succeeds in the pages of the image only. The images
are no part of the process array or of the next address, which the kernel changes by themselves.
-/
theorem programs_private (run : MemoryRun map atBoot ram events)
    (apart : ∀ slot image imageSize, .create slot image imageSize ∈ events →
      map.Apart image imageSize) :
    (∀ a, ¬ map.InFree a → ¬ map.InProcs a → ¬ map.InNextAddr a →
      map.bytes ram a = (PrivateMemory.ofEvents atBoot events).kernel a) ∧
    ∀ p ∈ createdIn events, ∀ v < wordLimit, ∀ access,
      (ram.userAccess p.slot v access).map (map.bytes ram) =
        if userBase ≤ v ∧ v < userBase + (p.imageSize + pageSize - 1) / pageSize * pageSize then
          some ((PrivateMemory.ofEvents atBoot events).user p.slot v)
        else none := by
  obtain ⟨region, mirrors⟩ := run.mirrors apart
  refine ⟨fun a far first second => ?_, fun p member v word access => ?_⟩
  · rw [LinkerMap.bytes_rest first second]
    exact mirrors.kernel a far
  have resident := mirrors.separate.resident p member
  have enough := mirrors.enough p member
  have fits := resident.fits
  -- The image fills so many frames, the last of them maybe in part.
  have pages : (p.imageSize + pageSize - 1) / pageSize = (region p.slot).frames.length := by
    simp only [pageSize] at *
    omega
  cases allowed : ram.userAccess p.slot v access with
  | some paddr =>
    obtain ⟨k, frame, found, rfl, place⟩ := mirrors.read member word allowed
    have early := (List.getElem?_eq_some_iff.mp found).1
    have offset : v % pageSize < pageSize := Nat.mod_lt _ (by decide)
    have inside : userBase ≤ v ∧ v < userBase + (region p.slot).frames.length * pageSize := by
      simp only [userBase, pageSize] at *
      omega
    have byte := mirrors.bytes p member k frame found _ offset
    rw [← place] at byte
    -- Frames lie in free memory.
    have bounds := resident.frame frame (List.mem_of_getElem? found)
    have low := resident.low
    rw [pages, if_pos inside, Option.map_some, map.bytes_free (by omega), byte]
  | none =>
    rw [resident.userAccess_eq mirrors.separate.high (mirrors.below p member) word] at allowed
    have outside : ¬ (userBase ≤ v ∧ v < userBase + (region p.slot).frames.length * pageSize) := by
      rintro ⟨first, last⟩
      have early : (v - userBase) / pageSize < (region p.slot).frames.length := by
        simp only [userBase, pageSize] at *
        omega
      rw [if_pos first, List.getElem?_eq_getElem early, Option.map_some] at allowed
      exact absurd allowed (Option.some_ne_none _)
    rw [pages, if_neg outside]
    rfl

/-- A small kernel creates two processes with one image of 5000 bytes. -/
theorem exists_two_programs : ∃ ram, MemoryRun smallKernel bootRam.mem ram
      [.create 0 0x80201000 5000, .create 1 0x80201000 5000] ∧
    (List.range procNoMax).find? (fun i => (ram.procs i).state = procStateUnused) = some 2 := by
  have none : MemoryRun smallKernel bootRam.mem bootRam [] := .boot fun _ => rfl
  have outside : smallKernel.Outside 0x80201000 5000 := .inl (by decide)
  have fits : 5000 ≤ pageSize * 2 := by decide
  have firstRoom : smallKernel.Room bootRam.nextAddr 2 := by
    unfold LinkerMap.Room
    decide
  obtain ⟨ram, first⟩ := createProcess_returns none.reached outside
    (by decide : (List.range procNoMax).find? (fun i => (bootRam.procs i).state = procStateUnused)
      = some 0) fits firstRoom
  have one := none.create outside first
  -- The first process takes slot 0, two frames, and no more than a table for each index.
  obtain ⟨low, aligned, high⟩ := none.reached.next
  obtain ⟨_, _, procs, space, frames, building, _, _, most⟩ :=
    createProcess_ok low aligned high outside first
  have free : (List.range procNoMax).find? (fun i => (ram.procs i).state = procStateUnused)
      = some 1 := by
    rw [procs]
    decide
  have secondRoom : smallKernel.Room ram.nextAddr 2 := by
    have size := building.size
    have tables := space.count_le
    have start : bootRam.nextAddr = 0x80300000 := rfl
    have stop : smallKernel.freeRamEnd = 0x84300000 := by decide
    unfold LinkerMap.Room
    simp only [pageSize] at *
    omega
  obtain ⟨after, second⟩ := createProcess_returns one.reached outside free fits secondRoom
  refine ⟨after, one.create outside second, ?_⟩
  -- The two calls have taken the first two slots.
  obtain ⟨low, aligned, high⟩ := one.reached.next
  obtain ⟨_, _, later, _⟩ := createProcess_ok low aligned high outside second
  rw [later, procs]
  rfl

/-- The image of the two processes lies apart from the process array and the next address. -/
theorem apart_two_programs {events : List MemoryEvent}
    (only : ∀ slot image imageSize, .create slot image imageSize ∈ events →
      image = 0x80201000 ∧ imageSize = 5000) :
    ∀ slot image imageSize, .create slot image imageSize ∈ events →
      smallKernel.Apart image imageSize := by
  intro slot image imageSize member
  obtain ⟨rfl, rfl⟩ := only slot image imageSize member
  have first : smallKernel.procs = 0x80210000 := rfl
  have second : smallKernel.nextAddr = 0x80221000 := rfl
  -- The image ends below both variables.
  intro k small
  unfold LinkerMap.InProcs LinkerMap.InNextAddr
  omega

/-- A program finds the byte that it has stored, and the other one that of the image. -/
theorem programs_private_pair : ∃ ram, MemoryRun smallKernel bootRam.mem ram
    [.create 0 0x80201000 5000, .create 1 0x80201000 5000, .store 0 (userBase + 4097) 7] ∧
    (ram.userAccess 0 (userBase + 4097) .load).map (smallKernel.bytes ram) = some 7 ∧
    (ram.userAccess 1 (userBase + 4097) .load).map (smallKernel.bytes ram) = some 1 := by
  obtain ⟨ram, created, _⟩ := exists_two_programs
  have first : (⟨0, 5000⟩ : Creation) ∈ createdIn
      [.create 0 0x80201000 5000, .create 1 0x80201000 5000] := by decide
  have word : userBase + 4097 < wordLimit := by decide
  -- The store is allowed, since the address is one of the image.
  have writable := (programs_private created (apart_two_programs (by grind))).2 _ first _ word .store
  rw [if_pos (by decide)] at writable
  obtain ⟨paddr, allowed, _⟩ := Option.map_eq_some_iff.mp writable
  have stored := created.store first word allowed 7
  have reads := (programs_private stored (apart_two_programs (by grind))).2
  refine ⟨_, stored, ?_, ?_⟩
  · refine (reads ⟨0, 5000⟩ (by decide) _ word .load).trans ?_
    rw [if_pos (by decide)]
    rfl
  · refine (reads ⟨1, 5000⟩ (by decide) _ word .load).trans ?_
    rw [if_pos (by decide)]
    rfl

end Os1k.C
