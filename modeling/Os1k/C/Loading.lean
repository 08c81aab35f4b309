import Os1k.C.Mapping

/-! How the C kernel loads an image: what memory holds for a process that was created. -/

namespace Os1k.C

open Riscv (wordLimit)
open Bytes

/-- The flags of a page of the kernel. -/
def kernelFlags : Nat := pageV ||| (pageR ||| pageW ||| pageX)

/-- The flags of a page of a user program. -/
def userFlags : Nat := pageV ||| (pageU ||| pageR ||| pageW ||| pageX)

/-- An image has no byte in free memory. -/
def LinkerMap.Outside (map : LinkerMap) (image imageSize : Nat) : Prop :=
  image + imageSize ≤ map.freeRam ∨ map.freeRamEnd ≤ image

/--
What a process is to see, by page number.

The pages of the kernel up to an address are mapped where they are, and the pages of the image where
user programs start.
-/
def pagesOf (kernelTop : Nat) (frames : List Nat) (number : Nat) : Option (Nat × Nat) :=
  if kernelBase ≤ number * pageSize ∧ number * pageSize < kernelTop then
    some (number * pageSize, kernelFlags)
  else if userBase ≤ number * pageSize then
    frames[number - userBase / pageSize]?.map fun frame => (frame, userFlags)
  else none

/--
Memory in the middle of creating a process.

From `start` on, it has the pages of a table and some frames, apart from each other, and the frames
hold the bytes of the image. The rest is as it was.

Where the image is a part of the process array, its bytes are those of the array while the image is
loaded. Of an image that contains the next address, which moves while it is loaded, these four bytes
are left open.
-/
structure Building (map : LinkerMap) (start : Nat) (source : Nat → UInt8) (image imageSize : Nat)
    (procs : Nat → ProcStruct) (frames : List Nat) (ram : Ram) (space : Space) : Prop where
  root : space.root = start
  low : map.freeRam ≤ start
  high : ram.nextAddr < map.freeRamEnd
  aligned : start % pageSize = 0
  size : ram.nextAddr = start + pageSize * (1 + space.count + frames.length)
  holds : space.Holds ram.mem
  within : space.Within start ram.nextAddr
  other : ∀ a, a < start ∨ ram.nextAddr ≤ a → ram.mem a = source a
  frame : ∀ frame ∈ frames, start ≤ frame ∧ frame + pageSize ≤ ram.nextAddr ∧
    frame % pageSize = 0 ∧ ¬ space.IsTable frame
  bytes : ∀ k frame, frames[k]? = some frame → ∀ o < pageSize,
    (k * pageSize + o < imageSize → ¬ map.InNextAddr (image + (k * pageSize + o))) →
      ram.mem (frame + o) = if k * pageSize + o < imageSize then
        map.bytes ⟨source, start, procs⟩ (image + (k * pageSize + o)) else 0
  distinct : frames.Nodup

/-- A page that ends at the end of free memory or before, for a next address that is aligned. -/
theorem LinkerMap.room (map : LinkerMap) {next : Nat} (aligned : next % pageSize = 0)
    (high : next < map.freeRamEnd) : next + pageSize ≤ map.freeRamEnd := by
  -- The end of free memory is itself the start of a page.
  have whole := map.aligned
  simp only [LinkerMap.freeRamEnd, freeRamSize, pageSize] at *
  omega

namespace Building

variable {map : LinkerMap} {start image imageSize : Nat} {source : Nat → UInt8}
  {procs : Nat → ProcStruct} {frames : List Nat} {ram after : Ram} {space grown : Space}

/-- Whole pages are handed out, so the next address is that of a page. -/
theorem next_aligned (building : Building map start source image imageSize procs frames ram space) :
    ram.nextAddr % pageSize = 0 := by
  -- The next address is the start plus a number of whole pages.
  have aligned := building.aligned
  rw [building.size]
  simp only [pageSize] at *
  omega

theorem room (building : Building map start source image imageSize procs frames ram space) :
    ram.nextAddr + pageSize ≤ map.freeRamEnd :=
  map.room building.next_aligned building.high

/-- A table that grows leaves the frames and what lies around. -/
theorem grow (building : Building map start source image imageSize procs frames ram space)
    (growth : Grown start ram space after grown) (high : after.nextAddr < map.freeRamEnd) :
    Building map start source image imageSize procs frames after grown := by
  have size : pageSize = 4096 := rfl
  -- A new page of the table lies behind all frames.
  have apart : ∀ frame ∈ frames, ¬ grown.IsTable frame := by
    intro frame member table
    obtain ⟨_, before, _, other⟩ := building.frame frame member
    rcases growth.tables frame table with old | ⟨rfl, _⟩
    · exact other old
    · omega
  refine ⟨growth.root.trans building.root, building.low, high, building.aligned, ?_, growth.holds,
    growth.within, fun a outside => ?_, fun frame member => ?_,
    fun k frame found o byte clear => ?_, building.distinct⟩
  · have before := building.size
    have added := growth.size
    rw [Nat.mul_add, Nat.mul_add] at before ⊢
    omega
  · -- Only pages of the table were written.
    have later := growth.later
    rw [growth.other a fun page table => ?_]
    · exact building.other a (by omega)
    · have bounds := growth.within.isTable table
      omega
  · obtain ⟨first, before, whole, _⟩ := building.frame frame member
    exact ⟨first, Nat.le_trans before growth.later, whole, apart frame member⟩
  · have member := List.mem_of_getElem? found
    have whole := (building.frame frame member).2.2.1
    rw [growth.other (frame + o) fun page table => ?_]
    · exact building.bytes k frame found o byte clear
    · have different : frame ≠ page := by
        rintro rfl
        exact apart frame member table
      have beside := page_apart whole (growth.within.isTable table).2.2 different
      omega

/-- The bytes that one turn of the loop copies. -/
def copySize (imageSize off : Nat) : Nat :=
  if pageSize ≤ imageSize - off then pageSize else imageSize - off

theorem copySize_eq (imageSize off : Nat) : copySize imageSize off = min pageSize (imageSize - off) :=
  rfl

/-- What a page holds once the next bytes of the image are copied into it. -/
theorem copied_bytes (building : Building map start source image imageSize procs frames ram space)
    (outside : map.Outside image imageSize) (same : ram.procs = procs) (off o : Nat)
    (byte : o < pageSize) (more : off < imageSize)
    (clear : off + o < imageSize → ¬ map.InNextAddr (image + (off + o))) :
    ((ram.handedOut pageSize).memcpy map ram.nextAddr (image + off) (copySize imageSize off)).mem
      (ram.nextAddr + o) = if off + o < imageSize then
        map.bytes ⟨source, start, procs⟩ (image + (off + o)) else 0 := by
  -- The page is zeroed first, and then no more bytes are copied than the image has left.
  have low := building.low
  have grows := building.size
  have room := building.room
  have most : copySize imageSize off ≤ pageSize ∧ copySize imageSize off ≤ imageSize - off ∧
      (o < copySize imageSize off ↔ off + o < imageSize) := by
    rw [copySize_eq]
    omega
  unfold LinkerMap.Outside at outside
  have zeroed : ∀ x, (ram.handedOut pageSize).mem x =
      if ram.nextAddr ≤ x ∧ x < ram.nextAddr + pageSize then 0 else ram.mem x := by
    intro x
    rw [Ram.handedOut_mem, memset_apply]
  rw [Ram.memcpy_mem (by omega)]
  by_cases inside : off + o < imageSize
  · -- The byte comes from the image, where only the next address has changed.
    have place : image + off + (ram.nextAddr + o - ram.nextAddr) = image + (off + o) := by omega
    have kept : (ram.handedOut pageSize).mem (image + (off + o)) = source (image + (off + o)) := by
      rw [zeroed, if_neg (by omega)]
      exact building.other _ (by omega)
    rw [if_pos inside, if_pos (by omega), place]
    simp only [LinkerMap.bytes, Ram.handedOut_procs, same, if_neg (clear inside), kept]
  · rw [if_neg inside, if_neg (by omega), zeroed, if_pos (by omega)]

/-- Nothing changes outside the page that bytes are copied into. -/
theorem copied_other (building : Building map start source image imageSize procs frames ram space)
    (outside : map.Outside image imageSize) {off : Nat} (more : off < imageSize) (x : Nat)
    (apart : x < ram.nextAddr ∨ ram.nextAddr + pageSize ≤ x) :
    ((ram.handedOut pageSize).memcpy map ram.nextAddr (image + off) (copySize imageSize off)).mem x
      = ram.mem x := by
  -- Both the zeros and the bytes of the image stay in the page.
  have low := building.low
  have grows := building.size
  have room := building.room
  have most : copySize imageSize off ≤ pageSize ∧ copySize imageSize off ≤ imageSize - off := by
    rw [copySize_eq]
    omega
  unfold LinkerMap.Outside at outside
  rw [Ram.memcpy_mem (by omega), if_neg (by omega), Ram.handedOut_mem, memset_apply,
    if_neg (by omega)]

/-- One more page of the image is in a frame, which is not mapped yet. -/
theorem copy (building : Building map start source image imageSize procs frames ram space)
    (outside : map.Outside image imageSize) (array : ram.procs = procs)
    (more : pageSize * frames.length < imageSize)
    (high : ram.nextAddr + pageSize < map.freeRamEnd) :
    Building map start source image imageSize procs (frames ++ [ram.nextAddr])
      ((ram.handedOut pageSize).memcpy map ram.nextAddr (image + pageSize * frames.length)
        (copySize imageSize (pageSize * frames.length))) space := by
  -- The new page lies behind everything that was handed out before.
  have size : pageSize = 4096 := rfl
  have same := building.copied_other outside more
  refine ⟨building.root, building.low, by simpa using high, building.aligned, ?_, ?_, ?_,
    fun a far => ?_, fun frame member => ?_, fun k frame found o byte clear => ?_, ?_⟩
  · -- One more page was handed out, for one more frame.
    have before := building.size
    rw [Ram.memcpy_nextAddr, Ram.handedOut_nextAddr, List.length_append, List.length_singleton,
      before, ← Nat.add_assoc _ _ 1, Nat.mul_succ, Nat.add_assoc]
  · refine building.holds.congr fun page table o byte => same _ (.inl ?_)
    have bounds := building.within.isTable table
    omega
  · rw [Ram.memcpy_nextAddr, Ram.handedOut_nextAddr]
    exact building.within.mono (Nat.le_add_right _ _)
  · rw [Ram.memcpy_nextAddr, Ram.handedOut_nextAddr] at far
    have grows := building.size
    rw [same _ (by omega)]
    exact building.other a (by omega)
  · rw [Ram.memcpy_nextAddr, Ram.handedOut_nextAddr]
    rcases List.mem_append.mp member with old | new
    · obtain ⟨first, before, whole, table⟩ := building.frame frame old
      exact ⟨first, by omega, whole, table⟩
    · rw [List.mem_singleton] at new
      subst new
      have grows := building.size
      refine ⟨by omega, by omega, building.next_aligned, fun table => ?_⟩
      have bounds := building.within.isTable table
      omega
  · -- The frames loaded before lie below the new page; the new one holds what was copied.
    rcases Nat.lt_or_ge k frames.length with early | late
    · rw [List.getElem?_append_left early] at found
      have bounds := building.frame frame (List.mem_of_getElem? found)
      rw [same _ (by omega)]
      exact building.bytes k frame found o byte clear
    · rw [List.getElem?_append_right late] at found
      have last : k = frames.length := by
        have := (List.getElem?_eq_some_iff.mp found).1
        rw [List.length_singleton] at this
        omega
      subst last
      rw [Nat.sub_self, List.getElem?_cons_zero, Option.some.injEq] at found
      subst found
      rw [Nat.mul_comm] at clear
      rw [building.copied_bytes outside array _ o byte more clear, Nat.mul_comm]
  · refine List.nodup_append.mpr ⟨building.distinct, List.nodup_singleton _, ?_⟩
    intro frame old new fresh
    rw [List.mem_singleton] at fresh
    have bounds := building.frame frame old
    omega

end Building

/-- No page is mapped before the loops. -/
theorem pagesOf_kernelBase : pagesOf kernelBase [] = fun _ => none := by
  -- The range of the kernel is empty, and so is the list of frames.
  funext number
  have empty : ¬ (kernelBase ≤ number * pageSize ∧ number * pageSize < kernelBase) := by omega
  rw [pagesOf, if_neg empty]
  by_cases user : userBase ≤ number * pageSize
  · rw [if_pos user, List.getElem?_nil, Option.map_none]
  · rw [if_neg user]

/-- One more page of the kernel is mapped. -/
theorem pagesOf_kernel {counter : Nat} (aligned : counter % pageSize = 0)
    (first : kernelBase ≤ counter) :
    Function.update (pagesOf counter []) (counter / pageSize) (some (counter, kernelFlags))
      = pagesOf (counter + pageSize) [] := by
  -- The one page that changes its meaning is the page of the counter.
  funext number
  have whole : counter / pageSize * pageSize = counter := number_mul aligned
  by_cases here : number = counter / pageSize
  · subst here
    have mapped : kernelBase ≤ counter ∧ counter < counter + pageSize := by
      simp only [pageSize]
      omega
    rw [Function.update_self, pagesOf, whole, if_pos mapped]
  · -- The page is before the counter for both, or for neither.
    have same : (kernelBase ≤ number * pageSize ∧ number * pageSize < counter) ↔
        (kernelBase ≤ number * pageSize ∧ number * pageSize < counter + pageSize) := by
      simp only [pageSize] at *
      omega
    rw [Function.update_of_ne here, pagesOf, pagesOf]
    simp only [same, List.getElem?_nil]

/-- One more page of the image is mapped. -/
theorem pagesOf_user {kernelTop : Nat} {frames : List Nat} (frame : Nat)
    (below : userBase + pageSize * frames.length < kernelBase) :
    Function.update (pagesOf kernelTop frames) ((userBase + pageSize * frames.length) / pageSize)
      (some (frame, userFlags)) = pagesOf kernelTop (frames ++ [frame]) := by
  have index : (userBase + pageSize * frames.length) / pageSize =
      userBase / pageSize + frames.length := by
    simp only [userBase, pageSize]
    omega
  funext number
  rw [index]
  by_cases here : number = userBase / pageSize + frames.length
  · -- The page behind the last frame has the new one.
    subst here
    have number : (userBase / pageSize + frames.length) * pageSize =
        userBase + pageSize * frames.length := by
      simp only [userBase, pageSize]
      omega
    have user : ¬ (kernelBase ≤ userBase + pageSize * frames.length ∧
        userBase + pageSize * frames.length < kernelTop) := by omega
    rw [Function.update_self, pagesOf, number, if_neg user, if_pos (by omega),
      Nat.add_sub_cancel_left, List.getElem?_append_right (Nat.le_refl _), Nat.sub_self]
    rfl
  · rw [Function.update_of_ne here, pagesOf, pagesOf]
    by_cases kernel : kernelBase ≤ number * pageSize ∧ number * pageSize < kernelTop
    · rw [if_pos kernel, if_pos kernel]
    rw [if_neg kernel, if_neg kernel]
    by_cases user : userBase ≤ number * pageSize
    · rw [if_pos user, if_pos user]
      have other : number - userBase / pageSize ≠ frames.length := by
        simp only [userBase, pageSize] at *
        omega
      -- Appending a frame changes the meaning of no other page.
      rcases Nat.lt_or_gt_of_ne other with early | late
      · rw [List.getElem?_append_left early]
      · rw [List.getElem?_eq_none (by omega), List.getElem?_eq_none (by simp; omega)]
    · rw [if_neg user, if_neg user]

end Os1k.C
