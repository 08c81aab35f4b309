import Os1k.C.Space

/-! What the memory operations of the C kernel do, step by step. -/

namespace Os1k.C

open Riscv (wordLimit)
open Bytes

/-- Memory once some bytes are handed out. -/
def Ram.handedOut (ram : Ram) (bytes : Nat) : Ram :=
  { ram with
    mem := memset ram.mem ram.nextAddr 0 bytes
    nextAddr := ram.nextAddr + bytes }

variable {map : LinkerMap} {ram after : Ram}

@[simp] theorem Ram.handedOut_mem (ram : Ram) (bytes : Nat) :
    (ram.handedOut bytes).mem = memset ram.mem ram.nextAddr 0 bytes := rfl

@[simp] theorem Ram.handedOut_nextAddr (ram : Ram) (bytes : Nat) :
    (ram.handedOut bytes).nextAddr = ram.nextAddr + bytes := rfl

@[simp] theorem Ram.handedOut_procs (ram : Ram) (bytes : Nat) :
    (ram.handedOut bytes).procs = ram.procs := rfl

/-- Bytes are handed out unless the next address, which may wrap around, comes to the end. -/
theorem run_bump_wrap (limit stop bytes : Nat) :
    (bump limit stop bytes).run ram = if stop ≤ (ram.nextAddr + bytes) % limit then
      .error .outOfMemory { ram with nextAddr := (ram.nextAddr + bytes) % limit }
    else .ok ram.nextAddr { ram.handedOut bytes with nextAddr := (ram.nextAddr + bytes) % limit } := by
  -- The next address is moved before it is checked, and stays moved.
  unfold bump
  simp only [EStateM.run_bind, EStateM.run_modify, EStateM.run_get]
  by_cases full : stop ≤ (ram.nextAddr + bytes) % limit
  · rw [if_pos full, if_pos full, EStateM.run_bind, Exec.run_throw]
  · rw [if_neg full, if_neg full]
    rfl

/-- Bytes are handed out unless the next address comes to the end. -/
theorem run_bump {limit stop bytes : Nat} (fits : ram.nextAddr + bytes < limit) :
    (bump limit stop bytes).run ram = if stop ≤ ram.nextAddr + bytes then
      .error .outOfMemory { ram with nextAddr := ram.nextAddr + bytes }
    else .ok ram.nextAddr (ram.handedOut bytes) := by
  rw [run_bump_wrap, Nat.mod_eq_of_lt fits]
  rfl

/-- A page is handed out exactly if it is not the last one. -/
theorem run_allocPages_ok {paddr : Nat} (room : ram.nextAddr + pageSize ≤ map.freeRamEnd) :
    (map.allocPages 1).run ram = .ok paddr after ↔ ram.nextAddr + pageSize < map.freeRamEnd ∧
      paddr = ram.nextAddr ∧ after = ram.handedOut pageSize := by
  -- The next address stays below the end of free memory, so it does not wrap around.
  have fits : ram.nextAddr + pageSize < wordLimit := Nat.lt_of_le_of_lt room map.word
  have size : 1 * pageSize % wordLimit = pageSize := rfl
  rw [LinkerMap.allocPages, allocPagesBelow, size, run_bump fits]
  by_cases full : map.freeRamEnd ≤ ram.nextAddr + pageSize
  · rw [if_pos full]
    refine iff_of_false nofun fun ⟨more, _⟩ => ?_
    exact Nat.lt_irrefl _ (Nat.lt_of_le_of_lt full more)
  · rw [if_neg full, EStateM.Result.ok.injEq]
    constructor
    · intro ⟨here, same⟩
      exact ⟨Nat.not_le.mp full, here.symm, same.symm⟩
    · intro ⟨_, here, same⟩
      exact ⟨here.symm, same.symm⟩

/-- Memory once a word is stored. -/
def Ram.stored (ram : Ram) (a word : Nat) : Ram := { ram with mem := storeWord ram.mem a word }

@[simp] theorem Ram.stored_mem (ram : Ram) (a word : Nat) :
    (ram.stored a word).mem = storeWord ram.mem a word := rfl

@[simp] theorem Ram.stored_nextAddr (ram : Ram) (a word : Nat) :
    (ram.stored a word).nextAddr = ram.nextAddr := rfl

@[simp] theorem Ram.stored_procs (ram : Ram) (a word : Nat) :
    (ram.stored a word).procs = ram.procs := rfl

/-- A byte stays as it is while neither of the objects nor memory changes there. -/
theorem LinkerMap.bytes_congr {a : Nat} (procs : after.procs = ram.procs)
    (next : after.nextAddr = ram.nextAddr) (same : after.mem a = ram.mem a) :
    map.bytes after a = map.bytes ram a := by
  rw [bytes, bytes, procs, next, same]

/-- Outside the two objects, a pointer finds the rest of memory. -/
theorem LinkerMap.bytes_rest {a : Nat} (first : ¬ map.InProcs a) (second : ¬ map.InNextAddr a) :
    map.bytes ram a = ram.mem a := by
  rw [bytes, if_neg first, if_neg second]

/-- A byte stays as it is while the two objects change elsewhere, and memory does not change there. -/
theorem LinkerMap.bytes_outside {a slot : Nat} {proc : ProcStruct}
    (procs : after.procs = Function.update ram.procs slot proc) (other : ¬ map.InSlot slot a)
    (clear : ¬ map.InNextAddr a) (same : after.mem a = ram.mem a) :
    map.bytes after a = map.bytes ram a := by
  rw [bytes, bytes, if_neg clear, if_neg clear, same, procs]
  by_cases inside : map.InProcs a
  · -- The slot that the address is in is another one.
    have different : (a - map.procs) / procSize ≠ slot := by
      rintro rfl
      apply other
      unfold InProcs at inside
      unfold InSlot LinkerMap.slot
      have split := Nat.div_add_mod (a - map.procs) procSize
      have small := Nat.mod_lt (a - map.procs) (by decide : 0 < procSize)
      omega
    rw [if_pos inside, if_pos inside, Function.update_of_ne different]
  · rw [if_neg inside, if_neg inside]

/-- Free memory and what lies behind it have none of the two objects. -/
theorem LinkerMap.bytes_free {a : Nat} (free : map.freeRam ≤ a) : map.bytes ram a = ram.mem a := by
  have procs := map.below
  have next := map.nextBelow
  -- The kernel links both of its variables below the free memory.
  apply bytes_rest
  · unfold InProcs
    omega
  · unfold InNextAddr
    omega

@[simp] theorem Ram.memcpy_nextAddr (ram : Ram) (map : LinkerMap) (d s n : Nat) :
    (ram.memcpy map d s n).nextAddr = ram.nextAddr := by
  -- Each byte goes to memory, and the induction is on the bytes that are left.
  induction n generalizing ram d s with
  | zero => rfl
  | succ n ih =>
    rw [memcpy, ih]

@[simp] theorem Ram.memcpy_procs (ram : Ram) (map : LinkerMap) (d s n : Nat) :
    (ram.memcpy map d s n).procs = ram.procs := by
  -- As before, no byte goes to the array.
  induction n generalizing ram d s with
  | zero => rfl
  | succ n ih =>
    rw [memcpy, ih]

/-- The bytes that are copied between two places that do not overlap, and those that are not. -/
theorem Ram.memcpy_mem {ram : Ram} {map : LinkerMap} {d s n : Nat} (apart : s + n ≤ d ∨ d + n ≤ s)
    (x : Nat) : (ram.memcpy map d s n).mem x =
      if d ≤ x ∧ x < d + n then map.bytes ram (s + (x - d)) else ram.mem x := by
  -- The induction is on the bytes that are left, which still do not overlap.
  induction n generalizing ram d s with
  | zero => rw [memcpy, if_neg (by omega)]
  | succ n ih =>
    rw [memcpy, ih (by omega)]
    by_cases here : x = d
    · subst here
      rw [if_neg (by omega), if_pos (by omega), Nat.sub_self, Nat.add_zero]
      exact Function.update_self _ _ _
    · by_cases inside : d ≤ x ∧ x < d + (n + 1)
      · have place : s + 1 + (x - (d + 1)) = s + (x - d) := by omega
        rw [if_pos (by omega), if_pos inside, place]
        exact LinkerMap.bytes_congr rfl rfl (Function.update_of_ne (by omega) _ _)
      · rw [if_neg (by omega), if_neg inside]
        exact Function.update_of_ne here _ _

theorem run_store (a word : Nat) (ram : Ram) : (store a word).run ram = .ok () (ram.stored a word) :=
  rfl

/-- The word that `map_page` makes of a page and flags is an entry. -/
theorem shifted_eq_entry {paddr flags : Nat} (inside : paddr < wordLimit) :
    (paddr / pageSize) <<< 10 % wordLimit ||| flags = Sv32.entry (paddr / pageSize) flags := by
  -- A page number has 20 bits, so nothing is shifted out of the word.
  have fits : (paddr / pageSize) <<< 10 < wordLimit := by
    rw [Nat.shiftLeft_eq]
    simp only [pageSize, wordLimit] at *
    omega
  rw [Nat.mod_eq_of_lt fits, Sv32.entry]

/-- The address that `map_page` reads out of an entry of the root is that of the table. -/
theorem table0_eq {page : Nat} (aligned : page % pageSize = 0) (inside : page < wordLimit) :
    (Sv32.entry (page / pageSize) pageV >>> 10) * pageSize % wordLimit = page := by
  -- The flags are shifted out, and the page number gives back the address.
  have number : Sv32.entry (page / pageSize) pageV >>> 10 = page / pageSize := by
    rw [Nat.shiftRight_eq_div_pow]
    exact Sv32.ppn_entry (by decide)
  have whole : page / pageSize * pageSize = page := number_mul aligned
  rw [number, whole, Nat.mod_eq_of_lt inside]

/-- An entry is set in the table that the root points to. -/
theorem run_enterPage {root vpn1 vpn0 page word : Nat}
    (points : loadWord ram.mem (root + 4 * vpn1) = Sv32.entry (page / pageSize) pageV)
    (aligned : page % pageSize = 0) (inside : page < wordLimit) :
    (enterPage root vpn1 vpn0 word).run ram = .ok () (ram.stored (page + 4 * vpn0) word) := by
  -- The entry of the root is read back as the address it was made of.
  unfold enterPage
  rw [EStateM.run_bind, EStateM.run_get]
  simp only [points, table0_eq aligned inside]
  exact run_store _ _ _

/-- A root entry without the valid bit, and one that points to a table. -/
theorem entry_and_pageV {number : Nat} : Sv32.entry number pageV &&& pageV ≠ 0 := by
  -- The valid bit is among the flags of the entry.
  have valid : Sv32.Valid (Sv32.flags (Sv32.entry number pageV)) := by
    rw [Sv32.flags_entry (by decide)]
    decide
  exact Sv32.valid_flags.mp valid

variable {space : Space} {start : Nat}

/-- A table that exists stays, and one that does not is made of the next page. -/
theorem run_ensureTable0_ok {vpn1 : Nat} (holds : space.Holds ram.mem) (small : vpn1 < 1024)
    (room : ram.nextAddr + pageSize ≤ map.freeRamEnd) :
    (map.ensureTable0 space.root vpn1).run ram = .ok () after ↔
      (space.table vpn1 ≠ none ∧ after = ram) ∨
      (space.table vpn1 = none ∧ ram.nextAddr + pageSize < map.freeRamEnd ∧
        after = (ram.handedOut pageSize).stored (space.root + 4 * vpn1)
          (Sv32.entry (ram.nextAddr / pageSize) pageV)) := by
  -- Whether there is a table shows in the valid bit of the root entry.
  unfold LinkerMap.ensureTable0
  rw [EStateM.run_bind, EStateM.run_get]
  cases table : space.table vpn1 with
  | some page =>
    have valid : ¬ loadWord ram.mem (space.root + 4 * vpn1) &&& pageV = 0 := by
      rw [(holds.present _ small page table).1]
      exact entry_and_pageV
    simp only [if_neg valid]
    simp [eq_comm]
  | none =>
    have invalid : loadWord ram.mem (space.root + 4 * vpn1) &&& pageV = 0 := by
      rw [(holds.absent _ small table).1]
      decide
    -- Without a table a page is taken for one, if there is a page.
    have inside : ram.nextAddr < wordLimit :=
      Nat.lt_of_le_of_lt (Nat.le_trans (Nat.le_add_right _ _) room) map.word
    dsimp only
    rw [if_pos invalid]
    constructor
    · intro ran
      obtain ⟨paddr, middle, given, ran⟩ := Exec.run_bind_ok.mp ran
      obtain ⟨more, rfl, rfl⟩ := (run_allocPages_ok room).mp given
      rw [shifted_eq_entry inside, run_store, EStateM.Result.ok.injEq] at ran
      exact .inr ⟨rfl, more, ran.2.symm⟩
    · intro made
      rcases made with ⟨known, _⟩ | ⟨_, more, rfl⟩
      · exact absurd rfl known
      · refine Exec.run_bind_ok.mpr ⟨_, _, (run_allocPages_ok room).mpr ⟨more, rfl, rfl⟩, ?_⟩
        rw [shifted_eq_entry inside, run_store]

/--
A table grows in memory.

Each new page of the table is the next one, and only pages of the table are written.
-/
structure Grown (start : Nat) (ram : Ram) (space : Space) (after : Ram) (grown : Space) : Prop where
  root : grown.root = space.root
  tables : ∀ page, grown.IsTable page → space.IsTable page ∨
    (page = ram.nextAddr ∧ after.nextAddr = ram.nextAddr + pageSize)
  later : ram.nextAddr ≤ after.nextAddr
  size : after.nextAddr + pageSize * space.count = ram.nextAddr + pageSize * grown.count
  procs : after.procs = ram.procs
  holds : grown.Holds after.mem
  within : grown.Within start after.nextAddr
  other : ∀ a, (∀ page, grown.IsTable page → a < page ∨ page + pageSize ≤ a) →
    after.mem a = ram.mem a

namespace Grown

/-- A table that is big enough stays as it is. -/
theorem refl (holds : space.Holds ram.mem) (within : space.Within start ram.nextAddr) :
    Grown start ram space ram space :=
  ⟨rfl, fun _ table => .inl table, Nat.le_refl _, rfl, rfl, holds, within, fun _ _ => rfl⟩

/-- The next page becomes a table. -/
theorem addTable {vpn1 : Nat} (holds : space.Holds ram.mem)
    (within : space.Within start ram.nextAddr) (aligned : ram.nextAddr % pageSize = 0)
    (inside : ram.nextAddr < wordLimit) (small : vpn1 < 1024) (absent : space.table vpn1 = none) :
    Grown start ram space ((ram.handedOut pageSize).stored (space.root + 4 * vpn1)
      (Sv32.entry (ram.nextAddr / pageSize) pageV)) (space.addTable vpn1 ram.nextAddr) := by
  have size : pageSize = 4096 := rfl
  have rooted := within.root
  -- The tables that exist lie before the page that is handed out.
  have kept : space.Holds (ram.handedOut pageSize).mem := by
    refine holds.congr fun page table o byte => ?_
    have bounds := within.isTable table
    rw [Ram.handedOut_mem, memset_apply, if_neg (by omega)]
  have empty : ∀ o < pageSize, (ram.handedOut pageSize).mem (ram.nextAddr + o) = 0 := by
    intro o byte
    rw [Ram.handedOut_mem, memset_apply, if_pos (by omega)]
  refine ⟨rfl, fun page table => ?_, ?_, ?_, ?_, kept.addTable within small absent inside empty, ?_,
    fun a outside => ?_⟩
  · rcases table with rfl | ⟨i, index, known⟩
    · exact .inl (.inl rfl)
    · by_cases here : i = vpn1
      · subst here
        simp only [Space.addTable, Function.update_self, Option.some.injEq] at known
        exact .inr ⟨known.symm, by rw [Ram.stored_nextAddr, Ram.handedOut_nextAddr]⟩
      · simp only [Space.addTable, Function.update_of_ne here] at known
        exact .inl (.inr ⟨i, index, known⟩)
  · rw [Ram.stored_nextAddr, Ram.handedOut_nextAddr]
    omega
  · rw [Space.count_addTable small absent, Ram.stored_nextAddr, Ram.handedOut_nextAddr, Nat.mul_add,
      Nat.mul_one]
    omega
  · rw [Ram.stored_procs, Ram.handedOut_procs]
  · rw [Ram.stored_nextAddr, Ram.handedOut_nextAddr]
    exact within.addTable aligned
  · -- What was written is the new page and one word of the root.
    have new := outside ram.nextAddr (.inr ⟨vpn1, small, by simp [Space.addTable]⟩)
    have root := outside space.root (.inl rfl)
    rw [Ram.stored_mem, storeWord_other (by omega), Ram.handedOut_mem, memset_apply,
      if_neg (by omega)]

/-- An entry is set in a table that has grown before. -/
theorem addLeaf {made : Ram} {grown : Space} (before : Grown start ram space made grown)
    {vpn1 vpn0 page paddr flags : Nat} (small : vpn1 < 1024) (low : vpn0 < 1024)
    (known : grown.table vpn1 = some page) (inside : paddr < wordLimit) (bits : flags < 1024) :
    Grown start ram space (made.stored (page + 4 * vpn0) (Sv32.entry (paddr / pageSize) flags))
      (grown.addLeaf (vpn1 * 1024 + vpn0) paddr flags) := by
  -- The store stays in a page that is already one of the table.
  have size : pageSize = 4096 := rfl
  refine ⟨before.root, before.tables, before.later, before.size, before.procs,
    before.holds.addLeaf before.within small low known inside bits,
    ⟨before.within.root, before.within.table, before.within.distinct⟩, fun a outside => ?_⟩
  have apart := outside page (.inr ⟨vpn1, small, known⟩)
  rw [Ram.stored_mem, storeWord_other (by omega)]
  exact before.other a outside

end Grown

/-- A page can be mapped only where it starts, and goes to the table of its index. -/
theorem run_mapPage_ok {vaddr paddr flags : Nat} (inside : paddr < wordLimit) :
    (map.mapPage space.root vaddr paddr flags).run ram = .ok () after ↔
      vaddr % pageSize = 0 ∧ paddr % pageSize = 0 ∧
      ∃ made, (map.ensureTable0 space.root (Sv32.vpn1 vaddr)).run ram = .ok () made ∧
        (enterPage space.root (Sv32.vpn1 vaddr) (Sv32.vpn0 vaddr)
          (Sv32.entry (paddr / pageSize) (pageV ||| flags))).run made = .ok () after := by
  -- Both checks come first, and the rest is the two parts in order.
  unfold LinkerMap.mapPage
  have word : (paddr / pageSize) <<< 10 % wordLimit ||| pageV ||| flags =
      Sv32.entry (paddr / pageSize) (pageV ||| flags) := by
    rw [Nat.or_assoc, shifted_eq_entry inside]
  by_cases first : vaddr % pageSize ≠ 0
  · simp only [if_pos first, EStateM.run_bind, Exec.run_throw]
    exact iff_of_false nofun fun ⟨aligned, _⟩ => first aligned
  by_cases second : paddr % pageSize ≠ 0
  · simp only [if_neg first, if_pos second, EStateM.run_bind, Exec.run_throw]
    exact iff_of_false nofun fun ⟨_, aligned, _⟩ => second aligned
  simp only [if_neg first, if_neg second, Sv32.vpn1_eq, Sv32.vpn0_eq, word]
  rw [Exec.run_bind_ok]
  constructor
  · rintro ⟨_, made, ensured, entered⟩
    exact ⟨not_not.mp first, not_not.mp second, made, ensured, entered⟩
  · rintro ⟨_, _, made, ensured, entered⟩
    exact ⟨(), made, ensured, entered⟩

/-- The next address stays in free memory while a table is ensured. -/
theorem ensureTable0_nextAddr {vpn1 : Nat} (holds : space.Holds ram.mem) (small : vpn1 < 1024)
    (room : ram.nextAddr + pageSize ≤ map.freeRamEnd)
    (ran : (map.ensureTable0 space.root vpn1).run ram = .ok () after) :
    after.nextAddr < map.freeRamEnd := by
  -- A page is handed out only if the next address stays below the end.
  have size : pageSize = 4096 := rfl
  rcases (run_ensureTable0_ok holds small room).mp ran with ⟨_, rfl⟩ | ⟨_, more, rfl⟩
  · omega
  · exact more

/-- The table for an index, once it is ensured. -/
theorem ensureTable0_grown {vpn1 : Nat} (holds : space.Holds ram.mem)
    (within : space.Within start ram.nextAddr) (aligned : ram.nextAddr % pageSize = 0)
    (room : ram.nextAddr + pageSize ≤ map.freeRamEnd) (small : vpn1 < 1024)
    (ran : (map.ensureTable0 space.root vpn1).run ram = .ok () after) :
    ∃ grown page, Grown start ram space after grown ∧ grown.leaf = space.leaf ∧
      grown.table vpn1 = some page ∧ page % pageSize = 0 ∧ page < wordLimit ∧
      loadWord after.mem (space.root + 4 * vpn1) = Sv32.entry (page / pageSize) pageV := by
  -- In both cases there is a table afterwards, and the root entry points to it.
  have grows : ∃ grown page, Grown start ram space after grown ∧ grown.leaf = space.leaf ∧
      grown.table vpn1 = some page := by
    rcases (run_ensureTable0_ok holds small room).mp ran with ⟨known, rfl⟩ | ⟨absent, _, rfl⟩
    · obtain ⟨page, table⟩ := Option.ne_none_iff_exists'.mp known
      exact ⟨space, page, .refl holds within, rfl, table⟩
    · have inside : ram.nextAddr < wordLimit :=
        Nat.lt_of_le_of_lt (Nat.le_trans (Nat.le_add_right _ _) room) map.word
      refine ⟨_, ram.nextAddr, .addTable holds within aligned inside small absent, rfl, ?_⟩
      exact Function.update_self _ _ _
  obtain ⟨grown, page, growth, leaf, table⟩ := grows
  obtain ⟨_, high, whole, _⟩ := growth.within.table _ small page table
  have points := (growth.holds.present _ small page table).1
  rw [growth.root] at points
  have before := ensureTable0_nextAddr holds small room ran
  have limit : page < wordLimit := by
    have : page ≤ map.freeRamEnd := by omega
    exact Nat.lt_of_le_of_lt this map.word
  exact ⟨grown, page, growth, leaf, table, whole, limit, points⟩

/-- Mapping a page makes the table grow, and gives the page its meaning. -/
theorem mapPage_grown {vaddr paddr flags : Nat} (holds : space.Holds ram.mem)
    (within : space.Within start ram.nextAddr) (aligned : ram.nextAddr % pageSize = 0)
    (room : ram.nextAddr + pageSize ≤ map.freeRamEnd) (word : vaddr < wordLimit)
    (inside : paddr < wordLimit) (bits : pageV ||| flags < 1024)
    (ran : (map.mapPage space.root vaddr paddr flags).run ram = .ok () after) :
    after.nextAddr < map.freeRamEnd ∧ ∃ grown, Grown start ram space after grown ∧ grown.leaf =
      Function.update space.leaf (vaddr / pageSize) (some (paddr, pageV ||| flags)) := by
  -- First the table is ensured, then the entry is set in it.
  have small := Sv32.vpn1_lt vaddr
  have low := Sv32.vpn0_lt vaddr
  obtain ⟨_, _, made, ensured, entered⟩ := (run_mapPage_ok inside).mp ran
  have before := ensureTable0_nextAddr holds small room ensured
  obtain ⟨grown, page, growth, same, table, whole, limit, points⟩ :=
    ensureTable0_grown holds within aligned room small ensured
  rw [run_enterPage points whole limit, EStateM.Result.ok.injEq] at entered
  obtain ⟨_, rfl⟩ := entered
  refine ⟨before, _, growth.addLeaf small low table inside bits, ?_⟩
  rw [Space.addLeaf, same, Space.Holds.number_eq word]

/-- Mapping a page returns if there is room for a table that does not exist. -/
theorem mapPage_returns {vaddr paddr flags : Nat} (holds : space.Holds ram.mem)
    (within : space.Within start ram.nextAddr) (aligned : ram.nextAddr % pageSize = 0)
    (room : ram.nextAddr + pageSize < map.freeRamEnd) (whole : vaddr % pageSize = 0)
    (also : paddr % pageSize = 0) (inside : paddr < wordLimit) :
    ∃ after, (map.mapPage space.root vaddr paddr flags).run ram = .ok () after := by
  have small := Sv32.vpn1_lt vaddr
  have fits := Nat.le_of_lt room
  -- The table is there, or there is room for it.
  have ensures : ∃ made, (map.ensureTable0 space.root (Sv32.vpn1 vaddr)).run ram = .ok () made := by
    by_cases absent : space.table (Sv32.vpn1 vaddr) = none
    · exact ⟨_, (run_ensureTable0_ok holds small fits).mpr (.inr ⟨absent, room, rfl⟩)⟩
    · exact ⟨_, (run_ensureTable0_ok holds small fits).mpr (.inl ⟨absent, rfl⟩)⟩
  obtain ⟨made, ensured⟩ := ensures
  obtain ⟨_, page, _, _, _, first, limit, points⟩ :=
    ensureTable0_grown holds within aligned fits small ensured
  exact ⟨_, (run_mapPage_ok inside).mpr
    ⟨whole, also, made, ensured, run_enterPage points first limit⟩⟩

/-- What every turn of a loop keeps holds after the loop, once the counter has reached the bound. -/
theorem forPages_keeps {bound : Nat} {body : Nat → Exec Halt Ram Unit}
    (invariant : Nat → Ram → Prop)
    (turn : ∀ counter ram after, counter < bound → invariant counter ram →
      (body counter).run ram = .ok () after → invariant ((counter + pageSize) % wordLimit) after)
    {fuel counter : Nat} (ran : (forPages bound body fuel counter).run ram = .ok () after)
    (first : invariant counter ram) : ∃ last, bound ≤ last ∧ invariant last after := by
  -- The induction is on the turns that are left.
  induction fuel generalizing counter ram with
  | zero => exact absurd ran nofun
  | succ fuel ih =>
    unfold forPages at ran
    by_cases more : counter < bound
    · rw [if_pos more] at ran
      obtain ⟨_, middle, once, rest⟩ := Exec.run_bind_ok.mp ran
      exact ih rest (turn counter ram middle more first once)
    · rw [if_neg more, EStateM.run_pure, EStateM.Result.ok.injEq] at ran
      obtain ⟨_, rfl⟩ := ran
      exact ⟨counter, Nat.not_lt.mp more, first⟩

/-- A loop returns if each of its turns does, and there are enough turns. -/
theorem forPages_returns {bound : Nat} {body : Nat → Exec Halt Ram Unit}
    (invariant : Nat → Ram → Prop)
    (turn : ∀ counter ram, counter < bound → invariant counter ram →
      ∃ after, (body counter).run ram = .ok () after ∧ invariant (counter + pageSize) after)
    (fits : bound + pageSize ≤ wordLimit) {fuel counter : Nat}
    (enough : bound ≤ counter + fuel * pageSize) (first : invariant counter ram) :
    ∃ after, (forPages bound body (fuel + 1) counter).run ram = .ok () after := by
  -- The induction is on the turns that are left, of which there are enough.
  induction fuel generalizing counter ram with
  | zero =>
    have finished : ¬ counter < bound := by omega
    refine ⟨ram, ?_⟩
    unfold forPages
    rw [if_neg finished, EStateM.run_pure]
  | succ fuel ih =>
    by_cases more : counter < bound
    · obtain ⟨middle, once, next⟩ := turn counter ram more first
      have advanced : (counter + pageSize) % wordLimit = counter + pageSize :=
        Nat.mod_eq_of_lt (by omega)
      obtain ⟨after, rest⟩ := ih (by rw [Nat.succ_mul] at enough; omega) next
      refine ⟨after, ?_⟩
      unfold forPages
      rw [if_pos more]
      exact Exec.run_bind_ok.mpr ⟨(), middle, once, by rw [advanced]; exact rest⟩
    · refine ⟨ram, ?_⟩
      unfold forPages
      rw [if_neg more, EStateM.run_pure]

end Os1k.C
