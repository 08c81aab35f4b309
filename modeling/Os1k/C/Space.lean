import Os1k.C.Paging

/-! What a page table of the C kernel means, and how mapping a page changes it. -/

namespace Os1k.C

open Riscv (wordLimit)
open Bytes

/--
A page table as it is meant.

It has a root page, a page for each index of the root that is in use, and gives an address and flags
to some page numbers.
-/
structure Space where
  root : Nat
  table : Nat → Option Nat
  leaf : Nat → Option (Nat × Nat)

/-- Different pages do not overlap. -/
theorem page_apart {first second : Nat} (aligned : first % pageSize = 0)
    (also : second % pageSize = 0) (different : first ≠ second) :
    first + pageSize ≤ second ∨ second + pageSize ≤ first := by
  simp only [pageSize] at *
  omega

/-- The address of a page, by its number. -/
theorem number_mul {page : Nat} (aligned : page % pageSize = 0) : page / pageSize * 4096 = page := by
  simp only [pageSize] at *
  omega

/-- An entry for a page is a word. -/
theorem entry_lt {paddr flags : Nat} (inside : paddr < wordLimit) (bits : flags < 1024) :
    Sv32.entry (paddr / pageSize) flags < 2 ^ 32 := by
  -- A page number has 20 bits, and the flags have ten.
  simp only [pageSize, wordLimit] at *
  rw [Sv32.entry_eq bits]
  omega

namespace Space

/-- The entry of a second-level table for a page. -/
def word : Option (Nat × Nat) → Nat
  | none => 0
  | some (paddr, flags) => Sv32.entry (paddr / pageSize) flags

/-- A page that the table is made of. -/
def IsTable (space : Space) (page : Nat) : Prop :=
  page = space.root ∨ ∃ i < 1024, space.table i = some page

/-- The number of second-level tables. -/
def count (space : Space) : Nat :=
  ((Finset.range 1024).filter fun i => (space.table i).isSome).card

/-- One more second-level table. -/
def addTable (space : Space) (i page : Nat) : Space :=
  { space with table := Function.update space.table i (some page) }

/-- One more page, or another meaning for a page. -/
def addLeaf (space : Space) (number paddr flags : Nat) : Space :=
  { space with leaf := Function.update space.leaf number (some (paddr, flags)) }

/-- The pages of a table lie apart from each other in a range of memory. -/
structure Within (space : Space) (start stop : Nat) : Prop where
  root : start ≤ space.root ∧ space.root + pageSize ≤ stop ∧ space.root % pageSize = 0
  table : ∀ i < 1024, ∀ page, space.table i = some page →
    start ≤ page ∧ page + pageSize ≤ stop ∧ page % pageSize = 0 ∧ page ≠ space.root
  distinct : ∀ i < 1024, ∀ j < 1024, ∀ page, space.table i = some page →
    space.table j = some page → i = j

/-- Memory holds a table. -/
structure Holds (space : Space) (mem : Nat → UInt8) : Prop where
  absent : ∀ i < 1024, space.table i = none →
    loadWord mem (space.root + 4 * i) = 0 ∧ ∀ j < 1024, space.leaf (i * 1024 + j) = none
  present : ∀ i < 1024, ∀ page, space.table i = some page →
    loadWord mem (space.root + 4 * i) = Sv32.entry (page / pageSize) pageV ∧
      ∀ j < 1024, loadWord mem (page + 4 * j) = word (space.leaf (i * 1024 + j))

variable {space : Space} {mem other : Nat → UInt8} {start stop : Nat}

/-- Each index of the root has at most one table. -/
theorem count_le (space : Space) : space.count ≤ 1024 := by
  have all := Finset.card_filter_le (Finset.range 1024) fun i => (space.table i).isSome
  rwa [Finset.card_range] at all

/-- An index without a table gets one. -/
theorem count_addTable {i page : Nat} (small : i < 1024) (absent : space.table i = none) :
    (space.addTable i page).count = space.count + 1 := by
  -- The indices in use are those before, and the new one.
  have grows : (Finset.range 1024).filter (fun j => ((space.addTable i page).table j).isSome)
      = insert i ((Finset.range 1024).filter fun j => (space.table j).isSome) := by
    ext j
    rw [Finset.mem_insert, Finset.mem_filter, Finset.mem_filter]
    by_cases here : j = i
    · subst here
      simp [addTable, small]
    · simp [addTable, here]
  rw [count, grows, Finset.card_insert_of_notMem (by simp [absent]), count]

/-- A table is no less within a longer range. -/
theorem Within.mono (within : space.Within start stop) {last : Nat} (longer : stop ≤ last) :
    space.Within start last := by
  -- Only the upper bounds move.
  refine ⟨?_, fun i small page known => ?_, within.distinct⟩
  · obtain ⟨low, high, aligned⟩ := within.root
    exact ⟨low, by omega, aligned⟩
  · obtain ⟨low, high, aligned, other⟩ := within.table i small page known
    exact ⟨low, by omega, aligned, other⟩

/-- The page that comes next may become a table. -/
theorem Within.addTable (within : space.Within start stop) {i : Nat}
    (aligned : stop % pageSize = 0) : (space.addTable i stop).Within start (stop + pageSize) := by
  -- The new page lies behind all others, since those end before it.
  have rooted := within.root
  have fresh : ∀ j < 1024, ∀ page, space.table j = some page → page ≠ stop := by
    intro j small page known
    have bounds := within.table j small page known
    have size : pageSize = 4096 := rfl
    omega
  refine ⟨⟨rooted.1, ?_, rooted.2.2⟩, fun j small page known => ?_,
    fun j small k also page first second => ?_⟩
  · show space.root + pageSize ≤ stop + pageSize
    omega
  · -- The new table is the page that comes next; the others have not moved.
    by_cases here : j = i
    · subst here
      simp only [Space.addTable, Function.update_self, Option.some.injEq] at known
      subst known
      have size : pageSize = 4096 := rfl
      refine ⟨by omega, by omega, aligned, ?_⟩
      show stop ≠ space.root
      omega
    · simp only [Space.addTable, Function.update_of_ne here] at known
      obtain ⟨low, high, whole, apart⟩ := within.table j small page known
      exact ⟨low, by omega, whole, apart⟩
  · -- No other table lies in the page that comes next.
    by_cases here : j = i
    · by_cases there : k = i
      · rw [here, there]
      · simp only [Space.addTable, here, Function.update_self, Option.some.injEq] at first
        simp only [Space.addTable, Function.update_of_ne there] at second
        exact absurd first.symm (fresh k also page second)
    · simp only [Space.addTable, Function.update_of_ne here] at first
      by_cases there : k = i
      · simp only [Space.addTable, there, Function.update_self, Option.some.injEq] at second
        exact absurd second.symm (fresh j small page first)
      · simp only [Space.addTable, Function.update_of_ne there] at second
        exact within.distinct j small k also page first second

/-- Pages of a table are whole pages. -/
theorem Within.isTable (within : space.Within start stop) {page : Nat} (table : space.IsTable page) :
    start ≤ page ∧ page + pageSize ≤ stop ∧ page % pageSize = 0 := by
  -- The root has its own bounds, and each second-level table has those of its index.
  rcases table with rfl | ⟨i, small, known⟩
  · exact within.root
  · obtain ⟨low, high, aligned, _⟩ := within.table i small page known
    exact ⟨low, high, aligned⟩

namespace Holds

/-- Only the pages of a table hold it. -/
theorem congr (holds : space.Holds mem)
    (same : ∀ page, space.IsTable page → ∀ o < pageSize, other (page + o) = mem (page + o)) :
    space.Holds other := by
  -- The words of a table lie within its page, byte by byte.
  have words : ∀ page, space.IsTable page → ∀ i < 1024,
      loadWord other (page + 4 * i) = loadWord mem (page + 4 * i) := by
    intro page table i small
    have size : pageSize = 4096 := rfl
    refine loadWord_congr fun k byte => ?_
    rw [Nat.add_assoc]
    exact same page table _ (by omega)
  refine ⟨fun i small unknown => ?_, fun i small page known => ?_⟩
  · rw [words _ (.inl rfl) i small]
    exact holds.absent i small unknown
  · obtain ⟨points, entries⟩ := holds.present i small page known
    rw [words _ (.inl rfl) i small]
    refine ⟨points, fun j low => ?_⟩
    rw [words _ (.inr ⟨i, small, known⟩) j low]
    exact entries j low

/-- A page filled with zeros becomes the table of an index that had none. -/
theorem addTable (holds : space.Holds mem) (within : space.Within start stop) {i : Nat}
    (small : i < 1024) (absent : space.table i = none) (word : stop < wordLimit)
    (empty : ∀ o < pageSize, mem (stop + o) = 0) :
    (space.addTable i stop).Holds
      (storeWord mem (space.root + 4 * i) (Sv32.entry (stop / pageSize) pageV)) := by
  have size : pageSize = 4096 := rfl
  have limit : wordLimit = 2 ^ 32 := rfl
  have rooted := within.root
  -- The words of the tables are those before, apart from the one that is stored.
  have root : ∀ j < 1024, j ≠ i →
      loadWord (storeWord mem (space.root + 4 * i) (Sv32.entry (stop / pageSize) pageV))
        (space.root + 4 * j) = loadWord mem (space.root + 4 * j) := by
    intro j _ different
    exact loadWord_storeWord_other (by omega)
  refine ⟨fun j low unknown => ?_, fun j low page known => ?_⟩
  · have different : j ≠ i := by
      rintro rfl
      simp only [Space.addTable, Function.update_self, reduceCtorEq] at unknown
    simp only [Space.addTable, Function.update_of_ne different] at unknown ⊢
    rw [root j low different]
    exact holds.absent j low unknown
  · -- An index that has a table now had it before, or is the one that got it.
    by_cases here : j = i
    · subst here
      simp only [Space.addTable, Function.update_self, Option.some.injEq] at known ⊢
      subst known
      refine ⟨loadWord_storeWord (entry_lt word (by decide)), fun k index => ?_⟩
      · -- The index had no table, so nothing was mapped there.
        rw [(holds.absent j small absent).2 k index, loadWord_storeWord_other (by omega)]
        refine loadWord_zero fun o byte => ?_
        rw [Nat.add_assoc]
        exact empty _ (by omega)
    · simp only [Space.addTable, Function.update_of_ne here] at known ⊢
      obtain ⟨_, _, whole, distinct⟩ := within.table j low page known
      have apart := page_apart whole rooted.2.2 distinct
      obtain ⟨points, entries⟩ := holds.present j low page known
      rw [root j low here]
      refine ⟨points, fun k index => ?_⟩
      rw [loadWord_storeWord_other (by omega)]
      exact entries k index

/-- A page is entered in the table of its index. -/
theorem addLeaf (holds : space.Holds mem) (within : space.Within start stop) {i j page : Nat}
    (small : i < 1024) (low : j < 1024) (known : space.table i = some page) {paddr flags : Nat}
    (inside : paddr < wordLimit) (bits : flags < 1024) :
    (space.addLeaf (i * 1024 + j) paddr flags).Holds
      (storeWord mem (page + 4 * j) (Sv32.entry (paddr / pageSize) flags)) := by
  have size : pageSize = 4096 := rfl
  have limit : wordLimit = 2 ^ 32 := rfl
  have rooted := within.root
  obtain ⟨_, _, whole, different⟩ := within.table i small page known
  have beside := page_apart whole rooted.2.2 different
  -- The word that is stored is no word of the root.
  have apart : ∀ k < 1024,
      loadWord (storeWord mem (page + 4 * j) (Sv32.entry (paddr / pageSize) flags))
        (space.root + 4 * k) = loadWord mem (space.root + 4 * k) := by
    intro k _
    exact loadWord_storeWord_other (by omega)
  -- The entry belongs to a table, so an index without one is as before.
  refine ⟨fun k index unknown => ?_, fun k index table found => ?_⟩
  · have different : k ≠ i := by
      rintro rfl
      exact absurd (known.symm.trans unknown) nofun
    obtain ⟨zero, unmapped⟩ := holds.absent k index unknown
    refine ⟨(apart k index).trans zero, fun l least => ?_⟩
    simp only [Space.addLeaf]
    rw [Function.update_of_ne (by omega)]
    exact unmapped l least
  · simp only [Space.addLeaf] at found ⊢
    obtain ⟨points, entries⟩ := holds.present k index table found
    refine ⟨(apart k index).trans points, fun l least => ?_⟩
    by_cases here : k = i ∧ l = j
    · obtain ⟨rfl, rfl⟩ := here
      rw [known, Option.some.injEq] at found
      subst found
      rw [Function.update_self, word, loadWord_storeWord (entry_lt inside bits)]
    · rw [Function.update_of_ne (by omega)]
      refine Eq.trans (loadWord_storeWord_other ?_) (entries l least)
      -- Another word of the same table, or a word of another table.
      by_cases same : k = i
      · subst same
        rw [known, Option.some.injEq] at found
        subst found
        omega
      · have distinct : table ≠ page := by
          rintro rfl
          exact same (within.distinct k index i small _ found known)
        have others := page_apart (within.table k index table found).2.2.1 whole distinct
        omega

variable {v : Nat}

/-- The index of a page number. -/
theorem number_eq (word : v < wordLimit) : Sv32.vpn1 v * 1024 + Sv32.vpn0 v = v / pageSize := by
  simp only [pageSize, wordLimit, Sv32.vpn1, Sv32.vpn0] at *
  omega

/-- The satp value for a page turns translation on, and names the page. -/
theorem satpOf_spec {root : Nat} (aligned : root % pageSize = 0) (word : root < wordLimit) :
    satpOf root / 2 ^ 31 ≠ 0 ∧ satpOf root % 2 ^ 22 * 4096 = root := by
  -- The page number has 20 bits, so it does not reach the bit that turns translation on.
  simp only [pageSize, wordLimit] at aligned word
  have value : satpOf root = 2 ^ 31 + root / pageSize := by
    have shifted := Nat.shiftLeft_add_eq_or_of_lt (i := 31)
      (by simp only [pageSize]; omega : root / pageSize < 2 ^ 31) 1
    rw [satpOf, satpSv32, ← shifted, Nat.shiftLeft_eq, Nat.one_mul]
  rw [value]
  simp only [pageSize]
  omega

/-- A walk of a table that memory holds finds nothing for a page that is not mapped. -/
theorem walk_none (holds : space.Holds mem) (within : space.Within start stop)
    (limit : stop < wordLimit) (word : v < wordLimit) (unmapped : space.leaf (v / pageSize) = none) :
    Sv32.walk (loadWord mem) (satpOf space.root) v = .invalid := by
  have size : pageSize = 4096 := rfl
  have small := Sv32.vpn1_lt v
  have low := Sv32.vpn0_lt v
  obtain ⟨_, high, aligned⟩ := within.root
  obtain ⟨on, names⟩ := satpOf_spec aligned (by omega)
  rw [← number_eq word] at unmapped
  cases table : space.table (Sv32.vpn1 v) with
  | none =>
    -- The walk ends in the root.
    refine Sv32.walk_invalid on names ?_
    rw [(holds.absent _ small table).1]
    decide
  | some page =>
    obtain ⟨points, entries⟩ := holds.present _ small page table
    rw [Sv32.walk_pointer on names points, number_mul (within.table _ small page table).2.2.1,
      entries _ low, unmapped]
    exact Sv32.lastLevel_zero v

/-- A walk of a table that memory holds finds what is mapped. -/
theorem walk_some (holds : space.Holds mem) (within : space.Within start stop)
    (limit : stop < wordLimit) (word : v < wordLimit) {paddr flags : Nat}
    (mapped : space.leaf (v / pageSize) = some (paddr, flags)) (aligned : paddr % pageSize = 0)
    (bits : flags < 1024) (valid : Sv32.Valid flags) (allowed : ¬ Sv32.Reserved flags)
    (leaf : Sv32.Leaf flags) :
    Sv32.walk (loadWord mem) (satpOf space.root) v = .leaf (paddr + v % pageSize) flags := by
  -- The page is mapped, so its index has a table, and the walk goes through both levels.
  have small := Sv32.vpn1_lt v
  have low := Sv32.vpn0_lt v
  obtain ⟨_, high, whole⟩ := within.root
  obtain ⟨on, names⟩ := satpOf_spec whole (by omega)
  rw [← number_eq word] at mapped
  cases table : space.table (Sv32.vpn1 v) with
  | none =>
    rw [(holds.absent _ small table).2 _ low] at mapped
    exact absurd mapped nofun
  | some page =>
    obtain ⟨points, entries⟩ := holds.present _ small page table
    rw [Sv32.walk_pointer on names points, number_mul (within.table _ small page table).2.2.1,
      entries _ low, mapped, Space.word, Sv32.lastLevel_entry bits valid allowed leaf,
      number_mul aligned]
    rfl

end Holds

end Space

end Os1k.C
