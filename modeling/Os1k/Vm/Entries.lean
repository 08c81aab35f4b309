import Os1k.Vm.Mapping

/-! Mapping a page keeps the table represented, and sets the entry of that page alone. -/

namespace Os1k

open Memory (LiveBlock)

variable [layout : VecLayout]

/-- What the second-level tables hold, by root index and by index within a table. -/
def Holds (ram : Nat → Nat) (frames : Frames) (entries : Nat → Nat → Nat) : Prop :=
  ∀ vpn1 < 1024, ∀ vpn0 < 1024,
    match frames.leaf vpn1 with
    | some block => ram (block.addr + 4 * vpn0) = entries vpn1 vpn0
    | none => entries vpn1 vpn0 = 0

section Entered

variable {kernel : Kernel} {table : PageTable} {frames : Frames} {block : PhysAddr}
  {vpn1 vpn0 value : Nat}

/-- A word of a second-level table is no word of the blocks that represent the page table. -/
theorem Represents.entered (represents : Represents kernel.ram table frames)
    (placed : Placed frames.blocks) (small : vpn1 < 1024) (low : vpn0 < 1024)
    (known : frames.leaf vpn1 = some block) :
    Represents (kernel.entered block vpn0 value).ram table frames := by
  -- The entry is in a second-level table, and those are apart from the root and the array.
  have member := Frames.leaf_mem small known
  have word := placed.mem_bytes member (by simp only; omega : vpn0 * 4 < _)
  obtain ⟨rootApart, secondApart⟩ := (Frames.apart placed).2.1 vpn1 small block known
  simp only [Kernel.entered, pointerAdd_eq word.2]
  apply represents.congr
  · intro i inside
    apply Function.update_of_ne
    exact Placed.ne_of_disjoint rootApart
      (placed.mem_bytes List.mem_cons_self (by simp only; omega)).1 word.1
  · intro i inside k field
    apply Function.update_of_ne
    rw [Nat.add_assoc]
    exact Placed.ne_of_disjoint secondApart
      (placed.mem_bytes (List.mem_cons_of_mem _ List.mem_cons_self) (by simp only; omega)).1 word.1

omit layout in
/-- Setting one entry leaves the others, in the same table and in all others. -/
theorem Holds.entered {entries : Nat → Nat → Nat} (holds : Holds kernel.ram frames entries)
    (placed : Placed frames.blocks) (small : vpn1 < 1024) (low : vpn0 < 1024)
    (known : frames.leaf vpn1 = some block) :
    Holds (kernel.entered block vpn0 value).ram frames fun i j =>
      if i = vpn1 ∧ j = vpn0 then value else entries i j := by
  have member := Frames.leaf_mem small known
  have word := placed.mem_bytes member (by simp only; omega : vpn0 * 4 < _)
  intro i inside j below
  have before := holds i inside j below
  simp only [Kernel.entered, pointerAdd_eq word.2]
  by_cases same : i = vpn1
  · subst same
    simp only [known] at before ⊢
    by_cases here : j = vpn0
    · simp [here, Nat.mul_comm]
    · rw [Function.update_of_ne (by omega), if_neg (fun both => here both.2)]
      exact before
  · rw [if_neg (fun both => same both.1)]
    cases leaf : frames.leaf i with
    | none => simpa only [leaf] using before
    | some other =>
      simp only [leaf] at before ⊢
      -- Different root indices have disjoint tables.
      have apart := (Frames.apart placed).2.2 i inside vpn1 small same other block leaf known
      have otherWord := placed.mem_bytes (Frames.leaf_mem inside leaf)
        (by simp only; omega : 4 * j < _)
      rw [Function.update_of_ne (Placed.ne_of_disjoint apart otherWord.1 word.1)]
      exact before

end Entered

section Installed

variable {kernel : Kernel} {table : PageTable} {frames : Frames} {block : PhysAddr} {vpn1 : Nat}
  {memory : Memory}

/-- Installing a table writes its root entry and its own record alone. -/
theorem Kernel.installed_other {a : Nat} (notRoot : a ≠ frames.root.addr + 4 * vpn1)
    (notRecord : ∀ k < 5, a ≠ frames.second.addr + 20 * vpn1 + 4 * k) :
    (kernel.installed frames vpn1 block memory).ram a = kernel.ram a := by
  -- The stores are those of the record and of the root entry.
  simp only [installed]
  rw [Function.update_of_ne notRoot, storeWords_other]
  intro record stored
  obtain ⟨k, field, offset⟩ := offset_of_mem_words stored
  rw [offset]
  exact notRecord k field

/-- A new second-level table is represented where it was absent. -/
theorem Represents.installed (represents : Represents kernel.ram table frames)
    (placed : Placed frames.blocks) (small : vpn1 < 1024) {size : Nat}
    (sized : block.size = some size) :
    Represents (kernel.installed frames vpn1 block memory).ram table
      (frames.insert vpn1 block) := by
  have rootSecond := (Frames.apart placed).1
  have rootWord : ∀ i < 1024, frames.root.addr + 4 * i ∈ frames.root.bytes := fun i inside =>
    (placed.mem_bytes List.mem_cons_self (by simp only; omega)).1
  have secondWord : ∀ i < 1024, ∀ k < 5,
      frames.second.addr + 20 * i + 4 * k ∈ frames.second.bytes := fun i inside k field => by
    rw [Nat.add_assoc]
    exact (placed.mem_bytes (List.mem_cons_of_mem _ List.mem_cons_self) (by simp only; omega)).1
  -- The other root entries and the other records are as they were.
  have rootSame : ∀ i < 1024, i ≠ vpn1 →
      (kernel.installed frames vpn1 block memory).ram (frames.root.addr + 4 * i)
        = kernel.ram (frames.root.addr + 4 * i) := fun i inside other =>
    Kernel.installed_other (by omega) fun k field =>
      Placed.ne_of_disjoint rootSecond (rootWord i inside) (secondWord vpn1 small k field)
  have recordSame : ∀ i < 1024, i ≠ vpn1 →
      (Elem.read (kernel.installed frames vpn1 block memory).ram (frames.second.addr + 20 * i) :
        FixedVec Nat) = Elem.read kernel.ram (frames.second.addr + 20 * i) :=
    fun i inside other => read_congr fun k field => Kernel.installed_other
      (Placed.ne_of_disjoint rootSecond (rootWord vpn1 small) (secondWord i inside k field)).symm
      fun j word => by omega
  refine ⟨represents.root, represents.second, ?_, ?_⟩
  · intro i inside unknown
    have other : i ≠ vpn1 := by
      rintro rfl
      simp [Frames.insert] at unknown
    simp only [Frames.insert, Function.update_of_ne other] at unknown
    simp only [Frames.insert, rootSame i inside other, recordSame i inside other]
    exact represents.absent i inside unknown
  · intro i inside found known
    by_cases here : i = vpn1
    · -- The new entry points to the block, and the new record is what was stored.
      subst here
      simp only [Frames.insert, Function.update_self, Option.some.injEq] at known
      subst known
      refine ⟨by simp [Kernel.installed, Frames.insert], ?_⟩
      have record : (tableVec block).physAddr.size = some size := sized
      refine Eq.trans (read_congr fun k field => ?_) (read_storeWords record _ kernel.ram)
      apply Function.update_of_ne
      exact (Placed.ne_of_disjoint rootSecond (rootWord i inside)
        (secondWord i inside k field)).symm
    · simp only [Frames.insert, Function.update_of_ne here] at known
      simp only [Frames.insert, rootSame i inside here, recordSame i inside here]
      exact represents.present i inside found known

/-- A new second-level table that is all zero maps nothing. -/
theorem Holds.installed {entries : Nat → Nat → Nat} (holds : Holds kernel.ram frames entries)
    (placed : Placed (frames.insert vpn1 block).blocks) (small : vpn1 < 1024)
    (unknown : frames.leaf vpn1 = none) (zero : ∀ a ∈ block.bytes, kernel.ram a = 0) :
    Holds (kernel.installed frames vpn1 block memory).ram (frames.insert vpn1 block) entries := by
  obtain ⟨_, leaves, _⟩ := Frames.apart placed
  -- No word of a second-level table is among those that were written.
  have same : ∀ i < 1024, ∀ found, (frames.insert vpn1 block).leaf i = some found → ∀ j < 1024,
      (kernel.installed frames vpn1 block memory).ram (found.addr + 4 * j)
        = kernel.ram (found.addr + 4 * j) := by
    intro i inside found known j below
    have word := (placed.mem_bytes (Frames.leaf_mem inside known) (by simp only; omega : 4 * j < _)).1
    obtain ⟨rootApart, secondApart⟩ := leaves i inside found known
    refine Kernel.installed_other ?_ fun k field => ?_
    · exact (Placed.ne_of_disjoint rootApart
        (placed.mem_bytes List.mem_cons_self (by simp only; omega)).1 word).symm
    · rw [Nat.add_assoc]
      exact (Placed.ne_of_disjoint secondApart (placed.mem_bytes
        (List.mem_cons_of_mem _ List.mem_cons_self) (by simp only; omega)).1 word).symm
  intro i inside j below
  have before := holds i inside j below
  cases leaf : (frames.insert vpn1 block).leaf i with
  | none =>
    have other : i ≠ vpn1 := by
      rintro rfl
      simp [Frames.insert] at leaf
    simp only [Frames.insert, Function.update_of_ne other] at leaf
    simpa only [leaf] using before
  | some found =>
    simp only [same i inside found leaf j below]
    by_cases here : i = vpn1
    · -- The new table holds zeros, as an index without a table does.
      subst here
      simp only [Frames.insert, Function.update_self, Option.some.injEq] at leaf
      subst leaf
      simp only [unknown] at before
      have member : (⟨4096, block⟩ : LiveBlock) ∈ (frames.insert i block).blocks :=
        Frames.leaf_mem small (Function.update_self ..)
      rw [before, zero _ (placed.mem_bytes member (by simp only; omega : 4 * j < _)).1]
    · simp only [Frames.insert, Function.update_of_ne here] at leaf
      simpa only [leaf] using before

end Installed

namespace MapStep

variable {profile : Profile} {kernel after : Kernel} {table : PageTable} {frames grown : Frames}
  {vpn1 vpn0 value : Nat}

/-- A mapped page leaves a table that its blocks represent. -/
theorem represents (step : MapStep profile kernel frames vpn1 vpn0 value after grown)
    (before : Represents kernel.ram table frames) (small : vpn1 < 1024) (low : vpn0 < 1024)
    (was : Placed frames.blocks) (placed : Placed grown.blocks) :
    Represents after.ram table grown := by
  -- A new table is put in place before the entry is set.
  cases step with
  | known known => exact before.entered placed small low known
  | fresh unknown given =>
    obtain ⟨size, sized⟩ := Memory.buddyAlloc_sized given
    exact (before.installed was small sized).entered placed small low (Function.update_self ..)

/-- A mapped page sets its own entry, provided that a new table is all zero. -/
theorem holds (step : MapStep profile kernel frames vpn1 vpn0 value after grown)
    {entries : Nat → Nat → Nat} (before : Holds kernel.ram frames entries) (small : vpn1 < 1024)
    (low : vpn0 < 1024) (placed : Placed grown.blocks)
    (zero : ∀ block memory, frames.leaf vpn1 = none →
      (Memory.buddyAlloc profile 4096).run kernel.memory = .ok (.ok block) memory →
      ∀ a ∈ block.bytes, kernel.ram a = 0) :
    Holds after.ram grown fun i j => if i = vpn1 ∧ j = vpn0 then value else entries i j := by
  -- A new table holds no entry until this one is set.
  cases step with
  | known known => exact before.entered placed small low known
  | fresh unknown given =>
    exact (before.installed placed small unknown (zero _ _ unknown given)).entered placed small low
      (Function.update_self ..)

end MapStep

end Os1k
