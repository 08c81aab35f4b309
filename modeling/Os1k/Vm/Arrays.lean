import Os1k.Vm.FixedVec

/-! What the operations on owned arrays do to memory. -/

namespace Os1k

/-- RAM after the words of an element were written at an address. -/
def storeWords (addr : Nat) : List (Nat × Nat) → (Nat → Nat) → Nat → Nat
  | [], ram => ram
  | word :: words, ram => storeWords addr words (Function.update ram (addr + word.1) word.2)

/-- Words elsewhere are not changed. -/
theorem storeWords_other {addr other : Nat} {words : List (Nat × Nat)} {ram : Nat → Nat}
    (apart : ∀ word ∈ words, other ≠ addr + word.1) : storeWords addr words ram other = ram other := by
  -- None of the words is stored at the address.
  induction words generalizing ram with
  | nil => rfl
  | cons word words ih =>
    rw [storeWords, ih fun later member => apart later (List.mem_cons_of_mem _ member),
      Function.update_of_ne (apart word List.mem_cons_self)]

/-- Each word is found where it was written, if no two go to the same place. -/
theorem storeWords_mem {addr : Nat} {words : List (Nat × Nat)} {ram : Nat → Nat}
    (places : (words.map Prod.fst).Nodup) {word : Nat × Nat} (member : word ∈ words) :
    storeWords addr words ram (addr + word.1) = word.2 := by
  induction words generalizing ram with
  | nil => simp at member
  | cons first words ih =>
    rw [List.map_cons, List.nodup_cons] at places
    rcases List.mem_cons.mp member with rfl | later
    · -- The words written later go to other places.
      rw [storeWords, storeWords_other, Function.update_self]
      intro later found same
      have place : word.1 = later.1 := by omega
      exact places.1 (List.mem_map.mpr ⟨later, found, place.symm⟩)
    · rw [storeWords]
      exact ih places.2 later

namespace Kernel

/-- The same kernel with nothing on record. -/
def quiet (kernel : Kernel) : Kernel := { kernel with trace := [] }

/-- Clearing the record first is starting with nothing on record. -/
theorem run_quiet {α : Type} (next : Exec Fault Kernel α) (kernel : Kernel) :
    (do modify quiet; next : Exec Fault Kernel α).run kernel = next.run kernel.quiet := rfl

/-- Storing one word changes that word alone. -/
theorem run_store (addr value : Nat) (kernel : Kernel) :
    (store addr value).run kernel = .ok ()
      { kernel with
        ram := Function.update kernel.ram addr value
        trace := .store addr :: kernel.trace } := rfl

/-- Storing the words of an element, one after the other. -/
theorem run_storeWords (addr : Nat) (words : List (Nat × Nat)) (kernel : Kernel) :
    EStateM.run (forM words fun word => store (addr + word.1) word.2) kernel = .ok ()
      { kernel with
        ram := storeWords addr words kernel.ram
        trace := (words.map fun word => Event.store (addr + word.1)).reverse ++ kernel.trace } := by
  -- The latest store comes first on record.
  induction words generalizing kernel with
  | nil => rfl
  | cons word words ih =>
    simp only [List.forM_cons, EStateM.run_bind, run_store]
    rw [ih]
    simp [storeWords]

end Kernel

/-- A block is handed out exactly as the allocator does it, on record. -/
theorem run_phalloc_ok {profile : Profile} {n : Nat} {kernel after : Kernel} {block : PhysAddr} :
    (phalloc profile n).run kernel = .ok (.ok block) after ↔
      ∃ memory, (Memory.buddyAlloc profile n).run kernel.memory = .ok (.ok block) memory ∧
        after = { kernel with memory, trace := .alloc n block :: kernel.trace } := by
  -- Only a block that is handed out is put on record.
  unfold phalloc
  rw [Exec.run_bind_ok]
  constructor
  · rintro ⟨result, middle, ran, recorded⟩
    obtain ⟨memory, allocated, rfl⟩ := Exec.run_zoom_ok.mp ran
    cases result with
    | error error => simp at recorded
    | ok given =>
      simp only [Kernel.record, EStateM.run_bind, EStateM.run_modify, EStateM.run_pure,
        EStateM.Result.ok.injEq, Except.ok.injEq] at recorded
      obtain ⟨rfl, rfl⟩ := recorded
      exact ⟨memory, allocated, rfl⟩
  · rintro ⟨memory, allocated, rfl⟩
    exact ⟨.ok block, _, Exec.run_zoom_ok.mpr ⟨memory, allocated, rfl⟩, rfl⟩

/-- A region is given back exactly as the allocator does it, on record. -/
theorem run_phree {profile : Profile} {addr : PhysAddr} {kernel : Kernel} {memory : Memory}
    (freed : (Memory.buddyFree profile addr).run kernel.memory = .ok () memory) :
    (phree profile addr).run kernel =
      .ok () { kernel with memory, trace := .free addr :: kernel.trace } := by
  refine Exec.run_bind_ok.mpr ⟨(), _, Exec.run_zoom_ok.mpr ⟨memory, freed, rfl⟩, rfl⟩

/-- What was given back was given back to the allocator, and RAM is as it was. -/
theorem run_phree_ok {profile : Profile} {addr : PhysAddr} {kernel after : Kernel}
    (ran : (phree profile addr).run kernel = .ok () after) :
    (Memory.buddyFree profile addr).run kernel.memory = .ok () after.memory ∧
      after.ram = kernel.ram := by
  -- Giving back works on the allocator alone, and is then put on record.
  obtain ⟨_, _, zoomed, recorded⟩ := Exec.run_bind_ok.mp ran
  obtain ⟨_, freed, rfl⟩ := Exec.run_zoom_ok.mp zoomed
  simp only [Kernel.record, EStateM.run_modify, EStateM.Result.ok.injEq] at recorded
  obtain ⟨_, rfl⟩ := recorded
  exact ⟨freed, rfl⟩

/-- What a request comes to is what the allocator makes of it. -/
theorem run_phalloc_memory {profile : Profile} {n : Nat} {kernel after : Kernel}
    {result : Except MemError PhysAddr} (ran : (phalloc profile n).run kernel = .ok result after) :
    (Memory.buddyAlloc profile n).run kernel.memory = .ok result after.memory := by
  -- Putting a block on record does not change the allocator.
  cases result with
  | ok block =>
    obtain ⟨memory, given, rfl⟩ := run_phalloc_ok.mp ran
    exact given
  | error error =>
    obtain ⟨result, _, zoomed, rest⟩ := Exec.run_bind_ok.mp ran
    obtain ⟨memory, refused, rfl⟩ := Exec.run_zoom_ok.mp zoomed
    cases result with
    | ok block =>
      simp only [Kernel.record, EStateM.run_bind, EStateM.run_modify, EStateM.run_pure,
        EStateM.Result.ok.injEq, reduceCtorEq, false_and] at rest
    | error other =>
      simp only [EStateM.run_pure, EStateM.Result.ok.injEq, Except.error.injEq] at rest
      obtain ⟨rfl, rfl⟩ := rest
      exact refused

/-- Giving back an address that no allocation returned changes nothing. -/
theorem run_phree_none {profile : Profile} {addr : PhysAddr} (unsized : addr.size = none)
    (kernel : Kernel) :
    (phree profile addr).run kernel = .ok () { kernel with trace := .free addr :: kernel.trace } := by
  apply run_phree
  simp [Memory.buddyFree, unsized]

namespace FixedVec

/-- A new array is a block of the size that the product of capacity and element size comes to. -/
theorem run_new_wrap {α : Type} [Elem α] {profile : Profile} {cap : Nat} {kernel after : Kernel}
    {vec : FixedVec α} (ran : (new profile cap).run kernel = .ok vec after) :
    ∃ block memory, (Memory.buddyAlloc profile (cap * Elem.size α % wordLimit)).run kernel.memory
        = .ok (.ok block) memory ∧ Elem.size α ≠ 0 ∧ vec = ⟨block.addr, cap, block⟩ ∧
      after = { kernel with
        memory, trace := .alloc (cap * Elem.size α % wordLimit) block :: kernel.trace } := by
  unfold new at ran
  by_cases zero : Elem.size α = 0
  · simp [zero, EStateM.run_bind] at ran
  · rw [if_neg zero] at ran
    obtain ⟨size, _, multiplied, rest⟩ := Exec.run_bind_ok.mp ran
    -- A build that checks returns the product only if that is a word.
    obtain ⟨rfl, rfl⟩ := profile.mul_wrap multiplied
    by_cases large : isizeMax < cap * Elem.size α % wordLimit
    · simp [large, EStateM.run_bind] at rest
    · rw [if_neg large] at rest
      obtain ⟨result, middle, allocated, last⟩ := Exec.run_bind_ok.mp rest
      cases result with
      | error error => simp at last
      | ok block =>
        obtain ⟨memory, given, rfl⟩ := run_phalloc_ok.mp allocated
        by_cases null : block.addr = 0
        · simp only [if_pos null, EStateM.run_bind, Exec.run_throw, reduceCtorEq] at last
        · simp only [if_neg null, EStateM.run_pure, EStateM.Result.ok.injEq] at last
          obtain ⟨rfl, rfl⟩ := last
          exact ⟨block, memory, given, zero, rfl, rfl⟩

/-- A new array is a block of the size its elements need. -/
theorem run_new_ok {α : Type} [Elem α] {profile : Profile} {cap : Nat} {kernel after : Kernel}
    {vec : FixedVec α} (fits : cap * Elem.size α < wordLimit)
    (ran : (new profile cap).run kernel = .ok vec after) :
    ∃ block memory, (Memory.buddyAlloc profile (cap * Elem.size α)).run kernel.memory
        = .ok (.ok block) memory ∧
      vec = ⟨block.addr, cap, block⟩ ∧
      after = { kernel with memory, trace := .alloc (cap * Elem.size α) block :: kernel.trace } := by
  obtain ⟨block, memory, given, _, made, done⟩ := run_new_wrap ran
  rw [Nat.mod_eq_of_lt fits] at given done
  exact ⟨block, memory, given, made, done⟩

variable {α : Type} [Elem α] {vec : FixedVec α} {i : Nat}

/-- The address of an element that stays in the address space. -/
theorem slotAddr_eq (fits : vec.ptr + i * Elem.size α < wordLimit) :
    vec.slotAddr i = vec.ptr + i * Elem.size α := pointerAdd_eq fits

/-- An element inside the capacity is read off RAM. -/
theorem run_index (inside : i < vec.cap) (kernel : Kernel) :
    (vec.index i).run kernel = .ok (Elem.read kernel.ram (vec.slotAddr i)) kernel := by
  simp only [index, if_neg (Nat.not_le.mpr inside), EStateM.run_bind, EStateM.run_get,
    EStateM.run_pure]

/-- Reading an element changes nothing. -/
theorem index_state {value : α} {kernel after : Kernel}
    (ran : (vec.index i).run kernel = .ok value after) : after = kernel := by
  -- Past the end of the array, reading panics.
  by_cases inside : i < vec.cap
  · rw [run_index inside, EStateM.Result.ok.injEq] at ran
    exact ran.2.symm
  · unfold index at ran
    simp only [if_pos (Nat.not_lt.mp inside), EStateM.run_bind, Exec.run_throw, reduceCtorEq] at ran

/-- Overwriting a word of an array stores that word. -/
theorem run_assign_word {vec : FixedVec Nat} (inside : i < vec.cap) (profile : Profile)
    (value : Nat) (kernel : Kernel) :
    (vec.assign profile i value).run kernel = .ok ()
      { kernel with
        ram := Function.update kernel.ram (vec.slotAddr i) value
        trace := .store (vec.slotAddr i) :: kernel.trace } := by
  simp [assign, Nat.not_le.mpr inside, Elem.words, Elem.dropInPlace, Kernel.run_store]

/-- Dropping an array of words gives its block back. -/
theorem run_drop_words (profile : Profile) (vec : FixedVec Nat) (kernel : Kernel) :
    (vec.drop profile).run kernel = (phree profile vec.physAddr).run kernel := by
  -- Words own nothing, so the loop over them does nothing.
  have loop : ∀ indices : List Nat, EStateM.run (forM indices fun i => (do
      Elem.dropInPlace profile (Elem.read (← get).ram (vec.slotAddr i) : Nat) :
        Exec Fault Kernel Unit)) kernel = .ok () kernel := by
    intro indices
    induction indices with
    | nil => rfl
    | cons i indices ih =>
      rw [List.forM_cons, EStateM.run_bind, EStateM.run_bind]
      exact ih
  unfold drop
  rw [EStateM.run_bind, loop]

/-- Dropping an array without elements or a block changes nothing. -/
theorem run_drop_empty {vec : FixedVec α} (empty : vec.cap = 0) (unsized : vec.physAddr.size = none)
    (profile : Profile) (kernel : Kernel) :
    (vec.drop profile).run kernel =
      .ok () { kernel with trace := .free vec.physAddr :: kernel.trace } := by
  unfold drop
  rw [empty, EStateM.run_bind]
  exact run_phree_none unsized kernel

end FixedVec

section Nested

variable [layout : VecLayout] {α : Type} [Elem α]

/-- The offsets of the words of a stored record are those of its fields. -/
theorem offset_of_mem_words {vec : FixedVec α} {word : Nat × Nat} (member : word ∈ Elem.words vec) :
    ∃ k < 5, word.1 = 4 * k := by
  -- Without a size, one of the five fields is not stored.
  obtain ⟨field, same⟩ : ∃ field, word.1 = layout.offset field := by
    simp only [Elem.words] at member
    cases size : vec.physAddr.size with
    | none =>
      simp only [size, List.cons_append, List.nil_append, List.mem_cons, List.not_mem_nil,
        or_false] at member
      rcases member with rfl | rfl | rfl | rfl
      exacts [⟨_, rfl⟩, ⟨_, rfl⟩, ⟨_, rfl⟩, ⟨_, rfl⟩]
    | some bytes =>
      simp only [size, List.cons_append, List.nil_append, List.mem_cons, List.not_mem_nil,
        or_false] at member
      rcases member with rfl | rfl | rfl | rfl | rfl
      exacts [⟨_, rfl⟩, ⟨_, rfl⟩, ⟨_, rfl⟩, ⟨_, rfl⟩, ⟨_, rfl⟩]
  rw [same]
  exact layout.word field

/-- A stored record is read back as it was stored. -/
theorem read_storeWords {vec : FixedVec α} {bytes : Nat} (sized : vec.physAddr.size = some bytes)
    (addr : Nat) (ram : Nat → Nat) :
    Elem.read (storeWords addr (Elem.words vec) ram) addr = vec := by
  obtain ⟨ptr, cap, ⟨block, size⟩⟩ := vec
  simp only at sized
  subst sized
  -- Different fields lie at different offsets, so no field is overwritten by a later one.
  have same : ∀ a b : VecField, layout.offset a = layout.offset b ↔ a = b := fun a b =>
    layout.injective.eq_iff
  simp [Elem.read, Elem.words, storeWords, same]

/-- A record is read off its own five words. -/
theorem read_congr {ram other : Nat → Nat} {addr : Nat}
    (agree : ∀ k < 5, other (addr + 4 * k) = ram (addr + 4 * k)) :
    (Elem.read other addr : FixedVec α) = Elem.read ram addr := by
  -- Each field of a record is one of its five words.
  have field : ∀ name, other (addr + layout.offset name) = ram (addr + layout.offset name) := by
    intro name
    obtain ⟨k, small, same⟩ := layout.word name
    rw [same]
    exact agree k small
  simp only [Elem.read, field]

/-- Overwriting an element that holds no block stores the new record. -/
theorem FixedVec.run_assign_vec {vec : FixedVec (FixedVec Nat)} {i : Nat} (inside : i < vec.cap)
    {kernel : Kernel} {old : FixedVec Nat}
    (was : Elem.read kernel.ram (vec.slotAddr i) = old) (unsized : old.physAddr.size = none)
    (profile : Profile) (value : FixedVec Nat) :
    (vec.assign profile i value).run kernel = .ok ()
      { kernel with
        ram := storeWords (vec.slotAddr i) (Elem.words value) kernel.ram
        trace := ((Elem.words value).map fun word =>
            Event.store (vec.slotAddr i + word.1)).reverse ++
          .free old.physAddr :: kernel.trace } := by
  -- The old record is dropped first, which gives nothing back.
  have dropped : EStateM.run (Elem.dropInPlace profile old) kernel =
      .ok () { kernel with trace := .free old.physAddr :: kernel.trace } :=
    (FixedVec.run_drop_words profile old kernel).trans (run_phree_none unsized kernel)
  unfold assign
  simp only [Nat.not_le.mpr inside, if_false, EStateM.run_bind, EStateM.run_get, was,
    dropped, Kernel.run_storeWords]

end Nested

end Os1k
