import Os1k.Vm.Entries

/-! Page tables that are built from fresh memory translate exactly the pages mapped in them. -/

namespace Os1k

open Memory (LiveBlock)

/-- The arguments of one call that maps a page. -/
structure Mapping where
  vaddr : Nat
  paddr : Nat
  flags : Nat
  deriving DecidableEq, Repr

/-- The blocks handed out, the latest first. -/
def handedOut (trace : List Event) : List LiveBlock :=
  trace.filterMap fun
    | .alloc request block => some ⟨request, block⟩
    | _ => none

/-- The last call that mapped the page of an address. -/
def lastCall (calls : List Mapping) (v : Nat) : Option Mapping :=
  calls.reverse.find? fun call => call.vaddr / pageSize = v / pageSize

/-- The entry at a pair of indices, after the calls made so far. -/
def entryAfter (calls : List Mapping) (vpn1 vpn0 : Nat) : Nat :=
  match calls.reverse.find? fun call =>
    vpn1 = Sv32.vpn1 call.vaddr ∧ vpn0 = Sv32.vpn0 call.vaddr with
  | some call => pageEntry call.paddr call.flags
  | none => 0

/--
Blocks of fresh RAM: page-aligned, clear of each other, and all zero before any of them was used.

Tables are written in their own blocks only, so such a block is still all zero when it is handed out.
-/
structure FreshBlocks (ram : Nat → Nat) (blocks : List LiveBlock) : Prop extends Placed blocks where
  aligned : ∀ used ∈ blocks, used.block.addr % pageSize = 0
  zero : ∀ used ∈ blocks, ∀ a ∈ used.block.bytes, ram a = 0

/-- Fewer blocks are fresh as well. -/
theorem FreshBlocks.sublist {ram : Nat → Nat} {blocks fewer : List LiveBlock}
    (fresh : FreshBlocks ram blocks) (sub : fewer.Sublist blocks) : FreshBlocks ram fewer :=
  ⟨fresh.toPlaced.sublist sub, fun used member => fresh.aligned used (sub.subset member),
    fun used member => fresh.zero used (sub.subset member)⟩

/-- One more call decides the entry of its own page. -/
theorem entryAfter_append (calls : List Mapping) (call : Mapping) (vpn1 vpn0 : Nat) :
    entryAfter (calls ++ [call]) vpn1 vpn0 =
      if vpn1 = Sv32.vpn1 call.vaddr ∧ vpn0 = Sv32.vpn0 call.vaddr
      then pageEntry call.paddr call.flags else entryAfter calls vpn1 vpn0 := by
  simp only [entryAfter, List.reverse_append, List.reverse_cons, List.reverse_nil, List.nil_append,
    List.singleton_append, List.find?_cons]
  -- The list is searched from its end, where the new call is.
  by_cases here : vpn1 = Sv32.vpn1 call.vaddr ∧ vpn0 = Sv32.vpn0 call.vaddr
  · simp [here]
  · simp [here]

section Tables

variable [layout : VecLayout]

/-- Map pages one after the other. -/
def PageTable.mapPages (profile : Profile) (table : PageTable) (calls : List Mapping) :
    Exec Fault Kernel Unit :=
  forM calls fun call => table.mapPage profile call.vaddr call.paddr call.flags

omit layout in
/-- Overwriting a word leaves what was on record. -/
theorem FixedVec.assign_word_trace {profile : Profile} {vec : FixedVec Nat} {i value : Nat}
    {kernel after : Kernel} (ran : (vec.assign profile i value).run kernel = .ok () after) :
    kernel.trace <:+ after.trace := by
  -- Past the end of the array the assignment panics.
  by_cases inside : i < vec.cap
  · rw [run_assign_word inside, EStateM.Result.ok.injEq] at ran
    rw [← ran.2]
    exact List.suffix_cons _ _
  · unfold assign at ran
    simp only [if_pos (Nat.not_lt.mp inside), EStateM.run_bind, Exec.run_throw, reduceCtorEq] at ran

/-- Overwriting an array leaves what was on record. -/
theorem FixedVec.assign_vec_trace {profile : Profile} {vec : FixedVec (FixedVec Nat)} {i : Nat}
    {value : FixedVec Nat} {kernel after : Kernel}
    (ran : (vec.assign profile i value).run kernel = .ok () after) :
    kernel.trace <:+ after.trace := by
  unfold assign at ran
  by_cases outside : vec.cap ≤ i
  · simp only [if_pos outside, EStateM.run_bind, Exec.run_throw, reduceCtorEq] at ran
  · rw [if_neg outside] at ran
    obtain ⟨_, _, got, ran⟩ := Exec.run_bind_ok.mp ran
    rw [EStateM.run_get, EStateM.Result.ok.injEq] at got
    obtain ⟨rfl, rfl⟩ := got
    obtain ⟨_, _, dropped, ran⟩ := Exec.run_bind_ok.mp ran
    -- The array that is replaced gives its block back and writes nothing.
    have freed := (run_drop_words profile _ _).symm.trans dropped
    obtain ⟨_, _, zoomed, recorded⟩ := Exec.run_bind_ok.mp freed
    obtain ⟨_, _, rfl⟩ := Exec.run_zoom_ok.mp zoomed
    simp only [Kernel.record, EStateM.run_modify, EStateM.Result.ok.injEq] at recorded
    obtain ⟨_, rfl⟩ := recorded
    rw [Kernel.run_storeWords, EStateM.Result.ok.injEq] at ran
    rw [← ran.2]
    exact (List.suffix_cons _ _).trans (List.suffix_append _ _)

/-- Mapping a page leaves what was on record. -/
theorem mapPage_trace {profile : Profile} {table : PageTable} {vaddr paddr flags : Nat}
    {kernel after : Kernel}
    (ran : (table.mapPage profile vaddr paddr flags).run kernel = .ok () after) :
    kernel.trace <:+ after.trace := by
  unfold PageTable.mapPage at ran
  -- Both addresses are checked before anything is recorded.
  by_cases valigned : vaddr % pageSize ≠ 0
  · simp only [if_pos valigned, EStateM.run_bind, Exec.run_throw, reduceCtorEq] at ran
  by_cases paligned : paddr % pageSize ≠ 0
  · simp only [if_neg valigned, if_pos paligned, EStateM.run_bind, Exec.run_throw,
      reduceCtorEq] at ran
  simp only [if_neg valigned, if_neg paligned] at ran
  -- Setting the entry only adds a store.
  have enter : ∀ {ready : Kernel}, (do
      let secondPt ← table.secondPts.index (vaddr >>> 22 &&& 0x3ff)
      secondPt.assign profile (vaddr >>> 12 &&& 0x3ff)
        (shl (paddr / pageSize) 10 ||| flags ||| pageV)).run ready = .ok () after →
      ready.trace <:+ after.trace := by
    intro ready entered
    obtain ⟨_, _, indexed, assigned⟩ := Exec.run_bind_ok.mp entered
    obtain rfl := FixedVec.index_state indexed
    exact FixedVec.assign_word_trace assigned
  obtain ⟨entry, same, indexed, branched⟩ := Exec.run_bind_ok.mp ran
  obtain rfl := FixedVec.index_state indexed
  -- Where the root entry is not valid, a table is put in place first.
  by_cases invalid : entry &&& pageV = 0
  · rw [if_pos invalid] at branched
    obtain ⟨_, _, created, owning⟩ := Exec.run_bind_ok.mp branched
    obtain ⟨_, _, _, _, rfl⟩ := FixedVec.run_new_ok (by decide : 1024 * 4 < wordLimit) created
    obtain ⟨_, _, owned, pointing⟩ := Exec.run_bind_ok.mp owning
    obtain ⟨_, _, pointed, entering⟩ := Exec.run_bind_ok.mp pointing
    exact (List.suffix_cons _ _).trans ((FixedVec.assign_vec_trace owned).trans
      ((FixedVec.assign_word_trace pointed).trans (enter entering)))
  · rw [if_neg invalid] at branched
    exact enter branched

/-- A step of a run hands out one block when it installs a table, and none otherwise. -/
theorem MapStep.handedOut_perm {profile : Profile} {kernel after : Kernel} {frames grown : Frames}
    {vpn1 vpn0 value : Nat} (step : MapStep profile kernel frames vpn1 vpn0 value after grown)
    (small : vpn1 < 1024) (owned : (handedOut kernel.trace).Perm frames.blocks) :
    (handedOut after.trace).Perm grown.blocks := by
  -- Without a new table, only stores are recorded.
  cases step with
  | known known => simpa [handedOut, Kernel.entered] using owned
  | @fresh block memory unknown given =>
    -- Of the new events, only the allocation hands out a block.
    have one : handedOut ((kernel.installed frames vpn1 block memory).entered block vpn0 value).trace
        = ⟨4096, block⟩ :: handedOut kernel.trace := by
      simp [handedOut, Kernel.entered, Kernel.installed, List.filterMap_map]
    rw [one]
    exact (owned.cons _).trans (Frames.insert_perm small unknown).symm

/-- What memory looks like after a run of calls on a new table. -/
structure Mapped (start : Nat → Nat) (table : PageTable) (calls : List Mapping) (kernel : Kernel)
    (frames : Frames) : Prop where
  represents : Represents kernel.ram table frames
  owned : (handedOut kernel.trace).Perm frames.blocks
  holds : Holds kernel.ram frames (entryAfter calls)
  untouched : ∀ a, (∀ used ∈ frames.blocks, a ∉ used.block.bytes) → kernel.ram a = start a
  aligned : ∀ call ∈ calls, call.vaddr % pageSize = 0 ∧ call.paddr % pageSize = 0

/-- Two fresh blocks make up a table that maps nothing. -/
theorem Mapped.empty {kernel : Kernel} {root second : PhysAddr}
    (handed : handedOut kernel.trace = [⟨20480, second⟩, ⟨4096, root⟩])
    (fresh : FreshBlocks kernel.ram (handedOut kernel.trace)) :
    Mapped kernel.ram ⟨⟨root.addr, 1024, root⟩, ⟨second.addr, 1024, second⟩⟩ [] kernel
      ⟨root, second, fun _ => none⟩ := by
  -- A new table has two blocks and no second-level tables.
  have owned : (handedOut kernel.trace).Perm (Frames.blocks ⟨root, second, fun _ => none⟩) := by
    rw [handed, Frames.blocks_empty]
    exact List.Perm.swap _ _ _
  have represents := Represents.empty (fresh.toPlaced.perm owned.symm)
    (fresh.zero ⟨4096, root⟩ (by simp [handed])) (fresh.zero ⟨20480, second⟩ (by simp [handed]))
  refine ⟨represents, owned, ?_, fun _ _ => rfl, by simp⟩
  intro vpn1 small vpn0 low
  simp [entryAfter]

/-- A new table made of fresh blocks maps nothing. -/
theorem Mapped.new {profile : Profile} {kernel built : Kernel} {table : PageTable}
    (created : (PageTable.new profile).run kernel.quiet = .ok table built)
    (fresh : FreshBlocks kernel.ram (handedOut built.trace)) :
    ∃ frames, Mapped kernel.ram table [] built frames := by
  -- The two blocks of the table are known to hold zeros.
  obtain ⟨root, second, middle, memory, _, _, rfl, rfl⟩ := run_new_ok created
  let built : Kernel := { kernel with memory, trace := [.alloc 20480 second, .alloc 4096 root] }
  have empty : Mapped built.ram _ [] built _ := Mapped.empty rfl fresh
  exact ⟨_, empty⟩

/-- One more call on a table of fresh blocks. -/
theorem Mapped.map {profile : Profile} {start : Nat → Nat} {kernel after : Kernel}
    {table : PageTable} {calls : List Mapping} {call : Mapping} {frames : Frames}
    (mapped : Mapped start table calls kernel frames)
    (ran : (table.mapPage profile call.vaddr call.paddr call.flags).run kernel = .ok () after)
    (fresh : FreshBlocks start (handedOut after.trace)) :
    ∃ grown, Mapped start table (calls ++ [call]) after grown := by
  have small := Sv32.vpn1_lt call.vaddr
  have low := Sv32.vpn0_lt call.vaddr
  -- The blocks handed out earlier are among those handed out by now.
  have earlier := fresh.sublist ((mapPage_trace ran).sublist.filterMap _)
  have was := earlier.toPlaced.perm mapped.owned.symm
  -- The call is one step, with or without a new table.
  obtain ⟨valigned, paligned, grown, step⟩ := run_mapPage mapped.represents was ran
  have owned := step.handedOut_perm small mapped.owned
  have placed := fresh.toPlaced.perm owned.symm
  refine ⟨grown, step.represents mapped.represents small low was placed, owned, ?_, ?_, ?_⟩
  · have held := step.holds mapped.holds small low placed ?_
    · intro i inside j below
      have entry := held i inside j below
      simpa only [entryAfter_append] using entry
    · -- A block that was not handed out before is untouched, and was zero from the start.
      intro block memory unknown given a member
      rcases step.blocks small with ⟨known, _⟩ | ⟨found, _, allocated, perm⟩
      · exact absurd unknown known
      · rw [given, EStateM.Result.ok.injEq, Except.ok.injEq] at allocated
        obtain ⟨rfl, _⟩ := allocated
        have new : (⟨4096, block⟩ : LiveBlock) ∈ handedOut after.trace :=
          owned.symm.subset (perm.symm.subset List.mem_cons_self)
        have apart := (List.pairwise_cons.mp (placed.perm perm.symm).disjoint).1
        rw [mapped.untouched a fun used old inside =>
          Set.disjoint_left.mp (apart used old) member inside]
        exact fresh.zero _ new a member
  · -- What was written is in the blocks, old and new.
    intro a outside
    rw [(step.writes small low placed).1 a outside]
    refine mapped.untouched a fun used member => outside used ?_
    rcases step.blocks small with ⟨_, _, rfl⟩ | ⟨block, _, _, perm⟩
    · exact member
    · exact perm.symm.subset (List.mem_cons_of_mem _ member)
  · -- The call would have panicked on an address that is not a page.
    intro other member
    rcases List.mem_append.mp member with before | last
    · exact mapped.aligned other before
    · rw [List.mem_singleton.mp last]
      exact ⟨valigned, paligned⟩

/-- Mapping pages leaves what was on record. -/
theorem mapPages_trace {profile : Profile} {table : PageTable} {calls : List Mapping}
    {kernel after : Kernel} (ran : (table.mapPages profile calls).run kernel = .ok () after) :
    kernel.trace <:+ after.trace := by
  -- What is on record is a suffix, since the latest event comes first.
  induction calls generalizing kernel with
  | nil =>
    obtain ⟨_, rfl⟩ : () = () ∧ kernel = after := by simpa [PageTable.mapPages] using ran
    exact List.suffix_rfl
  | cons call calls ih =>
    simp only [PageTable.mapPages, List.forM_cons] at ran
    obtain ⟨_, middle, mapped, rest⟩ := Exec.run_bind_ok.mp ran
    exact (mapPage_trace mapped).trans (ih rest)

/-- A whole run of calls on a table of fresh blocks that maps nothing yet. -/
theorem Mapped.mapPages {profile : Profile} {start : Nat → Nat} {kernel final : Kernel}
    {table : PageTable} {calls : List Mapping} {frames : Frames}
    (mapped : Mapped start table [] kernel frames)
    (ran : (table.mapPages profile calls).run kernel = .ok () final)
    (fresh : FreshBlocks start (handedOut final.trace)) :
    ∃ grown, Mapped start table calls final grown := by
  -- The last call is taken off first, since it is the one that decides the entries of its page.
  induction calls using List.reverseRecOn generalizing final with
  | nil =>
    obtain ⟨_, rfl⟩ : () = () ∧ kernel = final := by simpa [PageTable.mapPages] using ran
    exact ⟨frames, mapped⟩
  | append_singleton calls call ih =>
    simp only [PageTable.mapPages, List.forM_append, List.forM_cons, List.forM_nil] at ran
    obtain ⟨_, middle, before, last⟩ := Exec.run_bind_ok.mp ran
    obtain ⟨_, _, ended, done⟩ := Exec.run_bind_ok.mp last
    simp only [EStateM.run_pure, EStateM.Result.ok.injEq, true_and] at done
    subst done
    obtain ⟨between, sofar⟩ := ih before
      (fresh.sublist ((mapPage_trace ended).sublist.filterMap _))
    exact sofar.map ended fresh

/-- A whole run of calls on a new table of fresh blocks. -/
theorem Mapped.run {profile : Profile} {kernel built final : Kernel} {table : PageTable}
    {calls : List Mapping}
    (created : (PageTable.new profile).run kernel.quiet = .ok table built)
    (ran : (table.mapPages profile calls).run built = .ok () final)
    (fresh : FreshBlocks kernel.ram (handedOut final.trace)) :
    ∃ frames, Mapped kernel.ram table calls final frames := by
  obtain ⟨frames, new⟩ := Mapped.new created
    (fresh.sublist ((mapPages_trace ran).sublist.filterMap _))
  exact new.mapPages ran fresh

omit layout in
/-- A page number shifted past the flags stays inside the word. -/
theorem shl_page {addr : Nat} (fits : addr < wordLimit) :
    shl (addr / pageSize) 10 = (addr / pageSize) <<< 10 := by
  have limit : wordLimit = 4294967296 := rfl
  have pages : pageSize = 4096 := rfl
  -- A page number has twenty bits, so ten more stay inside.
  rw [shl, Nat.mod_eq_of_lt]
  rw [limit] at fits ⊢
  rw [pages, Nat.shiftLeft_eq]
  omega

omit layout in
/-- A root entry is the frame of its table with the valid bit. -/
theorem tableEntry_eq {block : PhysAddr} (fits : block.addr < wordLimit) :
    tableEntry block = Sv32.entry (block.addr / pageSize) 1 := by
  rw [tableEntry, shl_page fits]
  rfl

omit layout in
/-- The entry of a page is its frame, with its flags and the valid bit. -/
theorem pageEntry_eq {paddr : Nat} (fits : paddr < wordLimit) (flags : Nat) :
    pageEntry paddr flags = Sv32.entry (paddr / pageSize) (flags ||| pageV) := by
  rw [pageEntry, shl_page fits, Nat.or_assoc]
  rfl

omit layout in
/-- The entry of a page is never zero. -/
theorem pageEntry_ne_zero (paddr flags : Nat) : pageEntry paddr flags ≠ 0 := by
  -- The valid bit is always set.
  have bit : (pageEntry paddr flags).testBit 0 = true := by simp [pageEntry, pageV]
  intro zero
  rw [zero] at bit
  simp at bit

omit layout in
/-- The satp value of a page-aligned table turns translation on and names its root. -/
theorem satp_eq {table : PageTable} (fits : table.rootPtAddr < wordLimit)
    (aligned : table.rootPtAddr % pageSize = 0) :
    table.satp / 2 ^ 31 ≠ 0 ∧ table.satp % 2 ^ 22 * 4096 = table.rootPtAddr := by
  have limit : wordLimit = 4294967296 := rfl
  have pages : pageSize = 4096 := rfl
  rw [limit] at fits
  rw [pages] at aligned
  -- The mode bit is above the page number of the root.
  have low : table.rootPtAddr / 4096 < 2 ^ 31 := by omega
  have joined := Nat.shiftLeft_add_eq_or_of_lt low 1
  have bits : table.satp = 2147483648 + table.rootPtAddr / 4096 := joined.symm
  rw [bits]
  omega

omit layout in
/-- With the valid bit added, flags are valid. -/
theorem valid_or (flags : Nat) : Sv32.Valid (flags ||| pageV) := by
  intro zero
  -- The lowest bit is set by the disjunction.
  have bit : ((flags ||| pageV) &&& 1).testBit 0 = true := by simp [pageV]
  rw [zero] at bit
  simp at bit

omit layout in
/-- Readable or executable flags stay so with the valid bit added. -/
theorem leaf_or {flags : Nat} (readable : flags &&& (pageR ||| pageX) ≠ 0) :
    Sv32.Leaf (flags ||| pageV) := by
  -- The valid bit is none of the two that make a leaf.
  have bits : pageR ||| pageX = 10 := rfl
  have none : pageV &&& 10 = 0 := rfl
  rw [bits] at readable
  rw [Sv32.Leaf, Nat.and_or_distrib_right, none, Nat.or_zero]
  exact readable

omit layout in
/-- The valid bit does not count for whether flags are reserved. -/
theorem reserved_or {flags : Nat} : Sv32.Reserved (flags ||| pageV) ↔ Sv32.Reserved flags := by
  -- The valid bit is neither of the two that count.
  have writable : pageV &&& 4 = 0 := rfl
  have readable : pageV &&& 2 = 0 := rfl
  rw [Sv32.Reserved, Nat.and_or_distrib_right, Nat.and_or_distrib_right, writable, readable,
    Nat.or_zero, Nat.or_zero, Sv32.Reserved]

omit layout in
/-- Among calls on whole pages, those for a page are those with its two indices. -/
theorem entryAfter_page {calls : List Mapping} {v : Nat} (word : v < wordLimit)
    (words : ∀ call ∈ calls, call.vaddr < wordLimit) :
    entryAfter calls (Sv32.vpn1 v) (Sv32.vpn0 v) =
      match lastCall calls v with
      | some call => pageEntry call.paddr call.flags
      | none => 0 := by
  -- An address of a word is determined by its indices and its offset.
  have same : (calls.reverse.find? fun call =>
      decide (Sv32.vpn1 v = Sv32.vpn1 call.vaddr ∧ Sv32.vpn0 v = Sv32.vpn0 call.vaddr))
      = lastCall calls v := by
    apply List.find?_congr
    intro call member
    have page := Sv32.page_eq_iff (words call (List.mem_reverse.mp member)) word
    simp only [decide_eq_decide]
    exact ⟨fun both => page.mpr ⟨both.1.symm, both.2.symm⟩,
      fun equal => ⟨(page.mp equal).1.symm, (page.mp equal).2.symm⟩⟩
  rw [entryAfter, same]

omit layout in
/-- The blocks of a table start inside the address space. -/
theorem Frames.addr_lt {frames : Frames} (placed : Placed frames.blocks) {used : LiveBlock}
    (member : used ∈ frames.blocks) : used.block.addr < wordLimit := by
  -- Each of them was requested for some bytes.
  have positive : 0 < used.request := by
    simp only [Frames.blocks, List.mem_cons, List.mem_map] at member
    rcases member with rfl | rfl | ⟨_, _, rfl⟩ <;> simp only <;> omega
  exact (placed.mem_bytes member positive).2

/-- A walk of a table whose blocks are pages ends in its second-level tables, or at its root. -/
theorem Represents.walk {ram : Nat → Nat} {table : PageTable} {frames : Frames}
    (represents : Represents ram table frames) (placed : Placed frames.blocks)
    (aligned : ∀ used ∈ frames.blocks, used.block.addr % pageSize = 0) (v : Nat) :
    Sv32.walk ram table.satp v =
      match frames.leaf (Sv32.vpn1 v) with
      | some block => Sv32.lastLevel (ram (block.addr + 4 * Sv32.vpn0 v)) v
      | none => .invalid := by
  have small := Sv32.vpn1_lt v
  -- The satp value names the root, which is a page of the address space.
  have rootAddr : table.rootPtAddr = frames.root.addr := by
    rw [PageTable.rootPtAddr, represents.root]
  have rootMember : (⟨4096, frames.root⟩ : LiveBlock) ∈ frames.blocks := List.mem_cons_self
  obtain ⟨on, names⟩ := satp_eq (rootAddr ▸ Frames.addr_lt placed rootMember)
    (rootAddr ▸ aligned _ rootMember)
  rw [rootAddr] at names
  cases known : frames.leaf (Sv32.vpn1 v) with
  | none =>
    obtain ⟨invalid, _⟩ := represents.absent _ small known
    exact Sv32.walk_invalid on names fun valid => (Sv32.valid_flags.mp valid) invalid
  | some block =>
    have member := Frames.leaf_mem small known
    obtain ⟨points, _⟩ := represents.present _ small block known
    rw [tableEntry_eq (Frames.addr_lt placed member)] at points
    have base : block.addr / pageSize * 4096 = block.addr :=
      Nat.div_mul_cancel (Nat.dvd_of_mod_eq_zero (aligned _ member))
    rw [Sv32.walk_pointer on names points, base]

/--
After a run of calls, each page translates as the last call for it said.

Flags that are writable but not readable make it a page fault instead.
-/
theorem Mapped.walk {start : Nat → Nat} {table : PageTable} {calls : List Mapping} {kernel : Kernel}
    {frames : Frames} (mapped : Mapped start table calls kernel frames)
    (fresh : FreshBlocks start (handedOut kernel.trace))
    (words : ∀ call ∈ calls, call.vaddr < wordLimit ∧ call.paddr < wordLimit)
    (leaf : ∀ call ∈ calls, call.flags < 2 ^ 10 ∧ call.flags &&& (pageR ||| pageX) ≠ 0)
    {v : Nat} (word : v < wordLimit) :
    Sv32.walk kernel.ram table.satp v =
      match lastCall calls v with
      | some call =>
        if Sv32.Reserved call.flags then .invalid
        else .leaf (call.paddr + v % pageSize) (call.flags ||| pageV)
      | none => .invalid := by
  have entry := mapped.holds _ (Sv32.vpn1_lt v) _ (Sv32.vpn0_lt v)
  rw [entryAfter_page word fun call member => (words call member).1] at entry
  rw [mapped.represents.walk (fresh.toPlaced.perm mapped.owned.symm)
    fun used member => fresh.aligned used (mapped.owned.symm.subset member)]
  cases known : frames.leaf (Sv32.vpn1 v) with
  -- Without a table there is no entry, so no call mapped the page.
  | none =>
    simp only [known] at entry
    cases last : lastCall calls v with
    | none => rfl
    | some call =>
      simp only [last] at entry
      exact absurd entry (pageEntry_ne_zero _ _)
  -- The walk goes on in the table, where the entry is that of the last call.
  | some block =>
    simp only [known] at entry
    simp only [entry]
    cases last : lastCall calls v with
    | none => exact Sv32.lastLevel_zero v
    | some call =>
      have made : call ∈ calls := List.mem_reverse.mp (List.mem_of_find?_eq_some last)
      obtain ⟨few, readable⟩ := leaf call made
      have frame : call.paddr / pageSize * 4096 = call.paddr :=
        Nat.div_mul_cancel (Nat.dvd_of_mod_eq_zero (mapped.aligned call made).2)
      have bits : call.flags ||| pageV < 1024 := Nat.or_lt_two_pow few (by decide)
      simp only [pageEntry_eq (words call made).2]
      by_cases reserved : Sv32.Reserved call.flags
      · rw [if_pos reserved, Sv32.lastLevel_reserved bits (reserved_or.mpr reserved)]
      · rw [if_neg reserved, Sv32.lastLevel_entry bits (valid_or _) (mt reserved_or.mp reserved)
          (leaf_or readable), frame]
        rfl

/--
A table built from fresh blocks translates each page as the last call for it said.

If that call asked for a page that is writable but not readable, which no entry may be, every access
to the page is a page fault. Pages that no call named do not translate, and the array of owned tables
agrees with the root.
-/
theorem walk_mapPages {profile : Profile} {kernel built final : Kernel} {table : PageTable}
    {calls : List Mapping}
    (created : (PageTable.new profile).run kernel.quiet = .ok table built)
    (ran : (table.mapPages profile calls).run built = .ok () final)
    (fresh : FreshBlocks kernel.ram (handedOut final.trace))
    (words : ∀ call ∈ calls, call.vaddr < wordLimit ∧ call.paddr < wordLimit)
    (leaf : ∀ call ∈ calls, call.flags < 2 ^ 10 ∧ call.flags &&& (pageR ||| pageX) ≠ 0) :
    (∀ v < wordLimit, Sv32.walk final.ram table.satp v =
      match lastCall calls v with
      | some call =>
        if Sv32.Reserved call.flags then .invalid
        else .leaf (call.paddr + v % pageSize) (call.flags ||| pageV)
      | none => .invalid) ∧
    ∀ vpn1 < 1024, ∀ entry, (table.rootPt.index vpn1).run final = .ok entry final →
      entry &&& pageV ≠ 0 → ∃ secondPt, (table.secondPts.index vpn1).run final = .ok secondPt final ∧
        Sv32.ppn entry = secondPt.ptr / pageSize := by
  -- After the calls, memory holds exactly the entries that they set.
  obtain ⟨frames, mapped⟩ := Mapped.run created ran fresh
  have placed := fresh.toPlaced.perm mapped.owned.symm
  constructor
  · intro v word
    exact mapped.walk fresh words leaf word
  · -- A root entry that is valid was set together with its array.
    intro vpn1 small entry read valid
    have rootCap : table.rootPt.cap = 1024 := by rw [mapped.represents.root]
    have secondCap : table.secondPts.cap = 1024 := by rw [mapped.represents.second]
    rw [FixedVec.run_index (by omega), mapped.represents.root_slot placed small,
      EStateM.Result.ok.injEq] at read
    obtain ⟨rfl, _⟩ := read
    cases known : frames.leaf vpn1 with
    | none => exact absurd (mapped.represents.absent vpn1 small known).1 valid
    | some block =>
      obtain ⟨points, owns⟩ := mapped.represents.present vpn1 small block known
      refine ⟨tableVec block, ?_, ?_⟩
      · rw [FixedVec.run_index (by omega), mapped.represents.second_slot placed small, owns]
      · simp only [Elem.read, points,
          tableEntry_eq (Frames.addr_lt placed (Frames.leaf_mem small known))]
        exact Sv32.ppn_entry (by omega)

end Tables

/-- The fields of an array's record in the order of their declaration. -/
@[reducible] def declaredLayout : VecLayout where
  offset
    | .ptr => 0
    | .cap => 4
    | .addr => 8
    | .tag => 12
    | .size => 16
  word field := by cases field <;> decide
  injective a b same := by cases a <;> cases b <;> simp_all

/-- The allocator of an arena of sixteen pages, all of them free. -/
def sixteenPages : Memory where
  start := ⟨0x80000000, none⟩
  stop := ⟨0x80010000, none⟩
  memSize := 0x10000
  buddyNodeCount := 31
  buddyHighOrder := 16
  buddyLowOrder := 12
  buddyStackSize := 124
  buddyStack := { addr := 0x70001000, elems := List.replicate 5 0 }
  buddyMeta := { addr := 0x70000000, elems := List.replicate 31 .free }

/-- Boot builds the allocator of sixteen pages. -/
theorem sixteenPages_arena :
    Memory.PowerArena .dev 0x80000000 0x80010000 sixteenPages where
  ordered := by decide
  word := by decide
  built := ⟨0x70000000, 0x70080000, _, rfl⟩
  power := ⟨16, rfl⟩
  page := by decide

/-- The kernel before anything was allocated, with RAM zeroed. -/
def bootKernel : Kernel := ⟨sixteenPages, fun _ => 0, []⟩

/-- The allocator of a new kernel gives a table with one second-level table these blocks. -/
theorem bootKernel_maps {calls : List Mapping} (seen : letI := declaredLayout
    Exec.observe (do
      let table ← PageTable.new .dev
      table.mapPages .dev calls
      return table : Exec Fault Kernel PageTable) bootKernel.quiet
      (fun _ kernel => handedOut kernel.trace) = some [⟨4096, ⟨0x80001000, some 0x1000⟩⟩,
        ⟨20480, ⟨0x80008000, some 0x8000⟩⟩, ⟨4096, ⟨0x80000000, some 0x1000⟩⟩]) :
    letI := declaredLayout
    ∃ (table : PageTable) (built final : Kernel),
      (PageTable.new .dev).run bootKernel.quiet = .ok table built ∧
      (table.mapPages .dev calls).run built = .ok () final ∧
      FreshBlocks bootKernel.ram (handedOut final.trace) := by
  obtain ⟨_, last, ran, blocks⟩ := Exec.observe_eq_some.mp seen
  obtain ⟨table, built, created, ran⟩ := Exec.run_bind_ok.mp ran
  obtain ⟨_, final, mapped, returned⟩ := Exec.run_bind_ok.mp ran
  simp only [EStateM.run_pure, EStateM.Result.ok.injEq] at returned
  obtain ⟨_, rfl⟩ := returned
  refine ⟨table, built, final, created, mapped, ?_⟩
  -- The three blocks are apart, and RAM was zeroed.
  rw [blocks]
  refine ⟨⟨by simp [wordLimit, usizeBits], ?_⟩, by simp [pageSize], fun _ _ _ _ => rfl⟩
  simp [PhysAddr.bytes, Set.Ico_disjoint_Ico]

/-- A page mapped twice is where the second call put it, and the page after it is not mapped. -/
theorem walk_mapPages_twice : letI := declaredLayout
    ∃ (table : PageTable) (built final : Kernel),
      (PageTable.new .dev).run bootKernel.quiet = .ok table built ∧
      (table.mapPages .dev [⟨0x400000, 0x80005000, pageR ||| pageW⟩,
        ⟨0x400000, 0x80007000, pageX⟩]).run built = .ok () final ∧
      Sv32.walk final.ram table.satp 0x400123 = .leaf 0x80007123 (pageX ||| pageV) ∧
      Sv32.walk final.ram table.satp 0x401000 = .invalid := by
  let := declaredLayout
  let calls : List Mapping := [⟨0x400000, 0x80005000, pageR ||| pageW⟩, ⟨0x400000, 0x80007000, pageX⟩]
  obtain ⟨table, built, final, created, mapped, fresh⟩ :=
    bootKernel_maps (by decide +kernel : Exec.observe (do
      let table ← PageTable.new .dev
      table.mapPages .dev calls
      return table : Exec Fault Kernel PageTable) _ _ = _)
  -- The address was mapped twice, and the second call has the last word.
  have second : lastCall calls 0x400123 = some ⟨0x400000, 0x80007000, pageX⟩ := by decide +kernel
  -- The page next to it was never mapped.
  have none : lastCall calls 0x401000 = none := by decide +kernel
  obtain ⟨walks, _⟩ := walk_mapPages created mapped fresh (by decide) (by decide)
  refine ⟨table, built, final, created, mapped, ?_, ?_⟩
  · rw [walks 0x400123 (by decide), second]
    rfl
  · rw [walks 0x401000 (by decide), none]

/-- A page that was mapped as writable and executable, but not readable, does not translate. -/
theorem walk_mapPages_writeOnly : letI := declaredLayout
    ∃ (table : PageTable) (built final : Kernel),
      (PageTable.new .dev).run bootKernel.quiet = .ok table built ∧
      (table.mapPages .dev [⟨0x400000, 0x80005000, pageW ||| pageX⟩]).run built = .ok () final ∧
      FreshBlocks bootKernel.ram (handedOut final.trace) ∧
      pageW ||| pageX < 2 ^ 10 ∧ (pageW ||| pageX) &&& (pageR ||| pageX) ≠ 0 ∧
      lastCall [⟨0x400000, 0x80005000, pageW ||| pageX⟩] 0x400123
        = some ⟨0x400000, 0x80005000, pageW ||| pageX⟩ ∧
      Sv32.walk final.ram table.satp 0x400123 = .invalid ∧
      Sv32.walk final.ram table.satp 0x400123 ≠ .leaf 0x80005123 (pageW ||| pageX ||| pageV) := by
  let := declaredLayout
  let calls : List Mapping := [⟨0x400000, 0x80005000, pageW ||| pageX⟩]
  obtain ⟨table, built, final, created, ran, fresh⟩ :=
    bootKernel_maps (by decide +kernel : Exec.observe (do
      let table ← PageTable.new .dev
      table.mapPages .dev calls
      return table : Exec Fault Kernel PageTable) _ _ = _)
  have only : lastCall calls 0x400123 = some ⟨0x400000, 0x80005000, pageW ||| pageX⟩ := by
    decide +kernel
  -- The walk reaches the entry, whose flags are reserved.
  have faults : Sv32.walk final.ram table.satp 0x400123 = .invalid := by
    obtain ⟨frames, mapped⟩ := Mapped.run created ran fresh
    rw [mapped.walk fresh (by decide) (by decide) (by decide), only]
    rfl
  refine ⟨table, built, final, created, ran, fresh, by decide, by decide, only, faults, ?_⟩
  rw [faults]
  exact Sv32.Outcome.noConfusion

end Os1k
