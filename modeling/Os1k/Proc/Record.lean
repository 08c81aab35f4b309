import Os1k.Proc.Process

/-! What is on record of the past does not matter to the kernel: it is written and never read. -/

namespace Os1k

open Exec

/-- The same kernel with older events on record. -/
def Kernel.recalling (old : List Event) (kernel : Kernel) : Kernel :=
  { kernel with trace := kernel.trace ++ old }

variable {old : List Event}

/-- A store adds itself to what is on record. -/
theorem Kernel.oblivious_store (addr value : Nat) :
    Oblivious (recalling old) (store addr value) :=
  .bind (.modify fun _ => rfl) fun _ => .modify fun _ => rfl

/-- A request works on the allocator alone. -/
theorem oblivious_phalloc (profile : Profile) (n : Nat) :
    Oblivious (Kernel.recalling old) (phalloc profile n) := by
  have allocates : Oblivious (Kernel.recalling old)
      (Exec.zoom Kernel.memory (fun kernel memory => { kernel with memory })
        (Memory.buddyAlloc profile n)) := by
    apply Oblivious.zoom
    · exact fun _ => rfl
    · exact fun _ _ => rfl
  unfold phalloc
  -- The trace is written after the allocator has answered, and never read.
  refine .bind allocates fun result => ?_
  cases result with
  | ok block => exact .bind (.modify fun _ => rfl) fun _ => .pure _
  | error error => exact .pure _

/-- Giving back works on the allocator alone. -/
theorem oblivious_phree (profile : Profile) (addr : PhysAddr) :
    Oblivious (Kernel.recalling old) (phree profile addr) := by
  -- As in `phalloc`, the trace is written last.
  have frees : Oblivious (Kernel.recalling old)
      (Exec.zoom Kernel.memory (fun kernel memory => { kernel with memory })
        (Memory.buddyFree profile addr)) := by
    apply Oblivious.zoom
    · exact fun _ => rfl
    · exact fun _ _ => rfl
  exact .bind frees fun _ => .modify fun _ => rfl

namespace FixedVec

variable {α : Type} [Elem α] (profile : Profile)

/-- A new array depends on the allocator alone. -/
theorem oblivious_new (cap : Nat) :
    Oblivious (Kernel.recalling old) (new profile cap : Exec Fault Kernel (FixedVec α)) := by
  unfold new
  -- The checks of the source come first, in its order; then one allocation.
  refine .check (.bind (profile.oblivious_fit _ _) fun size => .check ?_)
  refine .bind (oblivious_phalloc profile size) fun result => ?_
  cases result with
  | error error => exact .throw _
  | ok block => exact .check (.pure _)

/-- Elements are read off RAM. -/
theorem oblivious_index (vec : FixedVec α) (i : Nat) :
    Oblivious (Kernel.recalling old) (vec.index i) := by
  unfold index
  exact .check (.get (fun _ => rfl) fun _ => .pure _)

/-- Overwriting an element looks at it, and at what dropping it looks at. -/
theorem oblivious_assign (vec : FixedVec α) (i : Nat) (value : α)
    (silent : ∀ value : α, Oblivious (Kernel.recalling old) (Elem.dropInPlace profile value)) :
    Oblivious (Kernel.recalling old) (vec.assign profile i value) := by
  unfold assign
  refine .check (.get (fun _ => rfl) fun kernel => .bind (silent _) fun _ => .forM fun word _ => ?_)
  exact Kernel.oblivious_store _ _

/-- Dropping an array looks at what dropping its elements looks at. -/
theorem oblivious_drop (vec : FixedVec α)
    (silent : ∀ value : α, Oblivious (Kernel.recalling old) (Elem.dropInPlace profile value)) :
    Oblivious (Kernel.recalling old) (vec.drop profile) := by
  unfold drop
  refine .bind (.forM fun i _ => .get (fun _ => rfl) fun kernel => silent _) fun _ => ?_
  exact oblivious_phree profile _

end FixedVec

section Layout

variable [VecLayout] (profile : Profile)

/-- Dropping an array of words looks at nothing but the allocator. -/
theorem oblivious_dropInPlace (vec : FixedVec Nat) :
    Oblivious (Kernel.recalling old) (Elem.dropInPlace profile vec) :=
  FixedVec.oblivious_drop profile vec fun _ => .pure ()

namespace PageTable

/-- A new table is two new arrays. -/
theorem oblivious_new : Oblivious (Kernel.recalling old) (PageTable.new profile) :=
  .bind (FixedVec.oblivious_new profile _) fun _ =>
    .bind (FixedVec.oblivious_new profile _) fun _ => .pure _

/-- Mapping a page looks at the two levels of its table. -/
theorem oblivious_mapPage (table : PageTable) (vaddr paddr flags : Nat) :
    Oblivious (Kernel.recalling old) (table.mapPage profile vaddr paddr flags) := by
  -- The entry is set in the same way, whether or not a second-level table was made for it.
  have enter (i j value : Nat) : Oblivious (Kernel.recalling old) (do
      let secondPt ← table.secondPts.index i
      secondPt.assign profile j value) :=
    .bind (FixedVec.oblivious_index _ _) fun secondPt =>
      FixedVec.oblivious_assign profile secondPt _ _ fun _ => .pure ()
  unfold mapPage
  refine .check (.check (.bind (FixedVec.oblivious_index _ _) fun entry => .ite ?_ (enter _ _ _)))
  refine .bind (FixedVec.oblivious_new profile _) fun secondPt => ?_
  refine .bind (FixedVec.oblivious_assign profile _ _ _ (oblivious_dropInPlace profile)) fun _ => ?_
  exact .bind (FixedVec.oblivious_assign profile _ _ _ fun _ => .pure ()) fun _ => enter _ _ _

/-- Dropping a table drops its two arrays. -/
theorem oblivious_drop (table : PageTable) :
    Oblivious (Kernel.recalling old) (table.drop profile) :=
  .bind (FixedVec.oblivious_drop profile _ fun _ => .pure ()) fun _ =>
    FixedVec.oblivious_drop profile _ (oblivious_dropInPlace profile)

end PageTable

variable [ProcLayout]

namespace ProcTable

/-- Creating a process looks at the allocator and at RAM. -/
theorem oblivious_createProcess (image : Image) (procs : ProcTable) (pc : Nat) :
    Oblivious (Kernel.recalling old) (procs.createProcess profile image pc) := by
  -- No part of the function reads the trace: one fact for each part, in the order of the source.
  have scan : Oblivious (Kernel.recalling old) procs.nextUnused :=
    .findM? fun i _ => .bind (FixedVec.oblivious_index _ _) fun _ => .pure _
  have frame (sp : Nat) : Oblivious (Kernel.recalling old) (writeFrame sp pc) :=
    .bind (Kernel.oblivious_store _ _) fun _ => .forM fun _ _ => Kernel.oblivious_store _ _
  have claim (i : Nat) : Oblivious (Kernel.recalling old) (procs.claim i pc) :=
    .bind (FixedVec.oblivious_index _ _) fun _ => .bind (Kernel.oblivious_store _ _) fun _ =>
      .bind (Kernel.oblivious_store _ _) fun _ => .bind (frame _) fun _ =>
        Kernel.oblivious_store _ _
  have assign (i : Nat) (table : PageTable) :
      Oblivious (Kernel.recalling old) (procs.setPageTable profile i table) :=
    .get (fun _ => rfl) fun _ => .bind (PageTable.oblivious_drop profile _) fun _ =>
      .bind (.forM fun _ _ => Kernel.oblivious_store _ _) fun _ =>
        .forM fun _ _ => Kernel.oblivious_store _ _
  unfold createProcess
  refine .bind scan fun found => ?_
  -- A full table panics at once.
  cases found with
  | none => exact .throw _
  | some i =>
    refine .bind (claim i) fun _ => .bind (PageTable.oblivious_new profile) fun table => ?_
    refine .bind (assign i table) fun _ => .bind (.forM fun call _ => ?_) fun _ => .pure i
    exact PageTable.oblivious_mapPage profile table _ _ _

variable {profile} {image : Image} {kernel after : Kernel} {procs : ProcTable} {pc i : Nat}

/-- What creating a process comes to is the same with nothing on record. -/
theorem createProcess_quiet
    (ran : (procs.createProcess profile image pc).run kernel = .ok i after) :
    ∃ plain, (procs.createProcess profile image pc).run kernel.quiet = .ok i plain ∧
      plain.memory = after.memory ∧ plain.ram = after.ram := by
  -- The kernel is the one with nothing on record, once what is on record is put back.
  have recalled : (procs.createProcess profile image pc).run
      (kernel.quiet.recalling kernel.trace) = .ok i after := ran
  obtain ⟨plain, same, rfl⟩ := (oblivious_createProcess profile image procs pc).run_ok recalled
  exact ⟨plain, same, rfl, rfl⟩

end ProcTable

end Layout

end Os1k
