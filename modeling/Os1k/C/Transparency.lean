import Os1k.C.Handling

/-! Every return from a trap of the C kernel gives the process back what it had. -/

namespace Os1k.C

open Riscv

variable {code : Compiled} {layout : Layout}

/-- Filling in one slot is no matter to the others. -/
theorem createProcess_other {userEntry i pid table : Nat} {mem : Nat → Nat} {q o : Nat}
    (different : q ≠ i) (small : o < 8208) :
    createProcess layout userEntry i pid table mem (layout.slot q + o) =
      mem (layout.slot q + o) := by
  -- Six places are written, and all of them are in the other slot.
  have apart := layout.slot_apart different small
  have top := layout.top_eq i
  have stack : layout.stack i = layout.slot i + 16 := rfl
  have pidAt : layout.pid i = layout.slot i := rfl
  have stateAt : layout.state i = layout.slot i + 4 := rfl
  have spAt : layout.sp i = layout.slot i + 8 := rfl
  have tableAt : layout.pageTable i = layout.slot i + 12 := rfl
  unfold createProcess
  rw [if_neg (by omega), if_neg (by omega), if_neg (by omega), if_neg (by omega),
    if_neg (by omega), if_neg (by omega)]

/-- The fields that `create_process` fills in, and the frame that the first switch finds. -/
theorem createProcess_self (layout : Layout) (userEntry i pid table : Nat) (mem : Nat → Nat) :
    let after := createProcess layout userEntry i pid table mem
    after (layout.state i) = procStateRunnable ∧ after (layout.sp i) = layout.top i - 13 * 4 ∧
      after (layout.pageTable i) = table ∧
      switchFrame.At after (layout.top i - 13 * 4) (Function.update (fun _ => 0) .ra userEntry) := by
  have top := layout.top_eq i
  have stack : layout.stack i = layout.slot i + 16 := rfl
  have pidAt : layout.pid i = layout.slot i := rfl
  have stateAt : layout.state i = layout.slot i + 4 := rfl
  have spAt : layout.sp i = layout.slot i + 8 := rfl
  have tableAt : layout.pageTable i = layout.slot i + 12 := rfl
  -- The fields come first, and the words of the frame are at the top of the stack.
  unfold createProcess
  dsimp only
  refine ⟨?_, ?_, ?_, fun slot member => ?_⟩
  · rw [if_neg (by omega), if_pos rfl]
  · rw [if_neg (by omega), if_neg (by omega), if_pos rfl]
  · rw [if_neg (by omega), if_neg (by omega), if_neg (by omega), if_pos rfl]
  · -- The first word of the frame is the return address, and the others are zero.
    have place := switchFrame_place member
    have first : ∀ slot ∈ switchFrame, (slot.2 = 0 ↔ slot.1 = .ra) := by decide
    dsimp only
    rw [if_neg (by omega), if_neg (by omega), if_neg (by omega), if_neg (by omega)]
    by_cases here : slot.1 = .ra
    · rw [(first slot member).mpr here, here, if_pos (by omega), Function.update_self]
    · have elsewhere := mt (first slot member).mp here
      rw [if_neg (by omega), if_pos (by omega), Function.update_of_ne here]

/-- A process that `create_process` fills in waits to be started. -/
theorem Kept.create {before after : Nat → Nat} {current pid table : Nat} {records : List Record}
    (kept : Kept code layout before current records)
    (free : FirstUnused layout before records.length)
    (created : ∀ a, layout.Guarded a →
      after a = createProcess layout code.userEntry records.length pid table before a) :
    Kept code layout after current (records ++ [⟨table, none⟩]) := by
  obtain ⟨inside, _, _⟩ := free
  -- The new process is behind all others, and `create_process` stays in its slot.
  have others : ∀ q < layout.procNoMax, q ≠ records.length → ∀ o < 8208,
      after (layout.slot q + o) = before (layout.slot q + o) := by
    intro q also different o small
    rw [created _ (Layout.slot_guarded also small), createProcess_other different small]
  have own : ∀ o < 8208, after (layout.slot records.length + o) =
      createProcess layout code.userEntry records.length pid table before
        (layout.slot records.length + o) :=
    fun o small => created _ (Layout.slot_guarded inside small)
  -- A record is one of those before, or the new one.
  have found : ∀ q record, (records ++ [⟨table, none⟩])[q]? = some record →
      (q ≠ records.length ∧ records[q]? = some record) ∨
        (q = records.length ∧ record = ⟨table, none⟩) := by
    intro q record known
    rw [List.getElem?_append] at known
    split at known
    · next early => exact .inl ⟨Nat.ne_of_lt early, known⟩
    · next late =>
      obtain ⟨last, rfl⟩ := List.getElem?_eq_some_iff.mp known
      rw [List.length_singleton] at last
      exact .inr ⟨by omega, by simp⟩
  obtain ⟨state, sp, pageTable, frame⟩ :=
    createProcess_self layout code.userEntry records.length pid table before
  refine ⟨?_, fun q also => ?_, fun q record known => ?_, fun q record known busy other again => ?_⟩
  · -- There was a free slot, so the records are not more than the slots.
    rw [List.length_append, List.length_singleton]
    exact inside
  · -- The slot just taken is not free, and the others are as before.
    rw [List.length_append, List.length_singleton]
    by_cases here : q = records.length
    · have taken : after (layout.state q) = procStateRunnable := by
        rw [here]
        exact (own 4 (by omega)).trans state
      exact iff_of_false (by rw [taken]; decide) (by omega)
    · have still : after (layout.state q) = before (layout.state q) :=
        others q also here 4 (by omega)
      have unused := kept.unused q also
      rw [still, unused]
      omega
  · -- The new process got the page table that its record names.
    rcases found q record known with ⟨here, old⟩ | ⟨rfl, rfl⟩
    · have also := kept.slot_lt old
      exact (others q also here 12 (by omega)).trans (kept.tables q record old)
    · exact (own 12 (by omega)).trans pageTable
  · -- The others wait as they did, and the new one waits at the entry of user code.
    rcases found q record known with ⟨here, old⟩ | ⟨rfl, rfl⟩
    · have also := kept.slot_lt old
      have still : before (layout.state q) = procStateRunnable :=
        (others q also here 4 (by omega)).symm.trans again
      exact (kept.waiting q record old busy other still).congr (others q also here)
    · have pointer : after (layout.sp records.length) = layout.top records.length - 13 * 4 :=
        (own 8 (by omega)).trans sp
      refine .fresh ?_ pointer (Function.update_self _ code.userEntry fun _ => 0)
      rw [pointer]
      refine frame.congr fun slot member => ?_
      -- The frame lies inside the slot that was just written.
      have place := switchFrame_place member
      have top := layout.top_eq records.length
      have shift : layout.top records.length - 13 * 4 + 4 * slot.2 =
          layout.slot records.length + (8208 - 13 * 4 + 4 * slot.2) := by omega
      rw [shift]
      exact own _ (by omega)

namespace Kept

variable {mem other : Nat → Nat} {p : Nat} {records : List Record}

/-- What happens on the kernel stack of a process keeps the others, and its own fields. -/
theorem stack (kept : Kept code layout mem p records)
    (same : ∀ a, (a < layout.stack p ∨ layout.top p ≤ a) → other a = mem a) :
    Kept code layout other p records := by
  have top := layout.top_eq p
  have bottom : layout.stack p = layout.slot p + 16 := rfl
  -- The stack is behind the fields of its slot, and the other slots are apart.
  refine kept.congr (fun q also different o small => same _ ?_) (same _ ?_) (same _ ?_)
  · have apart := layout.slot_apart different small
    omega
  · exact .inl (by rw [bottom]; unfold Layout.state; omega)
  · exact .inl (by rw [bottom]; unfold Layout.pageTable; omega)

/-- A process that exits is not to be resumed. -/
theorem exit (kept : Kept code layout mem p records) {record : Record}
    (known : records[p]? = some record) :
    Kept code layout (Function.update mem (layout.state p) procStateExited) p records := by
  have inside : p < records.length := (List.getElem?_eq_some_iff.mp known).1
  -- Only the state of the process that exits is written.
  have others : ∀ q o, q ≠ p → o < 8208 →
      Function.update mem (layout.state p) procStateExited (layout.slot q + o) =
        mem (layout.slot q + o) := by
    intro q o different small
    exact Function.update_of_ne (Layout.slot_ne different small (by omega : 4 < 8208)) _ _
  refine ⟨kept.count, fun q also => ?_, fun q found there => ?_,
    fun q found there busy different again => ?_⟩
  · -- An exited slot is not free either.
    by_cases here : q = p
    · rw [here, Function.update_self]
      exact iff_of_false (by decide) (by omega)
    · rw [show layout.state q = layout.slot q + 4 from rfl, others q 4 here (by omega)]
      exact kept.unused q also
  · -- Page tables are not states.
    have apart : layout.pageTable q ≠ layout.state p := by
      by_cases here : q = p
      · rw [here]
        unfold Layout.pageTable Layout.state
        omega
      · exact Layout.slot_ne here (by omega : 12 < 8208) (by omega : 4 < 8208)
    rw [Function.update_of_ne apart]
    exact kept.tables q found there
  · -- The process that exits is not asked for, since it is the one that runs.
    have still : mem (layout.state q) = procStateRunnable :=
      (others q 4 different (by omega)).symm.trans again
    exact (kept.waiting q found there busy different still).congr fun o small =>
      others q o different small

end Kept

namespace Tracked

variable {machine : Machine} {records : List Record} (tracked : Tracked code layout machine records)

include tracked

/-- The process that runs is one of the array. -/
theorem inside : machine.current < layout.procNoMax := by
  obtain ⟨record, known, _⟩ := tracked.running
  exact tracked.slot_lt known

/-- In the kernel, the hart works for the process that runs. -/
theorem kernel (running : machine.mode = .kernel) :
    ∃ record, records[machine.current]? = some record ∧
      machine.hart.csrs .sscratch = layout.top machine.current ∧
      machine.hart.csrs .satp = satpOf record.table ∧
      Control code layout machine.current machine.hart record.call := by
  obtain ⟨record, known, current⟩ := tracked.running
  rw [Current, running] at current
  exact ⟨record, known, current⟩

/-- In user mode, the hart has the page table and the kernel stack of the process that runs. -/
theorem user (running : machine.mode = .user) :
    ∃ record, records[machine.current]? = some record ∧
      machine.hart.csrs .sscratch = layout.top machine.current ∧
      machine.hart.csrs .satp = satpOf record.table := by
  obtain ⟨record, known, current⟩ := tracked.running
  rw [Current, running] at current
  exact ⟨record, known, current⟩

/-- Boot runs in the place of the idle process. -/
theorem boot (booting : machine.mode = .boot) : machine.current = 0 := by
  obtain ⟨record, known, current⟩ := tracked.running
  rw [Current, booting] at current
  exact current

/-- Only slots that were not created are free, and they are taken in order. -/
theorem first {i : Nat} (free : FirstUnused layout machine.hart.mem i) : i = records.length := by
  obtain ⟨inside, unused, earlier⟩ := free
  have late := (tracked.unused i inside).mp unused
  -- A free slot before this one would be the first one.
  by_contra different
  have before : records.length < i := by omega
  exact earlier _ before ((tracked.unused _ (by omega)).mpr (Nat.le_refl _))

/-- Boot creates another process. -/
theorem create (booting : machine.mode = .boot) {mem : Nat → Nat} {i table : Nat}
    (free : FirstUnused layout machine.hart.mem i)
    (created : ∀ a, layout.Guarded a →
      mem a = createProcess layout code.userEntry i (i + 1) table machine.hart.mem a) :
    Tracked code layout { machine with hart := { machine.hart with mem } }
      (records ++ [⟨table, none⟩]) := by
  -- The free slot is the one behind all records.
  have last := tracked.first free
  subst last
  obtain ⟨record, known, _⟩ := tracked.running
  have early := (List.getElem?_eq_some_iff.mp known).1
  refine ⟨tracked.toKept.create free created, record, ?_, ?_⟩
  · rw [List.getElem?_append_left early, known]
  · simp only [Current, booting]
    exact tracked.boot booting

/-- Boot yields, and leaves its frame on its own stack. -/
theorem bootYield (booting : machine.mode = .boot) {hart : Hart} {next : Nat}
    (mem : ∀ a, hart.mem a ≠ machine.hart.mem a →
      ¬ layout.Guarded a ∨ (layout.stackBottom ≤ a ∧ a < layout.stackTop))
    (room : layout.stackBottom + 13 * 4 ≤ hart.regs .sp) (top : hart.regs .sp ≤ layout.stackTop)
    (runnable : Runnable layout hart.mem next) (other : next ≠ 0) :
    Tracked code layout ⟨yieldTo layout hart 0 next, .kernel, next⟩ records := by
  have idle := tracked.boot booting
  have inside := tracked.inside
  have kept := tracked.toKept
  rw [idle] at inside kept
  -- Boot has a stack of its own, which is apart from the slots.
  have same : ∀ q < layout.procNoMax, ∀ o < 8208,
      hart.mem (layout.slot q + o) = machine.hart.mem (layout.slot q + o) := by
    intro q also o small
    have bounds := Layout.slot_bounds also
    have apart := layout.apart
    by_contra changed
    rcases mem _ changed with free | stack
    · exact free (Layout.slot_guarded also small)
    · omega
  have still : Kept code layout hart.mem 0 records :=
    kept.congr (fun q also _ => same q also) (same 0 inside 4 (by omega))
      (same 0 inside 12 (by omega))
  -- Boot goes on in the place of the idle process, of which nothing is promised.
  have moved := still.switch inside runnable other (.inr ⟨rfl, room, top⟩)
    fun _ _ busy => absurd rfl busy
  rw [modeOf, if_neg other] at moved
  exact moved

/-- A process starts with its page table and its kernel stack. -/
theorem start (running : machine.mode = .kernel) {regs : Reg → Nat} :
    Tracked code layout
      ⟨{ machine.hart with
          regs
          csrs := Function.update machine.hart.csrs .sepc userBase
          pc := userBase }, .user, machine.current⟩ records := by
  -- The first return to user code writes `sepc` alone.
  obtain ⟨record, known, sscratch, satp, _⟩ := tracked.kernel running
  refine ⟨tracked.toKept, record, known, ?_, ?_⟩
  · show Function.update machine.hart.csrs .sepc userBase .sscratch = _
    rw [Function.update_of_ne (by decide), sscratch]
  · show Function.update machine.hart.csrs .sepc userBase .satp = _
    rw [Function.update_of_ne (by decide), satp]

/-- A user program changes nothing of what the kernel guards. -/
theorem compute (running : machine.mode = .user) {regs : Reg → Nat} {mem : Nat → Nat} {pc : Nat}
    (guarded : ∀ a, layout.Guarded a → mem a = machine.hart.mem a) :
    Tracked code layout { machine with hart := { machine.hart with regs, mem, pc } } records := by
  have inside := tracked.inside
  -- The slots are guarded, so that no user program reaches them.
  have same : ∀ q < layout.procNoMax, ∀ o < 8208,
      mem (layout.slot q + o) = machine.hart.mem (layout.slot q + o) :=
    fun q also o small => guarded _ (Layout.slot_guarded also small)
  obtain ⟨record, known, sscratch, satp⟩ := tracked.user running
  refine ⟨tracked.toKept.congr (fun q also _ => same q also) (same _ inside 4 (by omega))
    (same _ inside 12 (by omega)), record, known, ?_⟩
  simp only [Current, running]
  exact ⟨sscratch, satp⟩

/-- A trap saves all registers of the process on its kernel stack. -/
theorem trap (running : machine.mode = .user) :
    Tracked code layout ⟨C.trap code machine.hart, .kernel, machine.current⟩
      (note records machine.current fun _ =>
        some ⟨machine.hart.regs, machine.hart.pc, none⟩) := by
  have size : trapFrameSize = 124 := rfl
  have limit := layout.word
  have bounds := Layout.slot_bounds tracked.inside
  have top := layout.top_eq machine.current
  have bottom : layout.stack machine.current = layout.slot machine.current + 16 := rfl
  obtain ⟨record, known, sscratch, satp⟩ := tracked.user running
  -- The processor keeps the place of the trap before the first instruction.
  obtain ⟨taken, takenEq⟩ : ∃ taken : Hart, taken =
      { machine.hart with csrs := Function.update machine.hart.csrs .sepc machine.hart.pc } :=
    ⟨_, rfl⟩
  have others : ∀ csr, csr ≠ .sepc → taken.csrs csr = machine.hart.csrs csr := by
    intro csr other
    rw [takenEq]
    exact Function.update_of_ne other _ _
  -- The entry takes its stack from `sscratch`, which is the top for this process.
  have scratch : taken.csrs .sscratch = layout.top machine.current := by
    rw [others _ (by decide), sscratch]
  obtain ⟨sp, a0, framed, csrs, unframed⟩ := line_kernelEntry scratch (by omega) (by omega)
  have whole : C.trap code machine.hart =
      { (taken.line kernelEntry).set .ra code.afterCall with pc := code.handleTrap } := by
    rw [C.trap, takenEq]
  have mem : taken.mem = machine.hart.mem := by rw [takenEq]
  have regs : taken.regs = machine.hart.regs := by rw [takenEq]
  have sepc : taken.csrs .sepc = machine.hart.pc := by
    rw [takenEq]
    exact Function.update_self Csr.sepc machine.hart.pc machine.hart.csrs
  rw [whole]
  -- From here on, only what the entry promises counts.
  generalize taken.line kernelEntry = entered at *
  rw [mem] at unframed
  rw [regs] at framed
  -- Only the trap frame is written, and that is on the kernel stack.
  have kept : Kept code layout entered.mem machine.current records :=
    tracked.toKept.stack fun a outside => unframed a (by omega)
  refine ⟨kept.note _, ⟨record.table, some ⟨machine.hart.regs, machine.hart.pc, none⟩⟩, ?_, ?_⟩
  · rw [note, List.getElem?_modify_eq, known]
    rfl
  · -- The control registers are untouched, and the call of the handler sets `ra`.
    refine ⟨?_, ?_, .entering rfl rfl ?_ ?_ ?_ ?_ framed rfl⟩
    · rw [← scratch, ← csrs]
      rfl
    · rw [← satp, ← others _ (by decide), ← csrs]
      rfl
    · rw [← sepc, ← csrs]
      rfl
    · exact Function.update_self Reg.ra code.afterCall entered.regs
    · rw [← a0]
      exact Function.update_of_ne (by decide : Reg.a0 ≠ .ra) code.afterCall entered.regs
    · rw [← sp]
      exact Function.update_of_ne (by decide : Reg.sp ≠ .ra) code.afterCall entered.regs

/-- What a handler does on its stack leaves the trap to be handled further. -/
theorem handled (running : machine.mode = .kernel) {hart : Hart} {point : Point}
    (csrs : hart.csrs = machine.hart.csrs)
    (mem : ∀ a, hart.mem a ≠ machine.hart.mem a → layout.HandlerWrites machine.current a)
    (there : code.point hart.pc = some point)
    (active : ∀ record, records[machine.current]? = some record →
      Control code layout machine.current machine.hart record.call →
      ∃ last, record.call = some last ∧
        Active code layout machine.current point hart.regs hart.mem last) :
    Tracked code layout { machine with hart } records := by
  -- The page table and the stack stay, since a handler writes no control register.
  obtain ⟨record, known, sscratch, satp, control⟩ := tracked.kernel running
  obtain ⟨last, made, goes⟩ := active record known control
  refine ⟨tracked.toKept.handler tracked.inside mem, record, known, ?_⟩
  simp only [Current, running, csrs]
  exact ⟨sscratch, satp, .handling made there goes⟩

/-- The handler of a trap is entered. -/
theorem enter (running : machine.mode = .kernel) {hart : Hart} {point : Point}
    (here : machine.hart.pc = code.handleTrap) (there : code.point hart.pc = some point)
    (stage : point.stage = .entered)
    (arrives : Arrives layout machine.current machine.hart hart point
      (fun
        | .userPc => machine.hart.csrs .sepc
        | .frame => machine.hart.regs .a0
        | .retAddr => machine.hart.regs .ra) (machine.hart.regs .sp)) :
    Tracked code layout { machine with hart } records := by
  -- The handler is called with the frame as its argument.
  refine tracked.handled running arrives.csrs arrives.mem there fun record known control => ?_
  obtain ⟨last, made, pending, sepc, ra, a0, sp, framed⟩ := control.enters here
  rw [← Call.restored_eq pending] at framed
  refine ⟨last, made, arrives.active tracked.inside sepc a0 ra sp framed ?_ ?_ ?_⟩
  · -- The trap has just begun, so nothing was received.
    rw [stage, pending]
    exact iff_of_false nofun (fun got => got rfl)
  · -- The system call is not told apart yet.
    intro n named
    rw [stage] at named
    exact absurd named nofun
  · intro received
    rw [stage] at received
    exact absurd received nofun

/-- A handler works on. -/
theorem work (running : machine.mode = .kernel) {hart : Hart} {point next : Point}
    (here : code.point machine.hart.pc = some point) (there : code.point hart.pc = some next)
    (stage : next.stage = point.stage ∨ (point.stage = .entered ∧ next.stage.sysno =
      some (machine.hart.mem (point.value machine.hart.regs machine.hart.mem .frame + 4 * 13))))
    (arrives : Arrives layout machine.current machine.hart hart next
      (point.value machine.hart.regs machine.hart.mem) (machine.hart.regs .sp + point.depth)) :
    Tracked code layout { machine with hart } records := by
  refine tracked.handled running arrives.csrs arrives.mem there fun record known control => ?_
  obtain ⟨last, made, active⟩ := control.handles here
  exact ⟨last, made, active.work tracked.inside stage arrives⟩

/-- A handler receives a character for the process. -/
theorem receive (running : machine.mode = .kernel) {hart : Hart} {point next : Point} {ch : Nat}
    (here : code.point machine.hart.pc = some point) (there : code.point hart.pc = some next)
    (polling : point.stage = .getchar) (stage : next.stage = .received)
    (arrives : Arrives layout machine.current
      { machine.hart with
        mem := Function.update machine.hart.mem
          (point.value machine.hart.regs machine.hart.mem .frame + 4 * 10) ch } hart next
      (point.value machine.hart.regs machine.hart.mem) (machine.hart.regs .sp + point.depth)) :
    Tracked code layout { machine with hart }
      (note records machine.current
        (Option.map fun call => { call with received := some ch })) := by
  have size : trapFrameSize = 124 := rfl
  have top := layout.top_eq machine.current
  have bottom : layout.stack machine.current = layout.slot machine.current + 16 := rfl
  -- The handler writes `a0` of the trap frame, which is what the process gets back.
  obtain ⟨record, known, sscratch, satp, control⟩ := tracked.kernel running
  obtain ⟨last, made, active⟩ := control.handles here
  have frame := active.frame
  -- The character goes into the trap frame, and the rest is the handler's own.
  have kept : Kept code layout hart.mem machine.current records := by
    refine Kept.handler (tracked.toKept.stack fun a outside => ?_) tracked.inside arrives.mem
    exact Function.update_of_ne (by omega) _ _
  refine ⟨kept.note _, ⟨record.table, some { last with received := some ch }⟩, ?_, ?_⟩
  · rw [note, List.getElem?_modify_eq, known]
    simp [made]
  · simp only [Current, running, arrives.csrs]
    exact ⟨sscratch, satp, .handling rfl there
      (active.receive tracked.inside polling stage arrives)⟩

/-- A handler that finds no input yields to another process. -/
theorem poll (running : machine.mode = .kernel) {hart : Hart} {point resume : Point} {next : Nat}
    (here : code.point machine.hart.pc = some point) (polling : point.stage = .getchar)
    (there : code.point (hart.regs .ra) = some resume) (stage : resume.stage = .getchar)
    (survives : resume.Survives)
    (arrives : Arrives layout machine.current machine.hart hart resume
      (point.value machine.hart.regs machine.hart.mem) (machine.hart.regs .sp + point.depth))
    (room : layout.stack machine.current + 13 * 4 ≤ hart.regs .sp)
    (runnable : Runnable layout hart.mem next) (other : next ≠ machine.current) :
    Tracked code layout ⟨yieldTo layout hart machine.current next, modeOf next, next⟩ records := by
  obtain ⟨record, known, _, _, control⟩ := tracked.kernel running
  obtain ⟨last, made, active⟩ := control.handles here
  -- What the handler needs is in place where it goes on after the yield.
  have waiting := active.work tracked.inside (.inl (stage.trans polling.symm)) arrives
  have low : hart.regs .sp ≤ layout.top machine.current := by
    have deep := waiting.sp
    omega
  refine (tracked.toKept.handler tracked.inside arrives.mem).switch tracked.inside runnable other
    (.inl ⟨room, low⟩) fun found same _ _ => ?_
  -- The switch asks for the frame of the process that gives up the hart.
  rw [known, Option.some.injEq] at same
  subst same
  exact ⟨last, resume, made, there, stage, survives, waiting⟩

/-- A process that exits yields to another one. -/
theorem exit (running : machine.mode = .kernel) {hart : Hart} {point resume : Point} {next : Nat}
    (here : code.point machine.hart.pc = some point)
    (arrives : Arrives layout machine.current
      { machine.hart with
        mem := Function.update machine.hart.mem (layout.state machine.current) procStateExited }
      hart resume (point.value machine.hart.regs machine.hart.mem)
      (machine.hart.regs .sp + point.depth))
    (room : layout.stack machine.current + 13 * 4 ≤ hart.regs .sp)
    (runnable : Runnable layout hart.mem next) :
    Tracked code layout ⟨yieldTo layout hart machine.current next, modeOf next, next⟩ records := by
  obtain ⟨record, known, _, _, control⟩ := tracked.kernel running
  obtain ⟨last, made, active⟩ := control.handles here
  have kept := (tracked.toKept.exit known).handler tracked.inside arrives.mem
  -- The handler does not write states, so it stays as `handle_syscall` set it.
  have exited : hart.mem (layout.state machine.current) = procStateExited := by
    by_contra changed
    have written := arrives.mem (layout.state machine.current) (by
      dsimp only
      rw [Function.update_self]
      exact changed)
    exact Layout.not_writes_own tracked.inside (by omega : 4 < 8208) (.inl (by omega)) written
  -- A process that has exited is not chosen again.
  have other : next ≠ machine.current := by
    intro same
    have state := runnable.2
    rw [same, exited] at state
    exact absurd state (by decide)
  have low : hart.regs .sp ≤ layout.top machine.current := by
    have deep := arrives.sp
    have before := active.sp
    omega
  refine kept.switch tracked.inside runnable other (.inl ⟨room, low⟩) fun _ _ _ again => ?_
  -- Nothing has to hold for it, since it does not run again.
  rw [exited] at again
  exact absurd again (by decide)

/-- A handler returns with the trap frame, and the place after the trap. -/
theorem finish (running : machine.mode = .kernel) {hart : Hart} {point : Point}
    (here : code.point machine.hart.pc = some point)
    (stage : point.stage = .putchar ∨ point.stage = .received)
    (pc : hart.pc = point.value machine.hart.regs machine.hart.mem .retAddr)
    (sp : hart.regs .sp = machine.hart.regs .sp + point.depth)
    (csrs : hart.csrs = Function.update machine.hart.csrs .sepc
      ((point.value machine.hart.regs machine.hart.mem .userPc + 4) % wordLimit))
    (mem : ∀ a, hart.mem a ≠ machine.hart.mem a → layout.HandlerWrites machine.current a) :
    Tracked code layout { machine with hart } records := by
  obtain ⟨record, known, sscratch, satp, control⟩ := tracked.kernel running
  obtain ⟨last, made, active⟩ := control.handles here
  -- A call that prints has received nothing, and one that reads has.
  have answered : last.received ≠ none ↔ last.regs .a3 = sysGetchar := by
    rw [← active.received]
    rcases stage with putchar | received
    · have number := active.sysno sysPutchar (by rw [putchar]; rfl)
      rw [putchar, number]
      exact iff_of_false nofun (by decide)
    · exact iff_of_true received (active.getchar received)
  refine ⟨tracked.toKept.handler tracked.inside mem, record, known, ?_⟩
  simp only [Current, running]
  refine ⟨?_, ?_, .leaving made (pc.trans active.retAddr) ?_ (sp.trans active.sp)
    (active.framed.handler tracked.inside mem) answered⟩
  · rw [csrs, Function.update_of_ne (by decide), sscratch]
  · rw [csrs, Function.update_of_ne (by decide), satp]
  · rw [csrs, Function.update_self, active.userPc]

/-- What the trap frame holds is in the registers again when the trap is left. -/
theorem leave (running : machine.mode = .kernel) (here : machine.hart.pc = code.afterCall) :
    ∃ record call, records[machine.current]? = some record ∧ record.call = some call ∧
      (∀ r, (machine.hart.line kernelLeave).regs r = call.restored r) ∧
      (machine.hart.line kernelLeave).pc = (call.pc + 4) % wordLimit ∧
      (machine.hart.line kernelLeave).csrs .satp = satpOf record.table ∧
      (machine.hart.line kernelLeave).csrs .sscratch = layout.top machine.current ∧
      (call.received ≠ none ↔ call.regs .a3 = sysGetchar) ∧
      Tracked code layout ⟨machine.hart.line kernelLeave, .user, machine.current⟩ records := by
  have size : trapFrameSize = 124 := rfl
  have limit := layout.word
  have bounds := Layout.slot_bounds tracked.inside
  have top := layout.top_eq machine.current
  obtain ⟨record, known, sscratch, satp, control⟩ := tracked.kernel running
  obtain ⟨last, made, sepc, sp, framed, answered⟩ := control.leaves here
  rw [← sp] at framed
  -- The frame is at the stack pointer, and the return reads all registers from it.
  obtain ⟨regs, pc, csrs, mem⟩ := line_kernelLeave (by omega) framed
  rw [← csrs] at satp sscratch
  have kept := tracked.toKept
  rw [← mem] at kept
  exact ⟨record, last, known, made, regs, pc.trans sepc, satp, sscratch, answered,
    kept, record, known, sscratch, satp⟩

end Tracked

/-- The slots of boot are all free. -/
theorem Kept.empty {mem : Nat → Nat}
    (unused : ∀ p < layout.procNoMax, mem (layout.state p) = procStateUnused) :
    Kept code layout mem 0 [] := by
  refine ⟨Nat.zero_le _, fun p inside => ?_, nofun, nofun⟩
  exact iff_of_true (unused p inside) (Nat.zero_le _)

variable {machine : Machine} {records : List Record}

/-- What holds between the steps holds in every run. -/
theorem Reach.tracked (run : Reach code layout machine records) :
    Tracked code layout machine records := by
  -- The records follow the run: each step has its lemma.
  induction run with
  -- Boot starts with free slots and creates the idle process first.
  | boot unused some created =>
    have free : FirstUnused layout _ 0 := ⟨some, unused 0 some, nofun⟩
    exact ⟨(Kept.empty unused).create free created, _, rfl, rfl⟩
  | create _ booting free created ih => exact ih.create booting free created
  | bootYield _ booting mem room top runnable other ih =>
    exact ih.bootYield booting mem room top runnable other
  | start _ running _ ih => exact ih.start running
  | user _ running guarded ih => exact ih.compute running guarded
  | trap _ running ih => exact ih.trap running
  | enter _ running here there stage arrives ih => exact ih.enter running here there stage arrives
  | work _ running here there stage arrives ih => exact ih.work running here there stage arrives
  | receive _ running here there polling stage _ arrives ih =>
    exact ih.receive running here there polling stage arrives
  | poll _ running here polling there stage survives arrives room runnable other ih =>
    exact ih.poll running here polling there stage survives arrives room runnable other
  | exit _ running here _ arrives room runnable ih => exact ih.exit running here arrives room runnable
  | finish _ running here stage pc sp csrs mem ih => exact ih.finish running here stage pc sp csrs mem
  | leave _ running here ih =>
    obtain ⟨_, _, _, _, _, _, _, _, _, after⟩ := ih.leave running here
    exact after

/--
Traps and yields are transparent to user processes.

In every run, a return from a trap gives the process the registers it had at the trap, with the
character it received in place of the first argument. It goes on behind the trap, with its own page
table and kernel stack.
-/
theorem sret_transparent (run : Reach code layout machine records)
    (running : machine.mode = .kernel) (here : machine.hart.pc = code.afterCall) :
    ∃ record call, records[machine.current]? = some record ∧ record.call = some call ∧
      (∀ r, r ≠ .a0 → (machine.hart.line kernelLeave).regs r = call.regs r) ∧
      (call.regs .a3 ≠ sysGetchar →
        (machine.hart.line kernelLeave).regs .a0 = call.regs .a0) ∧
      (call.regs .a3 = sysGetchar → ∃ ch, call.received = some ch ∧
        (machine.hart.line kernelLeave).regs .a0 = ch) ∧
      (machine.hart.line kernelLeave).pc = (call.pc + 4) % wordLimit ∧
      (machine.hart.line kernelLeave).csrs .satp = satpOf record.table ∧
      (machine.hart.line kernelLeave).csrs .sscratch = layout.top machine.current := by
  -- The invariant says what is in the frame, and the return loads it.
  obtain ⟨record, call, known, made, regs, pc, satp, sscratch, answered, _⟩ :=
    run.tracked.leave running here
  refine ⟨record, call, known, made, fun r other => ?_, fun silent => ?_, fun asked => ?_, pc, satp,
    sscratch⟩
  · -- What was received goes into `a0`, and into no other register.
    rw [regs, Call.restored]
    cases call.received with
    | none => rfl
    | some ch => exact Function.update_of_ne other _ _
  · -- A call that does not read receives nothing.
    have pending : call.received = none := by
      by_contra got
      exact silent (answered.mp got)
    rw [regs, Call.restored_eq pending]
  · -- A call that reads has received a character by now.
    obtain ⟨ch, got⟩ := Option.ne_none_iff_exists'.mp (answered.mpr asked)
    refine ⟨ch, got, ?_⟩
    rw [regs, Call.restored, got]
    exact Function.update_self _ _ _

/-- An idle process and two user processes, with the stack of boot behind them. -/
def threeProcesses : Layout where
  procs := 0x1000
  procNoMax := 3
  stackBottom := 0x10000
  stackTop := 0x20000
  word := by decide
  stackWord := by decide
  apart := by decide

/-- A place with four words on the stack, the last of which is the return address. -/
def fourWords (stage : Stage) : Point where
  stage
  depth := 16
  home
    | .userPc => .reg .s1
    | .frame => .addr 16
    | .retAddr => .stack 3
  inFrame name k here := by
    cases name with
    | userPc => exact absurd here nofun
    | frame => exact absurd here nofun
    | retAddr =>
      have last : 3 = k := by simpa using here
      omega

/-- Handlers that stop when they are entered, when they have polled, and when they have received. -/
def pollPoints : Compiled where
  userEntry := 100
  handleTrap := 200
  afterCall := 300
  point pc :=
    if pc = 210 then some (fourWords .entered)
    else if pc = 220 then some (fourWords .getchar)
    else if pc = 230 then some (fourWords .received)
    else none
  entryLeave := by decide
  entryHandle := by decide
  handleLeave := by decide
  entryPoint := by decide
  handlePoint := by decide
  leavePoint := by decide

/-- A trap writes nothing but the trap frame. -/
theorem trap_mem {hart : Hart} {p : Nat} (stack : hart.csrs .sscratch = layout.top p)
    (inside : p < layout.procNoMax) {a : Nat}
    (outside : a < layout.top p - trapFrameSize ∨ layout.top p ≤ a) :
    (trap code hart).mem a = hart.mem a := by
  have size : trapFrameSize = 124 := rfl
  have limit := layout.word
  have bounds := Layout.slot_bounds inside
  have top := layout.top_eq p
  -- Taking the trap changes `sepc` only; the entry code writes its frame and nothing else.
  obtain ⟨taken, takenEq⟩ : ∃ taken : Hart, taken =
      { hart with csrs := Function.update hart.csrs .sepc hart.pc } := ⟨_, rfl⟩
  have scratch : taken.csrs .sscratch = layout.top p := by
    rw [takenEq, ← stack]
    exact Function.update_of_ne (by decide : Csr.sscratch ≠ .sepc) hart.pc hart.csrs
  obtain ⟨_, _, _, _, unframed⟩ := line_kernelEntry scratch (by omega) (by omega)
  have same := unframed a outside
  rw [takenEq] at same
  exact same

/-- The hart as a handler has made room for four words on the stack. -/
def madeRoom (hart : Hart) : Hart :=
  { hart with
    regs := Function.update (Function.update hart.regs .sp (hart.regs .sp - 16)) .s1
      (hart.csrs .sepc)
    mem := Function.update hart.mem (hart.regs .sp - 4) (hart.regs .ra)
    pc := 210 }

/-- The hart as a handler has polled, and calls `yield`. -/
def callsYield (hart : Hart) : Hart :=
  { madeRoom hart with regs := Function.update (madeRoom hart).regs .ra 220, pc := 220 }

/--
A process that starts may ask for a character at once, and yields when there is none.

The other processes are left alone, and the frame of the switch is on its stack.
-/
theorem exists_poll {hart : Hart} {records : List Record} {p next : Nat} {regs : Reg → Nat}
    (run : Reach pollPoints layout ⟨hart, .kernel, p⟩ records) (here : hart.pc = 100)
    (asks : regs .a3 = sysGetchar) (runnable : Runnable layout hart.mem next) (other : next ≠ p) :
    ∃ after polled, Reach pollPoints layout ⟨after, modeOf next, next⟩
        (note records p fun _ => some ⟨regs, userBase, none⟩) ∧
      (∀ q, q ≠ p → ∀ o < 8208, after.mem (layout.slot q + o) = hart.mem (layout.slot q + o)) ∧
      after.mem (layout.state p) = hart.mem (layout.state p) ∧
      after.mem (layout.sp p) + 68 = layout.top p - trapFrameSize ∧
      switchFrame.At after.mem (after.mem (layout.sp p)) polled ∧ polled .ra = 220 ∧
      ∀ regs, after.mem (layout.sp next) + 13 * 4 < wordLimit →
        switchFrame.At after.mem (after.mem (layout.sp next)) regs → after.pc = regs .ra := by
  have size : trapFrameSize = 124 := rfl
  have limit := layout.word
  have inside : p < layout.procNoMax := run.tracked.inside
  have bounds := Layout.slot_bounds inside
  have top := layout.top_eq p
  have bottom : layout.stack p = layout.slot p + 16 := rfl
  -- The program starts and traps at once.
  obtain ⟨user, userEq⟩ : ∃ user : Hart, user =
      { hart with regs, csrs := Function.update hart.csrs .sepc userBase, pc := userBase } := ⟨_, rfl⟩
  have started : Reach pollPoints layout ⟨user, .user, p⟩ records := by
    rw [userEq]
    exact .start run rfl here
  obtain ⟨_, _, scratch, _⟩ := started.tracked.user rfl
  have scratch : user.csrs .sscratch = layout.top p := scratch
  obtain ⟨taken, takenEq⟩ : ∃ taken, taken = trap pollPoints user := ⟨_, rfl⟩
  have trapped : Reach pollPoints layout ⟨taken, .kernel, p⟩
      (note records p fun _ => some ⟨regs, userBase, none⟩) := by
    have traps := Reach.trap started rfl
    rw [takenEq]
    rwa [show user.regs = regs by rw [userEq], show user.pc = userBase by rw [userEq]] at traps
  have pc : taken.pc = 200 := by
    rw [takenEq]
    rfl
  have mem : ∀ a, (a < layout.stack p ∨ layout.top p ≤ a) → taken.mem a = hart.mem a := by
    intro a outside
    rw [takenEq, trap_mem scratch inside (by omega), userEq]
  obtain ⟨record, known, _, _, control⟩ := trapped.tracked.kernel rfl
  obtain ⟨last, made, pending, _, _, a0, sp, framed⟩ := control.enters pc
  -- What the program asked for is in its frame.
  obtain ⟨_, _, _, ⟨_, call⟩ | ⟨apart, _⟩⟩ := note_some known
  case inr => exact absurd rfl apart
  rw [made, Option.some.injEq] at call
  subst call
  have a0 : taken.regs .a0 = layout.top p - trapFrameSize := a0
  have sp : taken.regs .sp = layout.top p - trapFrameSize := sp
  have framed : Framed taken.mem (layout.top p - trapFrameSize) regs := framed
  have depth : (madeRoom taken).regs .sp = taken.regs .sp - 16 := by
    simp [madeRoom]
  have kept : (madeRoom taken).regs .s1 = taken.csrs .sepc := by
    simp [madeRoom]
  have word : ∀ a, a ≠ taken.regs .sp - 4 → (madeRoom taken).mem a = taken.mem a :=
    fun a elsewhere => Function.update_of_ne elsewhere _ _
  have low : layout.stack p ≤ taken.regs .sp - 4 ∧
      taken.regs .sp - 4 < layout.top p - trapFrameSize := by omega
  -- The handler makes room, and saves its return address above the rest.
  have handled : Reach pollPoints layout ⟨madeRoom taken, .kernel, p⟩
      (note records p fun _ => some ⟨regs, userBase, none⟩) := by
    have there : pollPoints.point (madeRoom taken).pc = some (fourWords .entered) := rfl
    refine .enter trapped rfl pc there rfl ⟨fun name => ?_, ?_, ?_, rfl, fun a changed => ?_⟩
    · cases name with
      | userPc => exact kept
      | frame =>
        show (madeRoom taken).regs .sp + 16 = taken.regs .a0
        omega
      | retAddr =>
        show (madeRoom taken).mem ((madeRoom taken).regs .sp + 4 * 3) = taken.regs .ra
        rw [show (madeRoom taken).regs .sp + 4 * 3 = taken.regs .sp - 4 by omega]
        exact Function.update_self _ _ _
    · show (madeRoom taken).regs .sp + 16 = taken.regs .sp
      omega
    · show layout.stack p ≤ (madeRoom taken).regs .sp
      omega
    · have place : a = taken.regs .sp - 4 := by
        by_contra elsewhere
        exact changed (word a elsewhere)
      rw [place]
      exact .inr low
  have asked : (madeRoom taken).mem ((madeRoom taken).regs .sp + 16 + 4 * 13) = sysGetchar := by
    have saved := framed.saved (.a3, 13) (by decide)
    have place : (madeRoom taken).regs .sp + 16 + 4 * 13 = layout.top p - trapFrameSize + 4 * 13 := by
      omega
    rw [place, word _ (by omega), saved, asks]
  -- The system call is to read, for which the handler polls.
  have dispatched : Reach pollPoints layout ⟨{ madeRoom taken with pc := 220 }, .kernel, p⟩
      (note records p fun _ => some ⟨regs, userBase, none⟩) := by
    have first : pollPoints.point (madeRoom taken).pc = some (fourWords .entered) := rfl
    have there : pollPoints.point { madeRoom taken with pc := 220 }.pc = some (fourWords .getchar) :=
      rfl
    refine .work handled rfl first there (.inr ⟨rfl, ?_⟩)
      ⟨fun _ => rfl, rfl, ?_, rfl, fun _ changed => absurd rfl changed⟩
    · exact congrArg some asked.symm
    · show layout.stack p ≤ (madeRoom taken).regs .sp
      omega
  have reads : pollPoints.point { madeRoom taken with pc := 220 }.pc = some (fourWords .getchar) := rfl
  have again : pollPoints.point ((callsYield taken).regs .ra) = some (fourWords .getchar) := rfl
  have still : (callsYield taken).regs .sp = (madeRoom taken).regs .sp := by
    simp [callsYield]
  have saved : (callsYield taken).regs .s1 = (madeRoom taken).regs .s1 := by
    simp [callsYield]
  have outside : ∀ a, (a < layout.stack p ∨ layout.top p ≤ a) → (callsYield taken).mem a = hart.mem a := by
    intro a apart
    exact (word a (by omega)).trans (mem a apart)
  -- The other process is not the one whose stack is written, so it can still run.
  have runs : Runnable layout (callsYield taken).mem next := by
    refine ⟨runnable.1, ?_⟩
    have apart := layout.slot_apart other (by omega : 4 < 8208)
    have state : layout.state next = layout.slot next + 4 := rfl
    rw [outside _ (by omega)]
    exact runnable.2
  -- What the handler needs is in a register that calls preserve, or on the stack.
  have survives : (fourWords .getchar).Survives := by
    intro name r place
    cases name with
    | userPc =>
      obtain rfl : Reg.s1 = r := Home.reg.inj place
      decide
    | frame => exact absurd place nofun
    | retAddr => exact absurd place nofun
  -- The call of `yield` leaves what the handler needs where it was.
  have arrives : Arrives layout p { madeRoom taken with pc := 220 } (callsYield taken)
      (fourWords .getchar)
      ((fourWords .getchar).value (madeRoom taken).regs (madeRoom taken).mem)
      ((madeRoom taken).regs .sp + 16) := by
    refine ⟨fun name => ?_, congrArg (· + 16) still, by omega, rfl,
      fun _ changed => absurd rfl changed⟩
    cases name with
    | userPc => exact saved
    | frame => exact congrArg (· + 16) still
    | retAddr => exact congrArg (fun sp => (madeRoom taken).mem (sp + 4 * 3)) still
  have space : layout.stack p + 13 * 4 ≤ (callsYield taken).regs .sp := by omega
  have polls := Reach.poll dispatched rfl reads rfl again rfl survives arrives space runs other
  have polls : Reach pollPoints layout
      ⟨yieldTo layout (callsYield taken) p next, modeOf next, next⟩
      (note records p fun _ => some ⟨regs, userBase, none⟩) := polls
  -- The switch leaves its frame on the same stack.
  have pointer : layout.sp p = layout.slot p + 8 := rfl
  have outsideSp : layout.sp p < (callsYield taken).regs .sp - 13 * 4 ∨
      (callsYield taken).regs .sp ≤ layout.sp p := by omega
  obtain ⟨_, _, frame, left, unchanged, resumes⟩ :=
    yieldTo_spec inside runnable.1 (by omega) (by omega) outsideSp
  have state : layout.state p = layout.slot p + 4 := rfl
  refine ⟨_, (callsYield taken).regs, polls, fun q different o small => ?_, ?_, by omega, ?_, rfl,
    fun regs fits framed => (resumes _ regs rfl fits framed).pc⟩
  · have apart := layout.slot_apart different small
    rw [unchanged _ (by omega) (by omega), outside _ (by omega)]
  · rw [unchanged _ (by omega) (by omega), outside _ (by omega)]
  · rw [left]
    exact frame

/-- Memory once boot has created the idle process. -/
def idleCreated : Nat → Nat :=
  createProcess threeProcesses 100 0 (wordLimit - 1) 0x80300000 fun _ => 0

/-- Memory once boot has created the first user process. -/
def firstCreated : Nat → Nat := createProcess threeProcesses 100 1 2 0x80400000 idleCreated

/-- Memory once boot has created the second user process. -/
def allCreated : Nat → Nat := createProcess threeProcesses 100 2 3 0x80500000 firstCreated

/-- The hart that boot runs on. -/
def bootHart (mem : Nat → Nat) : Hart := ⟨fun _ => 0x20000, mem, fun _ => 0, 0⟩

/-- The registers of a program that asks for a character. -/
def asking (value : Nat) : Reg → Nat := fun r => if r = .a3 then sysGetchar else value

/-- Boot creates the processes and yields to the first user process. -/
theorem reach_switched :
    Reach pollPoints threeProcesses ⟨yieldTo threeProcesses (bootHart allCreated) 0 1, .kernel, 1⟩
      [⟨0x80300000, none⟩, ⟨0x80400000, none⟩, ⟨0x80500000, none⟩] := by
  -- Boot creates the idle process first, then two programs, and yields.
  have idle : Reach pollPoints threeProcesses ⟨bootHart idleCreated, .boot, 0⟩
      [⟨0x80300000, none⟩] := by
    have blank : ∀ p < threeProcesses.procNoMax,
        (bootHart fun _ => 0).mem (threeProcesses.state p) = procStateUnused := fun _ _ => rfl
    exact .boot blank (by decide) fun _ _ => rfl
  have first : Reach pollPoints threeProcesses ⟨bootHart firstCreated, .boot, 0⟩
      [⟨0x80300000, none⟩, ⟨0x80400000, none⟩] :=
    .create idle rfl ⟨by decide, by decide +kernel, by decide +kernel⟩ fun _ _ => rfl
  have both : Reach pollPoints threeProcesses ⟨bootHart allCreated, .boot, 0⟩
      [⟨0x80300000, none⟩, ⟨0x80400000, none⟩, ⟨0x80500000, none⟩] :=
    .create first rfl ⟨by decide, by decide +kernel, by decide +kernel⟩ fun _ _ => rfl
  exact .bootYield both rfl (fun _ changed => absurd rfl changed) (by decide) (by decide)
    ⟨by decide, by decide +kernel⟩ (by decide)

/-- Both user processes ask for a character and find none, and the first one goes on polling. -/
theorem reach_polled : ∃ hart : Hart, hart.pc = 220 ∧
    Reach pollPoints threeProcesses ⟨hart, .kernel, 1⟩ [⟨0x80300000, none⟩,
      ⟨0x80400000, some ⟨asking 7, userBase, none⟩⟩,
      ⟨0x80500000, some ⟨asking 8, userBase, none⟩⟩] := by
  have run := reach_switched
  have pc : (yieldTo threeProcesses (bootHart allCreated) 0 1).pc = 100 := by decide +kernel
  obtain ⟨_, _, _, _, unchanged, _⟩ := @yieldTo_spec threeProcesses (bootHart allCreated) 0 1
    (by decide) (by decide) (by decide) (by decide) (by decide)
  generalize yieldTo threeProcesses (bootHart allCreated) 0 1 = switched at *
  have first : threeProcesses.slot 1 = 12304 := rfl
  have second : threeProcesses.slot 2 = 20512 := rfl
  have top : threeProcesses.top 2 = 28720 := rfl
  -- Boot has left the slots of the user processes as they were created.
  have created : ∀ a, threeProcesses.slot 1 ≤ a → a < threeProcesses.top 2 →
      switched.mem a = allCreated a := by
    intro a low high
    have idle : threeProcesses.sp 0 = 4104 := rfl
    have sp : (bootHart allCreated).regs .sp = 131072 := rfl
    exact unchanged a (by omega) (.inl (by omega))
  obtain ⟨state, sp, _, frame⟩ := createProcess_self threeProcesses 100 2 3 0x80500000 firstCreated
  rw [← allCreated] at state sp frame
  have early : allCreated (threeProcesses.state 1) = procStateRunnable := by decide +kernel
  have runnable : Runnable threeProcesses switched.mem 2 := by
    refine ⟨by decide, ?_⟩
    rw [created _ (by decide) (by decide), state]
  -- The first user process starts, asks, and yields to the second one.
  obtain ⟨one, polled, polls, kept, still, depth, left, ra, resumes⟩ :=
    exists_poll run pc (rfl : asking 7 .a3 = sysGetchar) runnable (by decide)
  -- The second user process starts where it was created, and asks as well.
  have same : ∀ o < 8208, one.mem (threeProcesses.slot 2 + o) =
      allCreated (threeProcesses.slot 2 + o) := fun o small => by
    rw [kept 2 (by decide) o small, created _ (by omega) (by omega)]
  have pointer : one.mem (threeProcesses.sp 2) = threeProcesses.top 2 - 13 * 4 :=
    (same 8 (by decide)).trans sp
  have starts : one.pc = 100 := by
    refine resumes (Function.update (fun _ => 0) .ra 100) ?_ ?_
    · rw [pointer]
      decide
    · rw [pointer]
      refine frame.congr fun slot member => ?_
      have place := switchFrame_place member
      have word : threeProcesses.top 2 - 13 * 4 + 4 * slot.2 =
          threeProcesses.slot 2 + (8156 + 4 * slot.2) := by omega
      rw [word, same _ (by omega)]
  -- Its poll left the first process as it was, so that it can be selected again.
  have again : Runnable threeProcesses one.mem 1 := by
    refine ⟨by decide, ?_⟩
    rw [still, created _ (by decide) (by decide), early]
  obtain ⟨two, _, goes, others, _, _, _, _, returns⟩ :=
    exists_poll (show Reach pollPoints threeProcesses ⟨one, .kernel, 2⟩ _ from polls) starts
      (rfl : asking 8 .a3 = sysGetchar) again (by decide)
  -- The first one goes on behind its call of `yield`, as its frame is still there.
  have bottom : threeProcesses.top 1 = 20512 := rfl
  have size : trapFrameSize = 124 := rfl
  have mine : two.mem (threeProcesses.sp 1) = one.mem (threeProcesses.sp 1) :=
    others 1 (by decide) 8 (by decide)
  refine ⟨two, ?_, goes⟩
  rw [← ra]
  refine returns polled ?_ ?_
  · have limit : wordLimit = 4294967296 := rfl
    omega
  · rw [mine]
    refine left.congr fun slot member => ?_
    have place := switchFrame_place member
    have word : one.mem (threeProcesses.sp 1) + 4 * slot.2 =
        threeProcesses.slot 1 + (8016 + 4 * slot.2) := by omega
    rw [word, others 1 (by decide) _ (by omega)]

/-- The processes of that run once the first one has received a character. -/
def receivedRecords : List Record :=
  [⟨0x80300000, none⟩, ⟨0x80400000, some ⟨asking 7, userBase, some 120⟩⟩,
    ⟨0x80500000, some ⟨asking 8, userBase, none⟩⟩]

/-- A character comes in for the first user process, and its handler returns. -/
theorem reach_received : ∃ hart : Hart, hart.pc = 300 ∧
    Reach pollPoints threeProcesses ⟨hart, .kernel, 1⟩ receivedRecords := by
  obtain ⟨hart, pc, polls⟩ := reach_polled
  have here : pollPoints.point hart.pc = some (fourWords .getchar) := by
    rw [pc]
    rfl
  obtain ⟨_, _, _, _, control⟩ := polls.tracked.kernel rfl
  obtain ⟨_, _, active⟩ := control.handles here
  -- The character goes into the frame, which lies above what the handler keeps.
  have arrives : Arrives threeProcesses 1
      { hart with mem := Function.update hart.mem (hart.regs .sp + 16 + 4 * 10) 120 }
      { hart with mem := Function.update hart.mem (hart.regs .sp + 16 + 4 * 10) 120, pc := 230 }
      (fourWords .received) ((fourWords .getchar).value hart.regs hart.mem)
      (hart.regs .sp + 16) := by
    refine ⟨fun name => ?_, rfl, active.room, rfl, fun _ changed => absurd rfl changed⟩
    cases name with
    | userPc => rfl
    | frame => rfl
    | retAddr =>
      have apart : hart.regs .sp + 4 * 3 ≠ hart.regs .sp + 16 + 4 * 10 := by omega
      exact Function.update_of_ne apart 120 hart.mem
  obtain ⟨filled, filledEq⟩ : ∃ filled : Hart, filled =
      { hart with mem := Function.update hart.mem (hart.regs .sp + 16 + 4 * 10) 120, pc := 230 } :=
    ⟨_, rfl⟩
  rw [← filledEq] at arrives
  have there : pollPoints.point filled.pc = some (fourWords .received) := by
    rw [filledEq]
    rfl
  -- With the answer in the frame the handler is done.
  have received : Reach pollPoints threeProcesses ⟨filled, .kernel, 1⟩ receivedRecords :=
    Reach.receive polls rfl here there rfl rfl (by decide) arrives
  -- The handler gives back its words of the stack, and returns to where it was called.
  obtain ⟨_, _, _, _, control⟩ := received.tracked.kernel rfl
  obtain ⟨_, _, active⟩ := control.handles there
  let returned : Hart :=
    { filled with
      regs := Function.update filled.regs .sp (filled.regs .sp + 16)
      csrs := Function.update filled.csrs .sepc ((filled.regs .s1 + 4) % wordLimit)
      pc := filled.mem (filled.regs .sp + 4 * 3) }
  have sp : returned.regs .sp = filled.regs .sp + 16 :=
    Function.update_self Reg.sp (filled.regs .sp + 16) filled.regs
  exact ⟨returned, active.retAddr,
    .finish received rfl there (.inr rfl) rfl sp rfl fun _ changed => absurd rfl changed⟩

/--
A user process that has polled in vain goes on behind its trap once a character has come in.

Another process has trapped and polled in between.
-/
theorem sret_transparent_polled : ∃ hart : Hart, hart.pc = 300 ∧
    Reach pollPoints threeProcesses ⟨hart, .kernel, 1⟩ receivedRecords ∧
    (∀ r, r ≠ .a0 → (hart.line kernelLeave).regs r = asking 7 r) ∧
    (hart.line kernelLeave).regs .a0 = 120 ∧
    (hart.line kernelLeave).pc = (userBase + 4) % wordLimit ∧
    (hart.line kernelLeave).csrs .satp = satpOf 0x80400000 ∧
    (hart.line kernelLeave).csrs .sscratch = threeProcesses.top 1 := by
  obtain ⟨hart, here, run⟩ := reach_received
  obtain ⟨record, call, known, made, regs, _, read, pc, satp, sscratch⟩ :=
    sret_transparent run rfl here
  -- The record of slot 1 is known: what it asked for, and what it received.
  have second : receivedRecords[1]? =
      some ⟨0x80400000, some ⟨asking 7, userBase, some 120⟩⟩ := rfl
  rw [second, Option.some.injEq] at known
  subst known
  rw [Option.some.injEq] at made
  subst made
  dsimp only at regs read pc satp sscratch
  -- It asked for a character, so the answer goes to `a0`.
  have asks : asking 7 .a3 = sysGetchar := rfl
  obtain ⟨ch, got, a0⟩ := read asks
  rw [Option.some.injEq] at got
  subst got
  exact ⟨hart, here, run, regs, a0, pc, satp, sscratch⟩

end Os1k.C
