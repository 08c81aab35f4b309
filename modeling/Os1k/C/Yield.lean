import Os1k.C.Suspension

/-! How the hart goes from one process of the C kernel to another. -/

namespace Os1k.C

open Riscv

/--
What `yield` does once another process is chosen.

It installs the page table and the kernel stack of that process, leaves a frame below the stack
pointer, and resumes the frame of the other.
-/
theorem yieldTo_spec {layout : Layout} {hart : Hart} {p q : Nat} (inside : p < layout.procNoMax)
    (also : q < layout.procNoMax) (room : 13 * 4 ≤ hart.regs .sp) (word : hart.regs .sp < wordLimit)
    (outside : layout.sp p < hart.regs .sp - 13 * 4 ∨ hart.regs .sp ≤ layout.sp p) :
    (yieldTo layout hart p q).csrs .sscratch = layout.top q ∧
    (yieldTo layout hart p q).csrs .satp = satpOf (hart.mem (layout.pageTable q)) ∧
    switchFrame.At (yieldTo layout hart p q).mem (hart.regs .sp - 13 * 4) hart.regs ∧
    (yieldTo layout hart p q).mem (layout.sp p) = hart.regs .sp - 13 * 4 ∧
    (∀ a, a ≠ layout.sp p → (a < hart.regs .sp - 13 * 4 ∨ hart.regs .sp ≤ a) →
      (yieldTo layout hart p q).mem a = hart.mem a) ∧
    ∀ next regs, (yieldTo layout hart p q).mem (layout.sp q) = next → next + 13 * 4 < wordLimit →
      switchFrame.At (yieldTo layout hart p q).mem next regs →
      Resumed (yieldTo layout hart p q) regs (next + 13 * 4) := by
  have limit := layout.word
  have firstBounds := Layout.slot_bounds inside
  have secondBounds := Layout.slot_bounds also
  have first : layout.sp p = layout.slot p + 8 := rfl
  have second : layout.sp q = layout.slot q + 8 := rfl
  -- The registers with which the context switch is entered.
  obtain ⟨ready, readyEq⟩ : ∃ ready, ready = Hart.set (Hart.set
      { hart with
        csrs := Function.update
          (Function.update hart.csrs .satp (satpOf (hart.mem (layout.pageTable q))))
          .sscratch (layout.top q) }
      .a0 (layout.sp p)) .a1 (layout.sp q) := ⟨_, rfl⟩
  have sp : ready.regs .sp = hart.regs .sp := by simp [readyEq, Hart.set]
  have prev : ready.regs .a0 = layout.sp p := by simp [readyEq, Hart.set]
  have arg : ready.regs .a1 = layout.sp q := by simp [readyEq, Hart.set]
  have mem : ready.mem = hart.mem := by simp [readyEq, Hart.set]
  have saved : ∀ slot ∈ switchFrame, ready.regs slot.1 = hart.regs slot.1 := by
    intro slot member
    obtain ⟨notFirst, notSecond⟩ := switchFrame_ne_arg slot member
    simp [readyEq, Hart.set, notFirst, notSecond]
  have whole : yieldTo layout hart p q = ready.line switchLine := by
    rw [yieldTo, switchContext_eq, readyEq]
  -- The rest is what the context switch does with them.
  obtain ⟨csrs, framed, left, unchanged, resumes⟩ := line_switch ready (by omega) (by omega)
    (by omega) (by omega) (by rw [prev, sp]; exact outside)
  rw [prev, sp] at left unchanged
  rw [sp] at framed
  rw [arg] at resumes
  rw [whole]
  refine ⟨?_, ?_, ?_, left, ?_, resumes⟩
  · rw [csrs, readyEq]
    rfl
  · rw [csrs, readyEq]
    rfl
  · exact fun slot member => (framed slot member).trans (saved slot member)
  · rw [← mem]
    exact unchanged

variable {code : Compiled} {layout : Layout}

/-- A process that waits is resumed where it left off. -/
theorem Suspended.control {p : Nat} {after : Hart} {call : Option Call}
    (suspended : Suspended code layout p after.mem call) (inside : p < layout.procNoMax)
    (resumes : ∀ next regs, after.mem (layout.sp p) = next → next + 13 * 4 < wordLimit →
      switchFrame.At after.mem next regs → Resumed after regs (next + 13 * 4)) :
    Control code layout p after call := by
  have limit := layout.word
  have bounds := Layout.slot_bounds inside
  have top := layout.top_eq p
  cases suspended with
  -- A new process starts at the entry of user code.
  | fresh frame sp entry =>
    have resumed := resumes _ _ rfl (by omega) frame
    exact .start (resumed.pc.trans entry)
  -- A handler that polls goes on behind its call of `yield`.
  | @polling regs point last made frame sp room there stage survives active =>
    have size : trapFrameSize = 124 := rfl
    have deep := active.sp
    have resumed := resumes _ _ rfl (by omega) frame
    have saved : ∀ r ∈ calleeSaved, after.regs r = regs r := by
      intro r member
      obtain ⟨slot, found, rfl⟩ := mem_switchFrame r (List.mem_cons_of_mem _ member)
      exact resumed.saved slot found
    exact .handling made (by rw [resumed.pc]; exact there)
      (active.resume survives saved (resumed.sp.trans sp))

/-- A note about one process is no matter to the others. -/
theorem note_some {records : List Record} {p q : Nat} {change : Option Call → Option Call}
    {record : Record} (found : (note records p change)[q]? = some record) :
    ∃ old, records[q]? = some old ∧ record.table = old.table ∧
      (q = p ∧ record.call = change old.call ∨ q ≠ p ∧ record.call = old.call) := by
  -- Only the record of that process is changed, and its page table is not.
  obtain ⟨old, was, ⟨here, rfl⟩ | ⟨other, rfl⟩⟩ := getElem?_modify_some found
  · exact ⟨old, was, rfl, .inl ⟨here, rfl⟩⟩
  · exact ⟨record, was, rfl, .inr ⟨other, rfl⟩⟩

namespace Kept

variable {mem other : Nat → Nat} {p : Nat} {records : List Record}

/-- A process that was created is one of the array. -/
theorem slot_lt (kept : Kept code layout mem p records) {q : Nat} {record : Record}
    (known : records[q]? = some record) : q < layout.procNoMax :=
  Nat.lt_of_lt_of_le (List.getElem?_eq_some_iff.mp known).1 kept.count

/-- A process that can run was created. -/
theorem known (kept : Kept code layout mem p records) {q : Nat} (runnable : Runnable layout mem q) :
    ∃ record, records[q]? = some record := by
  obtain ⟨inside, state⟩ := runnable
  -- The slots behind those created are all free.
  have created : q < records.length := by
    by_contra late
    have unused := (kept.unused q inside).mpr (Nat.not_lt.mp late)
    rw [state] at unused
    exact absurd unused (by decide)
  exact ⟨_, List.getElem?_eq_getElem created⟩

/-- What one process does outside the others, and not to its own fields, keeps them. -/
theorem congr (kept : Kept code layout mem p records)
    (others : ∀ q < layout.procNoMax, q ≠ p → ∀ o < 8208,
      other (layout.slot q + o) = mem (layout.slot q + o))
    (state : other (layout.state p) = mem (layout.state p))
    (table : other (layout.pageTable p) = mem (layout.pageTable p)) :
    Kept code layout other p records := by
  -- States are in the slots, of this process or of the others.
  have states : ∀ q < layout.procNoMax, other (layout.state q) = mem (layout.state q) := by
    intro q inside
    by_cases here : q = p
    · rw [here, state]
    · exact others q inside here 4 (by omega)
  refine ⟨kept.count, fun q inside => ?_, fun q record known => ?_,
    fun q record known busy different runnable => ?_⟩
  · rw [states q inside]
    exact kept.unused q inside
  · have inside := kept.slot_lt known
    by_cases here : q = p
    · rw [here, table, ← here]
      exact kept.tables q record known
    · exact (others q inside here 12 (by omega)).trans (kept.tables q record known)
  · have inside := kept.slot_lt known
    rw [states q inside] at runnable
    exact (kept.waiting q record known busy different runnable).congr (others q inside different)

/-- What a handler writes for itself keeps the other processes, and its own fields. -/
theorem handler (kept : Kept code layout mem p records) (inside : p < layout.procNoMax)
    (writes : ∀ a, other a ≠ mem a → layout.HandlerWrites p a) :
    Kept code layout other p records := by
  -- What handlers do not write is as it was.
  have same : ∀ a, ¬ layout.HandlerWrites p a → other a = mem a := by
    intro a untouched
    by_contra changed
    exact untouched (writes a changed)
  refine kept.congr (fun q also different o small => ?_) ?_ ?_
  · exact same _ (Layout.not_writes_slot also different small)
  · exact same _ (Layout.not_writes_own inside (by omega : 4 < 8208) (.inl (by omega)))
  · exact same _ (Layout.not_writes_own inside (by omega : 12 < 8208) (.inl (by omega)))

/-- The trap of one process is no matter to the others. -/
theorem note (kept : Kept code layout mem p records) (change : Option Call → Option Call) :
    Kept code layout mem p (C.note records p change) := by
  -- Noting changes the call of one process and nothing else.
  have length : (C.note records p change).length = records.length := by simp [C.note]
  refine ⟨by rw [length]; exact kept.count, by rw [length]; exact kept.unused,
    fun q record found => ?_, fun q record found busy different runnable => ?_⟩
  · obtain ⟨old, known, table, _⟩ := note_some found
    rw [table]
    exact kept.tables q old known
  · obtain ⟨old, known, _, ⟨here, _⟩ | ⟨_, call⟩⟩ := note_some found
    · exact absurd here different
    · rw [call]
      exact kept.waiting q old known busy different runnable

/-- Once the process that runs waits like the others, any of them can be the next to run. -/
theorem turn (kept : Kept code layout mem p records) {next : Nat}
    (suspended : ∀ record, records[p]? = some record → p ≠ 0 →
      mem (layout.state p) = procStateRunnable → Suspended code layout p mem record.call) :
    Kept code layout mem next records := by
  refine ⟨kept.count, kept.unused, kept.tables, fun q record known busy _ runnable => ?_⟩
  -- The process that gave up the hart is now one of those that wait.
  by_cases here : q = p
  · subst here
    exact suspended record known busy runnable
  · exact kept.waiting q record known busy here runnable

/--
The hart goes to another process that can run.

The frame it leaves lies on the kernel stack of the process that runs, or on the stack of boot. If
that process can run again, it waits in the middle of a trap.
-/
theorem switch {hart : Hart} (kept : Kept code layout hart.mem p records)
    (inside : p < layout.procNoMax) {next : Nat} (runnable : Runnable layout hart.mem next)
    (different : next ≠ p)
    (place : (layout.stack p + 13 * 4 ≤ hart.regs .sp ∧ hart.regs .sp ≤ layout.top p) ∨
      (p = 0 ∧ layout.stackBottom + 13 * 4 ≤ hart.regs .sp ∧ hart.regs .sp ≤ layout.stackTop))
    (waits : ∀ record, records[p]? = some record → p ≠ 0 →
      hart.mem (layout.state p) = procStateRunnable → ∃ last point, record.call = some last ∧
        code.point (hart.regs .ra) = some point ∧ point.stage = .getchar ∧ point.Survives ∧
        Active code layout p point hart.regs hart.mem last) :
    Tracked code layout ⟨yieldTo layout hart p next, modeOf next, next⟩ records := by
  have limit := layout.word
  have stackLimit := layout.stackWord
  have apart := layout.apart
  have bounds := Layout.slot_bounds inside
  have top := layout.top_eq p
  have stack : layout.stack p = layout.slot p + 16 := rfl
  have field : layout.sp p = layout.slot p + 8 := rfl
  -- The switch writes a frame below the stack pointer, and one field.
  obtain ⟨sscratch, satp, framed, left, unchanged, resumes⟩ := yieldTo_spec inside runnable.1
    (by omega) (by omega) (by omega : layout.sp p < hart.regs .sp - 13 * 4 ∨ _)
  generalize yieldTo layout hart p next = after at *
  -- The frame lies in the stack, so neither other processes nor the fields are touched.
  have others : ∀ q < layout.procNoMax, q ≠ p → ∀ o < 8208,
      after.mem (layout.slot q + o) = hart.mem (layout.slot q + o) := by
    intro q also other o small
    have slots := Layout.slot_bounds also
    have outside := layout.slot_apart other small
    refine unchanged _ (by omega) ?_
    rcases place with ⟨low, high⟩ | ⟨_, low, high⟩
    · omega
    · omega
  have state : after.mem (layout.state p) = hart.mem (layout.state p) := by
    have place : layout.state p = layout.slot p + 4 := rfl
    exact unchanged _ (by omega) (by omega)
  have table : after.mem (layout.pageTable p) = hart.mem (layout.pageTable p) := by
    have place : layout.pageTable p = layout.slot p + 12 := rfl
    exact unchanged _ (by omega) (by omega)
  have moved : Kept code layout after.mem p records := kept.congr others state table
  -- A process that can run again was polling, and its handler is as it was.
  have turned : Kept code layout after.mem next records := by
    refine moved.turn fun record known busy again => ?_
    rw [state] at again
    obtain ⟨last, point, call, there, stage, survives, active⟩ := waits record known busy again
    have room : layout.stack p + 13 * 4 ≤ hart.regs .sp := by omega
    refine .polling call (by rw [left]; exact framed) (by rw [left]; omega) (by rw [left]; omega) there
      stage survives (active.congr fun a above below => unchanged a (by omega) (.inr above))
  obtain ⟨record, known⟩ := kept.known runnable
  refine ⟨turned, record, known, ?_⟩
  -- The idle process goes on in boot, of which nothing is promised.
  by_cases idle : next = 0
  · simp only [Current, modeOf, if_pos idle]
  · have ready : after.mem (layout.state next) = procStateRunnable :=
      (others next runnable.1 different 4 (by omega)).trans runnable.2
    have waiting := moved.waiting next record known idle different ready
    simp only [Current, modeOf, if_neg idle]
    refine ⟨sscratch, ?_, waiting.control runnable.1 resumes⟩
    rw [satp, kept.tables next record known]

end Kept

end Os1k.C
