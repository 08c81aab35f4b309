import Os1k.Lib.Riscv

/-! The code by which the C kernel enters and leaves a trap, and switches between processes. -/

namespace Os1k.C

open Riscv

/-- The registers of a `struct trap_frame` in their places, all but the stack pointer. -/
def trapFrame : Frame :=
  [(.ra, 0), (.gp, 1), (.tp, 2), (.t0, 3), (.t1, 4), (.t2, 5), (.t3, 6), (.t4, 7), (.t5, 8),
    (.t6, 9), (.a0, 10), (.a1, 11), (.a2, 12), (.a3, 13), (.a4, 14), (.a5, 15), (.a6, 16),
    (.a7, 17), (.s0, 18), (.s1, 19), (.s2, 20), (.s3, 21), (.s4, 22), (.s5, 23), (.s6, 24),
    (.s7, 25), (.s8, 26), (.s9, 27), (.s10, 28), (.s11, 29)]

/-- The bytes of a `struct trap_frame`, of which the stack pointer is the last word. -/
def trapFrameSize : Nat := 4 * 31

/-- What `kernel_entry` does up to the call of the handler. -/
def kernelEntry : List Instr :=
  -- The scratch register has the kernel stack of the process that runs.
  [.csrrw .sp .sscratch .sp, .addi .sp .sp (-4 * 31)] ++
  trapFrame.save ++
  -- The stack pointer at the time of the trap is in the scratch register by now.
  [.csrr .a0 .sscratch, .sw .a0 (4 * 30) .sp,
    -- Reset the kernel stack.
    .addi .a0 .sp (4 * 31), .csrw .sscratch .a0,
    .mv .a0 .sp]

/-- What `kernel_entry` does once the handler has returned. -/
def kernelLeave : List Instr := trapFrame.load ++ [.lw .sp (4 * 30) .sp, .sret]

/-- Save the callee-saved registers of one process and restore those of another. -/
def switchContext : List Instr :=
  .addi .sp .sp (-13 * 4) :: switchFrame.save ++
  -- Switch the stack pointer.
  [.sw .sp 0 .a0, .lw .sp 0 .a1] ++
  switchFrame.load ++ [.addi .sp .sp (13 * 4), .ret]

theorem switchContext_eq : switchContext = switchLine := rfl

/-- The places of a trap frame are the thirty words from its address. -/
theorem trapFrame_place : ∀ slot ∈ trapFrame, slot.2 < 30 := by decide

/-- A trap frame holds every register but the stack pointer. -/
theorem mem_trapFrame {r : Reg} (other : r ≠ .sp) : ∃ slot ∈ trapFrame, slot.1 = r := by
  cases r with
  | sp => exact absurd rfl other
  | _ => decide

/-- Memory holds all registers of a process in a trap frame. -/
structure Framed (mem : Nat → Nat) (addr : Nat) (regs : Reg → Nat) : Prop where
  saved : trapFrame.At mem addr regs
  sp : mem (addr + 4 * 30) = regs .sp

/-- Only the words of the frame matter. -/
theorem Framed.congr {mem other : Nat → Nat} {addr : Nat} {regs : Reg → Nat}
    (framed : Framed mem addr regs)
    (agree : ∀ o < trapFrameSize, other (addr + o) = mem (addr + o)) : Framed other addr regs := by
  -- All places of the frame are below its size, and so is that of the stack pointer.
  have size : trapFrameSize = 124 := rfl
  refine ⟨framed.saved.congr fun slot member => ?_, ?_⟩
  · have place := trapFrame_place slot member
    exact agree _ (by omega)
  · rw [agree _ (by decide), framed.sp]

/-- Storing a register that the frame holds changes that register of the frame. -/
theorem Framed.update {mem : Nat → Nat} {addr : Nat} {regs : Reg → Nat}
    (framed : Framed mem addr regs) (value : Nat) :
    Framed (Function.update mem (addr + 4 * 10) value) addr (Function.update regs .a0 value) := by
  have places : ∀ slot ∈ trapFrame, (slot.2 = 10 ↔ slot.1 = .a0) := by decide
  refine ⟨fun slot member => ?_, ?_⟩
  · by_cases here : slot.1 = .a0
    · rw [(places slot member).mpr here, here, Function.update_self, Function.update_self]
    · -- The other registers lie in other places.
      have elsewhere := mt (places slot member).mp here
      rw [Function.update_of_ne (by omega), Function.update_of_ne here]
      exact framed.saved slot member
  · rw [Function.update_of_ne (by omega), Function.update_of_ne (by decide), framed.sp]

/-- After the frame, the stack pointer at the time of the trap is saved and the stack reset. -/
theorem line_reset (hart : Hart) (word : hart.regs .sp + trapFrameSize < wordLimit) :
    (hart.line [.csrr .a0 .sscratch, .sw .a0 (4 * 30) .sp, .addi .a0 .sp (4 * 31),
      .csrw .sscratch .a0, .mv .a0 .sp]) =
    { regs := Function.update hart.regs .a0 (hart.regs .sp)
      mem := Function.update hart.mem (hart.regs .sp + 4 * 30) (hart.csrs .sscratch)
      csrs := Function.update hart.csrs .sscratch (hart.regs .sp + trapFrameSize)
      pc := hart.pc } := by
  -- The five instructions are run one by one, where the addresses do not wrap around.
  have size : trapFrameSize = 4 * 31 := rfl
  have addr : (hart.regs .sp + 4 * 30) % wordLimit = hart.regs .sp + 4 * 30 :=
    Nat.mod_eq_of_lt (by omega)
  have up : ∀ other : Hart, other.regs .sp = hart.regs .sp →
      other.exec (.addi .a0 .sp (4 * 31)) = other.set .a0 (hart.regs .sp + trapFrameSize) := by
    intro other same
    rw [← same, size]
    exact exec_addi_pos (by rw [same, ← size]; exact word)
  simp only [Hart.line_cons, Hart.line_nil]
  rw [up _ (by simp [Hart.exec, Hart.set])]
  simp [Hart.exec, Hart.set, addr]

/--
Entering a trap saves all registers at the top of the kernel stack.

The scratch register has the top of that stack before and after, and nothing else changes.
-/
theorem line_kernelEntry {hart : Hart} {top : Nat} (stack : hart.csrs .sscratch = top)
    (room : trapFrameSize ≤ top) (word : top < wordLimit) :
    (hart.line kernelEntry).regs .sp = top - trapFrameSize ∧
    (hart.line kernelEntry).regs .a0 = top - trapFrameSize ∧
    Framed (hart.line kernelEntry).mem (top - trapFrameSize) hart.regs ∧
    (hart.line kernelEntry).csrs = hart.csrs ∧
    ∀ a, (a < top - trapFrameSize ∨ top ≤ a) → (hart.line kernelEntry).mem a = hart.mem a := by
  have size : trapFrameSize = 4 * 31 := rfl
  -- The stacks are exchanged and the frame is allocated.
  obtain ⟨swapped, swappedEq⟩ : ∃ swapped, swapped = hart.exec (.csrrw .sp .sscratch .sp) := ⟨_, rfl⟩
  have swappedSp : swapped.regs .sp = top := by simp [swappedEq, Hart.exec, stack]
  have down : swapped.exec (.addi .sp .sp (-4 * 31)) = swapped.set .sp (top - 4 * 31) := by
    have below : 4 * 31 ≤ swapped.regs .sp := by omega
    rw [← swappedSp]
    exact exec_addi_neg below (by omega)
  obtain ⟨moved, movedEq⟩ : ∃ moved, moved = swapped.set .sp (top - 4 * 31) := ⟨_, rfl⟩
  have movedSp : moved.regs .sp = top - 4 * 31 := by simp [movedEq, Hart.set]
  have movedOther : ∀ r, r ≠ .sp → moved.regs r = hart.regs r := fun r other => by
    simp [movedEq, swappedEq, Hart.set, Hart.exec, other]
  have movedMem : moved.mem = hart.mem := by simp [movedEq, swappedEq, Hart.set, Hart.exec]
  have movedCsrs : moved.csrs = Function.update hart.csrs .sscratch (hart.regs .sp) := by
    simp [movedEq, swappedEq, Hart.set, Hart.exec]
  have entered : hart.line [.csrrw .sp .sscratch .sp, .addi .sp .sp (-4 * 31)] = moved := by
    rw [Hart.line_cons, Hart.line_cons, Hart.line_nil, ← swappedEq, down, ← movedEq]
  -- The frame is filled.
  have movedRoom : ∀ slot ∈ trapFrame, moved.regs .sp + 4 * slot.2 < wordLimit := by
    intro slot member
    have place := trapFrame_place slot member
    omega
  obtain ⟨regs, csrs, framed, unframed⟩ := Hart.line_save (by decide) movedRoom
  obtain ⟨filled, filledEq⟩ : ∃ filled, filled = moved.line trapFrame.save := ⟨_, rfl⟩
  rw [← filledEq] at regs csrs framed unframed
  have filledSp : filled.regs .sp = top - 4 * 31 := by rw [regs, movedSp]
  -- The stack pointer of the process goes into the last word, and `sscratch` is set again.
  have whole : hart.line kernelEntry =
      { regs := Function.update filled.regs .a0 (top - 4 * 31)
        mem := Function.update filled.mem (top - 4 * 31 + 4 * 30) (hart.regs .sp)
        csrs := Function.update filled.csrs .sscratch top
        pc := filled.pc } := by
    have scratch : filled.csrs .sscratch = hart.regs .sp := by
      rw [csrs, movedCsrs, Function.update_self]
    have reset := line_reset filled (by omega)
    rw [filledSp, scratch, size, Nat.sub_add_cancel (by omega)] at reset
    rw [← reset, kernelEntry, Hart.line_append, Hart.line_append, entered, ← filledEq]
  rw [whole, size]
  dsimp only
  refine ⟨?_, ?_, ⟨fun slot member => ?_, ?_⟩, ?_, ?_⟩
  · rw [Function.update_of_ne (by decide), filledSp]
  · rw [Function.update_self]
  · -- No other register was changed before it was saved.
    have place := trapFrame_place slot member
    have notSp : slot.1 ≠ .sp := by
      intro same
      have none : Reg.sp ∉ trapFrame.map Prod.fst := by decide
      exact none (List.mem_map.mpr ⟨slot, member, same⟩)
    rw [Function.update_of_ne (by omega), ← movedOther slot.1 notSp, ← movedSp]
    exact framed slot member
  · rw [Function.update_self]
  · rw [csrs, movedCsrs, Function.update_idem, ← stack, Function.update_eq_self]
  · intro a outside
    rw [Function.update_of_ne (by omega), ← movedMem]
    refine unframed a fun slot member => ?_
    have place := trapFrame_place slot member
    omega

/-- Leaving a trap restores all registers from the frame and goes on where the trap was taken. -/
theorem line_kernelLeave {hart : Hart} {regs : Reg → Nat}
    (word : hart.regs .sp + trapFrameSize < wordLimit)
    (framed : Framed hart.mem (hart.regs .sp) regs) :
    (∀ r, (hart.line kernelLeave).regs r = regs r) ∧
    (hart.line kernelLeave).pc = hart.csrs .sepc ∧
    (hart.line kernelLeave).csrs = hart.csrs ∧ (hart.line kernelLeave).mem = hart.mem := by
  -- The stack pointer is loaded last, since all else is loaded relative to it.
  have size : trapFrameSize = 124 := rfl
  have room : ∀ slot ∈ trapFrame, hart.regs .sp + 4 * slot.2 < wordLimit := by
    intro slot member
    have place := trapFrame_place slot member
    omega
  obtain ⟨mem, csrs, loaded, unloaded⟩ := Hart.line_load (by decide) (by decide) room
  have whole : hart.line kernelLeave =
      ((hart.line trapFrame.load).exec (.lw .sp (4 * 30) .sp)).exec .sret := by
    rw [kernelLeave, Hart.line_append, Hart.line_cons, Hart.line_cons, Hart.line_nil]
  have sp : (hart.line trapFrame.load).regs .sp = hart.regs .sp := unloaded .sp (by decide)
  generalize hart.line trapFrame.load = full at *
  have last : full.exec (.lw .sp (4 * 30) .sp) = full.set .sp (regs .sp) := by
    have addr : (hart.regs .sp + 4 * 30) % wordLimit = hart.regs .sp + 4 * 30 :=
      Nat.mod_eq_of_lt (by omega)
    rw [Hart.exec, sp, addr, mem, framed.sp]
  rw [whole, last]
  refine ⟨fun r => ?_, ?_, csrs, mem⟩
  · by_cases here : r = .sp
    · simp [Hart.exec, Hart.set, here]
    · obtain ⟨slot, member, rfl⟩ := mem_trapFrame here
      have found := (loaded slot member).trans (framed.saved slot member)
      simpa [Hart.exec, Hart.set, here] using found
  · simp [Hart.exec, Hart.set, csrs]

end Os1k.C
