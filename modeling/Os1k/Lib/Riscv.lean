import Mathlib.Tactic

/-! The registers, word memory and supervisor CSRs of a RISC-V hart, and the code that saves them. -/

namespace Os1k.Riscv

/-- The general registers, less the one that is always zero. -/
inductive Reg where
  | ra | sp | gp | tp
  | t0 | t1 | t2 | t3 | t4 | t5 | t6
  | a0 | a1 | a2 | a3 | a4 | a5 | a6 | a7
  | s0 | s1 | s2 | s3 | s4 | s5 | s6 | s7 | s8 | s9 | s10 | s11
  deriving DecidableEq, Repr

/-- The CSRs that context switches and traps go through. -/
inductive Csr where
  | satp | sscratch | sepc
  deriving DecidableEq, Repr

/-- The state of a hart, with memory as words at their addresses. -/
structure Hart where
  regs : Reg → Nat
  mem : Nat → Nat
  csrs : Csr → Nat
  pc : Nat

/-- One more than the largest word. -/
def wordLimit : Nat := 2 ^ 32

/-- The instructions in use. -/
inductive Instr where
  | addi (rd rs : Reg) (imm : Int)
  | mv (rd rs : Reg)
  | sw (src : Reg) (offset : Nat) (base : Reg)
  | lw (rd : Reg) (offset : Nat) (base : Reg)
  | csrr (rd : Reg) (csr : Csr)
  | csrw (csr : Csr) (rs : Reg)
  | csrrw (rd : Reg) (csr : Csr) (rs : Reg)
  | ret
  | sret
  deriving DecidableEq, Repr

namespace Hart

/-- Write one register. -/
def set (hart : Hart) (rd : Reg) (value : Nat) : Hart :=
  { hart with regs := Function.update hart.regs rd value }

/-- What one instruction does. -/
def exec (hart : Hart) : Instr → Hart
  | .addi rd rs imm => hart.set rd ((hart.regs rs + imm) % wordLimit).toNat
  | .mv rd rs => hart.set rd (hart.regs rs)
  | .sw src offset base =>
    { hart with
      mem := Function.update hart.mem ((hart.regs base + offset) % wordLimit) (hart.regs src) }
  | .lw rd offset base => hart.set rd (hart.mem ((hart.regs base + offset) % wordLimit))
  | .csrr rd csr => hart.set rd (hart.csrs csr)
  | .csrw csr rs => { hart with csrs := Function.update hart.csrs csr (hart.regs rs) }
  | .csrrw rd csr rs =>
    { hart with
      csrs := Function.update hart.csrs csr (hart.regs rs)
      regs := Function.update hart.regs rd (hart.csrs csr) }
  | .ret => { hart with pc := hart.regs .ra }
  | .sret => { hart with pc := hart.csrs .sepc }

/-- What a straight line of instructions does. -/
def line (hart : Hart) (block : List Instr) : Hart := block.foldl exec hart

@[simp] theorem line_nil (hart : Hart) : hart.line [] = hart := rfl

@[simp] theorem line_cons (hart : Hart) (instr : Instr) (block : List Instr) :
    hart.line (instr :: block) = (hart.exec instr).line block := rfl

theorem line_append (hart : Hart) (first second : List Instr) :
    hart.line (first ++ second) = (hart.line first).line second := List.foldl_append ..

end Hart

/-- Registers with their places in a frame, in words from the stack pointer. -/
abbrev Frame := List (Reg × Nat)

/-- Write registers to their places. -/
def Frame.save (frame : Frame) : List Instr := frame.map fun slot => .sw slot.1 (4 * slot.2) .sp

/-- Read registers from their places. -/
def Frame.load (frame : Frame) : List Instr := frame.map fun slot => .lw slot.1 (4 * slot.2) .sp

/-- Memory holds the registers of a frame at an address. -/
def Frame.At (frame : Frame) (mem : Nat → Nat) (addr : Nat) (regs : Reg → Nat) : Prop :=
  ∀ slot ∈ frame, mem (addr + 4 * slot.2) = regs slot.1

/-- A frame whose words lie in other places keeps its registers. -/
theorem Frame.At.congr {frame : Frame} {mem other : Nat → Nat} {addr : Nat} {regs : Reg → Nat}
    (saved : frame.At mem addr regs)
    (agree : ∀ slot ∈ frame, other (addr + 4 * slot.2) = mem (addr + 4 * slot.2)) :
    frame.At other addr regs := fun slot member => (agree slot member).trans (saved slot member)

namespace Hart

variable {hart : Hart} {frame : Frame}

/-- Saving a frame writes its words, each to a place of its own, and nothing else. -/
theorem line_save (places : (frame.map Prod.snd).Nodup)
    (fits : ∀ slot ∈ frame, hart.regs .sp + 4 * slot.2 < wordLimit) :
    (hart.line frame.save).regs = hart.regs ∧ (hart.line frame.save).csrs = hart.csrs ∧
      frame.At (hart.line frame.save).mem (hart.regs .sp) hart.regs ∧
      ∀ a, (∀ slot ∈ frame, a ≠ hart.regs .sp + 4 * slot.2) →
        (hart.line frame.save).mem a = hart.mem a := by
  -- The induction is on the frame: one word is stored, and the rest after it.
  induction frame generalizing hart with
  | nil => exact ⟨rfl, rfl, by simp [Frame.At], fun _ _ => rfl⟩
  | cons slot frame ih =>
    rw [List.map_cons, List.nodup_cons] at places
    have here := fits slot List.mem_cons_self
    have addr : (hart.regs .sp + 4 * slot.2) % wordLimit = hart.regs .sp + 4 * slot.2 :=
      Nat.mod_eq_of_lt here
    let stored : Hart := hart.exec (.sw slot.1 (4 * slot.2) .sp)
    have room : ∀ later ∈ frame, stored.regs .sp + 4 * later.2 < wordLimit := fun later member =>
      fits later (List.mem_cons_of_mem _ member)
    obtain ⟨regs, csrs, saved, other⟩ := ih places.2 room
    have same : hart.line (Frame.save (slot :: frame)) = stored.line (Frame.save frame) := rfl
    have mem : stored.mem = Function.update hart.mem (hart.regs .sp + 4 * slot.2)
        (hart.regs slot.1) := by simp only [stored, exec, addr]
    rw [same]
    refine ⟨regs, csrs, ?_, ?_⟩
    · intro found member
      rcases List.mem_cons.mp member with rfl | later
      · -- The words saved later go to other places.
        rw [other _ fun later member equal => ?_, mem, Function.update_self]
        refine places.1 (List.mem_map.mpr ⟨later, member, ?_⟩)
        simp only [stored, exec] at equal
        omega
      · exact saved found later
    · intro a outside
      rw [other a fun later member => outside later (List.mem_cons_of_mem _ member), mem,
        Function.update_of_ne (outside slot List.mem_cons_self)]

/-- Loading a frame reads each of its registers, and changes no other. -/
theorem line_load (distinct : (frame.map Prod.fst).Nodup) (keeps : Reg.sp ∉ frame.map Prod.fst)
    (fits : ∀ slot ∈ frame, hart.regs .sp + 4 * slot.2 < wordLimit) :
    (hart.line frame.load).mem = hart.mem ∧ (hart.line frame.load).csrs = hart.csrs ∧
      (∀ slot ∈ frame, (hart.line frame.load).regs slot.1 = hart.mem (hart.regs .sp + 4 * slot.2)) ∧
      ∀ r ∉ frame.map Prod.fst, (hart.line frame.load).regs r = hart.regs r := by
  -- The induction is on the frame: one register is loaded, and the rest after it.
  induction frame generalizing hart with
  | nil => exact ⟨rfl, rfl, by simp, fun _ _ => rfl⟩
  | cons slot frame ih =>
    rw [List.map_cons, List.nodup_cons] at distinct
    rw [List.map_cons, List.mem_cons, not_or] at keeps
    have here := fits slot List.mem_cons_self
    have addr : (hart.regs .sp + 4 * slot.2) % wordLimit = hart.regs .sp + 4 * slot.2 :=
      Nat.mod_eq_of_lt here
    let loaded : Hart := hart.exec (.lw slot.1 (4 * slot.2) .sp)
    have regs : loaded.regs = Function.update hart.regs slot.1
        (hart.mem (hart.regs .sp + 4 * slot.2)) := by simp only [loaded, exec, set, addr]
    -- The stack pointer is not loaded, so the later places are counted from the same address.
    have sp : loaded.regs .sp = hart.regs .sp := by rw [regs, Function.update_of_ne keeps.1]
    have room : ∀ later ∈ frame, loaded.regs .sp + 4 * later.2 < wordLimit := fun later member => by
      rw [sp]
      exact fits later (List.mem_cons_of_mem _ member)
    obtain ⟨mem, csrs, read, other⟩ := ih distinct.2 keeps.2 room
    have same : hart.line (Frame.load (slot :: frame)) = loaded.line (Frame.load frame) := rfl
    rw [same]
    refine ⟨mem, csrs, ?_, ?_⟩
    · intro found member
      rcases List.mem_cons.mp member with rfl | later
      · rw [other _ distinct.1, regs, Function.update_self]
      · rw [read found later, sp]
        rfl
    · intro r absent
      rw [List.map_cons, List.mem_cons, not_or] at absent
      rw [other r absent.2, regs, Function.update_of_ne absent.1]

end Hart

/-- The return address and the callee-saved registers, as a context switch lays them out. -/
def switchFrame : Frame :=
  [(.ra, 0), (.s0, 1), (.s1, 2), (.s2, 3), (.s3, 4), (.s4, 5), (.s5, 6), (.s6, 7), (.s7, 8),
    (.s8, 9), (.s9, 10), (.s10, 11), (.s11, 12)]

/-- The registers that a called function preserves, besides the stack pointer. -/
def calleeSaved : List Reg := [.s0, .s1, .s2, .s3, .s4, .s5, .s6, .s7, .s8, .s9, .s10, .s11]

/-- The saved registers and the return address are those of a switch frame. -/
theorem mem_switchFrame : ∀ r ∈ .ra :: calleeSaved, ∃ slot ∈ switchFrame, slot.1 = r := by decide

/-- Save the callee-saved registers below the stack pointer, and leave the stack pointer at `a0`. -/
def leaveLine : List Instr :=
  .addi .sp .sp (-13 * 4) :: switchFrame.save ++ [.sw .sp 0 .a0]

/-- Take the stack pointer that lies at `a1`, load the callee-saved registers above it, return. -/
def resumeLine : List Instr :=
  .lw .sp 0 .a1 :: switchFrame.load ++ [.addi .sp .sp (13 * 4), .ret]

/-- A context switch. -/
def switchLine : List Instr := leaveLine ++ resumeLine

/-- The return address comes first in a switch frame, and the twelve saved registers after it. -/
theorem switchFrame_cases : ∀ slot ∈ switchFrame,
    slot = (.ra, 0) ∨ (1 ≤ slot.2 ∧ slot.2 < 13 ∧ slot.1 ≠ .ra ∧ slot.1 ≠ .sp) := by decide

/-- The arguments of a context switch are not in the frame. -/
theorem switchFrame_ne_arg : ∀ slot ∈ switchFrame, slot.1 ≠ .a0 ∧ slot.1 ≠ .a1 := by decide

/-- The places of a switch frame are the thirteen words from its address. -/
theorem switchFrame_place {slot : Reg × Nat} (member : slot ∈ switchFrame) : slot.2 < 13 := by
  rcases switchFrame_cases slot member with rfl | ⟨_, small, _⟩
  · decide
  · exact small

/-- A register moved down stays in the word range. -/
theorem exec_addi_neg {hart : Hart} {rd rs : Reg} {amount : Nat} (room : amount ≤ hart.regs rs)
    (word : hart.regs rs < wordLimit) :
    hart.exec (.addi rd rs (-amount)) = hart.set rd (hart.regs rs - amount) := by
  -- The sum does not go below zero, so the remainder is the sum itself.
  have exact_value : ((hart.regs rs : Int) + -amount) % wordLimit = (hart.regs rs - amount : Nat) := by
    rw [Int.emod_eq_of_lt (by omega) (by omega)]
    omega
  simp only [Hart.exec, exact_value, Int.toNat_natCast]

/-- A register moved up stays in the word range if there is room. -/
theorem exec_addi_pos {hart : Hart} {rd rs : Reg} {amount : Nat}
    (word : hart.regs rs + amount < wordLimit) :
    hart.exec (.addi rd rs amount) = hart.set rd (hart.regs rs + amount) := by
  -- The sum does not reach the limit, so the remainder is the sum itself.
  have exact_value : ((hart.regs rs : Int) + amount) % wordLimit = (hart.regs rs + amount : Nat) := by
    rw [Int.emod_eq_of_lt (by omega) (by omega)]
    omega
  simp only [Hart.exec, exact_value, Int.toNat_natCast]

/-- A switch frame does not hold the stack pointer. -/
theorem switchFrame_ne_sp {slot : Reg × Nat} (member : slot ∈ switchFrame) : slot.1 ≠ .sp := by
  rcases switchFrame_cases slot member with rfl | ⟨_, _, _, notSp⟩
  · decide
  · exact notSp

/-- Loads change no memory and no CSR. -/
theorem line_load_frame (frame : Frame) (hart : Hart) :
    (hart.line frame.load).mem = hart.mem ∧ (hart.line frame.load).csrs = hart.csrs := by
  induction frame generalizing hart with
  | nil => exact ⟨rfl, rfl⟩
  | cons slot frame ih => exact ih (hart.exec (.lw slot.1 (4 * slot.2) .sp))

/-- Leaving puts a frame below the stack pointer and the stack pointer at its place. -/
theorem line_leave {hart : Hart} (room : 13 * 4 ≤ hart.regs .sp)
    (word : hart.regs .sp < wordLimit) (prevWord : hart.regs .a0 < wordLimit)
    (outside : hart.regs .a0 < hart.regs .sp - 13 * 4 ∨ hart.regs .sp ≤ hart.regs .a0) :
    (hart.line leaveLine).csrs = hart.csrs ∧
    (∀ r, r ≠ .sp → (hart.line leaveLine).regs r = hart.regs r) ∧
    switchFrame.At (hart.line leaveLine).mem (hart.regs .sp - 13 * 4) hart.regs ∧
    (hart.line leaveLine).mem (hart.regs .a0) = hart.regs .sp - 13 * 4 ∧
    ∀ a, a ≠ hart.regs .a0 → (a < hart.regs .sp - 13 * 4 ∨ hart.regs .sp ≤ a) →
      (hart.line leaveLine).mem a = hart.mem a := by
  -- The stack pointer moves first, and the frame is saved above it.
  obtain ⟨moved, movedEq⟩ : ∃ moved, moved = hart.set .sp (hart.regs .sp - 13 * 4) := ⟨_, rfl⟩
  have down : hart.exec (.addi .sp .sp (-13 * 4)) = moved :=
    (exec_addi_neg room word).trans movedEq.symm
  have movedSp : moved.regs .sp = hart.regs .sp - 13 * 4 := by simp [movedEq, Hart.set]
  have movedOther : ∀ r, r ≠ .sp → moved.regs r = hart.regs r := fun r other => by
    simp [movedEq, Hart.set, other]
  have movedRest : moved.mem = hart.mem ∧ moved.csrs = hart.csrs := by simp [movedEq, Hart.set]
  have movedRoom : ∀ slot ∈ switchFrame, moved.regs .sp + 4 * slot.2 < wordLimit := by
    intro slot member
    have place := switchFrame_place member
    omega
  obtain ⟨regs, csrs, framed, unframed⟩ := Hart.line_save (by decide) movedRoom
  have whole : hart.line leaveLine = (moved.line switchFrame.save).exec (.sw .sp 0 .a0) := by
    rw [leaveLine, List.cons_append, Hart.line_cons, down, Hart.line_append, Hart.line_cons,
      Hart.line_nil]
  generalize moved.line switchFrame.save = saved at *
  -- The last store puts the stack pointer where the caller said.
  have stored : (hart.line leaveLine).mem =
      Function.update saved.mem (hart.regs .a0) (hart.regs .sp - 13 * 4) := by
    have prev : saved.regs .a0 = hart.regs .a0 := by rw [regs, movedOther _ (by decide)]
    have sp : saved.regs .sp = hart.regs .sp - 13 * 4 := by rw [regs, movedSp]
    simp only [whole, Hart.exec, prev, sp, Nat.add_zero, Nat.mod_eq_of_lt prevWord]
  refine ⟨?_, ?_, ?_, ?_, ?_⟩
  · rw [whole]
    exact csrs.trans movedRest.2
  · intro r other
    rw [whole, ← movedOther r other, ← regs]
    rfl
  · intro slot member
    have place := switchFrame_place member
    rw [stored, Function.update_of_ne (by omega), ← movedOther slot.1 (switchFrame_ne_sp member),
      ← movedSp]
    exact framed slot member
  · rw [stored, Function.update_self]
  · -- Elsewhere memory stays: neither the frame nor that last word.
    intro a notPrev notFrame
    rw [stored, Function.update_of_ne notPrev, ← movedRest.1]
    refine unframed a fun slot member => ?_
    have place := switchFrame_place member
    omega

/-- What a hart has when it returns from a context switch, if the frame it found holds `regs`. -/
structure Resumed (hart : Hart) (regs : Reg → Nat) (sp : Nat) : Prop where
  pc : hart.pc = regs .ra
  saved : ∀ slot ∈ switchFrame, hart.regs slot.1 = regs slot.1
  sp : hart.regs .sp = sp

/-- Resuming changes no memory and no CSR. -/
theorem line_resume_frame (hart : Hart) :
    (hart.line resumeLine).mem = hart.mem ∧ (hart.line resumeLine).csrs = hart.csrs := by
  rw [resumeLine, List.cons_append, Hart.line_cons, Hart.line_append]
  exact line_load_frame switchFrame (hart.exec (.lw .sp 0 .a1))

/-- Resuming finds the registers of the frame it is shown. -/
theorem line_resume {hart : Hart} {next : Nat} {regs : Reg → Nat}
    (nextWord : hart.regs .a1 < wordLimit) (found : hart.mem (hart.regs .a1) = next)
    (top : next + 13 * 4 < wordLimit) (framed : switchFrame.At hart.mem next regs) :
    Resumed (hart.line resumeLine) regs (next + 13 * 4) := by
  -- The stack pointer is taken first, and moves past the frame in the end.
  obtain ⟨shown, shownEq⟩ : ∃ shown, shown = hart.set .sp next := ⟨_, rfl⟩
  have taken : hart.exec (.lw .sp 0 .a1) = shown := by
    rw [shownEq, ← found]
    simp only [Hart.exec, Nat.add_zero, Nat.mod_eq_of_lt nextWord]
  have shownSp : shown.regs .sp = next := by simp [shownEq, Hart.set]
  have shownMem : shown.mem = hart.mem := by simp [shownEq, Hart.set]
  have loadRoom : ∀ slot ∈ switchFrame, shown.regs .sp + 4 * slot.2 < wordLimit := by
    intro slot member
    have place := switchFrame_place member
    omega
  obtain ⟨_, _, loaded, unloaded⟩ := Hart.line_load (by decide) (by decide) loadRoom
  have whole : hart.line resumeLine =
      ((shown.line switchFrame.load).exec (.addi .sp .sp (13 * 4))).exec .ret := by
    rw [resumeLine, List.cons_append, Hart.line_cons, taken, Hart.line_append, Hart.line_cons,
      Hart.line_cons, Hart.line_nil]
  generalize shown.line switchFrame.load = full at *
  have sp : full.regs .sp = next := by rw [unloaded .sp (by decide), shownSp]
  have up : full.exec (.addi .sp .sp (13 * 4)) = full.set .sp (next + 13 * 4) := by
    have fits : full.regs .sp + 13 * 4 < wordLimit := by omega
    rw [← sp]
    exact exec_addi_pos fits
  -- Every register of the frame has the word that was saved for it.
  have registers : ∀ slot ∈ switchFrame, full.regs slot.1 = regs slot.1 := by
    intro slot member
    rw [loaded slot member, shownSp, shownMem]
    exact framed slot member
  rw [whole, up]
  refine ⟨?_, ?_, ?_⟩
  · have ra := registers (.ra, 0) (by decide)
    simpa [Hart.exec, Hart.set] using ra
  · intro slot member
    simpa [Hart.exec, Hart.set, switchFrame_ne_sp member] using registers slot member
  · simp [Hart.exec, Hart.set]

/--
A context switch leaves a frame below the stack pointer and resumes the frame it is shown.

The place for the old stack pointer lies outside the new frame. The frame that is resumed is looked
up in memory as the save left it, so it may be the very frame that was saved.
-/
theorem line_switch (hart : Hart) (room : 13 * 4 ≤ hart.regs .sp)
    (word : hart.regs .sp < wordLimit) (prevWord : hart.regs .a0 < wordLimit)
    (nextWord : hart.regs .a1 < wordLimit)
    (outside : hart.regs .a0 < hart.regs .sp - 13 * 4 ∨ hart.regs .sp ≤ hart.regs .a0) :
    (hart.line switchLine).csrs = hart.csrs ∧
    switchFrame.At (hart.line switchLine).mem (hart.regs .sp - 13 * 4) hart.regs ∧
    (hart.line switchLine).mem (hart.regs .a0) = hart.regs .sp - 13 * 4 ∧
    (∀ a, a ≠ hart.regs .a0 → (a < hart.regs .sp - 13 * 4 ∨ hart.regs .sp ≤ a) →
      (hart.line switchLine).mem a = hart.mem a) ∧
    ∀ next regs, (hart.line switchLine).mem (hart.regs .a1) = next → next + 13 * 4 < wordLimit →
      switchFrame.At (hart.line switchLine).mem next regs →
      Resumed (hart.line switchLine) regs (next + 13 * 4) := by
  -- Resuming sees memory as leaving has left it.
  obtain ⟨leftCsrs, leftRegs, framed, left, unchanged⟩ := line_leave room word prevWord outside
  rw [switchLine, Hart.line_append]
  generalize hart.line leaveLine = parted at *
  obtain ⟨mem, csrs⟩ := line_resume_frame parted
  have sameNext : parted.regs .a1 = hart.regs .a1 := leftRegs .a1 (by decide)
  rw [mem, csrs]
  refine ⟨leftCsrs, framed, left, unchanged, ?_⟩
  intro next regs found top resumes
  rw [← sameNext] at nextWord found
  exact line_resume nextWord found top resumes

/-- In a table of contexts of which one was changed, the others are as before. -/
theorem getElem?_modify_some {α : Type} {contexts : List α} {change : α → α} {i j : Nat}
    {context : α} (found : (contexts.modify i change)[j]? = some context) :
    ∃ old, contexts[j]? = some old ∧ (j = i ∧ context = change old ∨ j ≠ i ∧ context = old) := by
  rw [List.getElem?_modify] at found
  obtain ⟨old, was, becomes⟩ := Option.map_eq_some_iff.mp found
  refine ⟨old, was, ?_⟩
  -- Only the entry at that index was changed.
  by_cases here : i = j
  · rw [if_pos here] at becomes
    exact .inl ⟨here.symm, becomes.symm⟩
  · rw [if_neg here] at becomes
    exact .inr ⟨Ne.symm here, becomes.symm⟩

end Os1k.Riscv
