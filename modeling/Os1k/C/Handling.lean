import Os1k.C.Yield

/-! What a trap of the C kernel does on the kernel stack of the process that took it. -/

namespace Os1k.C

open Riscv

variable {code : Compiled} {layout : Layout} {p : Nat} {hart : Hart}

namespace Control

variable {call : Option Call} (control : Control code layout p hart call)

include control

/-- A hart at a point of the handlers is in the middle of a trap. -/
theorem handles {point : Point} (here : code.point hart.pc = some point) :
    ∃ last, call = some last ∧ Active code layout p point hart.regs hart.mem last := by
  -- The other places that control goes through are not points.
  cases control with
  | start entry =>
    rw [entry, code.entryPoint] at here
    exact absurd here nofun
  | entering _ entry =>
    rw [entry, code.handlePoint] at here
    exact absurd here nofun
  | leaving _ exit =>
    rw [exit, code.leavePoint] at here
    exact absurd here nofun
  | @handling last found made there active =>
    rw [there, Option.some.injEq] at here
    exact ⟨last, made, here ▸ active⟩

/-- A hart at the handler has just taken a trap. -/
theorem enters (here : hart.pc = code.handleTrap) :
    ∃ last, call = some last ∧ last.received = none ∧ hart.csrs .sepc = last.pc ∧
      hart.regs .ra = code.afterCall ∧ hart.regs .a0 = layout.top p - trapFrameSize ∧
      hart.regs .sp = layout.top p - trapFrameSize ∧
      Framed hart.mem (layout.top p - trapFrameSize) last.regs := by
  -- The handler's own address is none of the other places.
  cases control with
  | start entry => exact absurd (entry.symm.trans here) code.entryHandle
  | leaving _ exit => exact absurd (here.symm.trans exit) code.handleLeave
  | handling _ there _ =>
    rw [here, code.handlePoint] at there
    exact absurd there nofun
  | @entering last made _ sepc ra a0 sp framed received =>
    exact ⟨last, made, received, sepc, ra, a0, sp, framed⟩

/-- A hart that goes on after the handler has the trap frame, and what the program is to have. -/
theorem leaves (here : hart.pc = code.afterCall) :
    ∃ last, call = some last ∧ hart.csrs .sepc = (last.pc + 4) % wordLimit ∧
      hart.regs .sp = layout.top p - trapFrameSize ∧
      Framed hart.mem (layout.top p - trapFrameSize) last.restored ∧
      (last.received ≠ none ↔ last.regs .a3 = sysGetchar) := by
  -- The place behind the call is none of the other places either.
  cases control with
  | start entry => exact absurd (entry.symm.trans here) code.entryLeave
  | entering _ entry => exact absurd (entry.symm.trans here) code.handleLeave
  | handling _ there _ =>
    rw [here, code.leavePoint] at there
    exact absurd there nofun
  | @leaving last made _ sepc sp framed received => exact ⟨last, made, sepc, sp, framed, received⟩

end Control

/-- The registers in the frame are those at the trap until something is received. -/
theorem Call.restored_eq {call : Call} (pending : call.received = none) :
    call.restored = call.regs := by
  rw [Call.restored, pending]

/-- The trap frame of a process is not written by its handlers. -/
theorem Framed.handler {mem other : Nat → Nat} {regs : Reg → Nat}
    (framed : Framed mem (layout.top p - trapFrameSize) regs) (inside : p < layout.procNoMax)
    (writes : ∀ a, other a ≠ mem a → layout.HandlerWrites p a) :
    Framed other (layout.top p - trapFrameSize) regs := by
  have size : trapFrameSize = 124 := rfl
  have top := layout.top_eq p
  refine framed.congr fun o small => ?_
  -- A word of the frame that changed would be one that handlers write.
  by_contra changed
  have shift : layout.top p - trapFrameSize + o = layout.slot p + (8208 - trapFrameSize + o) := by
    omega
  have written := writes _ changed
  rw [shift] at written
  exact Layout.not_writes_own inside (by omega) (.inr (by omega)) written

/-- Compiled code that arrives at a point with the values of a trap goes on with that trap. -/
theorem Arrives.active {before after : Hart} {point : Point} {values : Local → Nat} {base : Nat}
    {call : Call} (arrives : Arrives layout p before after point values base)
    (inside : p < layout.procNoMax) (userPc : values .userPc = call.pc)
    (frame : values .frame = layout.top p - trapFrameSize)
    (retAddr : values .retAddr = code.afterCall) (bottom : base = layout.top p - trapFrameSize)
    (framed : Framed before.mem (layout.top p - trapFrameSize) call.restored)
    (received : point.stage = .received ↔ call.received ≠ none)
    (sysno : ∀ n, point.stage.sysno = some n → call.regs .a3 = n)
    (getchar : point.stage = .received → call.regs .a3 = sysGetchar) :
    Active code layout p point after.regs after.mem call := by
  -- The values of the trap are now where the next point has its variables.
  refine ⟨?_, ?_, ?_, ?_, arrives.room, framed.handler inside arrives.mem, received, sysno, getchar⟩
  · rw [arrives.locals, userPc]
  · rw [arrives.locals, frame]
  · rw [arrives.locals, retAddr]
  · rw [arrives.sp, bottom]

namespace Active

variable {point next : Point} {after : Hart} {call : Call}

/-- The system call number that a handler reads is the one of the trap. -/
theorem number (active : Active code layout p point hart.regs hart.mem call) :
    hart.mem (point.value hart.regs hart.mem .frame + 4 * 13) = call.regs .a3 := by
  -- The number was passed in `a3`, which is the fourteenth word of the frame.
  have saved := active.framed.saved (.a3, 13) (by decide)
  rw [active.frame, saved]
  -- Only the first argument is overwritten in the frame.
  unfold Call.restored
  cases call.received with
  | none => rfl
  | some ch => exact Function.update_of_ne (by decide) _ _

/-- A handler that works on, or learns which system call it is to do, is still in its trap. -/
theorem work (active : Active code layout p point hart.regs hart.mem call)
    (inside : p < layout.procNoMax)
    (stage : next.stage = point.stage ∨ (point.stage = .entered ∧ next.stage.sysno =
      some (hart.mem (point.value hart.regs hart.mem .frame + 4 * 13))))
    (arrives : Arrives layout p hart after next (point.value hart.regs hart.mem)
      (hart.regs .sp + point.depth)) :
    Active code layout p next after.regs after.mem call := by
  -- The number in the frame is the one of the trap, so the choice is right.
  rw [active.number] at stage
  refine arrives.active inside active.userPc active.frame active.retAddr active.sp active.framed
    ?_ ?_ ?_
  · rcases stage with same | ⟨entered, decided⟩
    · rw [same]
      exact active.received
    · have before := active.received
      rw [entered] at before
      -- No system call number belongs to the stage in which a character was received.
      have late : next.stage ≠ .received := by
        intro received
        rw [received] at decided
        exact absurd decided nofun
      exact iff_of_false late fun got => absurd (before.mpr got) nofun
  · -- A stage that is kept had its number before, and a new one was read from the frame.
    intro n named
    rcases stage with same | ⟨_, decided⟩
    · exact active.sysno n (same ▸ named)
    · rw [decided, Option.some.injEq] at named
      exact named
  · -- Only a stage that is kept can be the one after receiving.
    intro received
    rcases stage with same | ⟨_, decided⟩
    · exact active.getchar (same ▸ received)
    · rw [received] at decided
      exact absurd decided nofun

/-- A handler that polls has received nothing yet. -/
theorem unanswered (active : Active code layout p point hart.regs hart.mem call)
    (stage : point.stage ≠ .received) : call.received = none := by
  by_contra got
  exact stage (active.received.mpr got)

/-- A handler that receives a character puts it in place of the first argument. -/
theorem receive (active : Active code layout p point hart.regs hart.mem call)
    (inside : p < layout.procNoMax) (polling : point.stage = .getchar)
    (stage : next.stage = .received) {ch : Nat}
    (arrives : Arrives layout p
      { hart with
        mem := Function.update hart.mem (point.value hart.regs hart.mem .frame + 4 * 10) ch }
      after next (point.value hart.regs hart.mem) (hart.regs .sp + point.depth)) :
    Active code layout p next after.regs after.mem { call with received := some ch } := by
  -- A handler that polls serves a call that reads, and has no character so far.
  have pending : call.received = none := active.unanswered (by rw [polling]; exact nofun)
  have number : call.regs .a3 = sysGetchar := active.sysno _ (by rw [polling]; rfl)
  refine arrives.active inside active.userPc active.frame active.retAddr active.sp ?_ ?_ ?_ ?_
  · -- The character takes the place of `a0` in the frame.
    have framed := active.framed.update ch
    rw [Call.restored_eq pending] at framed
    rw [active.frame]
    exact framed
  · rw [stage]
    exact iff_of_true rfl nofun
  · intro n named
    rw [stage] at named
    exact absurd named nofun
  · exact fun _ => number

end Active

end Os1k.C
