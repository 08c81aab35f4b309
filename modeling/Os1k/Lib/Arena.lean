import Os1k.Lib.Exec

/-! Allocators that hand out one region behind the other, and one that never runs out of numbers. -/

namespace Os1k.Arena

/-- The regions handed out for requests of these sizes, as long as they end at `stop` or before. -/
def handedOut (stop : Nat) : Nat → List Nat → List (Nat × Nat)
  | _, [] => []
  | next, size :: sizes =>
    if next + size ≤ stop then (next, size) :: handedOut stop (next + size) sizes else []

/-- Two regions have nothing in common, the first of them being the lower one. -/
def Before (first second : Nat × Nat) : Prop := first.1 + first.2 ≤ second.1

section Refinement

variable {ε σ : Type} (alloc : Nat → Exec ε σ Nat) (size : Nat → Nat) (refused : ε)
  (given : σ → σ → Nat → Nat → Prop) (stop : Nat)

/--
Calls of an allocator do as the ideal one does.

As long as a region fits, its address is returned in a state where it has been given. The first one
that does not fit is refused, and no call follows.
-/
def Refines : Nat → List Nat → σ → Prop
  | _, [], _ => True
  | next, n :: ns, state =>
    if next + size n ≤ stop then
      ∃ after, (alloc n).run state = .ok next after ∧ given state after next (size n) ∧
        Refines (next + size n) ns after
    else ∃ after, (alloc n).run state = .error refused after

end Refinement

variable {stop next : Nat} {sizes : List Nat}

/-- Regions are handed out from the next address on, and end where memory does or before. -/
theorem handedOut_inRange : ∀ region ∈ handedOut stop next sizes,
    next ≤ region.1 ∧ region.1 + region.2 ≤ stop := by
  -- The next address only grows, so that the bound of a later region is one for the first as well.
  induction sizes generalizing next with
  | nil => exact fun region member => absurd member List.not_mem_nil
  | cons size sizes ih =>
    rw [handedOut]
    split
    · next fits =>
      intro region member
      rcases List.mem_cons.mp member with rfl | later
      · exact ⟨Nat.le_refl _, fits⟩
      · obtain ⟨low, high⟩ := ih region later
        exact ⟨Nat.le_of_add_right_le low, high⟩
    · exact fun region member => absurd member List.not_mem_nil

/-- Each region lies before all that are handed out after it. -/
theorem handedOut_pairwise : (handedOut stop next sizes).Pairwise Before := by
  -- Later regions start where this one ends, or behind that.
  induction sizes generalizing next with
  | nil => exact .nil
  | cons size sizes ih =>
    rw [handedOut]
    split
    · exact .cons (fun region member => (handedOut_inRange region member).1) ih
    · exact .nil

end Os1k.Arena
