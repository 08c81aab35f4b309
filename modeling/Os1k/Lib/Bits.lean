import Mathlib.Data.Nat.Bitwise
import Mathlib.Tactic.Common

/-! Copying the set bits of a number downwards, by shifts that double the copied distance. -/

namespace Os1k.Bits

/-- Every bit of `y` says whether `x` has a bit set at most `reach - 1` positions higher. -/
def Filled (reach x y : Nat) : Prop :=
  ∀ j, y.testBit j = true ↔ ∃ up < reach, x.testBit (j + up) = true

/-- A number fills itself over no distance. -/
theorem Filled.start (x : Nat) : Filled 1 x x := by
  -- The only distance below one is zero.
  intro j
  constructor
  · intro set
    exact ⟨0, by omega, by simpa using set⟩
  · rintro ⟨up, near, set⟩
    have : up = 0 := by omega
    subst this
    simpa using set

/-- Or-ing in a copy shifted by the distance already covered doubles that distance. -/
theorem Filled.double {reach x y : Nat} (filled : Filled reach x y) :
    Filled (2 * reach) x (y ||| y >>> reach) := by
  intro j
  simp only [Nat.testBit_or, Nat.testBit_shiftRight, Bool.or_eq_true, filled j,
    filled (reach + j)]
  constructor
  · -- The near half was covered already, and the shifted copy covers the far half.
    rintro (⟨up, near, set⟩ | ⟨up, near, set⟩)
    · exact ⟨up, by omega, set⟩
    · exact ⟨reach + up, by omega, by rw [← set]; congr 1; omega⟩
  · rintro ⟨up, near, set⟩
    rcases Nat.lt_or_ge up reach with close | far
    · exact .inl ⟨up, close, set⟩
    · exact .inr ⟨up - reach, by omega, by rw [← set]; congr 1; omega⟩

/-- Once the distance spans the whole number, every bit below the highest set one is set. -/
theorem Filled.eq_ones {reach x y : Nat} (filled : Filled reach x y) (nonzero : x ≠ 0)
    (bound : x < 2 ^ reach) : y = 2 ^ (Nat.log2 x + 1) - 1 := by
  apply Nat.eq_of_testBit_eq
  intro j
  rw [Bool.eq_iff_iff, filled j, Nat.testBit_two_pow_sub_one, decide_eq_true_iff]
  have short : Nat.log2 x < reach := (Nat.log2_lt nonzero).mpr bound
  constructor
  · -- A set bit at or above this position cannot lie above the highest set bit.
    rintro ⟨up, _, set⟩
    have := Nat.ge_two_pow_of_testBit set
    have : j + up ≤ Nat.log2 x := (Nat.le_log2 nonzero).mpr this
    omega
  · -- The highest set bit itself is within reach.
    intro below
    refine ⟨Nat.log2 x - j, by omega, ?_⟩
    rw [show j + (Nat.log2 x - j) = Nat.log2 x by omega]
    exact Nat.testBit_log2 nonzero

end Os1k.Bits
