import Os1k.Lib.Bits
import Os1k.Mem.Memory

/-! How the allocator rounds a request up to a power of two. -/

namespace Os1k

/-- The widths that a machine word has on the targets that the cascade is compiled for. -/
def WordWidth (bits : Nat) : Prop := bits = 32 ∨ bits = 64

/-- The target has words of one of these widths. -/
theorem wordWidth_usize : WordWidth usizeBits := .inl rfl

/-- The shift cascade fills every bit below the highest set one. -/
theorem nextPowerOfTwo_cascade {bits n : Nat} (width : WordWidth bits) (big : 1 < n)
    (fits : n ≤ 2 ^ (bits - 1)) :
    nextPowerOfTwo bits n = some (2 ^ (Nat.log2 (n - 1) + 1)) := by
  have positive : 0 < 2 ^ (Nat.log2 (n - 1) + 1) := Nat.two_pow_pos _
  -- Five doublings reach across thirty-two bits, and the sixth across all sixty-four.
  have short := (Bits.Filled.start (n - 1)).double.double.double.double.double
  rcases width with rfl | rfl
  · have ones := short.eq_ones (by omega) (by omega)
    simp only [Nat.reduceMul] at ones
    simp only [nextPowerOfTwo, if_neg (by omega : ¬ n = 0),
      if_neg (by omega : ¬ (2 ^ 32 - 1) / 2 + 1 < n), if_neg (by decide : ¬ 32 = 64), ones]
    congr 1
    omega
  · have ones := short.double.eq_ones (by omega) (by omega)
    simp only [Nat.reduceMul] at ones
    simp only [nextPowerOfTwo, if_neg (by omega : ¬ n = 0),
      if_neg (by omega : ¬ (2 ^ 64 - 1) / 2 + 1 < n), if_true, ones]
    congr 1
    omega

/-- A number is rounded up to a power of two less than twice as large. -/
theorem nextPowerOfTwo_spec {bits n : Nat} (width : WordWidth bits) (positive : 0 < n)
    (fits : n ≤ 2 ^ (bits - 1)) :
    ∃ order ≤ bits - 1, nextPowerOfTwo bits n = some (2 ^ order) ∧ n ≤ 2 ^ order ∧
      2 ^ order < 2 * n := by
  rcases Nat.eq_or_lt_of_le positive with one | big
  · -- One is already a power of two.
    refine ⟨0, by omega, ?_, by omega, by omega⟩
    rw [← one]
    rcases width with rfl | rfl
    · decide
    · decide
  · have bounds : 2 ^ Nat.log2 (n - 1) ≤ n - 1 ∧ n - 1 < 2 ^ (Nat.log2 (n - 1) + 1) :=
      ⟨Nat.log2_self_le (by omega), Nat.lt_log2_self⟩
    have short : Nat.log2 (n - 1) < bits - 1 := (Nat.log2_lt (by omega)).mpr (by omega)
    refine ⟨Nat.log2 (n - 1) + 1, by omega, nextPowerOfTwo_cascade width big fits, by omega, ?_⟩
    rw [Nat.pow_succ]
    omega

/-- Above the largest power of two of a word there is nothing to round up to. -/
theorem nextPowerOfTwo_none {bits n : Nat} (width : WordWidth bits) (large : 2 ^ (bits - 1) < n) :
    nextPowerOfTwo bits n = none := by
  unfold nextPowerOfTwo
  -- The bound of the source is evaluated at each of the two widths.
  rcases width with rfl | rfl
  · rw [if_neg (by omega), if_pos (by omega)]
  · rw [if_neg (by omega), if_pos (by omega)]

/-- A power of two less than twice a number is the least one that is not below the number. -/
theorem two_pow_le_of_tight {n order other : Nat} (tight : 2 ^ order < 2 * n)
    (covers : n ≤ 2 ^ other) : 2 ^ order ≤ 2 ^ other := by
  -- Of two powers of two, the larger one is at least twice the smaller one.
  by_contra less
  have orders : other < order := (Nat.pow_lt_pow_iff_right (by omega : 1 < 2)).mp (by omega)
  have half : 2 ^ (other + 1) ≤ 2 ^ order := Nat.pow_le_pow_right (by omega) orders
  rw [Nat.pow_succ] at half
  omega

/--
Rounding up is exact at both widths.

It fails exactly above the largest power of two of a word. Otherwise the result is the least power
of two that is not below the number, which is the number itself if that is a power of two, and the
last addition does not leave the word.
-/
theorem nextPowerOfTwo_exact {bits n : Nat} (width : WordWidth bits) :
    (nextPowerOfTwo bits n = none ↔ 2 ^ (bits - 1) < n) ∧
    (n ≤ 2 ^ (bits - 1) → ∃ order, nextPowerOfTwo bits n = some (2 ^ order) ∧ n ≤ 2 ^ order ∧
      (∀ other, n ≤ 2 ^ other → 2 ^ order ≤ 2 ^ other) ∧ 2 ^ order < 2 ^ bits ∧
      ∀ exponent, n = 2 ^ exponent → order = exponent) := by
  -- A number in range is rounded up, and zero to the first power of two.
  have rounded : n ≤ 2 ^ (bits - 1) → ∃ order ≤ bits - 1, nextPowerOfTwo bits n = some (2 ^ order) ∧
      n ≤ 2 ^ order ∧ ∀ other, n ≤ 2 ^ other → 2 ^ order ≤ 2 ^ other := by
    intro fits
    rcases Nat.eq_zero_or_pos n with rfl | positive
    · refine ⟨0, by omega, rfl, by omega, fun other _ => ?_⟩
      exact Nat.one_le_two_pow
    · obtain ⟨order, small, chosen, covers, tight⟩ := nextPowerOfTwo_spec width positive fits
      exact ⟨order, small, chosen, covers, fun other => two_pow_le_of_tight tight⟩
  refine ⟨⟨fun failed => ?_, nextPowerOfTwo_none width⟩, fun fits => ?_⟩
  · by_contra fits
    obtain ⟨order, _, chosen, _⟩ := rounded (by omega)
    rw [failed] at chosen
    exact absurd chosen nofun
  · obtain ⟨order, small, chosen, covers, least⟩ := rounded fits
    have below : order < bits := by rcases width with rfl | rfl <;> omega
    refine ⟨order, chosen, covers, least, Nat.pow_lt_pow_right (by omega) below, ?_⟩
    rintro exponent rfl
    -- The number is a power of two itself, so nothing smaller and nothing larger is chosen.
    exact Nat.pow_right_injective (Nat.le_refl 2) (Nat.le_antisymm (least exponent (Nat.le_refl _)) covers)

/-- In both widths the largest power of two is its own result, and the number after it has none. -/
theorem nextPowerOfTwo_exact_top :
    (nextPowerOfTwo 32 (2 ^ 31 + 1) = none ∧ ∃ order, nextPowerOfTwo 32 (2 ^ 31) = some (2 ^ order) ∧
      order = 31) ∧
    (nextPowerOfTwo 64 (2 ^ 63 + 1) = none ∧ ∃ order, nextPowerOfTwo 64 (2 ^ 63) = some (2 ^ order) ∧
      order = 63) := by
  refine ⟨⟨(nextPowerOfTwo_exact (.inl rfl)).1.mpr (by decide), ?_⟩,
    (nextPowerOfTwo_exact (.inr rfl)).1.mpr (by decide), ?_⟩
  · -- The largest power that 32 bits hold.
    have fits : 2 ^ 31 ≤ 2 ^ (32 - 1) := by decide
    obtain ⟨order, chosen, _, _, _, same⟩ := (nextPowerOfTwo_exact (.inl rfl)).2 fits
    exact ⟨order, chosen, same 31 rfl⟩
  · -- The largest power that 64 bits hold.
    have fits : 2 ^ 63 ≤ 2 ^ (64 - 1) := by decide
    obtain ⟨order, chosen, _, _, _, same⟩ := (nextPowerOfTwo_exact (.inr rfl)).2 fits
    exact ⟨order, chosen, same 63 rfl⟩

end Os1k
