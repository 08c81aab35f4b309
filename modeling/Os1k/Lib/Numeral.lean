import Mathlib.Data.Nat.Digits.Lemmas
import Mathlib.Tactic

/-! Numerals as bytes: canonical decimal ones, and ones of a fixed number of digits. -/

namespace Os1k.Numeral

/-- The byte of a digit, with letters from ten on. -/
def digit (d : Nat) : UInt8 := d.digitChar.toUInt8

/-- The canonical decimal numeral of a natural number. -/
def decimal (n : Nat) : List UInt8 := (Nat.toDigits 10 n).map Char.toUInt8

/-- The canonical decimal numeral of an integer. -/
def numeral (value : Int) : List UInt8 := value.repr.toList.map Char.toUInt8

/-- So many digits of a number to a base, the most significant first. -/
def fixed (base : Nat) : Nat → Nat → List Nat
  | 0, _ => []
  | width + 1, n => n / base ^ width :: fixed base width (n % base ^ width)

/-- The numeral of a number that is not negative has no sign. -/
theorem numeral_natCast (n : Nat) : numeral n = decimal n := by
  simp [numeral, decimal, Int.repr, Nat.repr]

/-- The numeral of a negative number has a minus sign before its digits. -/
theorem numeral_neg {n : Nat} (positive : 0 < n) : numeral (-n) = '-'.toUInt8 :: decimal n := by
  -- A negative integer is represented by one less than its distance from zero.
  obtain ⟨m, rfl⟩ := Nat.exists_eq_add_of_lt positive
  have negative : -((0 + m + 1 : Nat) : Int) = Int.negSucc m := by omega
  rw [negative]
  simp [numeral, decimal, Int.repr, Nat.repr]

/-- The last digit of a numeral is the remainder, and the others are those of the quotient. -/
theorem decimal_eq (n : Nat) :
    decimal n = if n < 10 then [digit n] else decimal (n / 10) ++ [digit (n % 10)] := by
  rw [decimal, Nat.toDigits_eq_if (by omega)]
  -- The numeral is built from its last digit on.
  split
  · rfl
  · rw [List.map_append]
    rfl

/-- Taking one digit off the end leaves those of the quotient. -/
theorem fixed_concat {base : Nat} (positive : 0 < base) (width n : Nat) :
    fixed base (width + 1) n = fixed base width (n / base) ++ [n % base] ∨ base ^ (width + 1) ≤ n := by
  induction width generalizing n with
  | zero =>
    by_cases small : n < base
    · left
      simp [fixed, Nat.mod_eq_of_lt small]
    · right
      rw [Nat.pow_one]
      exact Nat.not_lt.mp small
  | succ width ih =>
    left
    have power : base ^ (width + 1) = base * base ^ width := Nat.pow_succ'
    have bound : n % base ^ (width + 1) < base ^ (width + 1) :=
      Nat.mod_lt _ (Nat.pow_pos positive)
    -- The first digit is split off on both sides, and the rest is shorter.
    have rest := (ih (n % base ^ (width + 1))).resolve_right (Nat.not_le.mpr bound)
    have quotient : n % base ^ (width + 1) / base = n / base % base ^ width := by
      rw [power, Nat.mod_mul_right_div_self]
    have last : n % base ^ (width + 1) % base = n % base :=
      Nat.mod_mod_of_dvd n (power ▸ Nat.dvd_mul_right base _)
    rw [fixed, rest, quotient, last, fixed, List.cons_append, power, ← Nat.div_div_eq_div_mul]

/-- With no leading zero, the digits of a number are its numeral. -/
theorem decimal_fixed {n : Nat} (width : Nat) (high : n < 10 ^ (width + 1))
    (low : width = 0 ∨ 10 ^ width ≤ n) : decimal n = (fixed 10 (width + 1) n).map digit := by
  induction width generalizing n with
  | zero =>
    rw [Nat.pow_one] at high
    rw [decimal_eq, if_pos high]
    simp [fixed]
  | succ width ih =>
    have large := low.resolve_left (Nat.succ_ne_zero width)
    have power : 10 ^ (width + 1) = 10 * 10 ^ width := Nat.pow_succ'
    have above : 0 < 10 ^ width := Nat.pow_pos (by omega)
    rw [Nat.pow_succ'] at high
    -- Without its last digit the number still has no leading zero.
    have shorter := ih (n := n / 10) (by omega) (.inr (by omega))
    have split := (fixed_concat (by omega : 0 < 10) (width + 1) n).resolve_right (by
      rw [Nat.pow_succ']
      omega)
    rw [decimal_eq, if_neg (by omega), shorter, split, List.map_append]
    rfl

/-- There are as many digits as were asked for. -/
@[simp] theorem fixed_length (base width n : Nat) : (fixed base width n).length = width := by
  induction width generalizing n with
  | zero => rfl
  | succ width ih => rw [fixed, List.length_cons, ih]

/-- Each digit is below the base, if the number has no more digits. -/
theorem fixed_lt {base width n : Nat} (positive : 0 < base) (small : n < base ^ width) :
    ∀ d ∈ fixed base width n, d < base := by
  -- The bound is for the first digit, and the remainder has it for the others.
  induction width generalizing n with
  | zero => simp [fixed]
  | succ width ih =>
    intro d member
    rcases List.mem_cons.mp member with rfl | later
    · refine Nat.div_lt_of_lt_mul ?_
      rwa [Nat.pow_succ] at small
    · exact ih (Nat.mod_lt _ (Nat.pow_pos positive)) d later

/-- The digits of a number have its value, read from the last one on. -/
theorem ofDigits_fixed {base width n : Nat} (positive : 0 < base) (small : n < base ^ width) :
    Nat.ofDigits base (fixed base width n).reverse = n := by
  induction width generalizing n with
  | zero =>
    rw [Nat.pow_zero] at small
    rw [fixed, List.reverse_nil, Nat.ofDigits_nil]
    omega
  | succ width ih =>
    -- Reversed, the first digit comes last and counts for its power of the base.
    have rest := ih (Nat.mod_lt n (Nat.pow_pos positive))
    rw [fixed, List.reverse_cons, Nat.ofDigits_append, List.length_reverse, fixed_length,
      Nat.ofDigits_singleton, rest, Nat.mod_add_div]

end Os1k.Numeral
