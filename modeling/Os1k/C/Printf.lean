import Os1k.C.Strings
import Os1k.Lib.Numeral

/-! The formatted output of `common.c`. -/

namespace Os1k.C

open Numeral (digit fixed numeral)

/-- An argument behind the last named one, which is fetched as the type it was passed as. -/
inductive Arg where
  | pointer (p : Nat)
  | int (value : Int32)
  deriving DecidableEq, Repr

/-- Put one character on the console. -/
def putchar (ch : UInt8) : Exec Undefined Env Unit :=
  modify fun env => { env with out := env.out ++ [ch] }

/-- A result of type `int`, which has to fit that type. -/
def signed (exact : Int) : Exec Undefined Env Int := do
  if exact < -2 ^ 31 ∨ 2 ^ 31 ≤ exact then throw .overflow
  return exact

/-- Divide, rounding towards zero. -/
def divide (value divisor : Int) : Exec Undefined Env Int := do
  if divisor = 0 then throw .divideByZero
  signed (value.tdiv divisor)

/-- The remainder of dividing, which is undefined wherever the quotient is. -/
def remainder (value divisor : Int) : Exec Undefined Env Int := do
  let _ ← divide value divisor
  signed (value.tmod divisor)

/-- A loop that scales an `int` by ten makes fewer turns than an `int` has bits. -/
def scalingTurns : Nat := 32

/-- Multiply the divisor by ten as long as the quotient has more than one digit. -/
def growDivisor : Nat → Int → Int → Exec Undefined Env Int
  | 0, _, _ => throw .loops
  | fuel + 1, value, divisor => do
    if (← divide value divisor) > 9 then
      growDivisor fuel value (← signed (divisor * 10))
    else
      return divisor

/-- Print the digits of a value from the divisor's power of ten down. -/
def peelDigits : Nat → Int → Int → Exec Undefined Env Unit
  | 0, _, _ => throw .loops
  | fuel + 1, value, divisor => do
    if divisor > 0 then
      let code ← signed ('0'.toNat + (← divide value divisor))
      putchar (.ofNat (code % 256).toNat)
      peelDigits fuel (← remainder value divisor) (← divide divisor 10)

/-- What `%d` prints. -/
def putDecimal (value : Int32) : Exec Undefined Env Unit := do
  let mut value := value.toInt
  if value < 0 then
    putchar '-'.toUInt8
    value ← signed (-value)
  let divisor ← growDivisor scalingTurns value 1
  peelDigits scalingTurns value divisor

/-- The digits that `%x` chooses from. -/
def hexDigits : List UInt8 := "0123456789abcdef".toList.map Char.toUInt8

/-- Print so many of the lower nibbles of a value, whose sign is drawn in by each shift. -/
def putNibbles (value : Int32) : Nat → Exec Undefined Env Unit
  | 0 => return ()
  | i + 1 => do
    let nibble := (value.toBitVec.sshiftRight (i * 4) &&& 0xf).toNat
    match hexDigits[nibble]? with
    | some ch => putchar ch
    | none => throw (.access nibble)
    putNibbles value i

/-- What `%x` prints. -/
def putHex (value : Int32) : Exec Undefined Env Unit := putNibbles value 8

/-- Print characters up to a zero byte. -/
def putStringLoop : Nat → Nat → Exec Undefined Env Unit
  | 0, _ => throw .loops
  | fuel + 1, s => do
    let ch ← loadByte s
    if ch ≠ 0 then
      putchar ch
      putStringLoop fuel (s + 1)

/-- What `%s` prints. -/
def putString (s : Nat) : Exec Undefined Env Unit := putStringLoop addressTurns s

/-- Fetch an argument that is a pointer. -/
def pointerArg : List Arg → Exec Undefined Env (Nat × List Arg)
  | .pointer p :: vargs => return (p, vargs)
  | _ => throw .argument

/-- Fetch an argument that is an `int`. -/
def intArg : List Arg → Exec Undefined Env (Int32 × List Arg)
  | .int value :: vargs => return (value, vargs)
  | _ => throw .argument

/-- The cases of the letter behind a percent sign. Others than these print nothing. -/
def conversion (letter : UInt8) (vargs : List Arg) : Exec Undefined Env (List Arg) := do
  if letter = '%'.toUInt8 then
    putchar '%'.toUInt8
    return vargs
  else if letter = 's'.toUInt8 then
    let (s, vargs) ← pointerArg vargs
    putString s
    return vargs
  else if letter = 'd'.toUInt8 then
    let (value, vargs) ← intArg vargs
    putDecimal value
    return vargs
  else if letter = 'x'.toUInt8 then
    let (value, vargs) ← intArg vargs
    putHex value
    return vargs
  else
    return vargs

/-- Print a format from an address on, and return the arguments that are left. -/
def printfLoop : Nat → Nat → List Arg → Exec Undefined Env (List Arg)
  | 0, _, _ => throw .loops
  | fuel + 1, fmt, vargs => do
    let ch ← loadByte fmt
    if ch = 0 then return vargs
    if ch = '%'.toUInt8 then
      let letter ← loadByte (fmt + 1)
      -- A percent sign that ends the format is printed, and its end is not passed.
      if letter = 0 then
        putchar '%'.toUInt8
        return vargs
      let vargs ← conversion letter vargs
      printfLoop fuel (fmt + 2) vargs
    else
      putchar ch
      printfLoop fuel (fmt + 1) vargs

/-- Print a format, and return the arguments that were not fetched. -/
def printf (fmt : Nat) (vargs : List Arg) : Exec Undefined Env (List Arg) :=
  printfLoop addressTurns fmt vargs

/-- More has been put on the console, and nothing else has changed. -/
def Env.printed (env : Env) (text : List UInt8) : Env := { env with out := env.out ++ text }

variable {env : Env}

namespace Env

/-- Printing leaves memory as it is. -/
@[simp] theorem printed_mem (env : Env) (text : List UInt8) : (env.printed text).mem = env.mem := rfl

/-- Printing nothing changes nothing. -/
@[simp] theorem printed_nil (env : Env) : env.printed [] = env := by
  simp [printed]

/-- Texts that are printed one after the other are printed together. -/
@[simp] theorem printed_printed (env : Env) (first second : List UInt8) :
    (env.printed first).printed second = env.printed (first ++ second) := by
  simp [printed]

end Env

/-- A character is printed behind what there is. -/
@[simp] theorem run_putchar (ch : UInt8) : (putchar ch).run env = .ok () (env.printed [ch]) := rfl

/-- A result that fits is the exact one. -/
theorem run_signed {exact : Int} (low : -2 ^ 31 ≤ exact) (high : exact < 2 ^ 31) :
    (signed exact).run env = .ok exact env := by
  have fits : ¬ (exact < -2 ^ 31 ∨ 2 ^ 31 ≤ exact) := by omega
  simp only [signed, if_neg fits]
  rfl

/-- A natural number that fits is the exact result. -/
theorem run_signed_natCast {n : Nat} (small : n < 2 ^ 31) : (signed n).run env = .ok (n : Int) env :=
  run_signed (by omega) (by omega)

/-- Dividing numbers that are not negative is dividing natural numbers. -/
theorem run_divide {n d : Nat} (positive : 0 < d) (small : n < 2 ^ 31) :
    (divide n d).run env = .ok ((n / d : Nat) : Int) env := by
  have nonzero : ¬ ((d : Int) = 0) := by omega
  -- Without a sign, rounding towards zero is rounding down.
  have quotient : ((n : Int)).tdiv d = ((n / d : Nat) : Int) := by
    rw [Int.natCast_div]
    exact Int.tdiv_eq_ediv_of_nonneg (Int.natCast_nonneg n)
  simp only [divide, if_neg nonzero, quotient]
  exact run_signed_natCast (Nat.lt_of_le_of_lt (Nat.div_le_self n d) small)

/-- The remainder of numbers that are not negative is that of natural numbers. -/
theorem run_remainder {n d : Nat} (positive : 0 < d) (small : n < 2 ^ 31) :
    (remainder n d).run env = .ok ((n % d : Nat) : Int) env := by
  -- The quotient is computed as well, since the remainder is undefined without it.
  have rest : ((n : Int)).tmod d = ((n % d : Nat) : Int) := by
    rw [Int.natCast_emod]
    exact Int.tmod_eq_emod_of_nonneg (Int.natCast_nonneg n)
  rw [remainder, EStateM.run_bind, run_divide positive small]
  simp only [rest]
  exact run_signed_natCast (Nat.lt_of_le_of_lt (Nat.mod_le n d) small)

/-- The divisor grows to the highest power of ten that the value reaches. -/
theorem run_growDivisor {n : Nat} (small : n < 2 ^ 31) (fuel start : Nat)
    (reached : start = 0 ∨ 10 ^ start ≤ n) (enough : n < 10 ^ (start + fuel + 1)) :
    ∃ width, (growDivisor (fuel + 1) n (10 ^ start : Nat)).run env = .ok ((10 ^ width : Nat) : Int) env ∧
      n < 10 ^ (width + 1) ∧ (width = 0 ∨ 10 ^ width ≤ n) := by
  -- The induction is on the turns left, and the divisor is a power of ten in each of them.
  induction fuel generalizing start with
  | zero =>
    -- Without turns left the quotient is a digit already.
    have digit : ¬ ((n / 10 ^ start : Nat) : Int) > 9 := by
      rw [Nat.add_zero, Nat.pow_succ] at enough
      have bound := Nat.div_lt_of_lt_mul enough
      omega
    refine ⟨start, ?_, enough, reached⟩
    rw [growDivisor, EStateM.run_bind, run_divide (Nat.pow_pos (by omega)) small]
    simp only [if_neg digit]
    rfl
  | succ fuel ih =>
    by_cases digit : n / 10 ^ start ≤ 9
    · have high : n < 10 ^ (start + 1) := by
        rw [Nat.pow_succ]
        exact (Nat.div_lt_iff_lt_mul (Nat.pow_pos (by omega))).mp (by omega) |>.trans_eq (Nat.mul_comm _ _)
      refine ⟨start, ?_, high, reached⟩
      rw [growDivisor, EStateM.run_bind, run_divide (Nat.pow_pos (by omega)) small]
      simp only [if_neg (show ¬ ((n / 10 ^ start : Nat) : Int) > 9 by omega)]
      rfl
    · -- A quotient of two digits leaves room for another factor of ten.
      have more : 10 ^ (start + 1) ≤ n := by
        rw [Nat.pow_succ, Nat.mul_comm]
        exact (Nat.le_div_iff_mul_le (Nat.pow_pos (by omega))).mp (by omega)
      have product : ((10 ^ start : Nat) : Int) * 10 = ((10 ^ (start + 1) : Nat) : Int) := by
        rw [Nat.pow_succ]
        push_cast
        rfl
      have turns : start + 1 + fuel + 1 = start + (fuel + 1) + 1 := by omega
      obtain ⟨width, ran, bounds⟩ := ih (start + 1) (.inr more) (turns ▸ enough)
      refine ⟨width, ?_, bounds⟩
      rw [growDivisor, EStateM.run_bind, run_divide (Nat.pow_pos (by omega)) small]
      simp only [if_pos (show ((n / 10 ^ start : Nat) : Int) > 9 by omega)]
      rw [product, EStateM.run_bind, run_signed_natCast (Nat.lt_of_le_of_lt more small)]
      exact ran

/-- The code of a decimal digit is the byte that is printed for it. -/
theorem digit_code {d : Nat} (small : d < 10) :
    UInt8.ofNat ((('0'.toNat + d : Nat) : Int) % 256).toNat = digit d := by
  interval_cases d <;> rfl

/-- One turn prints the quotient's digit, and goes on with the remainder. -/
theorem run_peelDigits_turn {n d : Nat} (fuel : Nat) (small : n < 2 ^ 31) (positive : 0 < d)
    (fits : d < 2 ^ 31) (single : n / d < 10) :
    (peelDigits (fuel + 1) n d).run env =
      (peelDigits fuel (n % d : Nat) (d / 10 : Nat)).run (env.printed [digit (n / d)]) := by
  have above : (d : Int) > 0 := by omega
  have code : (('0'.toNat : Nat) : Int) + ((n / d : Nat) : Int) = (('0'.toNat + n / d : Nat) : Int) := by
    rw [Int.natCast_add]
  have bound : '0'.toNat + n / d < 2 ^ 31 := by
    rw [show '0'.toNat = 48 from rfl]
    omega
  -- The character, the remainder and the next divisor are computed in this order.
  rw [peelDigits, if_pos above, EStateM.run_bind, run_divide positive small]
  simp only [code]
  rw [EStateM.run_bind, run_signed_natCast bound]
  simp only [digit_code single]
  rw [EStateM.run_bind, run_putchar]
  simp only
  rw [EStateM.run_bind, run_remainder positive small]
  simp only
  rw [EStateM.run_bind, show (10 : Int) = ((10 : Nat) : Int) from rfl, run_divide (by omega) fits]

/-- Each digit from the divisor's power of ten down is printed. -/
theorem run_peelDigits {n fuel width : Nat} (small : n < 2 ^ 31) (power : 10 ^ width < 2 ^ 31)
    (high : n < 10 ^ (width + 1)) (enough : width + 1 < fuel) :
    (peelDigits fuel n (10 ^ width : Nat)).run env =
      .ok () (env.printed ((fixed 10 (width + 1) n).map digit)) := by
  have positive : 0 < 10 ^ width := Nat.pow_pos (by omega)
  have single : n / 10 ^ width < 10 := Nat.div_lt_of_lt_mul (by rwa [Nat.pow_succ] at high)
  -- The divisor loses a power in each turn, and is zero behind the last digit.
  induction width generalizing env n fuel with
  | zero =>
    obtain ⟨fuel, rfl⟩ : ∃ left, fuel = left + 1 + 1 := ⟨fuel - 2, by omega⟩
    rw [run_peelDigits_turn _ small positive power single]
    simp [peelDigits, fixed]
  | succ width ih =>
    cases fuel with
    | zero => exact absurd enough (Nat.not_lt_zero _)
    | succ fuel =>
      have shorter : 10 ^ (width + 1) / 10 = 10 ^ width := by
        rw [Nat.pow_succ, Nat.mul_div_cancel _ (by omega)]
      have smaller : 10 ^ width < 10 ^ (width + 1) := Nat.pow_lt_pow_right (by omega) (by omega)
      have rest : n % 10 ^ (width + 1) < 10 ^ (width + 1) := Nat.mod_lt _ positive
      have next : n % 10 ^ (width + 1) / 10 ^ width < 10 :=
        Nat.div_lt_of_lt_mul (by rwa [Nat.pow_succ] at rest)
      rw [run_peelDigits_turn _ small positive power single, shorter,
        ih (rest.trans power) (smaller.trans power) rest (Nat.lt_of_succ_lt_succ enough)
          (Nat.pow_pos (by omega)) next, Env.printed_printed]
      rfl

/-- A number that is not negative is printed as its canonical numeral. -/
theorem run_digits {n : Nat} (small : n < 2 ^ 31) :
    EStateM.run (growDivisor scalingTurns n 1 >>= peelDigits scalingTurns n) env =
      .ok () (env.printed (Numeral.decimal n)) := by
  have enough : n < 10 ^ (0 + 31 + 1) := small.trans (by norm_num)
  obtain ⟨width, ran, high, low⟩ := run_growDivisor small 31 0 (.inl rfl) enough
  -- Ten powers of ten are all that an `int` has room for.
  have narrow : width ≤ 9 := by
    by_contra wide
    have power : 10 ^ 10 ≤ 10 ^ width := Nat.pow_le_pow_right (by omega) (by omega)
    rcases low with rfl | reached
    · omega
    · omega
  have power : 10 ^ width < 2 ^ 31 :=
    (Nat.pow_le_pow_right (by omega) narrow).trans_lt (by norm_num)
  rw [EStateM.run_bind, scalingTurns, show (1 : Int) = ((10 ^ 0 : Nat) : Int) from rfl, ran]
  simp only
  rw [run_peelDigits small power high (by omega), Numeral.decimal_fixed width high low]

/-- Every value but the least is printed as its canonical numeral. -/
theorem run_putDecimal {value : Int32} (negatable : value ≠ Int32.minValue) :
    (putDecimal value).run env = .ok () (env.printed (numeral value.toInt)) := by
  have high := value.toInt_lt
  have low : -2 ^ 31 < value.toInt := by
    refine lt_of_le_of_ne value.le_toInt fun least => negatable ?_
    exact Int32.toInt_inj.mp (least.symm.trans Int32.toInt_minValue.symm)
  -- A value with a sign is printed as the sign and its negative, which is an `int` as well.
  by_cases negative : value.toInt < 0
  · obtain ⟨n, same⟩ := Int.eq_ofNat_of_zero_le (a := -value.toInt) (by omega)
    have opposite : value.toInt = -n := by omega
    rw [opposite, Numeral.numeral_neg (by omega)]
    simp only [putDecimal, if_pos negative]
    rw [EStateM.run_bind, run_putchar]
    simp only [same]
    rw [EStateM.run_bind, run_signed_natCast (by omega)]
    simp only
    rw [run_digits (by omega), Env.printed_printed]
    rfl
  · obtain ⟨n, same⟩ := Int.eq_ofNat_of_zero_le (Int.not_lt.mp negative)
    simp only [putDecimal, if_neg negative]
    rw [same, Numeral.numeral_natCast]
    exact run_digits (by omega)

/-- The least value has no negative, so that printing it is undefined. -/
theorem run_putDecimal_minValue :
    (putDecimal Int32.minValue).run env = .error .overflow (env.printed ['-'.toUInt8]) := by
  have negative : Int32.minValue.toInt < 0 := by decide
  -- Its sign has been printed by then.
  have overflow : -Int32.minValue.toInt < -2 ^ 31 ∨ 2 ^ 31 ≤ -Int32.minValue.toInt := by decide
  simp only [putDecimal, if_pos negative]
  rw [EStateM.run_bind, run_putchar]
  simp only [signed, if_pos overflow]
  rfl

/--
Printing an `int` as a decimal number works for every value that can be negated, and for no other.

That it works says that the loops end, that nothing is divided by zero, that every intermediate value
fits an `int`, and that what is printed is the canonical numeral.
-/
theorem putDecimal_canonical (env : Env) (value : Int32) :
    (putDecimal value).run env = .ok () (env.printed (numeral value.toInt)) ↔
      value ≠ Int32.minValue := by
  -- What the code does with the least value is known, and it is not to return.
  constructor
  · rintro ran rfl
    rw [run_putDecimal_minValue] at ran
    exact absurd ran (by simp)
  · exact run_putDecimal

/-- The least value is not printed. -/
theorem putDecimal_least : ¬ ∀ env value,
    (putDecimal value).run env = .ok () (env.printed (numeral value.toInt)) := by
  intro prints
  have ran := prints ⟨fun _ => none, []⟩ Int32.minValue
  -- Negating it overflows.
  rw [run_putDecimal_minValue] at ran
  exact absurd ran (by simp)

end Os1k.C
