import Os1k.Lib.Oblivious

/-! Machine words of the 32-bit target, and the ways a Rust kernel stops. -/

namespace Os1k

/-- Failures the allocator reports to its caller. -/
inductive MemError where
  | outOfMemory
  | zeroSize
  deriving DecidableEq, Repr

/-- The operators whose results may leave the word range. -/
inductive Operator where
  | add
  | subtract
  | multiply
  | shiftLeft
  deriving DecidableEq, Repr

/-- Reasons for which the kernel stops for good. -/
inductive Fault where
  /-- An overflow that the development profile checks for. -/
  | overflow (operator : Operator)
  | divideByZero
  /-- A slice index at or past the length. -/
  | sliceIndex (index len : Nat)
  /-- One of the four addresses `Memory::new` expects is missing. -/
  | noAllocMemStart
  | noAllocMemEnd
  | noRamStart
  | noRamEnd
  /-- The bootstrap allocator ran out of its reserved region. -/
  | initialAlloc (error : MemError)
  /-- The next power of two does not fit a word. -/
  | hugeRequest
  | notAllocated (index : Nat)
  | notSplit (index : Nat)
  | zeroSized
  | tooLarge
  /-- An `unwrap` of a failed allocation. -/
  | unwrapError (error : MemError)
  /-- An `unwrap` of the null pointer. -/
  | unwrapNone
  | vecIndex
  | unalignedVaddr (vaddr : Nat)
  | unalignedPaddr (paddr : Nat)
  | noFreeSlot
  /-- A loop was cut off while it still had turns to make. -/
  | fuel
  deriving DecidableEq, Repr

/-- The width of `usize` on the target. -/
def usizeBits : Nat := 32

/-- One more than the largest word. -/
def wordLimit : Nat := 2 ^ usizeBits

/-- The build profile decides what an arithmetic overflow does. -/
inductive Profile where
  /-- Overflow panics. -/
  | dev
  /-- Overflow wraps around. -/
  | release
  deriving DecidableEq, Repr

namespace Profile

variable {σ : Type}

/-- Bring an exact result into word range, or stop where the profile checks. -/
def fit : Profile → Operator → Int → Exec Fault σ Nat
  | .dev, operator, exact =>
    if 0 ≤ exact ∧ exact < wordLimit then pure exact.toNat else throw (.overflow operator)
  | .release, _, exact => pure (exact % wordLimit).toNat

/-- Word addition. -/
def add (profile : Profile) (a b : Nat) : Exec Fault σ Nat := profile.fit .add (a + b)

/-- Word subtraction. -/
def sub (profile : Profile) (a b : Nat) : Exec Fault σ Nat := profile.fit .subtract (a - b)

/-- Word multiplication. -/
def mul (profile : Profile) (a b : Nat) : Exec Fault σ Nat := profile.fit .multiply (a * b)

/-- The method `usize::pow` at base two. -/
def twoPow (profile : Profile) (exponent : Nat) : Exec Fault σ Nat :=
  profile.fit .multiply (2 ^ exponent)

/-- The word `1 << amount`, where only the shift amount is checked. -/
def oneShl : Profile → Nat → Exec Fault σ Nat
  | .dev, amount => if amount < usizeBits then pure (2 ^ amount) else throw (.overflow .shiftLeft)
  | .release, amount => pure (2 ^ (amount % usizeBits))

/-- Arithmetic looks at no state at all. -/
theorem oblivious_fit {image : σ → σ} (profile : Profile) (operator : Operator) (exact : Int) :
    Exec.Oblivious image (profile.fit operator exact : Exec Fault σ Nat) := by
  cases profile with
  | dev => exact .ite (.pure _) (.throw _)
  | release => exact .pure _

/-- An exact result in word range is the result in either profile. -/
theorem fit_eq (profile : Profile) (operator : Operator) {exact : Int} (low : 0 ≤ exact)
    (high : exact < wordLimit) :
    (profile.fit operator exact : Exec Fault σ Nat) = pure exact.toNat := by
  cases profile with
  | dev => exact if_pos ⟨low, high⟩
  | release =>
    -- Reduction modulo the word limit leaves a word as it is.
    simp only [fit, Int.emod_eq_of_lt low high]

/-- A sum that fits is exact in either profile. -/
theorem add_eq (profile : Profile) {a b : Nat} (fits : a + b < wordLimit) :
    (profile.add a b : Exec Fault σ Nat) = pure (a + b) := by
  unfold add
  rw [profile.fit_eq _ (by omega) (by omega)]
  congr 1

/-- A difference that does not underflow is exact in either profile. -/
theorem sub_eq (profile : Profile) {a b : Nat} (ordered : b ≤ a) (fits : a < wordLimit) :
    (profile.sub a b : Exec Fault σ Nat) = pure (a - b) := by
  unfold sub
  rw [profile.fit_eq _ (by omega) (by omega)]
  congr 1
  omega

/-- A product that fits is exact in either profile. -/
theorem mul_eq (profile : Profile) {a b : Nat} (fits : a * b < wordLimit) :
    (profile.mul a b : Exec Fault σ Nat) = pure (a * b) := by
  unfold mul
  rw [profile.fit_eq _ (by positivity) (by exact_mod_cast fits)]
  congr 1

/-- A result that is returned is the exact one as a word, in either profile. -/
theorem fit_wrap (profile : Profile) {operator : Operator} {exact result : Nat} {state after : σ}
    (ran : EStateM.run (profile.fit operator exact) state = .ok result after) :
    result = exact % wordLimit ∧ after = state := by
  -- With checks a result that is returned is exact, and without them it is reduced.
  cases profile with
  | dev =>
    by_cases word : 0 ≤ (exact : Int) ∧ (exact : Int) < wordLimit
    · simp only [fit, if_pos word, EStateM.run_pure, EStateM.Result.ok.injEq] at ran
      obtain ⟨rfl, rfl⟩ := ran
      have small : exact < wordLimit := by exact_mod_cast word.2
      rw [Int.toNat_natCast, Nat.mod_eq_of_lt small]
      exact ⟨rfl, rfl⟩
    · simp only [fit, if_neg word] at ran
      exact absurd ran nofun
  | release =>
    simp only [fit, EStateM.run_pure, EStateM.Result.ok.injEq] at ran
    obtain ⟨rfl, rfl⟩ := ran
    rw [← Int.natCast_emod, Int.toNat_natCast]
    exact ⟨rfl, rfl⟩

/-- A sum that is returned is the exact one as a word. -/
theorem add_wrap (profile : Profile) {a b sum : Nat} {state after : σ}
    (ran : EStateM.run (profile.add a b) state = .ok sum after) :
    sum = (a + b) % wordLimit ∧ after = state := by
  rw [add, ← Int.natCast_add] at ran
  exact profile.fit_wrap ran

/-- A product that is returned is the exact one as a word. -/
theorem mul_wrap (profile : Profile) {a b product : Nat} {state after : σ}
    (ran : EStateM.run (profile.mul a b) state = .ok product after) :
    product = a * b % wordLimit ∧ after = state := by
  rw [mul, ← Int.natCast_mul] at ran
  exact profile.fit_wrap ran

/-- A power of two below the word limit is exact in either profile. -/
theorem twoPow_eq (profile : Profile) {exponent : Nat} (fits : exponent < usizeBits) :
    (profile.twoPow exponent : Exec Fault σ Nat) = pure (2 ^ exponent) := by
  -- No power below the width of a word reaches the limit.
  have bound : 2 ^ exponent < wordLimit := Nat.pow_lt_pow_right (by omega) fits
  unfold twoPow
  rw [profile.fit_eq _ (by positivity) (by exact_mod_cast bound)]
  congr 1

/-- A shift by less than the word width is exact in either profile. -/
theorem oneShl_eq (profile : Profile) {amount : Nat} (fits : amount < usizeBits) :
    (profile.oneShl amount : Exec Fault σ Nat) = pure (2 ^ amount) := by
  cases profile with
  | dev => exact if_pos fits
  | release => simp only [oneShl, Nat.mod_eq_of_lt fits]

end Profile

/-- A non-null pointer advanced by a byte count, as the hardware adds. -/
def pointerAdd (pointer count : Nat) : Nat := (pointer + count) % wordLimit

/-- A pointer that stays in the address space is advanced exactly. -/
theorem pointerAdd_eq {pointer count : Nat} (fits : pointer + count < wordLimit) :
    pointerAdd pointer count = pointer + count := Nat.mod_eq_of_lt fits

end Os1k
