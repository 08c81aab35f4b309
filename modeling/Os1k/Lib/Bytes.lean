import Mathlib.Tactic

/-! Memory as bytes: words in it, the lowest byte first, and the loop that fills it. -/

namespace Os1k.Bytes

/-- The word at an address. -/
def loadWord (mem : Nat → UInt8) (a : Nat) : Nat :=
  (mem a).toNat + 2 ^ 8 * (mem (a + 1)).toNat + 2 ^ 16 * (mem (a + 2)).toNat +
    2 ^ 24 * (mem (a + 3)).toNat

/-- Store a word at an address. -/
def storeWord (mem : Nat → UInt8) (a word : Nat) : Nat → UInt8 :=
  Function.update (Function.update (Function.update (Function.update mem
    a (.ofNat word)) (a + 1) (.ofNat (word / 2 ^ 8))) (a + 2) (.ofNat (word / 2 ^ 16)))
    (a + 3) (.ofNat (word / 2 ^ 24))

/-- Fill bytes one after another. -/
def memset (mem : Nat → UInt8) (p : Nat) (c : UInt8) : Nat → Nat → UInt8
  | 0 => mem
  | n + 1 => memset (Function.update mem p c) (p + 1) c n

variable {mem other : Nat → UInt8} {a b word : Nat}

/-- A word is made of four bytes. -/
theorem loadWord_congr (same : ∀ i < 4, other (a + i) = mem (a + i)) :
    loadWord other a = loadWord mem a := by
  have first : other a = mem a := same 0 (by omega)
  rw [loadWord, loadWord, first, same 1 (by omega), same 2 (by omega), same 3 (by omega)]

/-- Four zero bytes are a zero word. -/
theorem loadWord_zero (zero : ∀ i < 4, mem (a + i) = 0) : loadWord mem a = 0 := by
  -- Each byte contributes nothing.
  have first : mem a = 0 := zero 0 (by omega)
  rw [loadWord, first, zero 1 (by omega), zero 2 (by omega), zero 3 (by omega)]
  rfl

/-- A word that is stored changes four bytes. -/
theorem storeWord_other (outside : b < a ∨ a + 4 ≤ b) : storeWord mem a word b = mem b := by
  -- None of the four bytes is the one that is read.
  unfold storeWord
  rw [Function.update_of_ne (by omega), Function.update_of_ne (by omega),
    Function.update_of_ne (by omega), Function.update_of_ne (by omega)]

/-- A word is read back as it was stored. -/
theorem loadWord_storeWord (small : word < 2 ^ 32) : loadWord (storeWord mem a word) a = word := by
  have bytes : storeWord mem a word a = .ofNat word ∧
      storeWord mem a word (a + 1) = .ofNat (word / 2 ^ 8) ∧
      storeWord mem a word (a + 2) = .ofNat (word / 2 ^ 16) ∧
      storeWord mem a word (a + 3) = .ofNat (word / 2 ^ 24) := by
    simp [storeWord]
  obtain ⟨first, second, third, fourth⟩ := bytes
  rw [loadWord, first, second, third, fourth]
  -- The bytes are the digits of the word to the base 256.
  simp only [UInt8.toNat_ofNat']
  omega

/-- A word is not changed by another one that is stored beside it. -/
theorem loadWord_storeWord_other (apart : a + 4 ≤ b ∨ b + 4 ≤ a) :
    loadWord (storeWord mem b word) a = loadWord mem a :=
  loadWord_congr fun i small => storeWord_other (by omega)

/-- The bytes that are filled, and those that are not. -/
theorem memset_apply (mem : Nat → UInt8) (p : Nat) (c : UInt8) (n x : Nat) :
    memset mem p c n x = if p ≤ x ∧ x < p + n then c else mem x := by
  -- The induction is on the bytes that are left.
  induction n generalizing mem p with
  | zero =>
    rw [memset, if_neg (by omega)]
  | succ n ih =>
    rw [memset, ih]
    by_cases here : x = p
    · subst here
      rw [if_neg (by omega), if_pos (by omega), Function.update_self]
    · rw [Function.update_of_ne here]
      by_cases inside : p ≤ x ∧ x < p + (n + 1)
      · rw [if_pos (by omega), if_pos inside]
      · rw [if_neg (by omega), if_neg inside]

end Os1k.Bytes
