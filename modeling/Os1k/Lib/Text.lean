import Mathlib.Data.UInt
import Mathlib.Tactic

/-! Texts that end with a zero byte, in memory of which only some bytes may be accessed. -/

namespace Os1k.Text

/-- The bytes that may be accessed, by their addresses. -/
abbrev Memory := Nat → Option UInt8

/-- The bytes of a string literal, which has no characters beyond those of one byte. -/
def bytes (literal : String) : List UInt8 := literal.toList.map Char.toUInt8

/-- A text starts at an address: its bytes, none of them zero, and then a zero byte. -/
def At (mem : Memory) : Nat → List UInt8 → Prop
  | p, [] => mem p = some 0
  | p, b :: text => b ≠ 0 ∧ mem p = some b ∧ At mem (p + 1) text

instance At.decidable (mem : Memory) : ∀ (p : Nat) (text : List UInt8), Decidable (At mem p text)
  | p, [] => inferInstanceAs (Decidable (mem p = some 0))
  | p, b :: text =>
    have := At.decidable mem (p + 1) text
    inferInstanceAs (Decidable (b ≠ 0 ∧ mem p = some b ∧ At mem (p + 1) text))

/-- Memory once some bytes are stored one after the other. -/
def write (mem : Memory) : Nat → List UInt8 → Memory
  | _, [] => mem
  | p, b :: bytes => write (Function.update mem p (some b)) (p + 1) bytes

/-- Memory in which nothing but some bytes may be accessed. -/
def only (p : Nat) (bytes : List UInt8) : Memory := write (fun _ => none) p bytes

/--
What comparing two texts byte by byte comes to.

It is the difference of the first two bytes that differ, where the end of a text counts as zero.
-/
def difference : List UInt8 → List UInt8 → Int
  | [], [] => 0
  | a :: _, [] => a.toNat
  | [], b :: _ => -b.toNat
  | a :: first, b :: second => if a = b then difference first second else a.toNat - b.toNat

variable {mem other : Memory} {p : Nat} {text : List UInt8}

namespace At

/-- A text is its own bytes and the zero byte behind them. -/
theorem congr (holds : At mem p text) (same : ∀ i ≤ text.length, other (p + i) = mem (p + i)) :
    At other p text := by
  -- Behind the first byte there is a text again, which is one byte shorter.
  induction text generalizing p with
  | nil => exact (same 0 (Nat.le_refl 0)).trans holds
  | cons b text ih =>
    obtain ⟨nonzero, first, rest⟩ := holds
    refine ⟨nonzero, (same 0 (Nat.zero_le _)).trans first, ih rest fun i small => ?_⟩
    have next := same (i + 1) (Nat.succ_le_succ small)
    rwa [Nat.add_comm i 1, ← Nat.add_assoc] at next

/-- A text has no zero byte. -/
theorem nonzero (holds : At mem p text) : ∀ b ∈ text, b ≠ 0 := by
  -- Each byte of the text but the terminator is nonzero by definition.
  induction text generalizing p with
  | nil => simp
  | cons b text ih =>
    obtain ⟨nonzero, _, rest⟩ := holds
    intro c member
    rcases List.mem_cons.mp member with rfl | later
    · exact nonzero
    · exact ih rest c later

/-- Behind a text there is a zero byte. -/
theorem stop (holds : At mem p text) : mem (p + text.length) = some 0 := by
  -- The induction is on the text: the zero byte is what is left behind it.
  induction text generalizing p with
  | nil => exact holds
  | cons b text ih =>
    rw [List.length_cons, Nat.add_comm text.length 1, ← Nat.add_assoc]
    exact ih holds.2.2

/-- Memory holds one text at an address. -/
theorem unique {other : List UInt8} (holds : At mem p text) (also : At mem p other) : text = other := by
  -- The induction is on the text, whose first byte is what the other one starts with.
  induction text generalizing p other with
  | nil =>
    cases other with
    | nil => rfl
    | cons c other =>
      have first : some (0 : UInt8) = some c := (Eq.symm holds).trans also.2.1
      exact absurd (Option.some.inj first).symm also.1
  | cons b text ih =>
    obtain ⟨nonzero, here, rest⟩ := holds
    cases other with
    | nil => exact absurd (Option.some.inj (here.symm.trans also)) nonzero
    | cons c other =>
      have first : some b = some c := here.symm.trans also.2.1
      rw [Option.some.inj first, ih rest also.2.2]

end At

/-- Bytes before and behind those that are stored stay as they are. -/
theorem write_other {bytes : List UInt8} {a : Nat} (outside : a < p ∨ p + bytes.length ≤ a) :
    write mem p bytes a = mem a := by
  -- The first byte is stored before the others, and none of them comes to the address.
  induction bytes generalizing mem p with
  | nil => rfl
  | cons b bytes ih =>
    rw [List.length_cons] at outside
    rw [write, ih (by omega), Function.update_of_ne (by omega)]

/-- The bytes that are stored are found where they were stored. -/
theorem write_get {bytes : List UInt8} {i : Nat} (inside : i < bytes.length) :
    write mem p bytes (p + i) = bytes[i]? := by
  -- Later bytes are stored behind, so that the first one stays.
  induction bytes generalizing mem p i with
  | nil => exact absurd inside (Nat.not_lt_zero i)
  | cons b bytes ih =>
    cases i with
    | zero => rw [write, write_other (by omega), Nat.add_zero, Function.update_self]; rfl
    | succ i =>
      rw [write, Nat.add_comm i 1, ← Nat.add_assoc, ih (by simpa using inside), Nat.add_comm 1 i]
      rfl

/-- Storing one byte behind others is storing them all. -/
theorem write_concat (mem : Memory) (p : Nat) (bytes : List UInt8) (b : UInt8) :
    Function.update (write mem p bytes) (p + bytes.length) (some b) = write mem p (bytes ++ [b]) := by
  -- The induction is on the text in front, whose bytes are written first.
  induction bytes generalizing mem p with
  | nil => rfl
  | cons c bytes ih =>
    have past : p + (c :: bytes).length = p + 1 + bytes.length := by
      rw [List.length_cons]
      omega
    rw [List.cons_append, write, write, past]
    exact ih _ _

/-- A text with a zero byte behind it is found where both were stored. -/
theorem at_write (nonzero : ∀ b ∈ text, b ≠ 0) (mem : Memory) (p : Nat) :
    At (write mem p (text ++ [0])) p text := by
  -- Each byte stays when those behind it are stored.
  induction text generalizing mem p with
  | nil => exact Function.update_self p (some 0) mem
  | cons b text ih =>
    refine ⟨nonzero b List.mem_cons_self, ?_, ih (fun c later => nonzero c (by simp [later])) _ _⟩
    rw [List.cons_append, write, write_other (.inl (Nat.lt_succ_self p)), Function.update_self]

/-- Storing takes no byte away from those that may be accessed. -/
theorem write_isSome {a : Nat} (object : (mem a).isSome) (p : Nat) (bytes : List UInt8) :
    (write mem p bytes a).isSome := by
  -- A byte may be accessed as before, or because it was stored.
  induction bytes generalizing mem p with
  | nil => exact object
  | cons b bytes ih =>
    refine ih ?_ _
    by_cases same : a = p
    · rw [same, Function.update_self]
      rfl
    · rwa [Function.update_of_ne same]

/-- The other way round the difference changes its sign. -/
theorem difference_swap (first second : List UInt8) :
    difference second first = -difference first second := by
  -- The first place where the texts differ is the same from both sides.
  induction first generalizing second with
  | nil =>
    cases second with
    | nil => rfl
    | cons b second => simp [difference]
  | cons a first ih =>
    cases second with
    | nil => simp [difference]
    | cons b second =>
      by_cases same : a = b
      · simp [difference, same, ih]
      · simp [difference, same, Ne.symm same]

/-- Different bytes have different values. -/
theorem toNat_sub_ne {a b : UInt8} (different : a ≠ b) : (a.toNat : Int) - b.toNat ≠ 0 := by
  intro same
  exact different (UInt8.toNat_inj.mp (by omega))

/-- A byte that is not zero has a positive value. -/
theorem toNat_pos {a : UInt8} (nonzero : a ≠ 0) : 0 < a.toNat := by
  refine Nat.pos_of_ne_zero fun zero => nonzero ?_
  exact UInt8.toNat_inj.mp zero

/-- The difference is negative exactly if the first text comes first in the dictionary. -/
theorem difference_neg_iff {first second : List UInt8} (firstNonzero : ∀ b ∈ first, b ≠ 0)
    (secondNonzero : ∀ b ∈ second, b ≠ 0) : difference first second < 0 ↔ first < second := by
  induction first generalizing second with
  | nil =>
    cases second with
    | nil => simp [difference]
    | cons b second =>
      -- The text that ends first comes first, since no byte of the other is zero.
      have positive := toNat_pos (secondNonzero b List.mem_cons_self)
      simp only [difference, List.nil_lt_cons, iff_true]
      omega
  | cons a first ih =>
    cases second with
    | nil =>
      simp only [difference, List.not_lt_nil, iff_false]
      omega
    | cons b second =>
      rw [List.cons_lt_cons_iff]
      by_cases same : a = b
      · subst same
        have rest := ih (fun c member => firstNonzero c (List.mem_cons_of_mem _ member))
          fun c member => secondNonzero c (List.mem_cons_of_mem _ member)
        simp [difference, rest, UInt8.lt_irrefl]
      · rw [difference, if_neg same, UInt8.lt_iff_toNat_lt]
        simp only [same, false_and, or_false]
        omega

/-- The difference is zero exactly if the texts are the same. -/
theorem difference_eq_zero_iff {first second : List UInt8} (firstNonzero : ∀ b ∈ first, b ≠ 0)
    (secondNonzero : ∀ b ∈ second, b ≠ 0) : difference first second = 0 ↔ first = second := by
  -- As no byte of a text is zero, a text that ends first differs from the other.
  induction first generalizing second with
  | nil =>
    cases second with
    | nil => simp [difference]
    | cons b second =>
      have positive := toNat_pos (secondNonzero b List.mem_cons_self)
      simp only [difference, reduceCtorEq, iff_false]
      omega
  | cons a first ih =>
    cases second with
    | nil =>
      have positive := toNat_pos (firstNonzero a List.mem_cons_self)
      simp only [difference, reduceCtorEq, iff_false]
      omega
    | cons b second =>
      by_cases same : a = b
      · have rest := ih (fun c member => firstNonzero c (List.mem_cons_of_mem _ member))
          fun c member => secondNonzero c (List.mem_cons_of_mem _ member)
        simp [difference, same, rest]
      · simp [difference, same, toNat_sub_ne same]

/-- The difference is not positive exactly if the first text does not come last. -/
theorem difference_le_iff {first second : List UInt8} (firstNonzero : ∀ b ∈ first, b ≠ 0)
    (secondNonzero : ∀ b ∈ second, b ≠ 0) : difference first second ≤ 0 ↔ first ≤ second := by
  rw [← List.not_lt, ← difference_neg_iff secondNonzero firstNonzero, difference_swap]
  omega

end Os1k.Text
