import Os1k.Lib.Exec
import Os1k.Lib.Riscv
import Os1k.Lib.Text

/-! The string functions of `common.c`. -/

namespace Os1k.C

open Riscv (wordLimit)

/-- What a C program must not do, and what nothing is known of once it has. -/
inductive Undefined where
  /-- It accessed a byte that belongs to no object. -/
  | access (a : Nat)
  /-- A signed result did not fit its type. -/
  | overflow
  | divideByZero
  /-- It fetched an argument that was not passed, or that has another type. -/
  | argument
  /-- A loop was cut off while it still had turns to make. -/
  | loops
  deriving DecidableEq, Repr

/-- The bytes that a C program may access, and what it has put on the console. -/
structure Env where
  mem : Text.Memory
  out : List UInt8

/-- Read one byte. -/
def loadByte (a : Nat) : Exec Undefined Env UInt8 := do
  match (← get).mem a with
  | some b => return b
  | none => throw (.access a)

/-- Write one byte. -/
def storeByte (a : Nat) (b : UInt8) : Exec Undefined Env Unit := do
  match (← get).mem a with
  | some _ => modify fun env => { env with mem := Function.update env.mem a (some b) }
  | none => throw (.access a)

/-- A loop over addresses makes at most as many turns as there are addresses. -/
def addressTurns : Nat := wordLimit

/-- Copy bytes up to a zero byte, which is not copied. The result is where the copy ends. -/
def strcpyLoop : Nat → Nat → Nat → Exec Undefined Env Nat
  | 0, _, _ => throw .loops
  | fuel + 1, d, src => do
    let ch ← loadByte src
    if ch = 0 then return d
    storeByte d ch
    strcpyLoop fuel (d + 1) (src + 1)

/-- Copy a string, and put a newline behind the copy. -/
def strcpy (dst src : Nat) : Exec Undefined Env Nat := do
  let d ← strcpyLoop addressTurns dst src
  storeByte d '\n'.toUInt8
  return dst

/-- Advance two pointers as long as they meet the same byte, and that is not zero. -/
def strcmpLoop : Nat → Nat → Nat → Exec Undefined Env (Nat × Nat)
  | 0, _, _ => throw .loops
  | fuel + 1, s1, s2 => do
    -- The second string is not read once the first one has ended.
    if (← loadByte s1) = 0 then return (s1, s2)
    if (← loadByte s2) = 0 then return (s1, s2)
    if (← loadByte s1) ≠ (← loadByte s2) then return (s1, s2)
    strcmpLoop fuel (s1 + 1) (s2 + 1)

/-- Compare two strings. -/
def strcmp (s1 s2 : Nat) : Exec Undefined Env Int := do
  let (s1, s2) ← strcmpLoop addressTurns s1 s2
  return (← loadByte s1).toNat - (← loadByte s2).toNat

/-- A string is a text that has addresses of one word. -/
structure CString (mem : Text.Memory) (p : Nat) (text : List UInt8) : Prop where
  holds : Text.At mem p text
  word : p + text.length < wordLimit

variable {env : Env} {a : Nat} {b : UInt8}

/-- A byte of an object is read. -/
theorem run_loadByte (found : env.mem a = some b) : (loadByte a).run env = .ok b env := by
  simp [loadByte, EStateM.run_bind, EStateM.run_get, found]

/-- A byte of an object is written. -/
theorem run_storeByte (object : (env.mem a).isSome) (b : UInt8) :
    (storeByte a b).run env = .ok () { env with mem := Function.update env.mem a (some b) } := by
  obtain ⟨old, found⟩ := Option.isSome_iff_exists.mp object
  simp [storeByte, EStateM.run_bind, EStateM.run_get, found]

/-- Comparing stops where the texts differ first, and reads nothing behind their ends. -/
theorem run_strcmpLoop {first second : List UInt8} {fuel p q : Nat} (one : Text.At env.mem p first)
    (two : Text.At env.mem q second) (turns : first.length < fuel) :
    ∃ s1 s2 c1 c2, (strcmpLoop fuel p q).run env = .ok (s1, s2) env ∧ env.mem s1 = some c1 ∧
      env.mem s2 = some c2 ∧ (c1.toNat : Int) - c2.toNat = Text.difference first second := by
  -- The induction is on the first text, and each turn takes a byte off both.
  induction first generalizing second p q fuel with
  | nil =>
    obtain ⟨fuel, rfl⟩ := Nat.exists_eq_add_of_lt turns
    refine ⟨p, q, 0, ?_⟩
    have ended : (strcmpLoop (([] : List UInt8).length + fuel + 1) p q).run env = .ok (p, q) env := by
      simp [strcmpLoop, EStateM.run_bind, run_loadByte one]
    cases second with
    | nil => exact ⟨0, ended, one, two, rfl⟩
    | cons b second => exact ⟨b, ended, one, two.2.1, by simp [Text.difference]⟩
  | cons a first ih =>
    cases fuel with
    | zero => exact absurd turns (Nat.not_lt_zero _)
    | succ fuel =>
      obtain ⟨nonzero, here, rest⟩ := one
      cases second with
      | nil =>
        refine ⟨p, q, a, 0, ?_, here, two, by simp [Text.difference]⟩
        simp [strcmpLoop, EStateM.run_bind, run_loadByte here, run_loadByte two, nonzero]
      | cons b second =>
        obtain ⟨also, there, remaining⟩ := two
        -- Equal bytes are skipped; the first two that differ decide.
        by_cases same : a = b
        · obtain ⟨s1, s2, c1, c2, ran, found, foundToo, value⟩ :=
            ih rest remaining (by simpa using turns)
          refine ⟨s1, s2, c1, c2, ?_, found, foundToo, ?_⟩
          · rw [← ran]
            simp [strcmpLoop, EStateM.run_bind, run_loadByte here, run_loadByte there, also, same]
          · rw [value, Text.difference, if_pos same]
        · refine ⟨p, q, a, b, ?_, here, there, by rw [Text.difference, if_neg same]⟩
          simp [strcmpLoop, EStateM.run_bind, run_loadByte here, run_loadByte there, nonzero, also,
            same]

/-- Comparing two strings gives the difference of their texts. -/
theorem run_strcmp {first second : List UInt8} {p q : Nat} (one : CString env.mem p first)
    (two : CString env.mem q second) :
    (strcmp p q).run env = .ok (Text.difference first second) env := by
  -- No text that fits in memory has as many bytes as the loop has turns.
  have turns : first.length < addressTurns := Nat.lt_of_le_of_lt (Nat.le_add_left _ _) one.word
  obtain ⟨s1, s2, c1, c2, ran, found, foundToo, value⟩ := run_strcmpLoop one.holds two.holds turns
  rw [strcmp, EStateM.run_bind, ran]
  simp only [EStateM.run_bind, run_loadByte found, run_loadByte foundToo, EStateM.run_pure, value]

/-- Copying goes on up to the zero byte, and writes as many bytes as it has read. -/
theorem run_strcpyLoop {text : List UInt8} {fuel d src : Nat} (source : Text.At env.mem src text)
    (room : ∀ i < text.length, (env.mem (d + i)).isSome)
    (apart : d + text.length ≤ src ∨ src + text.length < d) (turns : text.length < fuel) :
    (strcpyLoop fuel d src).run env =
      .ok (d + text.length) { env with mem := Text.write env.mem d text } := by
  -- The induction is on the text that is still to be copied.
  induction text generalizing env d src fuel with
  | nil =>
    obtain ⟨fuel, rfl⟩ := Nat.exists_eq_add_of_lt turns
    simp [strcpyLoop, EStateM.run_bind, run_loadByte source, Text.write]
  | cons b text ih =>
    cases fuel with
    | zero => exact absurd turns (Nat.not_lt_zero _)
    | succ fuel =>
      rw [List.length_cons] at apart
      obtain ⟨nonzero, here, rest⟩ := source
      have first : (env.mem d).isSome := room 0 (Nat.succ_pos _)
      let stored : Env := { env with mem := Function.update env.mem d (some b) }
      -- The byte that was written is none of those that are still to be read.
      have source : Text.At stored.mem (src + 1) text :=
        rest.congr fun i small => Function.update_of_ne (by omega) _ _
      have next : ∀ i < text.length, (stored.mem (d + 1 + i)).isSome := by
        intro i small
        have later := room (i + 1) (Nat.succ_lt_succ small)
        rw [show d + (i + 1) = d + 1 + i by omega] at later
        rw [show stored.mem (d + 1 + i) = env.mem (d + 1 + i) from
          Function.update_of_ne (by omega) _ _]
        exact later
      have ran := ih source next (by omega) (by simpa using turns)
      have place : d + (b :: text).length = d + 1 + text.length := by
        rw [List.length_cons]
        omega
      rw [strcpyLoop, EStateM.run_bind, run_loadByte here]
      simp only [if_neg nonzero]
      rw [EStateM.run_bind, run_storeByte first]
      rw [place]
      exact ran

/-- A copy is the text and a newline behind it. -/
theorem run_strcpy {text : List UInt8} {dst src : Nat} (source : CString env.mem src text)
    (room : ∀ i ≤ text.length, (env.mem (dst + i)).isSome)
    (apart : dst + text.length < src ∨ src + text.length < dst) :
    (strcpy dst src).run env =
      .ok dst { env with mem := Text.write env.mem dst (text ++ ['\n'.toUInt8]) } := by
  have turns : text.length < addressTurns := Nat.lt_of_le_of_lt (Nat.le_add_left _ _) source.word
  have copied := run_strcpyLoop source.holds (fun i small => room i (Nat.le_of_lt small))
    (apart.imp Nat.le_of_lt id) turns
  let after : Env := { env with mem := Text.write env.mem dst text }
  -- The copy itself does not reach the byte behind it.
  have behind : (after.mem (dst + text.length)).isSome := by
    rw [show after.mem (dst + text.length) = env.mem (dst + text.length) from
      Text.write_other (.inr (Nat.le_refl _))]
    exact room _ (Nat.le_refl _)
  rw [strcpy, EStateM.run_bind, copied]
  simp only
  rw [EStateM.run_bind, run_storeByte behind]
  simp only [EStateM.run_pure, after, Text.write_concat]

/--
Comparing strings is comparing their texts in the order of the dictionary, by unsigned bytes.

Memory may hold nothing but the strings, so that their ends are never passed. The sign changes with
the order of the arguments, and the comparison is transitive.
-/
theorem strcmp_lexicographic {p q r : Nat} {first second third : List UInt8}
    (one : CString env.mem p first) (two : CString env.mem q second)
    (three : CString env.mem r third) :
    ∃ forth back next across : Int,
      (strcmp p q).run env = .ok forth env ∧ (strcmp q p).run env = .ok back env ∧
      (strcmp q r).run env = .ok next env ∧ (strcmp p r).run env = .ok across env ∧
      (forth < 0 ↔ first < second) ∧ (forth = 0 ↔ first = second) ∧ (0 < forth ↔ second < first) ∧
      back.sign = -forth.sign ∧ (forth ≤ 0 → next ≤ 0 → across ≤ 0) := by
  have firstNonzero := one.holds.nonzero
  have secondNonzero := two.holds.nonzero
  have thirdNonzero := three.holds.nonzero
  refine ⟨_, _, _, _, run_strcmp one two, run_strcmp two one, run_strcmp two three,
    run_strcmp one three, Text.difference_neg_iff firstNonzero secondNonzero,
    Text.difference_eq_zero_iff firstNonzero secondNonzero, ?_, ?_, ?_⟩
  · -- The first text comes last exactly if the second one comes first.
    rw [← Text.difference_neg_iff secondNonzero firstNonzero, Text.difference_swap first second]
    omega
  · rw [Text.difference_swap first second, Int.sign_neg]
  · intro before after
    have ordered := Text.difference_le_iff firstNonzero secondNonzero |>.mp before
    have next := Text.difference_le_iff secondNonzero thirdNonzero |>.mp after
    exact (Text.difference_le_iff firstNonzero thirdNonzero).mpr (List.le_trans ordered next)

/-- Memory with three strings in it, and nothing else. -/
def threeStrings : Env := ⟨Text.only 0x1000 [97, 0, 97, 98, 0, 200, 0], []⟩

/-- Of two strings the shorter comes first, and a byte with its highest bit set comes last. -/
theorem strcmp_lexicographic_high : ∃ forth next across : Int,
    (strcmp 0x1000 0x1002).run threeStrings = .ok forth threeStrings ∧ forth < 0 ∧
    (strcmp 0x1002 0x1005).run threeStrings = .ok next threeStrings ∧ next ≤ 0 ∧
    (strcmp 0x1000 0x1005).run threeStrings = .ok across threeStrings ∧ across ≤ 0 := by
  -- The comparison of the second and the third is looked at from two sides.
  have one : CString threeStrings.mem 0x1000 [97] := ⟨by decide, by decide⟩
  have two : CString threeStrings.mem 0x1002 [97, 98] := ⟨by decide, by decide⟩
  have three : CString threeStrings.mem 0x1005 [200] := ⟨by decide, by decide⟩
  obtain ⟨forth, _, next, across, ran, _, nextRan, acrossRan, less, _, _, _, trans⟩ :=
    strcmp_lexicographic one two three
  obtain ⟨later, _, _, _, laterRan, _, _, _, laterLess, _⟩ :=
    strcmp_lexicographic two three one
  rw [nextRan, EStateM.Result.ok.injEq] at laterRan
  have before : forth < 0 := less.mpr (by decide)
  have after : next < 0 := by
    rw [laterRan.1]
    exact laterLess.mpr (by decide)
  exact ⟨forth, next, across, ran, before, nextRan, by omega, acrossRan, trans (by omega) (by omega)⟩

/-- What a copy of a string is to be: its text with a zero byte, the rest as it was, and equal. -/
def Copied (env : Env) (dst src : Nat) (text : List UInt8) : Prop :=
  ∃ after, (strcpy dst src).run env = .ok dst after ∧ Text.At after.mem dst text ∧
    (∀ a, dst + text.length < a → after.mem a = env.mem a) ∧
    (strcmp dst src).run after = .ok 0 after

/-- No string is copied as it should be: behind every copy there is a newline instead of the end. -/
theorem strcpy_never_terminates {text : List UInt8} {dst src : Nat}
    (source : CString env.mem src text) (room : ∀ i ≤ text.length, (env.mem (dst + i)).isSome)
    (apart : dst + text.length < src ∨ src + text.length < dst) : ¬ Copied env dst src text := by
  rintro ⟨after, ran, copy, _⟩
  rw [run_strcpy source room apart, EStateM.Result.ok.injEq] at ran
  have stop := copy.stop
  -- The last byte that was written is where the zero byte should be.
  rw [← ran.2] at stop
  simp only at stop
  rw [Text.write_get (by simp), List.getElem?_concat_length] at stop
  exact absurd stop (by decide)

/-- Memory with a string of one character, and a buffer of three bytes behind it. -/
def oneString : Env := ⟨Text.only 0x1000 [97, 0, 1, 2, 3], []⟩

/-- A copy of one character is no string of one character. -/
theorem strcpy_never_terminates_one :
    CString oneString.mem 0x1000 [97] ∧ ¬ Copied oneString 0x1002 0x1000 [97] := by
  have source : CString oneString.mem 0x1000 [97] := ⟨by decide, by decide⟩
  exact ⟨source, strcpy_never_terminates source (by decide) (by decide)⟩

/-- A copy of one character is found to differ from what was copied. -/
theorem strcpy_newline : ¬ Copied oneString 0x1002 0x1000 [97] := by
  -- The newline behind the copy is compared with the zero byte behind the source.
  have source : CString oneString.mem 0x1000 [97] := ⟨by decide, by decide⟩
  have copied : (strcpy 0x1002 0x1000).run oneString = _ := run_strcpy source (by decide) (by decide)
  have compared : (strcmp 0x1002 0x1000).run
      { oneString with mem := Text.write oneString.mem 0x1002 ([97] ++ ['\n'.toUInt8]) } =
      .ok 10 { oneString with mem := Text.write oneString.mem 0x1002 ([97] ++ ['\n'.toUInt8]) } := by
    rfl
  rintro ⟨after, ran, _, _, same⟩
  rw [copied, EStateM.Result.ok.injEq] at ran
  obtain ⟨_, rfl⟩ := ran
  rw [compared, EStateM.Result.ok.injEq] at same
  exact absurd same.1 (by decide)

end Os1k.C
