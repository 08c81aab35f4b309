import Os1k.C.Mapping
import Os1k.Lib.Arena

/-! How far the C kernel's way of handing out pages is that of an allocator without word size. -/

namespace Os1k.C

open Riscv (wordLimit)
open Bytes

/-- A region is filled with zeros, and memory is as it was outside of it. -/
def Zeroed (before after : Ram) (paddr bytes : Nat) : Prop :=
  (∀ a, paddr ≤ a → a < paddr + bytes → after.mem a = 0) ∧
    ∀ a, a < paddr ∨ paddr + bytes ≤ a → after.mem a = before.mem a

/-- Calls of `alloc_pages` do as an ideal allocator does that hands out one page behind the other. -/
def Bumps (freeRam freeRamEnd : Nat) (requests : List Nat) (ram : Ram) : Prop :=
  Arena.Refines (allocPagesBelow freeRamEnd) (· * pageSize) .outOfMemory Zeroed freeRamEnd freeRam
    requests ram

/--
The first request that comes to the end of memory goes beyond it, and still does when its end is taken
as a word.
-/
def Beyond (stop : Nat) : Nat → List Nat → Prop
  | _, [] => True
  | next, n :: requests =>
    if next + n * pageSize < stop then Beyond stop (next + n * pageSize) requests
    else stop < next + n * pageSize ∧ stop ≤ (next + n * pageSize) % wordLimit

instance Beyond.decidable (stop : Nat) : ∀ next requests, Decidable (Beyond stop next requests)
  | _, [] => inferInstanceAs (Decidable True)
  | next, n :: requests =>
    have := Beyond.decidable stop (next + n * pageSize) requests
    inferInstanceAs (Decidable (if next + n * pageSize < stop then _ else _))

variable {ram : Ram} {freeRam freeRamEnd : Nat}

/-- The size of a request and the next address are taken as words, so it is their sum that counts. -/
theorem run_allocPagesBelow (stop n : Nat) :
    (allocPagesBelow stop n).run ram =
      if stop ≤ (ram.nextAddr + n * pageSize) % wordLimit then
        .error .outOfMemory { ram with nextAddr := (ram.nextAddr + n * pageSize) % wordLimit }
      else .ok ram.nextAddr { ram.handedOut (n * pageSize % wordLimit) with
        nextAddr := (ram.nextAddr + n * pageSize) % wordLimit } := by
  rw [allocPagesBelow, run_bump_wrap, Nat.add_mod_mod]

/-- A request that ends before memory does is served as it should be. -/
theorem run_allocPagesBelow_before {stop n : Nat} (word : stop < wordLimit)
    (before : ram.nextAddr + n * pageSize < stop) :
    (allocPagesBelow stop n).run ram = .ok ram.nextAddr (ram.handedOut (n * pageSize)) := by
  -- What ends below a word's limit does not wrap around.
  have small : ram.nextAddr + n * pageSize < wordLimit := before.trans word
  rw [run_allocPagesBelow, Nat.mod_eq_of_lt small, if_neg (Nat.not_le.mpr before),
    Nat.mod_eq_of_lt (Nat.lt_of_le_of_lt (Nat.le_add_left _ _) small)]
  rfl

/-- What is handed out is filled with zeros. -/
theorem zeroed_handedOut (ram : Ram) (bytes : Nat) :
    Zeroed ram (ram.handedOut bytes) ram.nextAddr bytes := by
  -- Handing out is filling with zeros, which reaches just the region.
  constructor
  · intro a low high
    rw [Ram.handedOut_mem, memset_apply, if_pos ⟨low, high⟩]
  · intro a outside
    rw [Ram.handedOut_mem, memset_apply, if_neg (by omega)]

/-- The calls are those of the ideal allocator exactly if none of them ends where it should not. -/
theorem bumps_iff (word : freeRamEnd < wordLimit) (requests : List Nat) :
    Bumps ram.nextAddr freeRamEnd requests ram ↔ Beyond freeRamEnd ram.nextAddr requests := by
  -- The two allocators stay in step up to the first request that reaches the end of memory.
  induction requests generalizing ram with
  | nil => exact Iff.rfl
  | cons n requests ih =>
    rw [Bumps, Arena.Refines, Beyond]
    rcases Nat.lt_trichotomy (ram.nextAddr + n * pageSize) freeRamEnd with before | same | beyond
    · -- Both go on behind the region.
      have ran := run_allocPagesBelow_before word before
      rw [if_pos (Nat.le_of_lt before), if_pos before, ← Ram.handedOut_nextAddr, ← ih]
      constructor
      · rintro ⟨after, again, _, rest⟩
        rw [ran, EStateM.Result.ok.injEq] at again
        obtain ⟨_, rfl⟩ := again
        exact rest
      · intro rest
        exact ⟨_, ran, zeroed_handedOut ram _, rest⟩
    · -- The region fits exactly, and is refused.
      have small : ram.nextAddr + n * pageSize < wordLimit := same ▸ word
      have refused : freeRamEnd ≤ (ram.nextAddr + n * pageSize) % wordLimit := by
        rw [Nat.mod_eq_of_lt small, same]
      rw [if_pos (Nat.le_of_eq same), if_neg (Nat.not_lt.mpr (Nat.le_of_eq same.symm))]
      refine iff_of_false ?_ fun ⟨more, _⟩ => Nat.lt_irrefl _ (same ▸ more)
      rintro ⟨after, ran, _⟩
      rw [run_allocPagesBelow, if_pos refused] at ran
      exact absurd ran nofun
    · -- The region does not fit, and is refused unless its end has wrapped around.
      rw [if_neg (Nat.not_le.mpr beyond), if_neg (Nat.not_lt.mpr (Nat.le_of_lt beyond)),
        run_allocPagesBelow]
      by_cases refused : freeRamEnd ≤ (ram.nextAddr + n * pageSize) % wordLimit
      · rw [if_pos refused]
        exact iff_of_true ⟨_, rfl⟩ ⟨beyond, refused⟩
      · rw [if_neg refused]
        exact iff_of_false (fun ⟨_, ran⟩ => absurd ran nofun) fun ⟨_, word⟩ => refused word

/--
Handing out pages is what an ideal allocator does, in range and without overlaps, exactly if the first
request that comes to the end of memory goes beyond it, also as a word.

A request that fits exactly is refused, and one whose end wraps around is served.
-/
theorem allocPages_refines_iff {requests : List Nat} (word : freeRamEnd < wordLimit)
    (first : ram.nextAddr = freeRam) :
    (Bumps freeRam freeRamEnd requests ram ∧
      let regions := Arena.handedOut freeRamEnd freeRam (requests.map (· * pageSize))
      (∀ region ∈ regions, freeRam ≤ region.1 ∧ region.1 + region.2 ≤ freeRamEnd) ∧
        regions.Pairwise Arena.Before) ↔
    Beyond freeRamEnd freeRam requests := by
  subst first
  -- That the ideal regions are in range and apart holds in any case.
  rw [bumps_iff word]
  exact and_iff_left ⟨Arena.handedOut_inRange, Arena.handedOut_pairwise⟩

/-- Memory that is handed out from an address on. -/
def freshRam (freeRam : Nat) : Ram := ⟨fun _ => 1, freeRam, fun _ => ⟨0, 0, 0, 0, fun _ => 0⟩⟩

/-- Of four pages one and then two are handed out, and then two more are refused. -/
theorem allocPages_refines_iff_pages : Bumps 0x80000000 0x80004000 [1, 2, 2] (freshRam 0x80000000) := by
  have word : 0x80004000 < wordLimit := by decide
  have first : (freshRam 0x80000000).nextAddr = 0x80000000 := rfl
  have beyond : Beyond 0x80004000 0x80000000 [1, 2, 2] := by decide
  exact ((allocPages_refines_iff word first).mpr beyond).1

/-- The last page is refused, and so many pages that their size wraps around are handed out. -/
theorem allocPages_not_ideal :
    ¬ Bumps 0x80000000 0x80001000 [1] (freshRam 0x80000000) ∧
    ¬ Bumps 0x80000000 0x80001000 [0x100000] (freshRam 0x80000000) := by
  -- One request fits exactly, and the other one ends where it started.
  have word : 0x80001000 < wordLimit := by decide
  have exactly : ∀ n, Bumps 0x80000000 0x80001000 [n] (freshRam 0x80000000) ↔
      Beyond 0x80001000 0x80000000 [n] := by
    intro n
    rw [show 0x80000000 = (freshRam 0x80000000).nextAddr from rfl]
    exact bumps_iff word [n]
  exact ⟨(exactly 1).not.mpr (by decide), (exactly 0x100000).not.mpr (by decide)⟩

end Os1k.C
