import Mathlib.Tactic

/-! Two-level address translation with pages of 4096 bytes and entries of one word (Sv32). -/

namespace Os1k.Sv32

/-- What a walk of the tables finds. -/
inductive Outcome where
  /-- Translation is off. -/
  | off
  /-- The walk ended in a page fault: it met an entry that is not valid, or reserved. -/
  | invalid
  /-- The walk met a leaf, which gives an address and the flags of the page. -/
  | leaf (paddr flags : Nat)
  deriving DecidableEq, Repr

/-- The index of an address in the first-level table. -/
def vpn1 (v : Nat) : Nat := v / 2 ^ 22 % 1024

/-- The index of an address in a second-level table. -/
def vpn0 (v : Nat) : Nat := v / 2 ^ 12 % 1024

/-- An entry made of a page number and ten flags. -/
def entry (ppn flags : Nat) : Nat := ppn <<< 10 ||| flags

/-- The page number of an entry. -/
def ppn (pte : Nat) : Nat := pte / 1024

/-- The flags of an entry. -/
def flags (pte : Nat) : Nat := pte % 1024

/-- The valid bit of some flags. -/
def Valid (bits : Nat) : Prop := bits &&& 1 ≠ 0

/-- Flags that make an entry a leaf: readable or executable. -/
def Leaf (bits : Nat) : Prop := bits &&& 10 ≠ 0

/-- Flags that no valid entry may have: writable, but not readable. -/
def Reserved (bits : Nat) : Prop := bits &&& 4 ≠ 0 ∧ bits &&& 2 = 0

/-- Flags that mean something in a leaf only: for the user, accessed, written to. -/
def LeafOnly (bits : Nat) : Prop := bits &&& 208 ≠ 0

instance (bits : Nat) : Decidable (Valid bits) := inferInstanceAs (Decidable (_ ≠ _))

instance (bits : Nat) : Decidable (Leaf bits) := inferInstanceAs (Decidable (_ ≠ _))

instance (bits : Nat) : Decidable (Reserved bits) := inferInstanceAs (Decidable (_ ∧ _))

instance (bits : Nat) : Decidable (LeafOnly bits) := inferInstanceAs (Decidable (_ ≠ _))

/-- What an entry of a second-level table means for an address. -/
def lastLevel (pte v : Nat) : Outcome :=
  if ¬ Valid (flags pte) ∨ Reserved (flags pte) then .invalid
  else if Leaf (flags pte) then .leaf (ppn pte * 4096 + v % 4096) (flags pte)
  -- The tables have no third level to point to.
  else .invalid

/--
Look an address up in the tables that a satp value names.

Whether the access is one that the flags found allow is a matter for the reader of the leaf, and
the two flags that record what was accessed are left to the hardware.
-/
def walk (mem : Nat → Nat) (satp v : Nat) : Outcome :=
  if satp / 2 ^ 31 = 0 then .off
  else
    let pte := mem (satp % 2 ^ 22 * 4096 + 4 * vpn1 v)
    if ¬ Valid (flags pte) ∨ Reserved (flags pte) then .invalid
    else if Leaf (flags pte) then
      -- A leaf of the first level maps 4 MiB, which must be aligned.
      if ppn pte % 1024 = 0 then .leaf (ppn pte * 4096 + v % 2 ^ 22) (flags pte) else .invalid
    else if LeafOnly (flags pte) then .invalid
    else lastLevel (mem (ppn pte * 4096 + 4 * vpn0 v)) v

/-- What a program does with a byte of memory. -/
inductive Access where
  | load
  | store
  | fetch
  deriving DecidableEq, Repr

/-- The flag of a page that allows an access. -/
def Access.flag : Access → Nat
  | .load => 2
  | .store => 4
  | .fetch => 8

/--
The address that an access in user mode leads to, unless it traps.

The two flags that record what was accessed are left to the hardware.
-/
def userAccess (mem : Nat → Nat) (satp v : Nat) (access : Access) : Option Nat :=
  match walk mem satp v with
  | .off => some v
  | .invalid => none
  | .leaf paddr flags =>
    if flags &&& 16 ≠ 0 ∧ flags &&& access.flag ≠ 0 then some paddr else none

/-- The first-level index is cut out of an address by shifting and masking. -/
theorem vpn1_eq (v : Nat) : v >>> 22 &&& 0x3ff = vpn1 v := by
  rw [vpn1, Nat.shiftRight_eq_div_pow]
  exact Nat.and_two_pow_sub_one_eq_mod _ 10

/-- The second-level index is cut out of an address by shifting and masking. -/
theorem vpn0_eq (v : Nat) : v >>> 12 &&& 0x3ff = vpn0 v := by
  rw [vpn0, Nat.shiftRight_eq_div_pow]
  exact Nat.and_two_pow_sub_one_eq_mod _ 10

theorem vpn1_lt (v : Nat) : vpn1 v < 1024 := Nat.mod_lt _ (by omega)

theorem vpn0_lt (v : Nat) : vpn0 v < 1024 := Nat.mod_lt _ (by omega)

/-- An entry is its page number followed by its flags. -/
theorem entry_eq {number bits : Nat} (small : bits < 1024) :
    entry number bits = number * 1024 + bits := by
  have shifted := Nat.shiftLeft_add_eq_or_of_lt (i := 10) (by omega : bits < 2 ^ 10) number
  rw [entry, ← shifted, Nat.shiftLeft_eq]

@[simp] theorem ppn_entry {number bits : Nat} (small : bits < 1024) :
    ppn (entry number bits) = number := by
  rw [entry_eq small, ppn]
  omega

@[simp] theorem flags_entry {number bits : Nat} (small : bits < 1024) :
    flags (entry number bits) = bits := by
  rw [entry_eq small, flags]
  omega

/-- The valid bit is the lowest bit of an entry. -/
theorem valid_flags {pte : Nat} : Valid (flags pte) ↔ pte &&& 1 ≠ 0 := by
  rw [Valid, flags, Nat.and_one_is_mod, Nat.and_one_is_mod]
  omega

/-- A leaf of a second-level table gives the page's own address and flags. -/
theorem lastLevel_entry {number bits : Nat} (small : bits < 1024) (valid : Valid bits)
    (allowed : ¬ Reserved bits) (leaf : Leaf bits) (v : Nat) :
    lastLevel (entry number bits) v = .leaf (number * 4096 + v % 4096) bits := by
  have sound : ¬ (¬ Valid bits ∨ Reserved bits) := not_or.mpr ⟨not_not.mpr valid, allowed⟩
  rw [lastLevel, flags_entry small, ppn_entry small, if_neg sound, if_pos leaf]

/-- An entry that is writable but not readable is a page fault. -/
theorem lastLevel_reserved {number bits : Nat} (small : bits < 1024) (reserved : Reserved bits)
    (v : Nat) : lastLevel (entry number bits) v = .invalid := by
  rw [lastLevel, flags_entry small, if_pos (.inr reserved)]

/-- A zero entry is not valid. -/
theorem lastLevel_zero (v : Nat) : lastLevel 0 v = .invalid := by
  rw [lastLevel, if_pos]
  decide

/-- The tables that a root address names, once translation is on. -/
theorem walk_on {mem : Nat → Nat} {satp root v : Nat} (on : satp / 2 ^ 31 ≠ 0)
    (names : satp % 2 ^ 22 * 4096 = root) :
    walk mem satp v =
      if ¬ Valid (flags (mem (root + 4 * vpn1 v))) ∨ Reserved (flags (mem (root + 4 * vpn1 v)))
      then .invalid
      else if Leaf (flags (mem (root + 4 * vpn1 v))) then
        if ppn (mem (root + 4 * vpn1 v)) % 1024 = 0 then
          .leaf (ppn (mem (root + 4 * vpn1 v)) * 4096 + v % 2 ^ 22)
            (flags (mem (root + 4 * vpn1 v)))
        else .invalid
      else if LeafOnly (flags (mem (root + 4 * vpn1 v))) then .invalid
      else lastLevel (mem (ppn (mem (root + 4 * vpn1 v)) * 4096 + 4 * vpn0 v)) v := by
  subst names
  rw [walk, if_neg on]

/-- An entry without the valid bit ends the walk at the first level. -/
theorem walk_invalid {mem : Nat → Nat} {satp root v : Nat} (on : satp / 2 ^ 31 ≠ 0)
    (names : satp % 2 ^ 22 * 4096 = root)
    (invalid : ¬ Valid (flags (mem (root + 4 * vpn1 v)))) : walk mem satp v = .invalid := by
  rw [walk_on on names, if_pos (.inl invalid)]

/-- A bare valid entry passes the walk on to the second-level table it points to. -/
theorem walk_pointer {mem : Nat → Nat} {satp root number v : Nat} (on : satp / 2 ^ 31 ≠ 0)
    (names : satp % 2 ^ 22 * 4096 = root)
    (pointer : mem (root + 4 * vpn1 v) = entry number 1) :
    walk mem satp v = lastLevel (mem (number * 4096 + 4 * vpn0 v)) v := by
  have small : 1 < 1024 := by omega
  -- A pointer has no flag but the valid bit.
  rw [walk_on on names, pointer, flags_entry small, ppn_entry small, if_neg (by decide),
    if_neg (by decide), if_neg (by decide)]

/-- Two addresses of one page have the same indices, and only they do. -/
theorem page_eq_iff {v w : Nat} (v_lt : v < 2 ^ 32) (w_lt : w < 2 ^ 32) :
    v / 4096 = w / 4096 ↔ vpn1 v = vpn1 w ∧ vpn0 v = vpn0 w := by
  unfold vpn1 vpn0
  omega

end Os1k.Sv32
