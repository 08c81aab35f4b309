import Os1k.Mem.Runs
import Os1k.Vm.Arrays
import Os1k.Vm.PageTable

/-! The blocks that a page table is made of, and how they represent it in memory. -/

namespace Os1k

open Memory (LiveBlock)

/-- Blocks that hold what they were requested for, inside the address space and clear of each other. -/
structure Placed (blocks : List LiveBlock) : Prop where
  room : ∀ used ∈ blocks, ∃ size, used.block.size = some size ∧ used.request ≤ size ∧
    used.block.addr + size ≤ wordLimit
  disjoint : blocks.Pairwise fun first second => Disjoint first.block.bytes second.block.bytes

namespace Placed

variable {blocks : List LiveBlock} {used : LiveBlock}

/-- Every requested byte is one of the block's own, and has an address. -/
theorem mem_bytes (placed : Placed blocks) (member : used ∈ blocks) {offset : Nat}
    (inside : offset < used.request) :
    used.block.addr + offset ∈ used.block.bytes ∧ used.block.addr + offset < wordLimit := by
  -- The block is at least as large as the request.
  obtain ⟨size, sized, covers, fits⟩ := placed.room used member
  refine ⟨?_, by omega⟩
  simp only [PhysAddr.bytes, sized, Option.getD_some, Set.mem_Ico]
  omega

/-- Bytes of disjoint blocks are different. -/
theorem ne_of_disjoint {first second : PhysAddr} (apart : Disjoint first.bytes second.bytes)
    {a b : Nat} (here : a ∈ first.bytes) (there : b ∈ second.bytes) : a ≠ b := by
  rintro rfl
  exact Set.disjoint_left.mp apart here there

/-- Fewer blocks are placed as well. -/
theorem sublist (placed : Placed blocks) {fewer : List LiveBlock} (sub : fewer.Sublist blocks) :
    Placed fewer :=
  ⟨fun used member => placed.room used (sub.subset member), placed.disjoint.sublist sub⟩

/-- The order of the blocks does not matter. -/
theorem perm (placed : Placed blocks) {same : List LiveBlock} (perm : same.Perm blocks) :
    Placed same :=
  ⟨fun used member => placed.room used (perm.subset member),
    (perm.pairwise_iff fun apart => apart.symm).mpr placed.disjoint⟩

end Placed

/-- The blocks of a page table: its root, its array of arrays, and its second-level tables. -/
structure Frames where
  root : PhysAddr
  second : PhysAddr
  leaf : Nat → Option PhysAddr

namespace Frames

/-- The second-level tables in the order of their root entries. -/
def leaves (frames : Frames) : List PhysAddr := (List.range 1024).filterMap frames.leaf

/-- All blocks, with what they were requested for. -/
def blocks (frames : Frames) : List LiveBlock :=
  ⟨4096, frames.root⟩ :: ⟨20480, frames.second⟩ :: frames.leaves.map (⟨4096, ·⟩)

/-- One second-level table more. -/
def insert (frames : Frames) (vpn1 : Nat) (block : PhysAddr) : Frames :=
  { frames with leaf := Function.update frames.leaf vpn1 (some block) }

/-- A table without second-level tables has two blocks. -/
theorem blocks_empty (root second : PhysAddr) :
    Frames.blocks ⟨root, second, fun _ => none⟩ = [⟨4096, root⟩, ⟨20480, second⟩] := by
  -- No index has a table.
  have none : Frames.leaves ⟨root, second, fun _ => none⟩ = [] :=
    List.filterMap_eq_nil_iff.mpr fun _ _ => rfl
  rw [Frames.blocks, none]
  rfl

variable {frames : Frames}

/-- A second-level table is one of the blocks. -/
theorem leaf_mem {vpn1 : Nat} {block : PhysAddr} (small : vpn1 < 1024)
    (known : frames.leaf vpn1 = some block) : (⟨4096, block⟩ : LiveBlock) ∈ frames.blocks := by
  refine List.mem_cons_of_mem _ (List.mem_cons_of_mem _ (List.mem_map_of_mem ?_))
  exact List.mem_filterMap.mpr ⟨vpn1, List.mem_range.mpr small, known⟩

/-- The blocks of a table do not overlap, whatever they are used for. -/
theorem apart (placed : Placed frames.blocks) :
    Disjoint frames.root.bytes frames.second.bytes ∧
    (∀ vpn1 < 1024, ∀ block, frames.leaf vpn1 = some block →
      Disjoint frames.root.bytes block.bytes ∧ Disjoint frames.second.bytes block.bytes) ∧
    ∀ vpn1 < 1024, ∀ other < 1024, vpn1 ≠ other → ∀ block otherBlock,
      frames.leaf vpn1 = some block → frames.leaf other = some otherBlock →
      Disjoint block.bytes otherBlock.bytes := by
  have disjoint := placed.disjoint
  simp only [blocks, List.pairwise_cons, List.mem_cons, forall_eq_or_imp] at disjoint
  obtain ⟨⟨rootSecond, rootLeaves⟩, secondLeaves, leaves⟩ := disjoint
  refine ⟨rootSecond, ?_, ?_⟩
  · intro vpn1 small block known
    have member : (⟨4096, block⟩ : LiveBlock) ∈ frames.leaves.map (⟨4096, ·⟩) :=
      List.mem_map_of_mem (List.mem_filterMap.mpr ⟨vpn1, List.mem_range.mpr small, known⟩)
    exact ⟨rootLeaves _ member, secondLeaves _ member⟩
  · intro vpn1 small other otherSmall different block otherBlock known otherKnown
    rw [List.pairwise_map, Frames.leaves, List.pairwise_filterMap] at leaves
    -- Of two indices, one comes first in the range.
    have ordered : ∀ low high, low < high → high < 1024 → ∀ lowBlock highBlock,
        frames.leaf low = some lowBlock → frames.leaf high = some highBlock →
        Disjoint lowBlock.bytes highBlock.bytes := by
      intro low high less bound lowBlock highBlock lowKnown highKnown
      have pair := List.pairwise_iff_getElem.mp leaves low high (by simp; omega) (by simpa) less
      simp only [List.getElem_range] at pair
      exact pair lowBlock lowKnown highBlock highKnown
    rcases Nat.lt_or_gt_of_ne different with less | more
    · exact ordered vpn1 other less otherSmall block otherBlock known otherKnown
    · exact (ordered other vpn1 more small otherBlock block otherKnown known).symm

/-- Setting an absent entry of a list of optional values adds that value. -/
theorem filterMap_update_perm {β : Type} {leaf : Nat → Option β} {k : Nat} {value : β}
    (unknown : leaf k = none) {indices : List Nat} (nodup : indices.Nodup) (member : k ∈ indices) :
    (indices.filterMap (Function.update leaf k (some value))).Perm
      (value :: indices.filterMap leaf) := by
  induction indices with
  | nil => simp at member
  | cons i indices ih =>
    rw [List.nodup_cons] at nodup
    by_cases here : i = k
    · subst here
      -- The rest of the list does not have the index again.
      have rest : indices.filterMap (Function.update leaf i (some value))
          = indices.filterMap leaf := by
        apply List.filterMap_congr
        intro j later
        rw [Function.update_of_ne]
        rintro rfl
        exact nodup.1 later
      simp [rest, unknown]
    · have later : k ∈ indices := by
        rcases List.mem_cons.mp member with same | later
        · exact absurd same.symm here
        · exact later
      rw [List.filterMap_cons, List.filterMap_cons, Function.update_of_ne here]
      cases leaf i with
      | none => exact ih nodup.2 later
      | some other => exact ((ih nodup.2 later).cons other).trans (.swap value other _)

/-- One second-level table more is one block more. -/
theorem insert_perm {vpn1 : Nat} {block : PhysAddr} (small : vpn1 < 1024)
    (unknown : frames.leaf vpn1 = none) :
    (frames.insert vpn1 block).blocks.Perm (⟨4096, block⟩ :: frames.blocks) := by
  have grown : (frames.insert vpn1 block).leaves.Perm (block :: frames.leaves) :=
    filterMap_update_perm unknown List.nodup_range (List.mem_range.mpr small)
  have mapped := grown.map (fun block => (⟨4096, block⟩ : LiveBlock))
  rw [List.map_cons] at mapped
  refine (mapped.cons _).cons _ |>.trans ?_
  -- The new block moves to the front, past the root and the array.
  refine ((List.Perm.swap _ _ _).cons _).trans (List.Perm.swap _ _ _)

end Frames

end Os1k
