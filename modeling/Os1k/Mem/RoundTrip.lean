import Os1k.Mem.Reachable

/-! Nodes and addresses: what allocation computes from a node, freeing computes back. -/

namespace Os1k.Memory

open Implicit

variable {memory : Memory} {depth i : Nat}

/-- The orders of requests are told apart by the level they are looked for on. -/
theorem reqOrder_eq_iff {high order l : Nat} (word : high < usizeBits) (page : 12 ≤ order)
    (inside : order ≤ high) (shallow : l ≤ high) :
    high - findOrder (2 ^ order) = l ↔ order = high - l := by
  rw [findOrder_two_pow (by omega) (by omega)]
  omega

/-- A free node that the search pops on the level it looks for is handed out. -/
theorem allocLoop_hands_out (located : memory.Located depth) (inside : level i ≤ depth)
    {sp : Int} {pending : List Nat} (holds : memory.Pending sp (i :: pending))
    (free : memory.states[i]? = some .free) (profile : Profile) (n fuel : Nat) :
    (allocLoop profile n (level i) (fuel + 1) sp).run memory =
      .ok (.ok ⟨memory.nodeAddr i, some n⟩)
        (memory.withStates (memory.states.set i .allocated)) := by
  have index := (List.getElem?_eq_some_iff.mp free).1
  -- Marking the node allocated moves neither the arena nor its orders.
  have marked : (memory.withStates (memory.states.set i .allocated)).Located depth :=
    ⟨located.shallow, located.high, located.fits⟩
  have addr := run_blockAddr marked inside profile
  rw [allocLoop_pop holds (located.index_small inside), if_pos rfl]
  simp only [EStateM.run_bind, run_metaAt free, if_true, run_setMeta index, addr,
    EStateM.run_pure]
  rfl

/-- The indices of a level are those from its first to its last. -/
theorem level_of_first_last {l : Nat} (first : 2 ^ l - 1 ≤ i) (last : i < 2 ^ (l + 1) - 1) :
    level i = l := by
  have positive : 0 < 2 ^ l := Nat.two_pow_pos l
  exact level_eq_of_bounds (by omega) (by omega)

/-- The block written out from an index and its level is that of the node. -/
theorem block_eq_nodeBlock {l : Nat} (order : memory.buddyHighOrder = depth + 12)
    (first : 2 ^ l - 1 ≤ i) (last : i < 2 ^ (l + 1) - 1) :
    (⟨memory.start.addr + (i + 1 - 2 ^ l) * 2 ^ (depth + 12 - l), some (2 ^ (depth + 12 - l))⟩ :
      PhysAddr) = memory.nodeBlock i := by
  obtain rfl := level_of_first_last first last
  rw [nodeBlock, nodeAddr, order, slot]

/--
A node and its block determine each other.

For every node of a full tree, the order of its index is its level. The block that the search hands
out for it starts at the node's position times the size of its level, and ends in the address space.
Freeing that block goes on with the same index and level, and with the other child of the same
parent for the buddy. Different nodes have different blocks.
-/
theorem node_block_round_trip {high l : Nat} (profile : Profile)
    (order : memory.buddyHighOrder = high) (page : 12 ≤ high) (word : high ≤ 31)
    (fits : memory.start.addr + 2 ^ high ≤ wordLimit) (shallow : l ≤ high - 12)
    (first : 2 ^ l - 1 ≤ i) (last : i < 2 ^ (l + 1) - 1) :
    let block : PhysAddr := ⟨memory.start.addr + (i + 1 - 2 ^ l) * 2 ^ (high - l), some (2 ^ (high - l))⟩
    findOrder i = l ∧
    (blockAddr profile i l).run memory = .ok block.addr memory ∧
    block.addr + 2 ^ (high - l) ≤ wordLimit ∧
    (∀ requested, 12 ≤ requested → requested ≤ high →
      (high - findOrder (2 ^ requested) = l ↔ requested = high - l)) ∧
    (∀ sp pending fuel, memory.Pending sp (i :: pending) → memory.states[i]? = some .free →
      ∃ after, (allocLoop profile (2 ^ (high - l)) l (fuel + 1) sp).run memory
        = .ok (.ok block) after) ∧
    (nodeOf profile block.addr (2 ^ (high - l))).run memory = .ok (i, l) memory ∧
    (buddyFree profile block).run memory = (freeNode profile i l).run memory ∧
    (0 < l → ∃ buddy iAtLevel, (atLevel profile i l).run memory = .ok iAtLevel memory ∧
      (buddyIndex profile iAtLevel l).run memory = .ok buddy memory ∧
      (i = 2 * ((i - 1) / 2) + 1 ∧ buddy = 2 * ((i - 1) / 2) + 2 ∨
        i = 2 * ((i - 1) / 2) + 2 ∧ buddy = 2 * ((i - 1) / 2) + 1)) ∧
    ∀ otherLevel other, otherLevel ≤ high - 12 → 2 ^ otherLevel - 1 ≤ other →
      other < 2 ^ (otherLevel + 1) - 1 →
      block = ⟨memory.start.addr + (other + 1 - 2 ^ otherLevel) * 2 ^ (high - otherLevel),
        some (2 ^ (high - otherLevel))⟩ → i = other := by
  -- The arena has `depth + 1` levels, and a node between the bounds is on level `level i`.
  obtain ⟨depth, rfl⟩ := Nat.exists_eq_add_of_le' page
  have bits : usizeBits = 32 := rfl
  have limit : wordLimit = 4294967296 := rfl
  have located : memory.Located depth := ⟨by omega, order, fits⟩
  obtain rfl := level_of_first_last first last
  have inside : level i ≤ depth := by omega
  have small := located.index_small inside
  -- Everything below is said of one block, the one that the node stands for.
  have place : memory.start.addr + (i + 1 - 2 ^ level i) * 2 ^ (depth + 12 - level i) =
      memory.nodeAddr i := congrArg PhysAddr.addr (block_eq_nodeBlock order first last)
  have block : (⟨memory.nodeAddr i, some (2 ^ (depth + 12 - level i))⟩ : PhysAddr) =
      memory.nodeBlock i := by rw [nodeBlock, order]
  simp only [place, block]
  refine ⟨findOrder_index (by omega), run_blockAddr located inside profile, ?_, ?_, ?_, ?_,
    run_buddyFree_node located inside profile, ?_, ?_⟩
  · exact (nodeBlock_end located inside).trans fits
  · -- A request of that order, and of no other, searches down to this level.
    intro requested low up
    exact reqOrder_eq_iff (by omega) low up (by omega)
  · -- The search hands out the block of the node when it pops it.
    intro sp pending fuel holds free
    rw [← block]
    exact ⟨_, allocLoop_hands_out located inside holds free profile _ fuel⟩
  · -- Its address and size lead back to the node.
    have found := run_nodeOf located inside profile
    rw [order] at found
    exact found
  · -- Below the root there is a buddy: the other child of the parent.
    intro nonzero
    have nonroot : 0 < i := by
      rcases Nat.eq_zero_or_pos i with rfl | positive
      · simp at nonzero
      · exact positive
    exact ⟨sibling i, slot i, run_atLevel small profile, run_buddyIndex nonroot small profile,
      sibling_cases nonroot⟩
  · -- The block belongs to no other node.
    intro otherLevel other deep low up same
    rw [block_eq_nodeBlock order low up] at same
    obtain rfl := level_of_first_last low up
    exact nodeBlock_injective located inside (by omega) same

/-- The second of two pages is node 2 on level 1, and its block leads back there. -/
theorem node_block_round_trip_page :
    findOrder 2 = 1 ∧
    (nodeOf .release 0x80001000 0x1000).run (twoPages [.free, .free, .free] [0, 0]) =
      .ok (2, 1) (twoPages [.free, .free, .free] [0, 0]) := by
  have high : (twoPages [.free, .free, .free] [0, 0]).buddyHighOrder = 13 := rfl
  have first : 2 ^ 1 - 1 ≤ 2 := by decide
  obtain ⟨order, _, _, _, _, found, _⟩ := node_block_round_trip .release high (by decide) (by decide)
    (by decide) (by decide) first (by decide)
  exact ⟨order, found⟩

end Os1k.Memory
