import Mathlib
import Os1k.Lib.Marking

/-! How much of a level of an implicit tree is taken up by nodes of other levels. -/

namespace Os1k.Implicit

/-- The positions on a level of the nodes that lie below a node, or of the one that lies above. -/
def touched (height i : Nat) : List Nat :=
  if level i ≤ height then List.range' (slot i * 2 ^ (height - level i)) (2 ^ (height - level i))
  else [slot i / 2 ^ (level i - height)]

variable {height i : Nat}

@[simp] theorem touched_length (height i : Nat) :
    (touched height i).length = 2 ^ (height - level i) := by
  unfold touched
  -- A node below the leaves touches the one leaf that holds it.
  split
  · exact List.length_range'
  · have below : height - level i = 0 := by omega
    rw [below]
    rfl

/-- A node of the level that lies below a node is at one of its positions. -/
theorem touched_of_under {k : Nat} (levels : level k = height) (under : Under i k) :
    slot k ∈ touched height i := by
  have shallow := under.level_le
  have total := slot_add k
  have inside := slot_lt k
  rw [levels] at total inside shallow
  have leaf : 2 ^ height + slot k - 1 = k := by omega
  -- The positions below a node are a run of them.
  have covers : Covers height i (slot k) := by
    rw [Covers, leaf]
    exact under
  have bounds := (covers_iff shallow inside).mp covers
  rw [Nat.add_mul, Nat.one_mul] at bounds
  rw [touched, if_pos shallow, List.mem_range'_1]
  exact bounds

/-- The node of the level that lies above a node is at its position. -/
theorem touched_of_above {k : Nat} (levels : level k = height) (under : Under k i) :
    slot k ∈ touched height i := by
  obtain ⟨deeper, quotient⟩ := under.div_level
  rw [levels] at deeper quotient
  rcases Nat.eq_or_lt_of_le deeper with same | strict
  · -- On the same level a node lies above itself only.
    have equal := under.eq_of_level (by omega)
    subst equal
    exact touched_of_under levels (Under.refl k)
  · have total := slot_add i
    have above := slot_add k
    have split : 2 ^ level i = 2 ^ height * 2 ^ (level i - height) := by
      rw [← Nat.pow_add]
      congr 1
      omega
    rw [levels] at above
    rw [← total, split, Nat.add_mul_div_right _ _ (Nat.two_pow_pos _)] at quotient
    rw [touched, if_neg (by omega), List.mem_singleton]
    omega

/-- On a level at least as deep, nodes that touch one position lie one below the other. -/
theorem comparable_of_touched {j position : Nat} (first : level i ≤ height)
    (second : level j ≤ height) (inFirst : position ∈ touched height i)
    (inSecond : position ∈ touched height j) : Under i j ∨ Under j i := by
  rw [touched, if_pos first, List.mem_range'_1] at inFirst
  rw [touched, if_pos second, List.mem_range'_1] at inSecond
  have last := covers_last first
  rw [Nat.add_mul, Nat.one_mul] at last
  have inside : position < 2 ^ height := by omega
  -- Both are ancestors of the node at the position.
  have coversFirst := (covers_iff first inside).mpr ⟨inFirst.1, by rw [Nat.add_mul]; omega⟩
  have coversSecond := (covers_iff second inside).mpr ⟨inSecond.1, by rw [Nat.add_mul]; omega⟩
  rcases Nat.le_total (level i) (level j) with shallow | shallow
  · exact .inl (coversFirst.comparable coversSecond shallow)
  · exact .inr (coversSecond.comparable coversFirst shallow)

/-- How many nodes of a level a list of nodes takes up, if each takes up at least one. -/
def weight (height : Nat) (nodes : List Nat) : Nat :=
  (nodes.map fun i => 2 ^ (height - level i)).sum

variable {nodes : List Nat}

theorem weight_eq_length : weight height nodes = (nodes.flatMap (touched height)).length := by
  simp [weight, List.length_flatMap]

/-- Nodes that are not below one another take up no more than the level has. -/
theorem weight_le (nodup : nodes.Nodup) (apart : Apart { i | i ∈ nodes })
    (shallow : ∀ i ∈ nodes, level i ≤ height) : weight height nodes ≤ 2 ^ height := by
  -- No position is touched twice, and all of them are positions of the level.
  have distinct : (nodes.flatMap (touched height)).Nodup := by
    rw [List.nodup_flatMap]
    refine ⟨fun i member => ?_, ?_⟩
    · rw [touched, if_pos (shallow i member)]
      exact List.nodup_range' 1
    · refine nodup.pairwise_of_forall_ne fun i first j second different => ?_
      rw [Function.onFun, List.disjoint_left]
      intro position inFirst inSecond
      rcases comparable_of_touched (shallow i first) (shallow j second) inFirst inSecond
        with under | under
      · exact different (apart i first j second under)
      · exact different (apart j second i first under).symm
  have inside : (nodes.flatMap (touched height)).toFinset ⊆ Finset.range (2 ^ height) := by
    intro position member
    rw [List.mem_toFinset, List.mem_flatMap] at member
    obtain ⟨i, among, touches⟩ := member
    have last := covers_last (shallow i among)
    rw [touched, if_pos (shallow i among), List.mem_range'_1] at touches
    rw [Nat.add_mul, Nat.one_mul] at last
    rw [Finset.mem_range]
    omega
  -- So there are at most as many as the level has.
  have counted := Finset.card_le_card inside
  rw [List.toFinset_card_of_nodup distinct, Finset.card_range, ← weight_eq_length] at counted
  exact counted

/-- If nodes leave no node of a level clear, they take up the whole level. -/
theorem le_weight (none : ∀ k, level k = height → ¬ Clear { i | i ∈ nodes } k) :
    2 ^ height ≤ weight height nodes := by
  -- Every position of the level is touched.
  have inside : Finset.range (2 ^ height) ⊆ (nodes.flatMap (touched height)).toFinset := by
    intro position member
    obtain ⟨k, levels, rfl⟩ := exists_level_slot (Finset.mem_range.mp member)
    have met := none k levels
    rw [Clear] at met
    push Not at met
    obtain ⟨i, among, related⟩ := met
    rw [List.mem_toFinset, List.mem_flatMap]
    refine ⟨i, among, ?_⟩
    by_cases above : Under k i
    · exact touched_of_above levels above
    · exact touched_of_under levels (related above)
  have counted := Finset.card_le_card inside
  rw [Finset.card_range] at counted
  rw [weight_eq_length]
  exact counted.trans (List.toFinset_card_le _)

end Os1k.Implicit
