import Mathlib.Data.Nat.Bitwise
import Mathlib.Tactic.Common

/-!
The binary tree that an array stores implicitly, with node `0` at its root.

The children of node `i` are `2 * i + 1` and `2 * i + 2`.
Counting nodes from one instead of zero, the ancestors of a node are its quotients by powers of two.
-/

namespace Os1k.Implicit

/-- The depth of a node, with the root at level zero. -/
def level (i : Nat) : Nat := Nat.log2 (i + 1)

/-- The position of a node among the nodes of its own level, counted from the left. -/
def slot (i : Nat) : Nat := i + 1 - 2 ^ level i

/-- The node one level up. -/
def parent (i : Nat) : Nat := (i - 1) / 2

/-- The other child of the same parent. -/
def sibling (i : Nat) : Nat := if i % 2 = 1 then i + 1 else i - 1

/-- Node `i` lies in the subtree rooted at `a`, possibly at its root. -/
def Under (a i : Nat) : Prop :=
  -- Counted from one, every ancestor is reached by halving.
  ∃ up, (i + 1) / 2 ^ up = a + 1

/-- A level holds the nodes between two consecutive powers of two. -/
theorem level_bounds (i : Nat) : 2 ^ level i ≤ i + 1 ∧ i + 1 < 2 ^ (level i + 1) := by
  unfold level
  exact ⟨Nat.log2_self_le (by omega), Nat.lt_log2_self⟩

/-- The power-of-two bounds determine the level. -/
theorem level_eq_of_bounds {i depth : Nat} (low : 2 ^ depth ≤ i + 1)
    (high : i + 1 < 2 ^ (depth + 1)) : level i = depth := by
  unfold level
  exact (Nat.log2_eq_iff (by omega)).mpr ⟨low, high⟩

/-- Only the root sits at level zero. -/
@[simp] theorem level_zero : level 0 = 0 := rfl

/-- Every node but the root is below the root's level. -/
theorem level_pos {i : Nat} (nonroot : 0 < i) : 0 < level i := by
  rcases Nat.eq_zero_or_pos (level i) with zero | positive
  · -- At level zero the upper bound leaves room for the root alone.
    have bounds := level_bounds i
    rw [zero] at bounds
    omega
  · exact positive

/-- A left child is one level below its parent. -/
@[simp] theorem level_left (i : Nat) : level (2 * i + 1) = level i + 1 := by
  -- The bounds of a level double from one level to the next.
  have bounds := level_bounds i
  apply level_eq_of_bounds
  · rw [Nat.pow_succ]; omega
  · rw [Nat.pow_succ]; omega

/-- A right child is one level below its parent. -/
@[simp] theorem level_right (i : Nat) : level (2 * i + 2) = level i + 1 := by
  have bounds := level_bounds i
  apply level_eq_of_bounds
  · rw [Nat.pow_succ]; omega
  · rw [Nat.pow_succ]; omega

/-- The parent of a node other than the root is one level up. -/
theorem level_parent {i : Nat} (nonroot : 0 < i) : level (parent i) + 1 = level i := by
  -- A node is the left or the right child of its parent, by parity.
  unfold parent
  rcases Nat.mod_two_eq_zero_or_one i with even | odd
  · have child : i = 2 * ((i - 1) / 2) + 2 := by omega
    rw [child, level_right, ← child]
  · have child : i = 2 * ((i - 1) / 2) + 1 := by omega
    rw [child, level_left, ← child]

/-- Nodes down to a given level fill an initial segment of the array. -/
theorem lt_of_level_le {i depth : Nat} (shallow : level i ≤ depth) :
    i < 2 ^ (depth + 1) - 1 := by
  have bounds := level_bounds i
  have grows : 2 ^ (level i + 1) ≤ 2 ^ (depth + 1) := Nat.pow_le_pow_right (by omega) (by omega)
  omega

/-- A node inside that initial segment is no deeper than the given level. -/
theorem level_le_of_lt {i depth : Nat} (inside : i < 2 ^ (depth + 1) - 1) : level i ≤ depth := by
  -- A node on a deeper level has too many nodes before it.
  by_contra deep
  have bounds := level_bounds i
  have grows : 2 ^ (depth + 1) ≤ 2 ^ level i := Nat.pow_le_pow_right (by omega) (by omega)
  omega

/-- A node is the start of its level plus its position there. -/
theorem slot_add (i : Nat) : slot i + 2 ^ level i = i + 1 := by
  have bounds := level_bounds i
  unfold slot
  omega

/-- A level holds as many positions as its power of two. -/
theorem slot_lt (i : Nat) : slot i < 2 ^ level i := by
  have bounds := level_bounds i
  rw [Nat.pow_succ] at bounds
  unfold slot
  omega

/-- Level and position together determine the node. -/
theorem eq_of_level_slot {i j : Nat} (levels : level i = level j) (slots : slot i = slot j) :
    i = j := by
  -- A node is the first of its level plus its position.
  have first := slot_add i
  have second := slot_add j
  rw [levels, slots] at first
  omega

namespace Under

/-- Every node is in its own subtree. -/
@[simp] theorem refl (i : Nat) : Under i i := ⟨0, by simp⟩

/-- Subtrees nest. -/
theorem trans {a b i : Nat} (outer : Under a b) (inner : Under b i) : Under a i := by
  -- Halving up to the inner root and then up to the outer one halves in total as often.
  obtain ⟨first, reached⟩ := inner
  obtain ⟨second, climbed⟩ := outer
  exact ⟨first + second, by rw [Nat.pow_add, ← Nat.div_div_eq_div_mul, reached, climbed]⟩

/-- Everything lies under the root. -/
@[simp] theorem zero (i : Nat) : Under 0 i := by
  -- Going up as many levels as the node is deep ends at the root.
  have bounds := level_bounds i
  refine ⟨level i, ?_⟩
  rw [Nat.pow_succ] at bounds
  exact Nat.div_eq_of_lt_le (by omega) (by omega)

/-- The left child lies under its parent. -/
theorem left (i : Nat) : Under i (2 * i + 1) := ⟨1, by omega⟩

/-- The right child lies under its parent. -/
theorem right (i : Nat) : Under i (2 * i + 2) := ⟨1, by omega⟩

/-- The parent of a node has the node in its subtree. -/
theorem parent_self {i : Nat} (nonroot : 0 < i) : Under (parent i) i :=
  ⟨1, by unfold parent; omega⟩

/-- A strict ancestor is an ancestor of the parent. -/
theorem of_parent {a i : Nat} (under : Under a i) (strict : a ≠ i) :
    0 < i ∧ Under a (parent i) := by
  -- The first halving reaches the parent, and the remaining ones reach the ancestor.
  obtain ⟨up, reached⟩ := under
  cases up with
  | zero => simp at reached; omega
  | succ up =>
    have nonroot : 0 < i := by
      rcases Nat.eq_zero_or_pos i with rfl | positive
      · have : (0 + 1) / 2 ^ (up + 1) = 0 := Nat.div_eq_of_lt (Nat.one_lt_two_pow (by omega))
        omega
      · exact positive
    refine ⟨nonroot, up, ?_⟩
    rw [Nat.pow_succ, Nat.mul_comm, ← Nat.div_div_eq_div_mul] at reached
    unfold parent
    rw [← reached]
    congr 1
    omega

/-- A subtree is its root together with the subtrees of the two children. -/
theorem cases_child {a i : Nat} :
    Under a i ↔ i = a ∨ Under (2 * a + 1) i ∨ Under (2 * a + 2) i := by
  constructor
  · rintro ⟨up, reached⟩
    cases up with
    | zero => exact .inl (by simpa using reached)
    | succ up =>
      -- One halving earlier the path stood at one of the two children.
      rw [Nat.pow_succ, ← Nat.div_div_eq_div_mul] at reached
      have child : (i + 1) / 2 ^ up = 2 * a + 1 + 1 ∨ (i + 1) / 2 ^ up = 2 * a + 2 + 1 := by omega
      exact .inr (child.imp (⟨up, ·⟩) (⟨up, ·⟩))
  · rintro (rfl | under | under)
    · exact refl _
    · exact (left a).trans under
    · exact (right a).trans under

/-- Ancestors come no later in the array. -/
theorem le {a i : Nat} (under : Under a i) : a ≤ i := by
  obtain ⟨up, reached⟩ := under
  have := Nat.div_le_self (i + 1) (2 ^ up)
  omega

/-- Halving once for each level between them leads from a node to its ancestor. -/
theorem div_level {a i : Nat} (under : Under a i) :
    level a ≤ level i ∧ (i + 1) / 2 ^ (level i - level a) = a + 1 := by
  obtain ⟨up, reached⟩ := under
  have bounds := level_bounds i
  have positive : 0 < 2 ^ up := Nat.two_pow_pos up
  -- The quotient is positive, so no more halvings happened than there are levels.
  have shallow : up ≤ level i := by
    by_contra deep
    have : 2 ^ (level i + 1) ≤ 2 ^ up := Nat.pow_le_pow_right (by omega) (by omega)
    have : (i + 1) / 2 ^ up = 0 := Nat.div_eq_of_lt (by omega)
    omega
  have split : 2 ^ level i = 2 ^ (level i - up) * 2 ^ up := by
    rw [← Nat.pow_add]; congr 1; omega
  have same : level a = level i - up := by
    apply level_eq_of_bounds
    · rw [← reached, Nat.le_div_iff_mul_le positive]; omega
    · rw [← reached, Nat.div_lt_iff_lt_mul positive, ← Nat.pow_add]
      have : level i - up + 1 + up = level i + 1 := by omega
      rw [this]
      exact bounds.2
  refine ⟨by omega, ?_⟩
  rw [same]
  convert reached using 3
  omega

/-- Ancestors are no deeper. -/
theorem level_le {a i : Nat} (under : Under a i) : level a ≤ level i := under.div_level.1

/-- A subtree meets its root's level in the root alone. -/
theorem eq_of_level {a i : Nat} (under : Under a i) (levels : level i ≤ level a) : a = i := by
  -- The way up has no steps.
  have reached := under.div_level.2
  rw [Nat.sub_eq_zero_of_le levels] at reached
  simp at reached
  omega

/-- Two subtrees with a common node are nested. -/
theorem comparable {a b i : Nat} (first : Under a i) (second : Under b i)
    (levels : level a ≤ level b) : Under a b := by
  -- The deeper ancestor is met first on the way up, and the climb continues from there.
  obtain ⟨deepA, reachedA⟩ := first.div_level
  obtain ⟨deepB, reachedB⟩ := second.div_level
  refine ⟨level b - level a, ?_⟩
  rw [← reachedB, Nat.div_div_eq_div_mul, ← Nat.pow_add, ← reachedA]
  congr 2
  omega

/-- The two children of a node share no descendant. -/
theorem disjoint_children {a i : Nat} (first : Under (2 * a + 1) i)
    (second : Under (2 * a + 2) i) : False := by
  have nested := first.comparable second (by simp)
  have := nested.eq_of_level (by simp)
  omega

/-- A node different from its ancestor is strictly deeper. -/
theorem level_lt {a i : Nat} (under : Under a i) (strict : a ≠ i) : level a < level i := by
  by_contra shallow
  exact strict (under.eq_of_level (by omega))

end Under

/-- The sibling of a node is the other child of its parent. -/
theorem sibling_cases {i : Nat} (nonroot : 0 < i) :
    (i = 2 * parent i + 1 ∧ sibling i = 2 * parent i + 2) ∨
      (i = 2 * parent i + 2 ∧ sibling i = 2 * parent i + 1) := by
  unfold parent sibling
  split
  · exact .inl ⟨by omega, by omega⟩
  · exact .inr ⟨by omega, by omega⟩

/-- Siblings are on one level. -/
theorem level_sibling {i : Nat} (nonroot : 0 < i) : level (sibling i) = level i := by
  -- Both are children of one parent.
  rcases sibling_cases nonroot with ⟨self, other⟩ | ⟨self, other⟩
  · rw [other, self]
    have : parent (2 * parent i + 1) = parent i := by unfold parent; omega
    simp [this]
  · rw [other, self]
    have : parent (2 * parent i + 2) = parent i := by unfold parent; omega
    simp [this]

/-- A subtree splits at a child into the root, that child's subtree and the sibling's. -/
theorem under_parent_cases {i j : Nat} (nonroot : 0 < i) :
    Under (parent i) j ↔ j = parent i ∨ Under i j ∨ Under (sibling i) j := by
  rw [Under.cases_child]
  -- The node is one of the two children, and its sibling is the other.
  rcases sibling_cases nonroot with ⟨self, other⟩ | ⟨self, other⟩
  · rw [other, ← self]
  · rw [other, ← self]
    tauto

/-- The position obtained by flipping the last bit belongs to the sibling. -/
theorem slot_xor_one {i : Nat} (nonroot : 0 < i) :
    (slot i ^^^ 1) + 2 ^ level i = sibling i + 1 := by
  have total := slot_add i
  -- Below the root every level starts at an even number, so parity is that of the position.
  have even : 2 ^ level i % 2 = 0 := by
    obtain ⟨depth, is⟩ := Nat.exists_eq_add_of_lt (level_pos nonroot)
    rw [is, Nat.zero_add, Nat.pow_succ]
    omega
  unfold sibling
  rcases Nat.even_or_odd (slot i) with flat | odd
  · rw [Nat.xor_one_of_even flat]
    rw [Nat.even_iff] at flat
    rw [if_pos (by omega)]
    omega
  · rw [Nat.xor_one_of_odd odd]
    rw [Nat.odd_iff] at odd
    rw [if_neg (by omega)]
    omega

/-- Leaf number `x` of the full tree of height `height` lies under node `a`. -/
def Covers (height a x : Nat) : Prop := Under a (2 ^ height + x - 1)

/-- The leaves of a full tree all lie on its last level. -/
theorem level_leaf {height x : Nat} (inside : x < 2 ^ height) :
    level (2 ^ height + x - 1) = height := by
  have positive : 0 < 2 ^ height := Nat.two_pow_pos height
  apply level_eq_of_bounds
  · omega
  · rw [Nat.pow_succ]; omega

/-- Every position of a level is that of some node. -/
theorem exists_level_slot {depth k : Nat} (inside : k < 2 ^ depth) :
    ∃ i, level i = depth ∧ slot i = k := by
  have levels := level_leaf inside
  refine ⟨2 ^ depth + k - 1, levels, ?_⟩
  -- The level starts at its own power of two, so the position is what was added.
  have total := slot_add (2 ^ depth + k - 1)
  rw [levels] at total
  omega

/-- On one level, nodes are ordered by position. -/
theorem le_iff_slot_le {i j : Nat} (levels : level i = level j) : i ≤ j ↔ slot i ≤ slot j := by
  have first := slot_add i
  have second := slot_add j
  rw [levels] at first
  omega

/-- The leaves under a node form one run, as long as its height and starting at its position. -/
theorem covers_iff {height a x : Nat} (shallow : level a ≤ height) (inside : x < 2 ^ height) :
    Covers height a x ↔
      slot a * 2 ^ (height - level a) ≤ x ∧ x < (slot a + 1) * 2 ^ (height - level a) := by
  have positive : 0 < 2 ^ (height - level a) := Nat.two_pow_pos _
  have leaf : 2 ^ height + x - 1 + 1 = 2 ^ height + x := by
    have : 0 < 2 ^ height := Nat.two_pow_pos height
    omega
  -- The leaf level starts at the first leaf under the first node of the ancestor's level.
  have whole : 2 ^ height = 2 ^ level a * 2 ^ (height - level a) := by
    rw [← Nat.pow_add]; congr 1; omega
  have quotient : (2 ^ height + x) / 2 ^ (height - level a)
      = 2 ^ level a + x / 2 ^ (height - level a) := by
    rw [whole, Nat.mul_comm, Nat.mul_add_div positive]
  have total := slot_add a
  -- A leaf lies under the node when going up leads to the position of the node.
  have meets : Covers height a x ↔ x / 2 ^ (height - level a) = slot a := by
    constructor
    · intro under
      have reached := under.div_level.2
      rw [level_leaf inside, leaf, quotient] at reached
      omega
    · intro same
      refine ⟨height - level a, ?_⟩
      rw [leaf, quotient]
      omega
  rw [meets, Nat.div_eq_iff positive]
  constructor
  · rintro ⟨low, high⟩
    exact ⟨low, by rw [Nat.add_mul]; omega⟩
  · rintro ⟨low, high⟩
    rw [Nat.add_mul] at high
    exact ⟨low, by omega⟩

/-- The first leaf under a node is inside the tree and under the node. -/
theorem covers_first {height a : Nat} (shallow : level a ≤ height) :
    slot a * 2 ^ (height - level a) < 2 ^ height ∧
      Covers height a (slot a * 2 ^ (height - level a)) := by
  -- The leaves under a node are a run of them, whose first one is at a multiple of its length.
  have positive : 0 < 2 ^ (height - level a) := Nat.two_pow_pos _
  have whole : 2 ^ height = 2 ^ level a * 2 ^ (height - level a) := by
    rw [← Nat.pow_add]; congr 1; omega
  have inside : slot a * 2 ^ (height - level a) < 2 ^ height := by
    rw [whole]
    exact Nat.mul_lt_mul_of_pos_right (slot_lt a) positive
  refine ⟨inside, (covers_iff shallow inside).mpr ⟨Nat.le_refl _, ?_⟩⟩
  exact Nat.mul_lt_mul_of_pos_right (Nat.lt_succ_self _) positive

/-- The run of leaves under a node ends inside the tree. -/
theorem covers_last {height a : Nat} (shallow : level a ≤ height) :
    (slot a + 1) * 2 ^ (height - level a) ≤ 2 ^ height := by
  -- Each node of a level covers as many leaves, and this is at most the last one.
  have whole : 2 ^ height = 2 ^ level a * 2 ^ (height - level a) := by
    rw [← Nat.pow_add]; congr 1; omega
  rw [whole]
  exact Nat.mul_le_mul_right _ (slot_lt a)

end Os1k.Implicit
