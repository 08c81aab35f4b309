import Os1k.Lib.Marking
import Os1k.Mem.Search

/-! Node states as a function of the allocated nodes alone, and how the operations keep them so. -/

namespace Os1k

open Implicit

open Classical in
/--
The state a node has when the given nodes are allocated.

Nodes above an allocated one are split, and nodes below one count as free.
-/
noncomputable def label (live : Set Nat) (i : Nat) : BlockState :=
  if i ∈ live then .allocated else if Occupied live i then .split else .free

/-- Exactly the given nodes are marked as allocated. -/
theorem label_eq_allocated {live : Set Nat} {i : Nat} : label live i = .allocated ↔ i ∈ live := by
  unfold label
  split
  · simpa
  · split <;> simpa

/-- A node is split when something strictly below it is allocated. -/
theorem label_eq_split {live : Set Nat} {i : Nat} :
    label live i = .split ↔ i ∉ live ∧ Occupied live i := by
  -- The cases of the definition exclude each other.
  unfold label
  split
  · simp_all
  · split <;> simp_all

/-- A node is free when nothing in its subtree is allocated. -/
theorem label_eq_free {live : Set Nat} {i : Nat} : label live i = .free ↔ ¬ Occupied live i := by
  unfold label
  split
  · -- A node in use is in its own subtree.
    rename_i member
    simpa using occupied_of_mem member (Under.refl i)
  · split <;> simp_all

/-- A node's state depends only on whether it and its subtree are allocated. -/
theorem label_congr {live other : Set Nat} {i : Nat} (member : i ∈ live ↔ i ∈ other)
    (occupied : Occupied live i ↔ Occupied other i) : label live i = label other i := by
  -- Each state is one of the three conditions.
  cases state : label other i with
  | free =>
    rw [label_eq_free] at state ⊢
    rwa [occupied]
  | allocated =>
    rw [label_eq_allocated] at state ⊢
    rwa [member]
  | split =>
    rw [label_eq_split] at state ⊢
    rwa [member, occupied]

/-- Allocating a node leaves every node that is not above it as it was. -/
theorem label_insert_other {live : Set Nat} {k j : Nat} (elsewhere : ¬ Under j k) :
    label (insert k live) j = label live j := by
  -- A node is above itself.
  have different : j ≠ k := by rintro rfl; exact elsewhere (Under.refl j)
  apply label_congr
  · simp [different]
  · simp [occupied_insert, elsewhere]

/-- Allocating a clear node splits every node strictly above it. -/
theorem label_insert_above {live : Set Nat} {k j : Nat} (clear : Clear live k)
    (above : Under j k) (strict : j ≠ k) : label (insert k live) j = .split := by
  refine label_eq_split.mpr ⟨?_, occupied_insert.mpr (.inl above)⟩
  -- The node above is not in use itself, since that would not leave the other one clear.
  rintro (same | member)
  · exact strict same
  · exact (clear j member).2 above

namespace Memory

/-- What a search below `i` amounts to when the states it starts from are canonical there. -/
def SearchSpec (live : Set Nat) (depth below i : Nat) (states : List BlockState)
    (outcome : Option Nat × List BlockState) : Prop :=
  match outcome with
  | (none, after) =>
    after = states ∧ ∀ k, Under i k → level k = level i + below → ¬ Clear live k
  | (some found, after) =>
    Under i found ∧ level found = level i + below ∧ Clear live found ∧
      (∀ k, Under i k → level k = level i + below → Clear live k → found ≤ k) ∧
      (∀ j, level j ≤ depth → Under i j → after[j]? = some (label (insert found live) j)) ∧
      ∀ j, ¬ Under i j → after[j]? = states[j]?

/-- Where nothing above a node is allocated, the node is free exactly when it is clear. -/
theorem clear_iff_free {live : Set Nat} {i : Nat} (exposed : ∀ a ∈ live, Under a i → a = i) :
    Clear live i ↔ label live i = .free := by
  rw [label_eq_free]
  constructor
  · rintro clear ⟨j, member, under⟩
    exact (clear j member).1 under
  · -- What is above the node and in use could only be the node itself.
    intro vacant j member
    refine ⟨fun under => vacant ⟨j, member, under⟩, fun under => vacant ?_⟩
    exact ⟨j, member, exposed j member under ▸ Under.refl j⟩

/-- Both halves of an unallocated subtree stay exposed. -/
theorem exposed_child {live : Set Nat} {i child : Nat} (exposed : ∀ a ∈ live, Under a i → a = i)
    (spare : i ∉ live) (below : parent child = i) :
    ∀ a ∈ live, Under a child → a = child := by
  intro a member under
  by_contra strict
  -- An ancestor other than the child is an ancestor of its parent, hence the parent itself.
  have above := (under.of_parent strict).2
  rw [below] at above
  exact spare (exposed a member above ▸ member)

/-- A successful search of one child extends to the node, once the node itself is split. -/
theorem SearchSpec.lift {live : Set Nat} {depth below i child found : Nat}
    {states entered after : List BlockState} (below_child : parent child = i) (nonroot : 0 < child)
    (spare : i ∉ live) (canonical : ∀ j, level j ≤ depth → Under i j → j ≠ i →
      entered[j]? = some (label live j))
    (split : entered[i]? = some .split) (outside : ∀ j, ¬ Under i j → entered[j]? = states[j]?)
    (first : ∀ k, Under i k → ¬ Under child k → level k = level i + (below + 1) →
      Clear live k → found ≤ k)
    (spec : SearchSpec live depth below child entered (some found, after)) :
    SearchSpec live depth (below + 1) i states (some found, after) := by
  obtain ⟨under, deep, clear, least, inner, outer⟩ := spec
  have levels : level child = level i + 1 := by rw [← level_parent nonroot, below_child]
  have into : Under i child := below_child ▸ Under.parent_self nonroot
  -- What was found is on a deeper level than the node.
  have strict : i ≠ found := by
    rintro rfl
    omega
  refine ⟨into.trans under, by omega, clear, ?_, ?_, ?_⟩
  · -- The child has the first one on its side, and the other side has none before it.
    intro k inside same vacant
    by_cases side : Under child k
    · exact least k side (by omega) vacant
    · exact first k inside side same vacant
  · -- On the side of the child, the search left the right states.
    intro j shallow inside
    by_cases side : Under child j
    · exact inner j shallow side
    · rw [outer j side]
      by_cases top : j = i
      · subst top
        rw [split, label_insert_above clear (into.trans under) strict]
      · -- On the other side nothing changed, and the new node is not below.
        rw [canonical j shallow inside top, label_insert_other]
        intro above
        rcases Nat.le_total (level child) (level j) with deeper | shallower
        · exact side (Under.comparable under above deeper)
        · have nested := Under.comparable above under shallower
          by_cases same : j = child
          · exact side (same ▸ Under.refl _)
          · have higher := (nested.of_parent same).2
            rw [below_child] at higher
            exact top (higher.eq_of_level inside.level_le)
  · intro j elsewhere
    rw [outer j fun side => elsewhere (into.trans side), outside j elsewhere]

/-- The parent of a left child. -/
theorem parent_left (i : Nat) : parent (2 * i + 1) = i := by unfold parent; omega

/-- The parent of a right child. -/
theorem parent_right (i : Nat) : parent (2 * i + 2) = i := by unfold parent; omega

/-- The search of both children, given the search of each in canonical states. -/
theorem dfsChildren_spec {live : Set Nat} {depth below i : Nat} {states entered : List BlockState}
    (inside : level i + (below + 1) ≤ depth) (exposed : ∀ a ∈ live, Under a i → a = i)
    (spare : i ∉ live)
    (canonical : ∀ j, level j ≤ depth → Under i j → j ≠ i → entered[j]? = some (label live j))
    (split : entered[i]? = some .split) (outside : ∀ j, ¬ Under i j → entered[j]? = states[j]?)
    (search : ∀ child, level child + below ≤ depth → (∀ a ∈ live, Under a child → a = child) →
      (∀ j, level j ≤ depth → Under child j → entered[j]? = some (label live j)) →
      SearchSpec live depth below child entered (dfs below child entered)) :
    SearchSpec live depth (below + 1) i states (dfsChildren below i entered) ∨
      dfsChildren below i entered = (none, entered) ∧
        ∀ k, Under i k → level k = level i + (below + 1) → ¬ Clear live k := by
  -- Nodes below a child differ from the node itself, so their states are canonical.
  have inner : ∀ child, parent child = i → 0 < child → ∀ j, level j ≤ depth → Under child j →
      entered[j]? = some (label live j) := by
    intro child below_child nonroot j shallow under
    have into : Under i child := below_child ▸ Under.parent_self nonroot
    have deeper := level_parent nonroot
    have := under.level_le
    refine canonical j shallow (into.trans under) ?_
    rintro rfl
    rw [below_child] at deeper
    omega
  have left := search (2 * i + 1) (by rw [level_left]; omega)
    (exposed_child exposed spare (parent_left i)) (inner _ (parent_left i) (by omega))
  have right := search (2 * i + 2) (by rw [level_right]; omega)
    (exposed_child exposed spare (parent_right i)) (inner _ (parent_right i) (by omega))
  -- A node of the requested level lies below one child or the other.
  have sides : ∀ k, Under i k → level k = level i + (below + 1) →
      Under (2 * i + 1) k ∨ Under (2 * i + 2) k := by
    intro k under deep
    rcases Under.cases_child.mp under with rfl | side
    · omega
    · exact side
  unfold dfsChildren
  cases ran : dfs below (2 * i + 1) entered with
  | mk found after =>
    rw [ran] at left
    cases found with
    | some found =>
      -- Nodes on the left come before those on the right.
      refine .inl (left.lift (parent_left i) (by omega) spare canonical split outside ?_)
      intro k under other deep _
      have side := (sides k under deep).resolve_left other
      obtain ⟨first, firstDeep, _⟩ := left
      rw [level_left] at firstDeep
      exact (lt_of_children first side (by omega)).le
    | none =>
      -- The left half gave nothing and changed nothing.
      obtain ⟨rfl, refused⟩ := left
      simp only
      cases ranRight : dfs below (2 * i + 2) after with
      | mk found last =>
        rw [ranRight] at right
        cases found with
        | some found =>
          -- Nothing on the left is clear, so the first one on the right is the first of all.
          refine .inl (right.lift (parent_right i) (by omega) spare canonical split outside ?_)
          intro k under other deep vacant
          have side := (sides k under deep).resolve_right other
          exact absurd vacant (refused k side (by rw [level_left]; omega))
        | none =>
          obtain ⟨rfl, alsoRefused⟩ := right
          refine .inr ⟨rfl, fun k under deep => ?_⟩
          rcases sides k under deep with side | side
          · exact refused k side (by rw [level_left]; omega)
          · exact alsoRefused k side (by rw [level_right]; omega)

/-- On the level that is searched for, the node itself is taken if it is free. -/
theorem dfs_zero_spec {live : Set Nat} {depth i : Nat} {states : List BlockState}
    (inside : level i ≤ depth) (exposed : ∀ a ∈ live, Under a i → a = i)
    (canonical : ∀ j, level j ≤ depth → Under i j → states[j]? = some (label live j)) :
    SearchSpec live depth 0 i states (dfs 0 i states) := by
  have here := canonical i inside (Under.refl i)
  -- The only node of its own level in a subtree is the root.
  have only : ∀ k, Under i k → level k = level i + 0 → k = i := fun k under deep =>
    (under.eq_of_level (by omega)).symm
  by_cases free : label live i = .free
  · -- A free node is taken, and only its own state changes.
    have clear := (clear_iff_free exposed).mpr free
    simp only [dfs, here, free, if_true]
    refine ⟨Under.refl i, rfl, clear, fun k under deep _ => (only k under deep).ge, ?_, ?_⟩
    · intro j shallow under
      by_cases same : j = i
      · subst same
        have allocated : label (insert j live) j = .allocated :=
          label_eq_allocated.mpr (Set.mem_insert j live)
        rw [allocated]
        exact List.getElem?_set_self' ▸ by simp [here]
      · rw [List.getElem?_set_ne (Ne.symm same), canonical j shallow under,
          label_insert_other]
        intro above
        exact same (above.eq_of_level under.level_le)
    · intro j elsewhere
      rw [List.getElem?_set_ne]
      rintro rfl
      exact elsewhere (Under.refl _)
  · -- A node that is not free is not taken, and no other node is on its level.
    have taken : ¬ some (label live i) = some BlockState.free := by simpa using free
    simp only [dfs, here, if_neg taken]
    refine ⟨rfl, fun k under deep => ?_⟩
    rw [only k under deep, clear_iff_free exposed]
    exact free

/--
The search allocates the first clear node of the requested level, and splits the nodes above it.

It fails only when every node of that level meets an allocated one, and then changes nothing.
-/
theorem dfs_spec {live : Set Nat} {depth below i : Nat} {states : List BlockState}
    (inside : level i + below ≤ depth) (exposed : ∀ a ∈ live, Under a i → a = i)
    (canonical : ∀ j, level j ≤ depth → Under i j → states[j]? = some (label live j)) :
    SearchSpec live depth below i states (dfs below i states) := by
  -- Induction on how far down the requested level is.
  induction below generalizing i states with
  | zero => exact dfs_zero_spec inside exposed canonical
  | succ below ih =>
    have here := canonical i (by omega) (Under.refl i)
    have search : ∀ entered child, level child + below ≤ depth →
        (∀ a ∈ live, Under a child → a = child) →
        (∀ j, level j ≤ depth → Under child j → entered[j]? = some (label live j)) →
        SearchSpec live depth below child entered (dfs below child entered) :=
      fun entered child => ih
    cases state : label live i with
    | free =>
      rw [state] at here
      have vacant := label_eq_free.mp state
      have spare : i ∉ live := fun member => vacant ⟨i, member, Under.refl i⟩
      rw [dfs_free here]
      have position : i < states.length := (List.getElem?_eq_some_iff.mp here).1
      -- Entering the node changes its own state only.
      have entered : ∀ j, j ≠ i → (states.set i .split)[j]? = states[j]? := fun j other =>
        List.getElem?_set_ne (Ne.symm other)
      have split : (states.set i .split)[i]? = some .split := by simp [position]
      have children := dfsChildren_spec inside exposed spare
        (fun j shallow under other => (entered j other).trans (canonical j shallow under)) split
        (fun j elsewhere => entered j fun same => elsewhere (same ▸ Under.refl _)) (search _)
      -- Below a free node everything is clear, so the search cannot come back empty-handed.
      refine children.resolve_right fun empty => ?_
      obtain ⟨k, under, deep, clear⟩ := exists_clear exposed vacant (below + 1)
      exact empty.2 k under deep clear
    -- Below a node in use, nothing is clear.
    | allocated =>
      rw [state] at here
      rw [dfs_allocated here]
      refine ⟨rfl, fun k under _ clear => ?_⟩
      exact (clear i (label_eq_allocated.mp state)).2 under
    -- A node that is split already is searched as it is.
    | split =>
      rw [state] at here
      have spare := (label_eq_split.mp state).1
      rw [dfs_split here]
      have outside : ∀ j, ¬ Under i j → states[j]? = states[j]? := fun _ _ => rfl
      have children := dfsChildren_spec inside exposed spare
        (fun j shallow under _ => canonical j shallow under) here outside (search _)
      rcases children with spec | ⟨nothing, refused⟩
      · exact spec
      · rw [nothing]
        exact ⟨rfl, refused⟩

end Memory

end Os1k
