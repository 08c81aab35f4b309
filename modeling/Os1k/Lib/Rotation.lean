import Mathlib.Data.List.Rotate
import Mathlib.Tactic.Common

/-! Taking turns in a circle: a search that goes on right behind the position it found last. -/

namespace Os1k.Rotation

/-- All positions below a bound, in the order that starts behind one of them and ends with it. -/
def circle (n last : Nat) : List Nat := (List.range n).rotate (last + 1)

/-- The first position behind the last one that passes a test. -/
def next (n : Nat) (ready : Nat → Prop) [DecidablePred ready] (last : Nat) : Option Nat :=
  (circle n last).find? fun position => ready position

/-- The positions that lie behind one position and before another. -/
def between (n last position : Nat) : List Nat := (circle n last).takeWhile (· ≠ position)

/-- The positions that turns go to, each found from the one before it. -/
def turns (find : Nat → Nat) : Nat → Nat → List Nat
  | _, 0 => []
  | last, k + 1 => find last :: turns find (find last) k

variable {n last position : Nat}

@[simp] theorem circle_length (n last : Nat) : (circle n last).length = n := by
  rw [circle, List.length_rotate, List.length_range]

@[simp] theorem mem_circle : position ∈ circle n last ↔ position < n := by
  rw [circle, List.mem_rotate, List.mem_range]

theorem circle_nodup (n last : Nat) : (circle n last).Nodup :=
  List.nodup_rotate.mpr List.nodup_range

/-- The positions of a circle are counted from the one behind the last. -/
theorem circle_getElem {i : Nat} (inside : i < (circle n last).length) :
    (circle n last)[i] = (last + 1 + i) % n := by
  simp only [circle, List.getElem_rotate, List.getElem_range, List.length_range]
  rw [Nat.add_comm i]

/-- Going on from a position of the circle turns the circle, so that it ends there. -/
theorem circle_append {before after : List Nat}
    (split : circle n last = before ++ position :: after) :
    circle n position = after ++ (before ++ [position]) := by
  -- The position is found behind those before it.
  have size : (before ++ position :: after).length = n := by rw [← split, circle_length]
  have here : before.length < (circle n last).length := by
    rw [split]
    simp
  have found : (last + 1 + before.length) % n = position := by
    rw [← circle_getElem here]
    simp [split]
  -- So the circle that ends with it is the old one, turned by as many steps and one more.
  have turned : circle n position = (circle n last).rotate (before ++ [position]).length := by
    rw [circle, circle, List.rotate_rotate, ← List.rotate_mod _ (position + 1),
      ← List.rotate_mod _ (last + 1 + _)]
    congr 1
    rw [← found, List.length_range, Nat.mod_add_mod, List.length_append, List.length_singleton]
    rfl
  have regrouped : before ++ position :: after = (before ++ [position]) ++ after := by simp
  rw [turned, split, regrouped, List.rotate_append_length_eq]

/-- A circle ends with the last position. -/
theorem circle_end (inside : last < n) : ∃ others, circle n last = others ++ [last] := by
  -- The circle that goes on from the last position is the circle itself.
  obtain ⟨before, after, split⟩ := List.append_of_mem (mem_circle.mpr inside : _ ∈ circle n last)
  refine ⟨after ++ before, ?_⟩
  rw [circle_append split, List.append_assoc]

/-- What lies before a position is what comes before it in the circle. -/
theorem between_eq {before after : List Nat}
    (split : circle n last = before ++ position :: after) : between n last position = before := by
  -- A position is met only once.
  have distinct : ∀ i ∈ before, i ≠ position := by
    rintro i member rfl
    have nodup := circle_nodup n last
    rw [split, List.nodup_append] at nodup
    exact nodup.2.2 i member i List.mem_cons_self rfl
  rw [between, split, List.takeWhile_append_of_pos (by simpa using distinct),
    List.takeWhile_cons_of_neg (by simp), List.append_nil]

/-- Only other positions lie before a position, and the last one is not among them. -/
theorem between_length (inside : position < n) (bounded : last < n) (other : position ≠ last) :
    (between n last position).length + 2 ≤ n := by
  -- The circle ends with the last position, so that the other one is met earlier.
  obtain ⟨others, ends⟩ := circle_end bounded
  have member : position ∈ others := by
    have found : position ∈ circle n last := mem_circle.mpr inside
    rw [ends, List.mem_append, List.mem_singleton] at found
    exact found.resolve_right other
  obtain ⟨before, after, rfl⟩ := List.append_of_mem member
  have size : (before ++ position :: after ++ [last]).length = n := by rw [← ends, circle_length]
  have split : circle n last = before ++ position :: (after ++ [last]) := by
    rw [ends, List.append_assoc, List.cons_append]
  rw [between_eq split]
  simp only [List.length_append, List.length_cons, List.length_nil] at size
  omega

section Search

variable {ready : Nat → Prop} [DecidablePred ready]

/-- A position that is found passes, and those that the circle meets before it do not. -/
theorem next_eq_some_iff {found : Nat} : next n ready last = some found ↔
    ready found ∧ ∃ before after, circle n last = before ++ found :: after ∧
      ∀ other ∈ before, ¬ ready other := by
  simp [next, List.find?_eq_some_iff_append]

/-- Nothing is found exactly when no position passes. -/
theorem next_eq_none_iff : next n ready last = none ↔ ∀ other < n, ¬ ready other := by
  simp [next, List.find?_eq_none]

/-- The positions that pass, from one of them on, are turned when the search goes on. -/
theorem filter_circle_next {found : Nat} (search : next n ready last = some found) :
    ∃ rest, (circle n last).filter (fun i => ready i) = found :: rest ∧
      (circle n found).filter (fun i => ready i) = rest ++ [found] := by
  obtain ⟨passes, before, after, split, skipped⟩ := next_eq_some_iff.mp search
  -- What was skipped does not pass, so that only what comes after it remains.
  have none : before.filter (fun i => ready i) = [] := by
    simpa [List.filter_eq_nil_iff] using skipped
  refine ⟨after.filter fun i => ready i, ?_, ?_⟩
  · rw [split, List.filter_append, none, List.nil_append, List.filter_cons_of_pos (by simpa)]
  · rw [circle_append split, List.filter_append, List.filter_append, none, List.nil_append,
      List.filter_cons_of_pos (by simpa), List.filter_nil]

/--
As long as the same positions pass, turns go round these in the order of the circle.

Each of them has one turn, and only then do the turns start again.
-/
theorem turns_eq_take {find : Nat → Nat} (last : Nat)
    (finds : ∀ last, ready last → next n ready last = some (find last)) (passes : ready last)
    {k : Nat} (within : k ≤ ((circle n last).filter fun i => ready i).length) :
    turns find last k = ((circle n last).filter fun i => ready i).take k := by
  -- The induction is on the turns, each of which moves the first position to the end.
  induction k generalizing last with
  | zero => rfl
  | succ k ih =>
    have search := finds last passes
    obtain ⟨rest, now, later⟩ := filter_circle_next search
    rw [now, List.length_cons] at within
    have enough : k ≤ rest.length := by omega
    have found := (next_eq_some_iff.mp search).1
    rw [turns, ih (find last) found (by simp [later]; omega), later, now, List.take_succ_cons,
      List.take_append_of_le_length enough]

/--
A position that passes waits for those that lie between it and the last one, and no others.

Whoever is found before it is one of these, and then it waits for the rest of them.
-/
theorem between_next {found : Nat} (search : next n ready last = some found)
    (waits : ready position) (inside : position < n) (other : found ≠ position) :
    (found :: between n found position).Sublist (between n last position) := by
  obtain ⟨_, before, after, split, skipped⟩ := next_eq_some_iff.mp search
  -- The position that waits passes, so it was not skipped, and lies behind the one found.
  have behind : position ∈ after := by
    have member : position ∈ before ++ found :: after := by rw [← split]; simpa
    simp only [List.mem_append, List.mem_cons] at member
    rcases member with skip | same | behind
    · exact absurd waits (skipped position skip)
    · exact absurd same.symm other
    · exact behind
  -- What lies between them comes first in the new circle, and behind what was skipped in the old.
  obtain ⟨middle, rest, rfl⟩ := List.append_of_mem behind
  have old : circle n last = (before ++ found :: middle) ++ position :: rest := by
    rw [split, List.append_assoc, List.cons_append]
  have new : circle n found = middle ++ position :: (rest ++ (before ++ [found])) := by
    rw [circle_append split, List.append_assoc, List.cons_append]
  rw [between_eq old, between_eq new]
  exact List.sublist_append_right _ _

end Search

end Os1k.Rotation
