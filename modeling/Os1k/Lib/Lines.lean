import Mathlib.Data.Seq.Basic
import Mathlib.Tactic

/-! Lines that end with a character, and a reader that has room for only so much of one. -/

namespace Os1k.Lines

/-- What a reader makes of a line. -/
inductive Outcome (α : Type) where
  | command (line : List α)
  | rejected
  deriving DecidableEq, Repr

variable {α : Type} [DecidableEq α]

section Definitions

variable (stop : α) (room : Nat) (quits : List α → Bool)

/--
What a reader hears that starts a new line when it runs out of room.

It looks for room before it looks at the character, and keeps one place for what ends a line.
-/
def heard (line : List α) : List α → List (Outcome α)
  | [] => []
  | ch :: input =>
    if line.length + 1 = room then .rejected :: heard [] input
    else if ch = stop then .command line :: if quits line then [] else heard [] input
    else heard (line ++ [ch]) input

/--
What lines mean, the last of which has not ended yet.

A line is a command if it fits together with what ends it. Otherwise it is rejected, as soon as that
is known.
-/
def meantLines : List (List α) → List (Outcome α)
  | [] => []
  | [tail] => if tail.length < room then [] else [.rejected]
  | line :: lines =>
    if line.length < room then .command line :: if quits line then [] else meantLines lines
    else .rejected :: meantLines lines

/-- What an input means. -/
def meant (input : List α) : List (Outcome α) := meantLines room quits (input.splitOn stop)

/-- Lines that leave a place free, and less than two rooms full of what has not ended yet. -/
def ShortLines : List (List α) → Prop
  | [] => True
  | [tail] => tail.length < 2 * room
  | line :: lines => line.length + 1 < room ∧ (quits line ∨ ShortLines lines)

/-- An input whose lines are short, up to the one that quits. -/
def Short (input : List α) : Prop := ShortLines room quits (input.splitOn stop)

end Definitions

variable {stop : α} {room : Nat} {quits : List α → Bool}

/-- A short line is heard as it is. -/
theorem heard_line {line : List α} (plain : stop ∉ line) (rest : List α) {before : List α}
    (fits : before.length + line.length + 1 < room) :
    heard stop room quits before (line ++ stop :: rest) =
      .command (before ++ line) ::
        if quits (before ++ line) then [] else heard stop room quits [] rest := by
  -- Characters move one by one from the input to what has been read of the line.
  induction line generalizing before with
  | nil =>
    rw [List.nil_append, heard, if_neg (by simp at fits; omega), if_pos rfl, List.append_nil]
  | cons ch line ih =>
    rw [List.mem_cons, not_or] at plain
    rw [List.length_cons] at fits
    rw [List.cons_append, heard, if_neg (by omega), if_neg (Ne.symm plain.1),
      ih plain.2 (by simp; omega), List.append_assoc]
    rfl

/-- Whatever character takes the last place, the line is rejected and a new one starts behind it. -/
theorem heard_full {line : List α} (plain : stop ∉ line) (ch : α) (rest : List α) {before : List α}
    (full : before.length + line.length + 1 = room) :
    heard stop room quits before (line ++ ch :: rest) =
      .rejected :: heard stop room quits [] rest := by
  -- Room is looked for first, so that the character in the last place is never looked at.
  induction line generalizing before with
  | nil => rw [List.nil_append, heard, if_pos (by simpa using full)]
  | cons first line ih =>
    rw [List.mem_cons, not_or] at plain
    rw [List.length_cons] at full
    rw [List.cons_append, heard, if_neg (by omega), if_neg (Ne.symm plain.1),
      ih plain.2 (by simp; omega)]

/-- What does not end is rejected each time that the room is used up. -/
theorem heard_tail {input : List α} (plain : stop ∉ input) {before : List α}
    (fits : before.length < room) :
    heard stop room quits before input =
      List.replicate ((before.length + input.length) / room) .rejected := by
  -- What counts is the number of characters since the last line was started.
  induction input generalizing before with
  | nil => rw [heard, List.length_nil, Nat.add_zero, Nat.div_eq_of_lt fits, List.replicate_zero]
  | cons ch input ih =>
    rw [List.mem_cons, not_or] at plain
    rw [heard]
    split
    · next full =>
      have turn : before.length + (ch :: input).length = input.length + room := by
        rw [List.length_cons]
        omega
      rw [ih plain.2 (by simp; omega), turn, Nat.add_div_right _ (by omega), List.length_nil,
        Nat.zero_add, List.replicate_succ]
    · next more =>
      have same : (before ++ [ch]).length + input.length = before.length + (ch :: input).length := by
        simp
        omega
      rw [if_neg (Ne.symm plain.1), ih plain.2 (by simp; omega), same]

/-- Once a line has ended, something has been heard. -/
theorem heard_ne_nil {input : List α} (ends : stop ∈ input) (before : List α) :
    heard stop room quits before input ≠ [] := by
  -- Either the room is used up before the end, or the end is reached.
  induction input generalizing before with
  | nil => exact absurd ends List.not_mem_nil
  | cons ch input ih =>
    rw [heard]
    split
    · exact List.cons_ne_nil _ _
    · split
      · exact List.cons_ne_nil _ _
      · next other => exact ih ((List.mem_cons.mp ends).resolve_left (Ne.symm other)) _

/-- A line means itself if it fits, and is rejected otherwise. -/
theorem meant_line {line : List α} (plain : stop ∉ line) (rest : List α) :
    meant stop room quits (line ++ stop :: rest) =
      if line.length < room then
        .command line :: if quits line then [] else meant stop room quits rest
      else .rejected :: meant stop room quits rest := by
  -- What follows the line has lines of its own, so that this one is not the last.
  obtain ⟨first, others, split⟩ := List.exists_cons_of_ne_nil (List.splitOn_ne_nil stop rest)
  rw [meant, List.splitOn_append_cons_self_of_not_mem plain, meant, split, meantLines]
  exact List.cons_ne_nil _ _

/-- What has not ended is rejected once. -/
theorem meant_tail {input : List α} (plain : stop ∉ input) :
    meant stop room quits input = if input.length < room then [] else [.rejected] := by
  rw [meant, List.splitOn_eq_singleton plain, meantLines]

/-- An input is short if its first line is, and what follows it unless that quits. -/
theorem short_line {line : List α} (plain : stop ∉ line) (rest : List α) :
    Short stop room quits (line ++ stop :: rest) ↔
      line.length + 1 < room ∧ (quits line ∨ Short stop room quits rest) := by
  obtain ⟨first, others, split⟩ := List.exists_cons_of_ne_nil (List.splitOn_ne_nil stop rest)
  rw [Short, List.splitOn_append_cons_self_of_not_mem plain, Short, split, ShortLines]
  exact List.cons_ne_nil _ _

/-- An input with no end of a line is short if it has less than two rooms full. -/
theorem short_tail {input : List α} (plain : stop ∉ input) :
    Short stop room quits input ↔ input.length < 2 * room := by
  rw [Short, List.splitOn_eq_singleton plain, ShortLines]

omit [DecidableEq α] in
/-- A part of a line that has not ended and of what follows it stops inside the line or behind it. -/
theorem prefix_line {part line rest : List α} (starts : part <+: line ++ stop :: rest) :
    part <+: line ∨ ∃ more, more <+: rest ∧ part = line ++ stop :: more := by
  -- Of two lists that start the same list, the shorter one starts the longer one.
  rcases Nat.le_total part.length line.length with shorter | longer
  · exact .inl (List.prefix_of_prefix_length_le starts (List.prefix_append _ _) shorter)
  · obtain ⟨more, rfl⟩ := List.prefix_of_prefix_length_le (List.prefix_append _ _) starts longer
    rcases List.prefix_cons_iff.mp ((List.prefix_append_right_inj line).mp starts) with
      rfl | ⟨more, rfl, next⟩
    · exact .inl (by simp)
    · exact .inr ⟨more, next, rfl⟩

/-- A line that leaves no place free is not heard as what it means. -/
theorem heard_ne_meant {line : List α} (positive : 0 < room) (plain : stop ∉ line)
    (long : room ≤ line.length + 1) :
    heard stop room quits [] (line ++ [stop]) ≠ meant stop room quits (line ++ [stop]) := by
  have nothing : meant stop room quits [] = [] := by
    rw [meant_tail List.not_mem_nil, if_pos (by simpa using positive)]
  intro same
  rw [meant_line plain] at same
  rcases Nat.lt_or_ge line.length room with fits | beyond
  · -- The end of the line takes the last place, so a command is rejected.
    rw [if_pos fits, heard_full plain stop [] (by simp; omega)] at same
    exact absurd (List.cons.inj same).1 nofun
  · -- The line is cut in two, and its second part is heard as well.
    obtain ⟨first, ch, second, rfl, taken⟩ : ∃ first ch second, line = first ++ ch :: second ∧
        first.length + 1 = room := by
      obtain ⟨last, rfl⟩ := Nat.exists_eq_add_of_lt positive
      have inside : 0 + last < line.length := by omega
      refine ⟨line.take (0 + last), line.get ⟨0 + last, inside⟩, line.drop (0 + last + 1), ?_, ?_⟩
      · rw [List.get_eq_getElem, ← List.drop_eq_getElem_cons inside, List.take_append_drop]
      · rw [List.length_take]
        omega
    rw [if_neg (by omega), nothing, List.append_assoc, List.cons_append,
      heard_full (fun member => plain (List.mem_append_left _ member)) ch _ (by simpa using taken)] at same
    exact heard_ne_nil (by simp) [] (List.cons.inj same).2

/-- What has not ended is heard as what it means, until there are two rooms full of it. -/
theorem heard_eq_meant_tail {input : List α} (positive : 0 < room) (plain : stop ∉ input) :
    heard stop room quits [] input = meant stop room quits input ↔ input.length < 2 * room := by
  rw [heard_tail plain (by simpa using positive), meant_tail plain, List.length_nil, Nat.zero_add]
  have turns : input.length / room < 2 ↔ input.length < 2 * room :=
    Nat.div_lt_iff_lt_mul positive
  rw [← turns]
  -- It is rejected as often as the room is used up, where once is meant.
  split
  · next fits => simp [Nat.div_eq_of_lt fits]
  · next beyond =>
    have once : 1 ≤ input.length / room := (Nat.le_div_iff_mul_le positive).mpr (by omega)
    rw [show [Outcome.rejected] = List.replicate 1 (Outcome.rejected : Outcome α) from rfl,
      List.replicate_inj]
    simp
    omega

/-- An input is heard as what it means, at each point of it, exactly if its lines are short. -/
theorem heard_eq_meant_iff (positive : 0 < room) (input : List α) :
    (∀ part, part <+: input → heard stop room quits [] part = meant stop room quits part) ↔
      Short stop room quits input := by
  -- The induction takes one line off the input.
  induction count : input.length using Nat.strong_induction_on generalizing input with
  | _ size ih =>
    by_cases ends : stop ∈ input
    · obtain ⟨line, rest, rfl, plain⟩ := List.eq_append_cons_of_mem ends
      have shorter : rest.length < size := by
        rw [← count, List.length_append, List.length_cons]
        omega
      rw [short_line plain]
      constructor
      · intro agree
        -- What the input starts with up to the end of this line shows that the line is short.
        have fits : line.length + 1 < room := by
          by_contra long
          refine heard_ne_meant positive plain (Nat.not_lt.mp long) (agree _ ?_)
          exact (List.prefix_append_right_inj line).mpr ⟨rest, rfl⟩
        have inside : line.length < room := by omega
        -- Behind a line that does not quit, hearing starts over.
        refine ⟨fits, or_iff_not_imp_left.mpr fun goes => ?_⟩
        refine (ih rest.length shorter rest rfl).mp fun more starts => ?_
        have whole := agree (line ++ stop :: more) ?_
        · rw [heard_line plain _ (by simpa using fits), meant_line plain, if_pos inside,
            List.nil_append, if_neg goes, if_neg goes] at whole
          exact (List.cons.inj whole).2
        · exact (List.prefix_append_right_inj line).mpr ((List.prefix_cons_inj stop).mpr starts)
      · rintro ⟨fits, after⟩ part starts
        rcases prefix_line starts with inside | ⟨more, next, rfl⟩
        · -- Nothing has been heard before the line ends.
          have unended : stop ∉ part := fun member => plain (inside.subset member)
          have small := inside.length_le
          exact (heard_eq_meant_tail positive unended).mpr (by omega)
        · have within : line.length < room := by omega
          rw [heard_line plain _ (by simpa using fits), meant_line plain, if_pos within,
            List.nil_append]
          rcases after with stops | short
          · rw [if_pos stops, if_pos stops]
          · rw [(ih rest.length shorter rest rfl).mpr short more next]
    -- Without an end of a line, all that the input starts with has none either.
    · rw [short_tail ends]
      constructor
      · intro agree
        exact (heard_eq_meant_tail positive ends).mp (agree input (List.prefix_refl _))
      · intro small part starts
        have unended : stop ∉ part := fun member => ends (starts.subset member)
        have inside := starts.length_le
        exact (heard_eq_meant_tail positive unended).mpr (by omega)

omit [DecidableEq α] in
/-- What a sequence starts with starts as the sequence does. -/
theorem prefix_take {s : Stream'.Seq α} {n : Nat} {part : List α} (starts : part <+: s.take n) :
    part = s.take part.length := by
  obtain ⟨more, whole⟩ := starts
  have inside : part.length ≤ n := by
    refine Nat.le_trans ?_ (Stream'.Seq.length_take_le (s := s))
    rw [← whole, List.length_append]
    exact Nat.le_add_right _ _
  -- Both are the sequence itself, up to the length of the part.
  apply List.ext_getElem?
  intro i
  rw [Stream'.Seq.getElem?_take]
  split
  · next small =>
    have here : (part ++ more)[i]? = part[i]? := List.getElem?_append_left small
    rw [← here, whole, Stream'.Seq.getElem?_take, if_pos (by omega)]
  · next large => exact List.getElem?_eq_none (Nat.not_lt.mp large)

omit [DecidableEq α] in
/-- A list starts with its own parts. -/
theorem take_ofList (list : List α) (n : Nat) : (Stream'.Seq.ofList list).take n = list.take n := by
  apply List.ext_getElem?
  intro i
  rw [Stream'.Seq.getElem?_take, Stream'.Seq.ofList_get?, List.getElem?_take]

omit [DecidableEq α] in
/-- A list has no elements but its own. -/
theorem mem_of_mem_ofList {list : List α} {a : α} (member : a ∈ Stream'.Seq.ofList list) : a ∈ list := by
  -- The elements of a sequence that is a list are found one by one.
  induction list with
  | nil => exact absurd member (Stream'.Seq.notMem_nil a)
  | cons b list ih =>
    rw [Stream'.Seq.ofList_cons] at member
    rcases Stream'.Seq.mem_cons_iff.mp member with rfl | later
    · exact List.mem_cons_self
    · exact List.mem_cons_of_mem _ (ih later)

/-- A sequence, finite or not, is heard as what it means exactly if all it starts with is short. -/
theorem heard_eq_meant_seq (positive : 0 < room) (s : Stream'.Seq α) :
    (∀ n, heard stop room quits [] (s.take n) = meant stop room quits (s.take n)) ↔
      ∀ n, Short stop room quits (s.take n) := by
  -- All that a part starts with is a part as well.
  constructor
  · intro agree n
    refine (heard_eq_meant_iff positive _).mp fun part starts => ?_
    rw [prefix_take starts]
    exact agree _
  · intro short n
    exact (heard_eq_meant_iff positive _).mpr (short n) _ (List.prefix_refl _)

end Os1k.Lines
