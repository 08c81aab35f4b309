import Os1k.C.Printf

/-! What formatted output prints, for every format and all arguments that it asks for. -/

namespace Os1k.C

open Numeral (digit fixed fixed_length fixed_lt ofDigits_fixed numeral)

/-- What one piece of a format asks for. -/
inductive Directive where
  | literal (ch : UInt8)
  | string
  | decimal
  | hex
  /-- A letter behind a percent sign that means nothing, and for which nothing is printed. -/
  | unknown
  deriving DecidableEq, Repr

namespace Directive

/-- What a letter behind a percent sign asks for. -/
def ofLetter (letter : UInt8) : Directive :=
  if letter = '%'.toUInt8 then .literal letter
  else if letter = 's'.toUInt8 then .string
  else if letter = 'd'.toUInt8 then .decimal
  else if letter = 'x'.toUInt8 then .hex
  else .unknown

/-- Print what one piece of a format asks for. -/
def put : Directive → List Arg → Exec Undefined Env (List Arg)
  | literal ch, vargs => do
    putchar ch
    return vargs
  | string, vargs => do
    let (s, vargs) ← pointerArg vargs
    putString s
    return vargs
  | decimal, vargs => do
    let (value, vargs) ← intArg vargs
    putDecimal value
    return vargs
  | hex, vargs => do
    let (value, vargs) ← intArg vargs
    putHex value
    return vargs
  | unknown, vargs => return vargs

/-- The arguments that a piece takes, each of the type it is fetched as. -/
inductive Takes (mem : Text.Memory) : Directive → List Arg → Prop
  | literal (ch : UInt8) : Takes mem (.literal ch) []
  | string {p : Nat} {text : List UInt8} (holds : CString mem p text) : Takes mem .string [.pointer p]
  | decimal (value : Int32) : Takes mem .decimal [.int value]
  | hex (value : Int32) : Takes mem .hex [.int value]
  | unknown : Takes mem .unknown []

/-- What is to be printed for a piece and the arguments it takes. -/
inductive Shows (mem : Text.Memory) : Directive → List Arg → List UInt8 → Prop
  | literal (ch : UInt8) : Shows mem (.literal ch) [] [ch]
  | string {p : Nat} {text : List UInt8} (holds : CString mem p text) :
      Shows mem .string [.pointer p] text
  | decimal (value : Int32) : Shows mem .decimal [.int value] (numeral value.toInt)
  | hex {value : Int32} {digits : List Nat} (width : digits.length = 8) (small : ∀ d ∈ digits, d < 16)
      (same : ((Nat.ofDigits 16 digits.reverse : Nat) : Int) = value.toInt % 2 ^ 32) :
      Shows mem .hex [.int value] (digits.map digit)
  | unknown : Shows mem .unknown [] []

end Directive

open Directive

/-- The pieces of a format. A percent sign that ends it stands for itself. -/
def directives : List UInt8 → List Directive
  | [] => []
  | ch :: rest =>
    if ch = '%'.toUInt8 then
      match rest with
      | [] => [.literal ch]
      | letter :: rest => ofLetter letter :: directives rest
    else
      .literal ch :: directives rest

/-- Characters that are no percent signs stand for themselves. -/
theorem directives_plain {text : List UInt8} (plain : '%'.toUInt8 ∉ text) (rest : List UInt8) :
    directives (text ++ rest) = text.map .literal ++ directives rest := by
  -- One character is one piece, as long as there is no percent sign.
  induction text with
  | nil => rfl
  | cons ch text ih =>
    rw [List.mem_cons, not_or] at plain
    rw [List.cons_append, directives.eq_def]
    simp only [if_neg (Ne.symm plain.1)]
    rw [ih plain.2]
    rfl

variable {env : Env}

/-- A string is printed up to its zero byte, which is the last that is read. -/
theorem run_putStringLoop {text : List UInt8} {fuel s : Nat} (holds : Text.At env.mem s text)
    (turns : text.length < fuel) : (putStringLoop fuel s).run env = .ok () (env.printed text) := by
  -- The induction is on the text: one byte is printed a turn, and memory stays as it is.
  induction text generalizing env fuel s with
  | nil =>
    obtain ⟨fuel, rfl⟩ := Nat.exists_eq_add_of_lt turns
    simp [putStringLoop, EStateM.run_bind, run_loadByte holds]
  | cons b text ih =>
    cases fuel with
    | zero => exact absurd turns (Nat.not_lt_zero _)
    | succ fuel =>
      obtain ⟨nonzero, here, rest⟩ := holds
      rw [putStringLoop, EStateM.run_bind, run_loadByte here]
      simp only [ne_eq, nonzero, not_false_eq_true, if_true]
      rw [EStateM.run_bind, run_putchar]
      simp only
      have unread : Text.At (env.printed [b]).mem (s + 1) text := rest
      rw [ih unread (Nat.lt_of_succ_lt_succ turns), Env.printed_printed]
      rfl

/-- A string of one word's addresses is printed. -/
theorem run_putString {text : List UInt8} {s : Nat} (holds : CString env.mem s text) :
    (putString s).run env = .ok () (env.printed text) :=
  run_putStringLoop holds.holds (Nat.lt_of_le_of_lt (Nat.le_add_left _ _) holds.word)

/-- The sign that a shift draws in stays above the nibble that is masked out. -/
theorem nibble_eq (value : BitVec 32) {i : Nat} (small : i < 8) :
    (value.sshiftRight (i * 4) &&& 0xf).toNat = value.toNat / 16 ^ i % 16 := by
  have unsigned : value.sshiftRight (i * 4) &&& 0xf = value >>> (i * 4) &&& 0xf := by
    apply BitVec.eq_of_getLsbD_eq
    intro j _
    -- The lower four bits come from the value itself, and the mask has no others.
    by_cases low : j < 4
    · have inside : i * 4 + j < 32 := by omega
      have within : ¬ 32 ≤ j := by omega
      simp [BitVec.getLsbD_sshiftRight, inside, within]
    · have above : 15 < 2 ^ j := (by norm_num : 15 < 2 ^ 4).trans_le
        (Nat.pow_le_pow_right (by omega) (by omega))
      have masked : (15#32).getLsbD j = false := by
        rw [BitVec.getLsbD_ofNat, Nat.testBit_lt_two_pow above, Bool.and_false]
      simp [masked]
  have power : 16 ^ i = 2 ^ (i * 4) := by
    rw [Nat.mul_comm, Nat.pow_mul]
  rw [unsigned, BitVec.toNat_and, BitVec.toNat_ushiftRight, Nat.shiftRight_eq_div_pow, power]
  exact Nat.and_two_pow_sub_one_eq_mod _ 4

/-- The digits to choose from are those of base sixteen. -/
theorem hexDigits_get {d : Nat} (small : d < 16) : hexDigits[d]? = some (digit d) := by
  interval_cases d <;> rfl

/-- The lower nibbles are printed as that many digits of base sixteen. -/
theorem run_putNibbles (value : Int32) {i : Nat} (few : i ≤ 8) :
    (putNibbles value i).run env =
      .ok () (env.printed ((fixed 16 i (value.toBitVec.toNat % 16 ^ i)).map digit)) := by
  induction i generalizing env with
  | zero => simp [putNibbles, fixed]
  | succ i ih =>
    have small : value.toBitVec.toNat / 16 ^ i % 16 < 16 := Nat.mod_lt _ (by omega)
    -- The first digit of what is left is the highest nibble that has not been printed.
    have first : value.toBitVec.toNat % 16 ^ (i + 1) / 16 ^ i = value.toBitVec.toNat / 16 ^ i % 16 := by
      rw [Nat.pow_succ, Nat.mod_mul_right_div_self]
    have rest : value.toBitVec.toNat % 16 ^ (i + 1) % 16 ^ i = value.toBitVec.toNat % 16 ^ i :=
      Nat.mod_mod_of_dvd _ (Nat.pow_dvd_pow 16 (Nat.le_succ i))
    rw [fixed, first, rest, putNibbles]
    simp only [nibble_eq value.toBitVec few, hexDigits_get small]
    rw [EStateM.run_bind, run_putchar]
    simp only
    rw [ih (Nat.le_of_succ_le few), Env.printed_printed]
    rfl

/-- A value is shown as the eight digits of its bits. -/
theorem run_putHex (mem : Text.Memory) (value : Int32) : ∃ out, Shows mem .hex [.int value] out ∧
    ∀ env, (putHex value).run env = .ok () (env.printed out) := by
  -- The value of the bits is that of the `int` up to a multiple of the word.
  have small : value.toBitVec.toNat < 16 ^ 8 := value.toBitVec.isLt
  refine ⟨_, .hex (fixed_length 16 8 value.toBitVec.toNat) (fixed_lt (by omega) small) ?_, ?_⟩
  · rw [ofDigits_fixed (by omega) small]
    have word : value.toInt = Int.bmod value.toBitVec.toNat (2 ^ 32 : Nat) :=
      BitVec.toInt_eq_toNat_bmod value.toBitVec
    rw [word, show (2 ^ 32 : Int) = ((2 ^ 32 : Nat) : Int) from rfl, Int.bmod_emod,
      ← Int.natCast_emod, Nat.mod_eq_of_lt value.toBitVec.isLt]
  · intro env
    rw [putHex, run_putNibbles value (Nat.le_refl 8), Nat.mod_eq_of_lt small]

/-- A piece is printed as it should be, unless it is the least value to be printed as a decimal. -/
theorem run_put {d : Directive} {taken : List Arg} (typed : Takes env.mem d taken) (extra : List Arg) :
    ((d, taken) ≠ (.decimal, [.int Int32.minValue]) → ∃ out, Shows env.mem d taken out ∧
      (put d (taken ++ extra)).run env = .ok extra (env.printed out)) ∧
    ((d, taken) = (.decimal, [.int Int32.minValue]) → ∃ after,
      (put d (taken ++ extra)).run env = .error .overflow after) := by
  -- Of all pieces only a decimal can fail.
  cases typed with
  | literal ch => exact ⟨fun _ => ⟨_, .literal ch, rfl⟩, nofun⟩
  | unknown => exact ⟨fun _ => ⟨_, .unknown, by simp [put]⟩, nofun⟩
  | string holds =>
    refine ⟨fun _ => ⟨_, .string holds, ?_⟩, nofun⟩
    simp only [put, pointerArg, List.cons_append, EStateM.run_bind, EStateM.run_pure,
      run_putString holds]
    rfl
  | hex value =>
    obtain ⟨out, shown, ran⟩ := run_putHex env.mem value
    refine ⟨fun _ => ⟨out, shown, ?_⟩, nofun⟩
    simp only [put, intArg, List.cons_append, EStateM.run_bind, EStateM.run_pure, ran]
    rfl
  | decimal value =>
    constructor
    · intro other
      have negatable : value ≠ Int32.minValue := by
        rintro rfl
        exact other rfl
      refine ⟨_, .decimal value, ?_⟩
      simp only [put, intArg, List.cons_append, EStateM.run_bind, EStateM.run_pure,
        run_putDecimal negatable]
      rfl
    · -- The least number has no negation.
      intro least
      obtain rfl : value = Int32.minValue := by simpa using least
      refine ⟨env.printed ['-'.toUInt8], ?_⟩
      simp only [put, intArg, List.cons_append, EStateM.run_bind, EStateM.run_pure,
        run_putDecimal_minValue]

/-- The cases of the letter print what the letter asks for. -/
theorem conversion_eq (letter : UInt8) (vargs : List Arg) :
    conversion letter vargs = put (ofLetter letter) vargs := by
  unfold conversion ofLetter
  -- A second percent sign stands for itself, and the other cases are the same as written.
  split_ifs with percent
  · rw [percent]
    rfl
  all_goals rfl

/-- At the end of a format nothing is printed, and all arguments are left. -/
theorem run_printfLoop_nil {fmt : Nat} (holds : Text.At env.mem fmt []) (fuel : Nat)
    (vargs : List Arg) : (printfLoop (fuel + 1) fmt vargs).run env = .ok vargs env := by
  simp [printfLoop, EStateM.run_bind, run_loadByte holds]

/-- A character that is no percent sign is printed, and the format goes on behind it. -/
theorem run_printfLoop_literal {fmt : Nat} {ch : UInt8} {rest : List UInt8}
    (holds : Text.At env.mem fmt (ch :: rest)) (plain : ch ≠ '%'.toUInt8) (fuel : Nat)
    (vargs : List Arg) :
    (printfLoop (fuel + 1) fmt vargs).run env =
      EStateM.run (put (.literal ch) vargs >>= printfLoop fuel (fmt + 1)) env := by
  obtain ⟨nonzero, here, _⟩ := holds
  rw [printfLoop, EStateM.run_bind, run_loadByte here]
  simp only [if_neg nonzero, if_neg plain]
  rfl

/-- A percent sign that ends the format is printed, and nothing behind it is read. -/
theorem run_printfLoop_last {fmt : Nat} (holds : Text.At env.mem fmt ['%'.toUInt8]) (fuel : Nat)
    (vargs : List Arg) :
    (printfLoop (fuel + 1) fmt vargs).run env =
      EStateM.run (put (.literal '%'.toUInt8) vargs >>= pure) env := by
  obtain ⟨nonzero, here, stop⟩ := holds
  rw [printfLoop, EStateM.run_bind, run_loadByte here]
  simp only [if_neg nonzero, if_true]
  -- The zero byte is read as the letter, and the loop ends there.
  rw [EStateM.run_bind, run_loadByte stop, bind_pure]
  rfl

/-- A percent sign and a letter are taken together, and the format goes on behind both. -/
theorem run_printfLoop_letter {fmt : Nat} {letter : UInt8} {rest : List UInt8}
    (holds : Text.At env.mem fmt ('%'.toUInt8 :: letter :: rest)) (fuel : Nat) (vargs : List Arg) :
    (printfLoop (fuel + 1) fmt vargs).run env =
      EStateM.run (put (ofLetter letter) vargs >>= printfLoop fuel (fmt + 2)) env := by
  -- The letter is no zero byte, so that the loop goes on behind it.
  obtain ⟨nonzero, here, letterNonzero, there, _⟩ := holds
  rw [printfLoop, EStateM.run_bind, run_loadByte here]
  simp only [if_neg nonzero, if_true]
  rw [EStateM.run_bind, run_loadByte there]
  simp only [if_neg letterNonzero, conversion_eq]

/-- What is to be printed for pieces and the arguments that each of them takes. -/
def Renders (mem : Text.Memory) (calls : List (Directive × List Arg)) (printed : List UInt8) : Prop :=
  ∃ parts, List.Forall₂ (fun call part => Shows mem call.1 call.2 part) calls parts ∧
    printed = parts.flatten

/-- Without a piece nothing is rendered. -/
theorem Renders.nil {mem : Text.Memory} {printed : List UInt8} (renders : Renders mem [] printed) :
    printed = [] := by
  obtain ⟨parts, all, rfl⟩ := renders
  cases all
  rfl

/-- The first piece is rendered before the others. -/
theorem Renders.cons {mem : Text.Memory} {call : Directive × List Arg}
    {calls : List (Directive × List Arg)} {printed : List UInt8}
    (renders : Renders mem (call :: calls) printed) :
    ∃ part rest, Shows mem call.1 call.2 part ∧ Renders mem calls rest ∧ printed = part ++ rest := by
  obtain ⟨parts, all, rfl⟩ := renders
  cases all with
  | cons shown others => exact ⟨_, _, shown, ⟨_, others, rfl⟩, rfl⟩

/-- Pieces that follow each other are rendered one after the other. -/
theorem Renders.append {mem : Text.Memory} {calls later : List (Directive × List Arg)}
    {printed : List UInt8} (renders : Renders mem (calls ++ later) printed) :
    ∃ first second, Renders mem calls first ∧ Renders mem later second ∧ printed = first ++ second := by
  -- The induction is on the calls in front, each of which renders one part.
  induction calls generalizing printed with
  | nil => exact ⟨[], printed, ⟨[], .nil, rfl⟩, renders, rfl⟩
  | cons call calls ih =>
    obtain ⟨part, rest, shown, others, rfl⟩ := renders.cons
    obtain ⟨first, second, ⟨parts, all, rfl⟩, right, rfl⟩ := ih others
    exact ⟨_, second, ⟨part :: parts, .cons shown all, rfl⟩, right, (List.append_assoc _ _ _).symm⟩

/-- Every piece has the arguments that it takes. -/
def Supplied (mem : Text.Memory) (calls : List (Directive × List Arg)) : Prop :=
  ∀ call ∈ calls, Takes mem call.1 call.2

/-- A decimal piece that is to print the value which has no negative. -/
def leastDecimal : Directive × List Arg := (.decimal, [.int Int32.minValue])

/-- What a program does with pieces and their arguments: they are printed, or a value overflows. -/
def Interprets (env : Env) (calls : List (Directive × List Arg)) (extra : List Arg)
    (program : Exec Undefined Env (List Arg)) : Prop :=
  (leastDecimal ∉ calls → ∃ printed, Renders env.mem calls printed ∧
    program.run env = .ok extra (env.printed printed)) ∧
  (leastDecimal ∈ calls → ∃ after, program.run env = .error .overflow after)

/-- What a program does with pieces is what it comes to on the state it starts in. -/
theorem Interprets.congr {calls : List (Directive × List Arg)} {extra : List Arg}
    {program other : Exec Undefined Env (List Arg)} (holds : Interprets env calls extra other)
    (same : program.run env = other.run env) : Interprets env calls extra program := by
  rwa [Interprets, same]

/-- Printing one piece and then the others prints them all. -/
theorem interprets_cons {call : Directive × List Arg} {calls : List (Directive × List Arg)}
    {extra : List Arg} (next : List Arg → Exec Undefined Env (List Arg))
    (typed : Takes env.mem call.1 call.2)
    (rest : ∀ out, Interprets (env.printed out) calls extra (next (calls.flatMap Prod.snd ++ extra))) :
    Interprets env (call :: calls) extra
      (put call.1 ((call :: calls).flatMap Prod.snd ++ extra) >>= next) := by
  obtain ⟨works, fails⟩ := run_put typed (calls.flatMap Prod.snd ++ extra)
  rw [List.flatMap_cons, List.append_assoc]
  by_cases least : call = leastDecimal
  -- What comes behind a piece that fails is not reached.
  · refine ⟨fun absent => absurd (least ▸ List.mem_cons_self) absent, fun _ => ?_⟩
    obtain ⟨after, ran⟩ := fails least
    refine ⟨after, ?_⟩
    rw [EStateM.run_bind, ran]
  · obtain ⟨out, shown, ran⟩ := works least
    rw [Interprets, EStateM.run_bind, ran]
    refine ⟨fun absent => ?_, fun present => ?_⟩
    · obtain ⟨printed, ⟨parts, all, rfl⟩, done⟩ :=
        (rest out).1 fun later => absent (List.mem_cons_of_mem _ later)
      refine ⟨out ++ parts.flatten, ⟨out :: parts, .cons shown all, rfl⟩, ?_⟩
      rw [← Env.printed_printed]
      exact done
    · exact (rest out).2 ((List.mem_cons.mp present).resolve_left (Ne.symm least))

/-- Without a piece nothing is printed, and all arguments are left. -/
theorem interprets_nil {extra : List Arg} {program : Exec Undefined Env (List Arg)}
    (ran : program.run env = .ok extra env) : Interprets env [] extra program := by
  refine ⟨fun _ => ⟨[], ⟨[], .nil, rfl⟩, ?_⟩, nofun⟩
  rw [ran, Env.printed_nil]

/-- What is done for one piece leaves the others, with the arguments that they take. -/
theorem interprets_piece {d : Directive} {pieces : List Directive}
    {calls : List (Directive × List Arg)} {extra : List Arg}
    {program : Exec Undefined Env (List Arg)} (next : List Arg → Exec Undefined Env (List Arg))
    (parsed : d :: pieces = calls.map Prod.fst) (supplied : Supplied env.mem calls)
    (ran : program.run env = EStateM.run (put d (calls.flatMap Prod.snd ++ extra) >>= next) env)
    (rest : ∀ out later, pieces = later.map Prod.fst → Supplied env.mem later →
      Interprets (env.printed out) later extra (next (later.flatMap Prod.snd ++ extra))) :
    Interprets env calls extra program := by
  -- The first call has this piece, and the other calls have the other pieces.
  obtain ⟨call, later, rfl, rfl, others⟩ := List.map_eq_cons_iff.mp parsed.symm
  have typed := supplied call List.mem_cons_self
  have left : Supplied env.mem later := fun other member =>
    supplied other (List.mem_cons_of_mem _ member)
  exact (interprets_cons next typed fun out => rest out later others.symm left).congr ran

/-- The loop prints the pieces of the format one after the other. -/
theorem printfLoop_interprets {format : List UInt8} {fmt fuel : Nat}
    {calls : List (Directive × List Arg)} (extra : List Arg) (holds : Text.At env.mem fmt format)
    (turns : format.length < fuel) (parsed : directives format = calls.map Prod.fst)
    (supplied : Supplied env.mem calls) :
    Interprets env calls extra (printfLoop fuel fmt (calls.flatMap Prod.snd ++ extra)) := by
  obtain ⟨fuel, rfl⟩ : ∃ left, fuel = left + 1 := ⟨fuel - 1, by omega⟩
  -- The induction follows the pieces of the format, which the loop takes off one per turn.
  induction format using directives.induct generalizing env fmt fuel calls with
  | case1 =>
    obtain rfl : calls = [] := by simpa [directives] using parsed.symm
    exact interprets_nil (run_printfLoop_nil holds _ extra)
  -- A percent sign that ends the format is a piece without a letter.
  | case2 =>
    refine interprets_piece pure parsed supplied (run_printfLoop_last holds _ _) ?_
    intro out later ended _
    obtain rfl := List.map_eq_nil_iff.mp ended.symm
    exact interprets_nil rfl
  -- A percent sign with its letter takes one turn, as a plain character does.
  | case3 letter rest ih =>
    simp only [List.length_cons] at turns
    obtain ⟨fuel, rfl⟩ : ∃ left, fuel = left + 1 := ⟨fuel - 1, by omega⟩
    refine interprets_piece _ parsed supplied (run_printfLoop_letter holds _ _) ?_
    intro out later others left
    have unread : Text.At (env.printed out).mem (fmt + 2) rest := holds.2.2.2.2
    exact ih unread others left fuel (by omega)
  | case4 ch rest plain ih =>
    rw [directives.eq_def] at parsed
    simp only [if_neg plain] at parsed
    simp only [List.length_cons] at turns
    obtain ⟨fuel, rfl⟩ : ∃ left, fuel = left + 1 := ⟨fuel - 1, by omega⟩
    refine interprets_piece _ parsed supplied (run_printfLoop_literal holds plain _ _) ?_
    intro out later others left
    have unread : Text.At (env.printed out).mem (fmt + 1) rest := holds.2.2
    exact ih unread others left fuel (by omega)

/-- A format is printed with the arguments that its pieces take. -/
theorem printf_interprets {format : List UInt8} {fmt : Nat} {calls : List (Directive × List Arg)}
    (extra : List Arg) (text : CString env.mem fmt format)
    (parsed : directives format = calls.map Prod.fst) (supplied : Supplied env.mem calls) :
    Interprets env calls extra (printf fmt (calls.flatMap Prod.snd ++ extra)) :=
  printfLoop_interprets extra text.holds (Nat.lt_of_le_of_lt (Nat.le_add_left _ _) text.word) parsed
    supplied

/--
Every format is printed as its pieces ask for, unless one of them is to print the value that has no
negative.

Each piece takes its own arguments, so that exactly those behind the last one are left. Memory may
hold nothing but the format and the strings, so that their ends are never passed.
-/
theorem printf_faithful {format : List UInt8} {fmt : Nat} {calls : List (Directive × List Arg)}
    (extra : List Arg) (text : CString env.mem fmt format)
    (parsed : directives format = calls.map Prod.fst) (supplied : Supplied env.mem calls) :
    (∃ printed, Renders env.mem calls printed ∧
      (printf fmt (calls.flatMap Prod.snd ++ extra)).run env = .ok extra (env.printed printed)) ↔
    leastDecimal ∉ calls := by
  -- A run that overflows does not return, so that no other one can be its result.
  obtain ⟨works, fails⟩ := printf_interprets extra text parsed supplied
  refine ⟨?_, works⟩
  rintro ⟨printed, _, ran⟩ least
  obtain ⟨after, failed⟩ := fails least
  rw [failed] at ran
  exact absurd ran nofun

/-- A format with pieces of all kinds, the last of which is a percent sign at its end. -/
def piecesFormat : List UInt8 := Text.bytes "%s=%x%%%d%"

/-- Memory with the format, a string behind it, and nothing else. -/
def piecesEnv : Env := ⟨Text.only 0x1000 (piecesFormat ++ 0 :: Text.bytes "ok" ++ [0]), []⟩

/-- The pieces of the format, and the arguments that they take. -/
def piecesCalls : List (Directive × List Arg) :=
  [(.string, [.pointer 0x100b]), (.literal '='.toUInt8, []), (.hex, [.int 255]),
    (.literal '%'.toUInt8, []), (.decimal, [.int (-7)]), (.literal '%'.toUInt8, [])]

/-- A string, a hexadecimal and a decimal number are printed, and two percent signs. -/
theorem printf_faithful_pieces :
    ∃ printed, Renders piecesEnv.mem piecesCalls printed ∧
      (printf 0x1000 [.pointer 0x100b, .int 255, .int (-7)]).run piecesEnv =
        .ok [] (piecesEnv.printed printed) := by
  have text : CString piecesEnv.mem 0x1000 piecesFormat := ⟨by decide +kernel, by decide⟩
  have word : CString piecesEnv.mem 0x100b (Text.bytes "ok") := ⟨by decide +kernel, by decide⟩
  -- The format holds every conversion once, and ends with a single `%`.
  have parsed : directives piecesFormat = piecesCalls.map Prod.fst := by decide +kernel
  have supplied : Supplied piecesEnv.mem piecesCalls := by
    intro call member
    simp only [piecesCalls, List.mem_cons, List.not_mem_nil, or_false] at member
    rcases member with rfl | rfl | rfl | rfl | rfl | rfl
    · exact .string word
    · exact .literal _
    · exact .hex 255
    · exact .literal _
    · exact .decimal (-7)
    · exact .literal _
  exact (printf_faithful [] text parsed supplied).mpr (by decide)

/-- Memory with the format `%d` in it, and nothing else. -/
def decimalFormat : Env := ⟨Text.only 0x1000 ['%'.toUInt8, 'd'.toUInt8, 0], []⟩

/-- The format `%d` takes one value. -/
theorem supplied_decimal (value : Int32) :
    Supplied decimalFormat.mem [(.decimal, [.int value])] := by
  intro call member
  obtain rfl := List.mem_singleton.mp member
  exact .decimal value

/-- The format `%d` does not print the least value. -/
theorem printf_least :
    CString decimalFormat.mem 0x1000 ['%'.toUInt8, 'd'.toUInt8] ∧
    directives ['%'.toUInt8, 'd'.toUInt8] = [leastDecimal].map Prod.fst ∧
    Supplied decimalFormat.mem [leastDecimal] ∧
    ¬ ∃ printed, Renders decimalFormat.mem [leastDecimal] printed ∧
      (printf 0x1000 [.int Int32.minValue]).run decimalFormat =
        .ok [] (decimalFormat.printed printed) := by
  have text : CString decimalFormat.mem 0x1000 ['%'.toUInt8, 'd'.toUInt8] := ⟨by decide, by decide⟩
  -- The sign is printed first, and then the negation overflows.
  have ran : (printf 0x1000 [.int Int32.minValue]).run decimalFormat =
      .error .overflow (decimalFormat.printed ['-'.toUInt8]) := rfl
  refine ⟨text, rfl, supplied_decimal _, ?_⟩
  rintro ⟨printed, _, works⟩
  rw [ran] at works
  exact absurd works nofun

end Os1k.C
