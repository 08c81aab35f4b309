import Os1k.C.Format
import Os1k.Lib.Lines
import Mathlib.Data.List.ReduceOption

/-! The shell of `shell.c`, and the lines that it hears. -/

namespace Os1k.C.Shell

open Lines (Outcome heard meant Short)
open Riscv (wordLimit)

/-- The string literals of the shell. -/
inductive Literal where
  | prompt
  | tooLong
  | newline
  | hello
  | greeting
  | exit
  | unknown
  deriving DecidableEq, Repr

/-- What a literal says. -/
def Literal.text : Literal → List UInt8
  | .prompt => Text.bytes "> "
  | .tooLong => Text.bytes "command line too long\n"
  | .newline => Text.bytes "\n"
  | .hello => Text.bytes "hello"
  | .greeting => Text.bytes "Hello world from shell!\n"
  | .exit => Text.bytes "exit"
  | .unknown => Text.bytes "unknown command: %s\n"

/-- Where the literals and the command line are. -/
structure Layout where
  literal : Literal → Nat
  cmdline : Nat

/-- The size of `cmdline`. -/
def cmdlineSize : Nat := 128

/-- What the shell does that can be told from outside. -/
inductive Event where
  /-- It prints one of its literals. -/
  | printed (literal : Literal)
  /-- It writes to one place of the command line. -/
  | stored (index : Nat)
  /-- It compares the command line, with these bytes in it, with a literal. -/
  | compared (literal : Literal) (contents : List (Option UInt8))
  deriving DecidableEq, Repr

/-- A running shell, and what it has done so far. -/
structure State where
  env : Env
  trace : List Event

/-- Call a function of the library. -/
def call {α : Type} (function : Exec Undefined Env α) : Exec Undefined State α :=
  Exec.zoom State.env (fun state env => { state with env }) function

/-- Add to what the shell has done. -/
def record (event : Event) : Exec Undefined State Unit :=
  modify fun state => { state with trace := state.trace ++ [event] }

/-- What a turn of the reading loop leads to. -/
inductive Turn where
  | more
  | tooLong
  | ended
  deriving DecidableEq, Repr

/-- What comes of the input that there is. -/
inductive Ending where
  | waiting
  | exited
  deriving DecidableEq, Repr

section Program

variable (layout : Layout)

/-- The bytes of the command line. -/
def contents (env : Env) : List (Option UInt8) :=
  (List.range cmdlineSize).map fun j => env.mem (layout.cmdline + j)

/-- Print a literal, with arguments. -/
def print (literal : Literal) (vargs : List Arg) : Exec Undefined State Unit := do
  record (.printed literal)
  let _ ← call (printf (layout.literal literal) vargs)

/-- Write to the command line. -/
def store (i : Nat) (ch : UInt8) : Exec Undefined State Unit := do
  record (.stored i)
  call (storeByte (layout.cmdline + i) ch)

/-- Compare the command line with a literal. -/
def compare (literal : Literal) : Exec Undefined State Int := do
  record (.compared literal (contents layout (← get).env))
  call (strcmp layout.cmdline (layout.literal literal))

/-- What the reading loop does with a character. -/
def readTurn (ch : UInt8) (i : Nat) : Exec Undefined State Turn := do
  call (putchar ch)
  if i = cmdlineSize - 1 then
    print layout .tooLong []
    return .tooLong
  else if ch = '\r'.toUInt8 then
    print layout .newline []
    store layout i 0
    return .ended
  else
    store layout i ch
    return .more

/-- What is done with a command. The result is whether the shell goes on. -/
def interpret : Exec Undefined State Bool := do
  if (← compare layout .hello) = 0 then
    print layout .greeting []
    return true
  else if (← compare layout .exit) = 0 then
    return false
  else
    print layout .unknown [.pointer layout.cmdline]
    return true

/-- Read and interpret the characters that `getchar` delivers, and wait when there are no more. -/
def readLoop : List UInt8 → Nat → Exec Undefined State Ending
  | [], _ => return .waiting
  | ch :: input, i => do
    match ← readTurn layout ch i with
    | .more => readLoop input (i + 1)
    | .tooLong =>
      print layout .prompt []
      readLoop input 0
    | .ended =>
      if ← interpret layout then
        print layout .prompt []
        readLoop input 0
      else
        return .exited

/-- The shell, on so much of the input. -/
def main (input : List UInt8) : Exec Undefined State Ending := do
  print layout .prompt []
  readLoop layout input 0

end Program

/-- What an observer sees of the lines that the shell hears. -/
inductive Sight where
  | compared (literal : Literal) (command : List UInt8)
  | rejected
  deriving DecidableEq, Repr

/-- The string at the start of some bytes. -/
def string (contents : List (Option UInt8)) : List UInt8 :=
  (contents.takeWhile (· ≠ some 0)).reduceOption

/-- What is seen of an event. -/
def Event.sight : Event → Option Sight
  | .printed .tooLong => some .rejected
  | .compared literal contents => some (.compared literal (string contents))
  | _ => none

/-- Writes stay inside the command line, and what is compared ends inside it. -/
def Event.Safe : Event → Prop
  | .printed _ => True
  | .stored index => index < cmdlineSize
  | .compared _ contents => some 0 ∈ contents

/-- What is to be seen of a line: a command is compared with one name and, if it differs, the other. -/
def sights : Outcome UInt8 → List Sight
  | .command line =>
    .compared .hello line :: if line = Literal.hello.text then [] else [.compared .exit line]
  | .rejected => [.rejected]

/-- Whether a command ends the shell. -/
def quits (line : List UInt8) : Bool := line = Literal.exit.text

/-- What is loaded for the shell: its literals, and room for the command line apart from them. -/
structure Loaded (layout : Layout) (mem : Text.Memory) : Prop where
  literals : ∀ literal : Literal, CString mem (layout.literal literal) literal.text
  room : ∀ j < cmdlineSize, (mem (layout.cmdline + j)).isSome
  word : layout.cmdline + cmdlineSize ≤ wordLimit
  apart : ∀ literal : Literal, layout.literal literal + literal.text.length < layout.cmdline ∨
    layout.cmdline + cmdlineSize ≤ layout.literal literal

variable {layout : Layout} {env : Env} {trace : List Event}

/-- What is loaded stays so when the command line is written to. -/
theorem Loaded.write {mem : Text.Memory} (loaded : Loaded layout mem) {line : List UInt8}
    (fits : line.length ≤ cmdlineSize) : Loaded layout (Text.write mem layout.cmdline line) where
  literals literal := by
    have apart := loaded.apart literal
    refine ⟨(loaded.literals literal).holds.congr fun i small => ?_, (loaded.literals literal).word⟩
    exact Text.write_other (by omega)
  room j small := Text.write_isSome (loaded.room j small) _ _
  word := loaded.word
  apart := loaded.apart

/-- A function of the library changes nothing but what it works on. -/
theorem run_call {α : Type} {function : Exec Undefined Env α} {value : α} {after : Env}
    (ran : function.run env = .ok value after) :
    (call function).run ⟨env, trace⟩ = .ok value ⟨after, trace⟩ :=
  Exec.run_zoom_ok.mpr ⟨after, ran, rfl⟩

/-- What is recorded comes behind what was. -/
@[simp] theorem run_record (event : Event) :
    (record event).run ⟨env, trace⟩ = .ok () ⟨env, trace ++ [event]⟩ := rfl

/-- A string is what is found before the first zero byte. -/
theorem string_eq {mem : Text.Memory} {p n : Nat} {text : List UInt8} (holds : Text.At mem p text)
    (fits : text.length < n) :
    string ((List.range n).map fun j => mem (p + j)) = text ∧
      some 0 ∈ (List.range n).map fun j => mem (p + j) := by
  -- The induction is on the text, whose first byte is the first of the range.
  induction text generalizing p n with
  | nil =>
    obtain ⟨n, rfl⟩ := Nat.exists_eq_add_of_lt fits
    have first : mem (p + 0) = some 0 := holds
    rw [List.range_succ_eq_map, List.map_cons, first]
    refine ⟨?_, List.mem_cons_self⟩
    rw [string, List.takeWhile_cons_of_neg (by simp), List.reduceOption_nil]
  | cons b text ih =>
    cases n with
    | zero => exact absurd fits (Nat.not_lt_zero _)
    | succ n =>
      obtain ⟨nonzero, here, rest⟩ := holds
      obtain ⟨same, ended⟩ := ih rest (Nat.lt_of_succ_lt_succ fits)
      have shifted : (List.range n).map (fun j => mem (p + 1 + j)) =
          ((List.range n).map Nat.succ).map fun j => mem (p + j) := by
        rw [List.map_map]
        refine List.map_congr_left fun j _ => ?_
        rw [Function.comp_apply, Nat.succ_eq_add_one, Nat.add_assoc, Nat.add_comm 1 j]
      have first : mem (p + 0) = some b := here
      rw [shifted] at same ended
      rw [List.range_succ_eq_map, List.map_cons, first]
      refine ⟨?_, List.mem_cons_of_mem _ ended⟩
      rw [string, List.takeWhile_cons_of_pos (by simpa using nonzero), List.reduceOption_cons_of_some]
      exact congrArg (b :: ·) same

/-- What events report of lines, and that all of them are safe. -/
structure Reports (events : List Event) (outcomes : List (Outcome UInt8)) : Prop where
  safe : ∀ event ∈ events, event.Safe
  seen : events.filterMap Event.sight = outcomes.flatMap sights

/-- Events that follow each other report one outcome after the other. -/
theorem Reports.append {events more : List Event} {outcomes others : List (Outcome UInt8)}
    (first : Reports events outcomes) (second : Reports more others) :
    Reports (events ++ more) (outcomes ++ others) where
  safe event member := (List.mem_append.mp member).elim (first.safe event) (second.safe event)
  seen := by rw [List.filterMap_append, List.flatMap_append, first.seen, second.seen]

/-- Commands and rejections can be told from what is seen of them. -/
theorem sights_injective {outcomes others : List (Outcome UInt8)}
    (same : outcomes.flatMap sights = others.flatMap sights) : outcomes = others := by
  -- Every command is compared with the first name, and a rejection is seen as such.
  let back : Sight → Option (Outcome UInt8)
    | .compared .hello line => some (.command line)
    | .rejected => some .rejected
    | _ => none
  have inverse : ∀ list : List (Outcome UInt8), (list.flatMap sights).filterMap back = list := by
    intro list
    induction list with
    | nil => rfl
    | cons outcome list ih =>
      rw [List.flatMap_cons, List.filterMap_append, ih]
      cases outcome with
      | rejected => rfl
      | command line =>
        by_cases named : line = Literal.hello.text
        · simp [sights, named, back]
        · simp [sights, named, back]
  rw [← inverse outcomes, same, inverse]

/-- The pieces of a format that are literal characters, which take nothing. -/
def plainCalls (text : List UInt8) : List (Directive × List Arg) :=
  text.map fun ch => (.literal ch, [])

/-- The pieces of a literal, and what they take. -/
def Literal.calls (layout : Layout) : Literal → List (Directive × List Arg)
  | .unknown => plainCalls (Text.bytes "unknown command: ") ++
      [(.string, [.pointer layout.cmdline]), (.literal '\n'.toUInt8, [])]
  | literal => plainCalls literal.text

/-- What a literal is printed with. -/
def Literal.vargs (layout : Layout) : Literal → List Arg
  | .unknown => [.pointer layout.cmdline]
  | _ => []

/-- What is printed for a literal, when the command line holds a string. -/
def Literal.shown (line : List UInt8) : Literal → List UInt8
  | .unknown => Text.bytes "unknown command: " ++ line ++ ['\n'.toUInt8]
  | literal => literal.text

/-- What the shell says to a command. -/
def reply (line : List UInt8) : List UInt8 :=
  if line = Literal.hello.text then Literal.greeting.text
  else if line = Literal.exit.text then []
  else Literal.unknown.shown line

/-- A literal that takes nothing has no percent sign. -/
theorem plainCalls_spec {text : List UInt8} (plain : '%'.toUInt8 ∉ text) :
    directives text = (plainCalls text).map Prod.fst ∧ (plainCalls text).flatMap Prod.snd = [] ∧
      leastDecimal ∉ plainCalls text := by
  -- Each character is a piece of its own that takes nothing.
  have pieces := directives_plain plain []
  refine ⟨?_, by simp [plainCalls], by simp [plainCalls, leastDecimal]⟩
  rw [List.append_nil, directives, List.append_nil] at pieces
  rw [pieces, plainCalls, List.map_map]
  rfl

/-- Literal characters before other pieces are pieces of their own. -/
theorem directives_plainCalls {text : List UInt8} (plain : '%'.toUInt8 ∉ text) (rest : List UInt8) :
    directives (text ++ rest) = (plainCalls text).map Prod.fst ++ directives rest := by
  rw [directives_plain plain, plainCalls, List.map_map]
  rfl

/-- The pieces of a literal are those of its text, and take what it is printed with. -/
theorem Literal.calls_spec (layout : Layout) (literal : Literal) :
    directives literal.text = (literal.calls layout).map Prod.fst ∧
      (literal.calls layout).flatMap Prod.snd = literal.vargs layout ∧
      leastDecimal ∉ literal.calls layout := by
  -- Only one of the literals has a percent sign.
  cases literal with
  | unknown =>
    have start : '%'.toUInt8 ∉ Text.bytes "unknown command: " := by decide
    have whole : Literal.unknown.text =
        Text.bytes "unknown command: " ++ ['%'.toUInt8, 's'.toUInt8, '\n'.toUInt8] := by decide
    have last : directives ['%'.toUInt8, 's'.toUInt8, '\n'.toUInt8] =
        [.string, .literal '\n'.toUInt8] := rfl
    refine ⟨?_, by simp [calls, plainCalls, vargs], by simp [calls, plainCalls, leastDecimal]⟩
    rw [whole, directives_plainCalls start, last, calls, List.map_append]
    rfl
  | _ => exact plainCalls_spec (by decide)

/-- Literal characters take nothing. -/
theorem supplied_plain {mem : Text.Memory} (text : List UInt8) : Supplied mem (plainCalls text) := by
  intro call member
  obtain ⟨ch, _, rfl⟩ := List.mem_map.mp member
  exact .literal ch

/-- What a literal takes is there, if the command line is a string wherever it is to be printed. -/
theorem Literal.calls_supplied {mem : Text.Memory} {literal : Literal} {line : List UInt8}
    (holds : literal = .unknown → CString mem layout.cmdline line) :
    Supplied mem (literal.calls layout) := by
  -- Only the message on unknown commands takes something, which is the command line.
  cases literal with
  | unknown =>
    intro call member
    rcases List.mem_append.mp member with early | late
    · exact supplied_plain _ call early
    · simp only [List.mem_cons, List.not_mem_nil, or_false] at late
      rcases late with rfl | rfl
      · exact .string (holds rfl)
      · exact .literal _
  | _ => exact supplied_plain _

/-- Literal characters are printed as they are. -/
theorem renders_plain {mem : Text.Memory} {text printed : List UInt8}
    (renders : Renders mem (plainCalls text) printed) : printed = text := by
  -- Letters print as themselves: the induction is on the text.
  induction text generalizing printed with
  | nil => exact renders.nil
  | cons ch text ih =>
    obtain ⟨part, rest, shown, others, rfl⟩ := renders.cons
    cases shown
    rw [ih others]
    rfl

/-- What the pieces of a literal print. -/
theorem Literal.calls_shown {mem : Text.Memory} {literal : Literal} {line printed : List UInt8}
    (holds : literal = .unknown → CString mem layout.cmdline line)
    (renders : Renders mem (literal.calls layout) printed) : printed = literal.shown line := by
  -- The command line holds one string, which is what is printed for it.
  cases literal with
  | unknown =>
    obtain ⟨first, second, early, late, rfl⟩ := renders.append
    obtain ⟨part, rest, shown, last, rfl⟩ := late.cons
    obtain ⟨final, nothing, newline, none, rfl⟩ := last.cons
    cases shown with
    | string also =>
      cases newline
      rw [renders_plain early, also.holds.unique (holds rfl).holds, none.nil, Literal.shown,
        List.append_assoc]
      rfl
  | _ => exact renders_plain renders

/-- A literal is printed, and nothing but the console changes. -/
theorem run_print (literal : Literal) {line : List UInt8} (loaded : Loaded layout env.mem)
    (holds : literal = .unknown → CString env.mem layout.cmdline line) (trace : List Event) :
    (print layout literal (literal.vargs layout)).run ⟨env, trace⟩ =
      .ok () ⟨env.printed (literal.shown line), trace ++ [.printed literal]⟩ := by
  -- No literal prints a number, so that printing it cannot fail.
  obtain ⟨parsed, taken, works⟩ := literal.calls_spec layout
  obtain ⟨text, renders, ran⟩ :=
    (printf_interprets [] (loaded.literals literal) parsed (Literal.calls_supplied holds)).1 works
  obtain rfl := Literal.calls_shown holds renders
  rw [taken, List.append_nil] at ran
  rw [print, EStateM.run_bind, run_record]
  simp only
  rw [EStateM.run_bind, run_call ran]
  rfl

/-- A literal that takes nothing is printed. -/
theorem run_print_plain {literal : Literal} (loaded : Loaded layout env.mem)
    (plain : literal ≠ .unknown) (trace : List Event) :
    (print layout literal []).run ⟨env, trace⟩ =
      .ok () ⟨env.printed literal.text, trace ++ [.printed literal]⟩ := by
  -- The only literal that takes something is excluded.
  have nothing : literal.vargs layout = [] ∧ literal.shown [] = literal.text := by
    cases literal with
    | unknown => exact absurd rfl plain
    | _ => exact ⟨rfl, rfl⟩
  rw [← nothing.1, ← nothing.2]
  exact run_print literal loaded (fun same => absurd same plain) trace

/-- A place of the command line is written to. -/
theorem run_store (loaded : Loaded layout env.mem) {i : Nat} (inside : i < cmdlineSize) (ch : UInt8) :
    (store layout i ch).run ⟨env, trace⟩ =
      .ok () ⟨{ env with mem := Function.update env.mem (layout.cmdline + i) (some ch) },
        trace ++ [.stored i]⟩ := by
  rw [store, EStateM.run_bind, run_record]
  simp only
  rw [run_call (run_storeByte (loaded.room i inside) ch)]

/-- The command line is compared as the string that it holds. -/
theorem run_compare (loaded : Loaded layout env.mem) {line : List UInt8}
    (holds : CString env.mem layout.cmdline line) (literal : Literal) :
    (compare layout literal).run ⟨env, trace⟩ =
      .ok (Text.difference line literal.text)
        ⟨env, trace ++ [.compared literal (contents layout env)]⟩ := by
  -- What is recorded is the command line as it is before the comparison.
  rw [compare, EStateM.run_bind, EStateM.run_get]
  simp only
  rw [EStateM.run_bind, run_record]
  simp only
  rw [run_call (run_strcmp holds (loaded.literals literal))]

/-- A command is compared with the names of commands, and ends the shell if it is `exit`. -/
theorem run_interpret (loaded : Loaded layout env.mem) {line : List UInt8}
    (holds : CString env.mem layout.cmdline line) (fits : line.length < cmdlineSize) :
    ∃ after events, after = env.printed (reply line) ∧ Reports events [.command line] ∧ ∀ trace,
      (interpret layout).run ⟨env, trace⟩ = .ok (!quits line) ⟨after, trace ++ events⟩ := by
  -- The command line is a string, so that comparing it tells whether it is the name.
  obtain ⟨same, ended⟩ := string_eq holds.holds fits
  have terminated : some 0 ∈ contents layout env := ended
  have text : string (contents layout env) = line := same
  have differs : ∀ {literal : Literal}, Text.difference line literal.text = 0 ↔ line = literal.text :=
    fun {literal} =>
      Text.difference_eq_zero_iff holds.holds.nonzero (loaded.literals literal).holds.nonzero
  by_cases hello : line = Literal.hello.text
  · have printed := run_print_plain loaded (nofun : Literal.greeting ≠ .unknown)
    have stays : quits line = false := by
      rw [hello]
      decide
    rw [reply, if_pos hello]
    refine ⟨_, [.compared .hello (contents layout env), .printed .greeting], rfl,
      ⟨by simp [Event.Safe, terminated], by simp [Event.sight, sights, text, hello]⟩, fun trace => ?_⟩
    rw [interpret, EStateM.run_bind, run_compare loaded holds]
    simp only [if_pos (differs.mpr hello)]
    rw [EStateM.run_bind, printed, stays, List.append_assoc]
    rfl
  · -- Not the first name: the loop compares with the second one.
    by_cases exit : line = Literal.exit.text
    · rw [reply, if_neg hello, if_pos exit, Env.printed_nil]
      refine ⟨env, [.compared .hello (contents layout env), .compared .exit (contents layout env)], rfl,
        ⟨by simp [Event.Safe, terminated], by simp [Event.sight, sights, text, hello]⟩, fun trace => ?_⟩
      have leaves : quits line = true := decide_eq_true exit
      rw [interpret, EStateM.run_bind, run_compare loaded holds]
      simp only [if_neg (differs.not.mpr hello)]
      rw [EStateM.run_bind, run_compare loaded holds]
      simp only [if_pos (differs.mpr exit), leaves, List.append_assoc]
      rfl
    · -- Neither name: the line is printed back.
      have printed := run_print .unknown loaded fun _ => holds
      have stays : quits line = false := decide_eq_false exit
      simp only [Literal.vargs] at printed
      rw [reply, if_neg hello, if_neg exit]
      refine ⟨_, [.compared .hello (contents layout env),
        .compared .exit (contents layout env), .printed .unknown], rfl,
        ⟨by simp [Event.Safe, terminated], by simp [Event.sight, sights, text, hello]⟩, fun trace => ?_⟩
      rw [interpret, EStateM.run_bind, run_compare loaded holds]
      simp only [if_neg (differs.not.mpr hello)]
      rw [EStateM.run_bind, run_compare loaded holds]
      simp only [if_neg (differs.not.mpr exit)]
      rw [EStateM.run_bind, printed, stays, List.append_assoc, List.append_assoc]
      rfl

/-- The character that would take the last place is refused, whatever it is. -/
theorem run_readTurn_full (loaded : Loaded layout env.mem) (ch : UInt8) :
    ∃ after, after = env.printed (ch :: Literal.tooLong.text) ∧ ∀ trace,
      (readTurn layout ch (cmdlineSize - 1)).run ⟨env, trace⟩ =
        .ok .tooLong ⟨after, trace ++ [.printed .tooLong]⟩ := by
  -- The character is on the console before its place is looked at.
  have echoed : Loaded layout (env.printed [ch]).mem := loaded
  have printed := run_print_plain echoed (nofun : Literal.tooLong ≠ .unknown)
  refine ⟨(env.printed [ch]).printed Literal.tooLong.text, Env.printed_printed _ _ _, fun trace => ?_⟩
  rw [readTurn, EStateM.run_bind, run_call (run_putchar ch)]
  simp only [if_true]
  rw [EStateM.run_bind, printed]
  rfl

/-- The end of a line is stored as a zero byte. -/
theorem run_readTurn_ended (loaded : Loaded layout env.mem) {i : Nat} (room : i + 1 < cmdlineSize) :
    ∃ after, after.mem = Function.update env.mem (layout.cmdline + i) (some 0) ∧
      after.out = env.out ++ '\r'.toUInt8 :: Literal.newline.text ∧ ∀ trace,
      (readTurn layout '\r'.toUInt8 i).run ⟨env, trace⟩ =
        .ok .ended ⟨after, trace ++ [.printed .newline, .stored i]⟩ := by
  -- The character is echoed and the line ended on the console before the zero byte is stored.
  have echoed : Loaded layout (env.printed ['\r'.toUInt8]).mem := loaded
  have printed := run_print_plain echoed (nofun : Literal.newline ≠ .unknown)
  have moved : Loaded layout ((env.printed ['\r'.toUInt8]).printed Literal.newline.text).mem := loaded
  have short : i ≠ cmdlineSize - 1 := by omega
  refine ⟨{ (env.printed ['\r'.toUInt8]).printed Literal.newline.text with
    mem := Function.update env.mem (layout.cmdline + i) (some 0) }, rfl,
    List.append_assoc _ _ _, fun trace => ?_⟩
  rw [readTurn, EStateM.run_bind, run_call (run_putchar _)]
  simp only [if_neg short, if_true]
  rw [EStateM.run_bind, printed]
  simp only
  rw [EStateM.run_bind, run_store moved (by omega) 0, List.append_assoc]
  rfl

/-- Any other character is stored. -/
theorem run_readTurn_more (loaded : Loaded layout env.mem) {i : Nat} (room : i + 1 < cmdlineSize)
    {ch : UInt8} (plain : ch ≠ '\r'.toUInt8) :
    ∃ after, after.mem = Function.update env.mem (layout.cmdline + i) (some ch) ∧
      after.out = env.out ++ [ch] ∧ ∀ trace,
      (readTurn layout ch i).run ⟨env, trace⟩ = .ok .more ⟨after, trace ++ [.stored i]⟩ := by
  -- Echoing a character leaves memory as it is.
  have echoed : Loaded layout (env.printed [ch]).mem := loaded
  have short : i ≠ cmdlineSize - 1 := by omega
  refine ⟨{ env.printed [ch] with
    mem := Function.update env.mem (layout.cmdline + i) (some ch) }, rfl, rfl, fun trace => ?_⟩
  rw [readTurn, EStateM.run_bind, run_call (run_putchar _)]
  simp only [if_neg short, if_neg plain]
  rw [EStateM.run_bind, run_store echoed (by omega) ch]
  rfl

/--
What the shell puts on the console for some input, in the middle of a line.

Every character is echoed. A line that ends is answered, and one that has used up its room is refused
with the character that would take the last place.
-/
def session (line : List UInt8) : List UInt8 → List UInt8
  | [] => []
  | ch :: input =>
    if line.length + 1 = cmdlineSize then
      ch :: Literal.tooLong.text ++ Literal.prompt.text ++ session [] input
    else if ch = '\r'.toUInt8 then
      ch :: Literal.newline.text ++ reply line ++
        if quits line then [] else Literal.prompt.text ++ session [] input
    else ch :: session (line ++ [ch]) input

/-- Whether the shell has been told to exit. -/
def ending (line input : List UInt8) : Ending :=
  if .command Literal.exit.text ∈ heard '\r'.toUInt8 cmdlineSize quits line input then .exited
  else .waiting

/-- A line that is refused is no command. -/
theorem ending_full {line input : List UInt8} {ch : UInt8} (full : line.length + 1 = cmdlineSize) :
    ending line (ch :: input) = ending [] input := by
  simp [ending, heard, full]

/-- A line that ends is a command, and may be the last one. -/
theorem ending_line {line input : List UInt8} (room : line.length + 1 ≠ cmdlineSize) :
    ending line ('\r'.toUInt8 :: input) = if quits line then .exited else ending [] input := by
  rw [ending, heard, if_neg room, if_pos rfl]
  -- Only the name `exit` ends the session.
  by_cases exit : line = Literal.exit.text
  · simp [quits, exit]
  · simp [ending, quits, exit, Ne.symm exit]

/-- A character in the middle of a line is one more of it. -/
theorem ending_more {line input : List UInt8} {ch : UInt8} (room : line.length + 1 ≠ cmdlineSize)
    (plain : ch ≠ '\r'.toUInt8) : ending line (ch :: input) = ending (line ++ [ch]) input := by
  simp [ending, heard, room, plain]

/--
A program comes to an end from a state, whatever was done before.

On the way it reports these outcomes, and puts this text on the console.
-/
def Tells (program : Exec Undefined State Ending) (env : Env) (outcomes : List (Outcome UInt8))
    (text : List UInt8) (ending : Ending) : Prop :=
  ∀ trace, ∃ after events, program.run ⟨env, trace⟩ = .ok ending ⟨after, trace ++ events⟩ ∧
    Reports events outcomes ∧ after.out = env.out ++ text

/-- What a program tells follows what its first part does. -/
theorem Tells.after {α : Type} {first : Exec Undefined State α} {next : α → Exec Undefined State Ending}
    {value : α} {middle : Env} {events : List Event} {outcomes others : List (Outcome UInt8)}
    {text more : List UInt8} {ending : Ending}
    (ran : ∀ trace, first.run ⟨env, trace⟩ = .ok value ⟨middle, trace ++ events⟩)
    (reports : Reports events outcomes) (printed : middle.out = env.out ++ text)
    (rest : Tells (next value) middle others more ending) :
    Tells (first >>= next) env (outcomes ++ others) (text ++ more) ending := by
  -- The second part starts with the events of the first one on record.
  intro trace
  obtain ⟨after, late, done, left, out⟩ := rest (trace ++ events)
  refine ⟨after, events ++ late, ?_, reports.append left, ?_⟩
  · rw [EStateM.run_bind, ran, ← List.append_assoc]
    exact done
  · rw [out, printed, List.append_assoc]

/-- What is printed reports nothing, unless it is that a line is too long. -/
theorem reports_printed {literal : Literal} (other : literal ≠ .tooLong) :
    Reports [.printed literal] [] := by
  refine ⟨by simp [Event.Safe], ?_⟩
  cases literal with
  | tooLong => exact absurd rfl other
  | _ => rfl

/-- Storing inside the command line reports nothing. -/
theorem reports_stored {i : Nat} (inside : i < cmdlineSize) : Reports [.stored i] [] :=
  ⟨by simpa [Event.Safe] using inside, rfl⟩

/-- The prompt reports nothing and is put on the console. -/
theorem tells_prompt {next : Exec Undefined State Ending} {outcomes : List (Outcome UInt8)}
    {text : List UInt8} {ending : Ending} (loaded : Loaded layout env.mem)
    (rest : ∀ after : Env, after.mem = env.mem → Tells next after outcomes text ending) :
    Tells (do print layout .prompt []; next) env outcomes (Literal.prompt.text ++ text) ending := by
  have printed := run_print_plain loaded (nofun : Literal.prompt ≠ .unknown)
  exact .after printed (reports_printed (nofun : Literal.prompt ≠ .tooLong)) rfl (rest _ rfl)

/--
The reading loop does what a reader with so much room does, from the middle of a line on.

It reports the lines that such a reader hears, and puts the session on the console.
-/
theorem readLoop_tells {input line : List UInt8} {base : Text.Memory} (loaded : Loaded layout base)
    (fits : line.length < cmdlineSize) (nonzero : ∀ b ∈ line, b ≠ 0) (bytes : ∀ b ∈ input, b ≠ 0)
    (memory : env.mem = Text.write base layout.cmdline line) :
    Tells (readLoop layout input line.length) env (heard '\r'.toUInt8 cmdlineSize quits line input)
      (session line input) (ending line input) := by
  -- The induction is on the input, and memory holds the characters read since the last prompt.
  induction input generalizing line base env with
  | nil =>
    intro trace
    refine ⟨env, [], ?_, ⟨by simp, rfl⟩, (List.append_nil _).symm⟩
    simp [readLoop, ending, heard]
  | cons ch input ih =>
    have here : Loaded layout env.mem := memory ▸ loaded.write (Nat.le_of_lt fits)
    have later : ∀ b ∈ input, b ≠ 0 := fun b member => bytes b (List.mem_cons_of_mem _ member)
    have empty : ([] : List UInt8).length < cmdlineSize := by decide
    -- After a prompt the rest is read into the same place.
    have anew : ∀ {env : Env}, Loaded layout env.mem →
        Tells (do print layout .prompt []; readLoop layout input 0) env
          (heard '\r'.toUInt8 cmdlineSize quits [] input)
          (Literal.prompt.text ++ session [] input) (ending [] input) := fun ready =>
      tells_prompt ready fun after same => ih ready empty (by simp) later same
    rw [readLoop, heard, session]
    -- As the reader does, the loop looks for room first and at the character then.
    by_cases full : line.length + 1 = cmdlineSize
    · -- What was stored of the line is overwritten by the next one.
      obtain ⟨after, rfl, ran⟩ := run_readTurn_full here ch
      have rejected : Reports [.printed .tooLong] [.rejected] := ⟨by simp [Event.Safe], rfl⟩
      rw [if_pos full, if_pos full, ending_full full, List.append_assoc,
        show line.length = cmdlineSize - 1 by omega]
      exact .after ran rejected rfl (anew here)
    · have room : line.length + 1 < cmdlineSize := by omega
      rw [if_neg full, if_neg full]
      by_cases ended : ch = '\r'.toUInt8
      · subst ended
        obtain ⟨after, stored, out, ran⟩ := run_readTurn_ended here room
        rw [memory, Text.write_concat] at stored
        -- With the zero byte stored, the command line is a string and can be compared.
        have whole : (line ++ [0]).length ≤ cmdlineSize := by simpa using fits
        have ready : Loaded layout after.mem := stored ▸ loaded.write whole
        have holds : CString after.mem layout.cmdline line := by
          refine ⟨stored ▸ Text.at_write nonzero _ _, ?_⟩
          have word := loaded.word
          omega
        obtain ⟨_, events, rfl, reports, interpreted⟩ := run_interpret ready holds fits
        have accepted : Literal.newline ≠ .tooLong := by decide
        have silent := (reports_printed accepted).append (reports_stored fits)
        rw [if_pos rfl, if_pos rfl, ending_line full, List.append_assoc]
        refine .after ran silent out (.after interpreted reports rfl ?_)
        cases quits line with
        | true =>
          exact fun trace =>
            ⟨after.printed (reply line), [], by simp, ⟨by simp, rfl⟩, (List.append_nil _).symm⟩
        | false => exact anew ready
      · -- The character is stored behind the others, none of which is a zero byte.
        obtain ⟨after, stored, out, ran⟩ := run_readTurn_more here room ended
        rw [memory, Text.write_concat] at stored
        have longer : ∀ b ∈ line ++ [ch], b ≠ 0 := by
          intro b member
          rcases List.mem_append.mp member with old | new
          · exact nonzero b old
          · rw [List.mem_singleton.mp new]
            exact bytes ch List.mem_cons_self
        have rest := ih loaded (by simpa using room) longer later stored
        rw [List.length_append, List.length_singleton] at rest
        rw [if_neg ended, if_neg ended, ending_more full ended]
        exact .after ran (reports_stored fits) out rest

/-- From the first prompt on, the shell reports what it hears and holds the session. -/
theorem main_tells (loaded : Loaded layout env.mem) {input : List UInt8}
    (bytes : ∀ b ∈ input, b ≠ 0) :
    Tells (main layout input) env (heard '\r'.toUInt8 cmdlineSize quits [] input)
      (Literal.prompt.text ++ session [] input) (ending [] input) := by
  have empty : ([] : List UInt8).length < cmdlineSize := by decide
  exact tells_prompt loaded fun after same => readLoop_tells loaded empty (by simp) bytes same

/--
The shell does what it should with an input, however much of it has been read.

Every write to the command line has an index inside it, a zero byte ends it whenever it is compared,
and what is compared and what is rejected are the lines of the input, each taken as a whole.
-/
def Faithful (layout : Layout) (env : Env) (input : Stream'.Seq UInt8) : Prop :=
  ∀ n, ∃ ending after, (main layout (input.take n)).run ⟨env, []⟩ = .ok ending after ∧
    (∀ event ∈ after.trace, event.Safe) ∧
    after.trace.filterMap Event.sight =
      (meant '\r'.toUInt8 cmdlineSize quits (input.take n)).flatMap sights

/-- The shell does what it should exactly on what is heard as it is meant. -/
theorem faithful_iff_heard (loaded : Loaded layout env.mem) {input : Stream'.Seq UInt8}
    (bytes : ∀ b ∈ input, b ≠ 0) :
    Faithful layout env input ↔ ∀ n, heard '\r'.toUInt8 cmdlineSize quits [] (input.take n) =
      meant '\r'.toUInt8 cmdlineSize quits (input.take n) := by
  -- For each part of the input the shell has one run, which reports what is heard.
  refine forall_congr' fun n => ?_
  obtain ⟨after, events, ran, reports, _⟩ := main_tells loaded
    (fun b member => Stream'.Seq.take_all bytes member) []
  constructor
  · rintro ⟨_, _, again, _, seen⟩
    rw [ran, EStateM.Result.ok.injEq] at again
    rw [← again.2, List.nil_append, reports.seen] at seen
    exact sights_injective seen
  · intro same
    refine ⟨_, _, ran, ?_, ?_⟩
    · rw [List.nil_append]
      exact reports.safe
    · rw [List.nil_append, reports.seen, same]

/--
The shell does what it should exactly on inputs whose lines are short.

They have at most 126 characters, up to the one that ends the shell, and what comes behind the last of
them has at most 255.
-/
theorem shell_faithful_iff (loaded : Loaded layout env.mem) {input : Stream'.Seq UInt8}
    (bytes : ∀ b ∈ input, b ≠ 0) :
    Faithful layout env input ↔ ∀ n, Short '\r'.toUInt8 cmdlineSize quits (input.take n) := by
  rw [faithful_iff_heard loaded bytes, Lines.heard_eq_meant_seq (by decide)]

/-- The literals one after the other, and a command line behind them. -/
def image : List UInt8 :=
  [Literal.prompt, .tooLong, .newline, .hello, .greeting, .exit, .unknown].flatMap
    (fun literal => literal.text ++ [0]) ++ List.replicate cmdlineSize 0

/-- Where the literals and the command line are in the image. -/
def imageLayout : Layout where
  literal
    | .prompt => 0x1000
    | .tooLong => 0x1003
    | .newline => 0x101a
    | .hello => 0x101c
    | .greeting => 0x1022
    | .exit => 0x103b
    | .unknown => 0x1040
  cmdline := 0x1055

/-- Memory with the image in it, and nothing else. -/
def imageEnv : Env := ⟨fun a => if 0x1000 ≤ a then image[a - 0x1000]? else none, []⟩

/-- The image is loaded. -/
theorem image_loaded : Loaded imageLayout imageEnv.mem where
  literals literal := by
    cases literal
    all_goals exact ⟨by decide +kernel, by decide⟩
  room := by decide +kernel
  word := by decide
  apart literal := by
    cases literal
    all_goals decide

/-- One short line is all that comes in. -/
theorem shell_faithful_iff_line :
    Faithful imageLayout imageEnv (.ofList ['a'.toUInt8, '\r'.toUInt8]) := by
  -- What has come in is nothing, a part of the line, or the line with its end.
  refine (shell_faithful_iff image_loaded fun b member => ?_).mpr fun n => ?_
  · have among := Lines.mem_of_mem_ofList member
    simp only [List.mem_cons, List.not_mem_nil, or_false] at among
    rcases among with rfl | rfl
    all_goals decide
  · have plain : '\r'.toUInt8 ∉ ['a'.toUInt8] := by decide
    have ended : Short '\r'.toUInt8 cmdlineSize quits ['a'.toUInt8, '\r'.toUInt8] :=
      (Lines.short_line plain []).mpr
        ⟨by decide, .inr ((Lines.short_tail (by decide)).mpr (by decide))⟩
    rw [Lines.take_ofList]
    cases n with
    | zero => exact (Lines.short_tail (by decide)).mpr (by decide)
    | succ n =>
      cases n with
      | zero => exact (Lines.short_tail (by decide)).mpr (by decide)
      | succ n => simpa using ended

/-- A line that leaves no place free is not taken as what it is. -/
theorem long_line_unfaithful (loaded : Loaded layout env.mem) {line : List UInt8}
    (nonzero : ∀ b ∈ line, b ≠ 0) (plain : '\r'.toUInt8 ∉ line) (long : cmdlineSize ≤ line.length + 1) :
    ¬ Faithful layout env (.ofList (line ++ ['\r'.toUInt8])) := by
  have bytes : ∀ b ∈ Stream'.Seq.ofList (line ++ ['\r'.toUInt8]), b ≠ 0 := by
    intro b member
    rcases List.mem_append.mp (Lines.mem_of_mem_ofList member) with inside | last
    · exact nonzero b inside
    · rw [List.mem_singleton.mp last]
      decide
  intro faithful
  -- The difference is there once the whole line has come in.
  have same := (faithful_iff_heard loaded bytes).mp faithful (line ++ ['\r'.toUInt8]).length
  rw [Lines.take_ofList, List.take_length] at same
  exact Lines.heard_ne_meant (by decide) plain long same

/-- A line of 127 characters is rejected, and one of 128 is taken for two. -/
theorem shell_unfaithful :
    ¬ Faithful imageLayout imageEnv
      (.ofList (List.replicate 127 'a'.toUInt8 ++ ['\r'.toUInt8])) ∧
    ¬ Faithful imageLayout imageEnv
      (.ofList (List.replicate 128 'a'.toUInt8 ++ ['\r'.toUInt8])) := by
  -- The line is one letter repeated: it holds neither a carriage return nor a zero.
  have plain : ∀ n, '\r'.toUInt8 ∉ List.replicate n 'a'.toUInt8 := by
    intro n member
    exact absurd (List.eq_of_mem_replicate member) (by decide)
  have nonzero : ∀ n, ∀ b ∈ List.replicate n 'a'.toUInt8, b ≠ 0 := by
    intro n b member
    rw [List.eq_of_mem_replicate member]
    decide
  constructor
  · exact long_line_unfaithful image_loaded (nonzero 127) (plain 127) (by simp [cmdlineSize])
  · exact long_line_unfaithful image_loaded (nonzero 128) (plain 128) (by simp [cmdlineSize])

end Os1k.C.Shell
