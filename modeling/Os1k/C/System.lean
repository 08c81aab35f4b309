import Os1k.C.Exit
import Os1k.C.Transcript

/-! The C kernel with the shell on it, from boot to the end of the input: what the console shows. -/

namespace Os1k.C

open Relation

/-- What a program asks of the kernel. -/
inductive Request where
  | putchar (ch : UInt8)
  | getchar
  | exit
  deriving DecidableEq, Repr

namespace Request

/-- The number that `syscall` passes. -/
def sysno : Request → Nat
  | .putchar _ => sysPutchar
  | .getchar => sysGetchar
  | .exit => sysExit

/-- The first argument that `syscall` passes. -/
def arg0 : Request → Nat
  | .putchar ch => ch.toNat
  | .getchar => 0
  | .exit => 0

end Request

/--
A program between its system calls.

What it asks for next depends on how far it has come, unless its behaviour is undefined.
-/
structure Program (σ : Type) where
  request : σ → Option Request
  written : σ → σ
  received : σ → UInt8 → σ

/-- Where a process of the kernel goes on. -/
inductive Place where
  /-- In its program. -/
  | program
  /-- In the loop that polls for a character. -/
  | polling
  /-- Behind the `yield` of its exit. -/
  | exiting
  deriving DecidableEq, Repr

/-- The string literals of the kernel that it prints, and the name of its file. -/
inductive Message where
  | exited
  | unreachable
  | unexpectedSyscall
  | idle
  | file
  deriving DecidableEq, Repr

/-- What a message says, once the macro has put its literals together. -/
def Message.text : Message → List UInt8
  | .exited => Text.bytes "process %d exited\n"
  | .unreachable => Text.bytes "PANIC: %s:%d: unreachable\n"
  | .unexpectedSyscall => Text.bytes "PANIC: %s:%d: unexpected syscall a3=%x\n\n"
  | .idle => Text.bytes "PANIC: %s:%d: switched to the idle process!\n"
  | .file => Text.bytes "kernel.c"

/--
The kernel, its console and its processes.

A poll of the console finds a character or none. What later polls find is not known once the list is
used up.
-/
structure System (σ : Type) where
  globals : Globals
  env : Env
  polls : List (Option UInt8)
  user : Nat → σ
  place : Nat → Place
  halted : Bool

namespace System

variable {σ : Type}

/-- The slot of the current process. -/
def current (system : System σ) : Nat := system.globals.currentProc.toNat

/-- The current process goes on in its program. -/
def resumed (system : System σ) (state : σ) : System σ :=
  { system with
    user := Function.update system.user system.current state
    place := Function.update system.place system.current .program }

/-- The current process yields, and goes on in some place when it is selected again. -/
def yieldFrom (system : System σ) (place : Place) (outside : Int → Process) : System σ :=
  { system with
    globals := system.globals.yield outside
    place := Function.update system.place system.current place }

/-- The kernel prints a message. -/
def say (system : System σ) (fmt : Nat) (vargs : List Arg) : Option (System σ) :=
  match (printf fmt vargs).run system.env with
  | .ok _ env => some { system with env }
  | .error _ _ => none

section Kernel

variable (program : Program σ) (strings : Message → Nat) (outside : Int → Process)

/-- The kernel reports where it has stopped, and stops. -/
def panic (system : System σ) (message : Message) (line : Int32) (vargs : List Arg) :
    Option (System σ) := do
  let system ← system.say (strings message) (.pointer (strings .file) :: .int line :: vargs)
  return { system with halted := true }

/-- Poll the console, and yield if it has no character. -/
def poll (system : System σ) : Option (System σ) :=
  match system.polls with
  | [] => none
  | some ch :: polls =>
    some (resumed { system with polls } (program.received (system.user system.current) ch))
  | none :: polls => some (yieldFrom { system with polls } .polling outside)

/-- What the kernel does for a system call of the current process. -/
def handleSyscall (system : System σ) (a3 a0 : Nat) : Option (System σ) := do
  if a3 = sysPutchar then
    return resumed { system with env := system.env.printed [.ofNat a0] }
      (program.written (system.user system.current))
  else if a3 = sysGetchar then
    system.poll program outside
  else if a3 = sysExit then
    let pid := (system.globals.procs system.current).pid
    let system ← system.say (strings .exited) [.int (.ofInt pid)]
    return yieldFrom { system with globals := system.globals.exited } .exiting outside
  else
    system.panic strings .unexpectedSyscall 148 [.int (.ofNat a3)]

/-- What happens next, unless the kernel has stopped or waits for what the console finds. -/
def turn (system : System σ) : Option (System σ) := do
  if system.halted then none
  else if system.globals.currentProc = system.globals.idleProc then
    -- The idle process stands for `kernel_main`, which does not expect to go on.
    system.panic strings .idle 375 []
  else
    match system.place system.current with
    | .program =>
      let request ← program.request (system.user system.current)
      system.handleSyscall program strings outside request.sysno request.arg0
    | .polling => system.poll program outside
    | .exiting => system.panic strings .unreachable 146 []

/-- One turn after the other. -/
def Turns : System σ → System σ → Prop :=
  ReflTransGen fun system next => system.turn program strings outside = some next

/-- What `kernel_main` does: it creates the idle process and that of the program, and yields. -/
def boot (env : Env) (polls : List (Option UInt8)) (start : σ) : Option (System σ) := do
  let (slot, globals) ← Globals.empty.createProcess
  let (_, globals) ← (globals.becomeIdle slot).createProcess
  return ⟨globals.yield outside, env, polls, fun _ => start, fun _ => .program, false⟩

end Kernel

end System

namespace Shell

/-- How far the shell has come: the characters that it has read, and how many it has put out. -/
structure Progress where
  read : List UInt8
  written : Nat

/--
The shell as the kernel sees it.

With what it has read, it first puts out all that it prints until it reads again or exits.
-/
def program (layout : Layout) (mem : Text.Memory) : Program Progress where
  request progress :=
    match (main layout progress.read).run ⟨⟨mem, []⟩, []⟩ with
    | .error _ _ => none
    | .ok ending after =>
      match after.env.out[progress.written]?, ending with
      | some ch, _ => some (.putchar ch)
      | none, .waiting => some .getchar
      | none, .exited => some .exit
  written progress := { progress with written := progress.written + 1 }
  received progress ch := { progress with read := progress.read ++ [ch] }

/-- What is on the console once the shell has read some input. -/
def console (read : List UInt8) : List UInt8 := Literal.prompt.text ++ session [] read

/-- What the shell asks for, by what is on the console in the end. -/
theorem request_eq {layout : Layout} {mem : Text.Memory} (loaded : Loaded layout mem)
    {progress : Progress} (bytes : ∀ b ∈ progress.read, b ≠ 0) :
    (program layout mem).request progress =
      match (console progress.read)[progress.written]?, ending [] progress.read with
      | some ch, _ => some (.putchar ch)
      | none, .waiting => some .getchar
      | none, .exited => some .exit := by
  -- What the program has printed so far decides which request comes next.
  have prints : Prints (main layout progress.read) ⟨mem, []⟩ (console progress.read)
      (ending [] progress.read) := main_prints loaded bytes
  obtain ⟨after, ran, out⟩ := prints []
  simp only [program]
  rw [ran]
  simp only
  rw [out, List.nil_append]

end Shell

/-- Memory of the kernel holds what it prints. -/
def HasMessages (strings : Message → Nat) (mem : Text.Memory) : Prop :=
  ∀ message : Message, CString mem (strings message) message.text

/-- What is on the console of a system whose shell has read some input and will read no more. -/
def lastWords (read : List UInt8) : List UInt8 :=
  match Shell.ending [] read with
  | .waiting => []
  | .exited => Text.bytes "process 2 exited\nPANIC: kernel.c:375: switched to the idle process!\n"

/-- The globals while the shell runs. -/
def shellGlobals : Globals := { shellMade with currentProc := 1 }

namespace System

open Shell (Progress console session ending plainCalls plainCalls_spec directives_plainCalls
  renders_plain supplied_plain)

variable {strings : Message → Nat} {outside : Int → Process} {env : Env} {layout : Shell.Layout}
  {mem : Text.Memory} {read : List UInt8} {polls : List (Option UInt8)} {place : Place}
  {written : Nat}

/-- The system while the shell runs, with so much of the console written. -/
def running (env : Env) (polls : List (Option UInt8)) (read : List UInt8) (written : Nat)
    (place : Place) : System Progress where
  globals := shellGlobals
  env := env.printed ((console read).take written)
  polls := polls
  user := Function.update (fun _ => ⟨[], 0⟩) 1 ⟨read, written⟩
  place := Function.update (fun _ => .program) 1 place
  halted := false

/-- Boot starts the shell, unless what lies before the array is taken for a process. -/
theorem boot_eq (quiet : ¬ (outside (-1)).Ready) :
    boot outside env polls ⟨[], 0⟩ = some (running env polls [] 0 .program) := by
  have idle : Globals.empty.createProcess = some (0, idleMade) := rfl
  have shell : (idleMade.becomeIdle 0).createProcess = some (1, shellMade) := rfl
  -- The first turn of the loop looks before the array, and the third one finds the shell.
  have selected : shellMade.selectNext outside = 1 := by
    have turns : List.range procNoMax = 0 :: [1, 2, 3, 4, 5, 6, 7] := rfl
    rw [Globals.selectNext, Globals.scanAll, turns, Globals.scan, if_neg]
    · rfl
    · exact quiet
  simp only [boot, idle, shell, Option.bind_eq_bind, Option.bind_some]
  rw [Globals.yield, selected, running, List.take_zero, Env.printed_nil, Function.update_eq_self,
    Function.update_eq_self]
  rfl

/-- The shell yields to itself as long as it runs. -/
theorem yield_shell (outside : Int → Process) : shellGlobals.yield outside = shellGlobals := rfl

/-- The kernel prints the number of a process that exits. -/
theorem run_exited (has : HasMessages strings env.mem) :
    (printf (strings .exited) [.int 2]).run env =
      .ok [] (env.printed (Text.bytes "process 2 exited\n")) := by
  have leastInt : Int32.minValue ≠ 2 := by decide
  let calls : List (Directive × List Arg) := plainCalls (Text.bytes "process ") ++
    (.decimal, [.int 2]) :: plainCalls (Text.bytes " exited\n")
  have whole : Message.exited.text =
      Text.bytes "process " ++ '%'.toUInt8 :: 'd'.toUInt8 :: Text.bytes " exited\n" := by decide
  obtain ⟨rest, nothing, _⟩ := plainCalls_spec (by decide : '%'.toUInt8 ∉ Text.bytes " exited\n")
  -- The message is a text, the number of the process, and a text.
  have parsed : directives Message.exited.text = calls.map Prod.fst := by
    rw [whole, directives_plainCalls (by decide), List.map_append, List.map_cons, ← rest]
    rfl
  have supplied : Supplied env.mem calls := by
    intro call member
    simp only [calls, List.mem_append, List.mem_cons] at member
    rcases member with early | rfl | late
    · exact supplied_plain _ call early
    · exact .decimal 2
    · exact supplied_plain _ call late
  have taken : calls.flatMap Prod.snd = [.int 2] := by
    rw [List.flatMap_append, List.flatMap_cons, nothing]
    rfl
  obtain ⟨printed, renders, ran⟩ :=
    (printf_interprets [] (has .exited) parsed supplied).1
      (by simp [calls, plainCalls, leastDecimal, leastInt])
  rw [taken, List.append_nil] at ran
  -- The parts that are rendered are put together in the order of the format.
  have text : printed = Text.bytes "process 2 exited\n" := by
    obtain ⟨first, last, early, late, rfl⟩ := renders.append
    obtain ⟨part, rest, number, later, rfl⟩ := late.cons
    cases number
    rw [renders_plain early, renders_plain later]
    decide
  rw [text] at ran
  exact ran

/-- The kernel prints where it has stopped. -/
theorem run_idle (has : HasMessages strings env.mem) :
    (printf (strings .idle) [.pointer (strings .file), .int 375]).run env =
      .ok [] (env.printed
        (Text.bytes "PANIC: kernel.c:375: switched to the idle process!\n")) := by
  have leastInt : Int32.minValue ≠ 375 := by decide
  let calls : List (Directive × List Arg) := plainCalls (Text.bytes "PANIC: ") ++
    ((.string, [.pointer (strings .file)]) :: (.literal ':'.toUInt8, []) ::
      (.decimal, [.int 375]) :: plainCalls (Text.bytes ": switched to the idle process!\n"))
  have whole : Message.idle.text = Text.bytes "PANIC: " ++ '%'.toUInt8 :: 's'.toUInt8 ::
      ':'.toUInt8 :: '%'.toUInt8 :: 'd'.toUInt8 ::
        Text.bytes ": switched to the idle process!\n" := by decide
  obtain ⟨rest, nothing, _⟩ := plainCalls_spec
    (by decide : '%'.toUInt8 ∉ Text.bytes ": switched to the idle process!\n")
  -- The macro puts the name of the file and the number of the line in front of the text.
  have parsed : directives Message.idle.text = calls.map Prod.fst := by
    rw [whole, directives_plainCalls (by decide), List.map_append, List.map_cons, List.map_cons,
      List.map_cons, ← rest]
    rfl
  have supplied : Supplied env.mem calls := by
    intro call member
    simp only [calls, List.mem_append, List.mem_cons] at member
    rcases member with early | rfl | rfl | rfl | late
    · exact supplied_plain _ call early
    · exact .string (has .file)
    · exact .literal _
    · exact .decimal 375
    · exact supplied_plain _ call late
  have taken : calls.flatMap Prod.snd = [.pointer (strings .file), .int 375] := by
    rw [List.flatMap_append, List.flatMap_cons, List.flatMap_cons, List.flatMap_cons, nothing]
    rfl
  -- The conversion of the line number meets no number that it cannot print.
  obtain ⟨printed, renders, ran⟩ :=
    (printf_interprets [] (has .idle) parsed supplied).1
      (by simp [calls, plainCalls, leastDecimal, leastInt])
  rw [taken, List.append_nil] at ran
  have text : printed = Text.bytes "PANIC: kernel.c:375: switched to the idle process!\n" := by
    -- The parts are put together in the order of the format.
    obtain ⟨first, last, early, late, rfl⟩ := renders.append
    obtain ⟨_, _, file, later, rfl⟩ := late.cons
    obtain ⟨_, _, colon, others, rfl⟩ := later.cons
    obtain ⟨_, _, line, tail, rfl⟩ := others.cons
    cases colon
    cases line
    cases file with
    | string also =>
      rw [renders_plain early, renders_plain tail, also.holds.unique (has .file).holds]
      decide
  rw [text] at ran
  exact ran

/-- What a turn comes to while the shell is in its program. -/
theorem turn_program :
    turn (Shell.program layout mem) strings outside (running env polls read written .program) =
      ((Shell.program layout mem).request ⟨read, written⟩).bind fun request =>
        handleSyscall (Shell.program layout mem) strings outside
          (running env polls read written .program) request.sysno request.arg0 := rfl

/-- A turn puts out the next character that the shell prints. -/
theorem turn_putchar (loaded : Shell.Loaded layout mem) (bytes : ∀ b ∈ read, b ≠ 0)
    (more : written < (console read).length) :
    turn (Shell.program layout mem) strings outside (running env polls read written .program) =
      some (running env polls read (written + 1) .program) := by
  have printed : env.printed ((console read).take (written + 1)) =
      (env.printed ((console read).take written)).printed [(console read)[written]] := by
    rw [Env.printed_printed, List.take_append_getElem more]
  rw [turn_program, Shell.request_eq loaded bytes]
  simp only [List.getElem?_eq_getElem more]
  -- The character is passed as a word, and is the same again.
  rw [Option.bind_some, running, running, printed]
  simp [handleSyscall, Request.sysno, Request.arg0, resumed, current, shellGlobals, Shell.program]

/-- The shell puts out what it prints, character by character. -/
theorem turns_putchar (loaded : Shell.Loaded layout mem) (bytes : ∀ b ∈ read, b ≠ 0)
    (some : written ≤ (console read).length) :
    Turns (Shell.program layout mem) strings outside (running env polls read written .program)
      (running env polls read (console read).length .program) := by
  -- The induction is on the number of characters that are left.
  induction left : (console read).length - written generalizing written with
  | zero =>
    have all : written = (console read).length := by omega
    rw [all]
    exact .refl
  | succ left ih =>
    have more : written < (console read).length := by omega
    exact .head (turn_putchar loaded bytes more) (ih more (by omega))

/-- With everything put out, the shell waits for the console. -/
theorem turn_waiting (loaded : Shell.Loaded layout mem) (bytes : ∀ b ∈ read, b ≠ 0)
    (waiting : ending [] read = .waiting) (inside : place ≠ .exiting) :
    turn (Shell.program layout mem) strings outside
        (running env polls read (console read).length place) =
      poll (Shell.program layout mem) outside
        (running env polls read (console read).length place) := by
  -- In its program it asks for a character, and otherwise it has asked already.
  cases place with
  | program =>
    rw [turn_program, Shell.request_eq loaded bytes]
    simp only [List.getElem?_eq_none (Nat.le_refl _), waiting]
    rfl
  | polling => rfl
  | exiting => exact absurd rfl inside

/-- A poll that finds nothing leaves the shell where it is. -/
theorem poll_none :
    poll (Shell.program layout mem) outside (running env (none :: polls) read written place) =
      some (running env polls read written .polling) := by
  -- It yields, and is selected again since no other process can run.
  simp only [poll, running, yieldFrom, yield_shell]
  simp [current, shellGlobals]

/-- What is on the console stays there when more is read. -/
theorem console_append (read more : List UInt8) :
    ∃ rest, console (read ++ more) = console read ++ rest ∧
      (ending [] read = .exited → rest = [] ∧ ending [] (read ++ more) = .exited) := by
  -- The prompt comes first, and a session only adds to what it has shown.
  obtain ⟨rest, same, quiet⟩ := Shell.session_append [] read more
  refine ⟨rest, ?_, quiet⟩
  rw [console, same, ← List.append_assoc]
  rfl

/-- A poll that finds a character gives it to the shell. -/
theorem poll_some (ch : UInt8) :
    poll (Shell.program layout mem) outside
        (running env (some ch :: polls) read (console read).length place) =
      some (running env polls (read ++ [ch]) (console read).length .program) := by
  obtain ⟨rest, same, _⟩ := console_append read [ch]
  simp [poll, running, resumed, current, shellGlobals, Shell.program, same]

/-- A message that is printed is added to the console. -/
theorem say_eq {σ : Type} {system : System σ} {fmt : Nat} {vargs rest : List Arg} {after : Env}
    (ran : (printf fmt vargs).run system.env = .ok rest after) :
    system.say fmt vargs = some { system with env := after } := by
  rw [say, ran]

/-- The shell as it is when it has put out everything. -/
theorem running_env : (running env polls read (console read).length place).env =
    env.printed (console read) := by
  rw [running, List.take_length]

/-- The shell exits, and the kernel stops where it does not expect to go on. -/
theorem turns_exit (outside : Int → Process) (polls : List (Option UInt8))
    (loaded : Shell.Loaded layout mem) (has : HasMessages strings env.mem)
    (bytes : ∀ b ∈ read, b ≠ 0) (exited : ending [] read = .exited) :
    ∃ last, Turns (Shell.program layout mem) strings outside
        (running env polls read (console read).length .program) last ∧
      turn (Shell.program layout mem) strings outside last = none ∧
      last.env.out = env.out ++ (console read ++ lastWords read) := by
  let first := running env polls read (console read).length .program
  have printed : first.env = env.printed (console read) := running_env
  have same : HasMessages strings first.env.mem := by
    rw [printed]
    exact has
  let gone : System Progress :=
    yieldFrom { first with
      env := first.env.printed (Text.bytes "process 2 exited\n")
      globals := shellGlobals.exited } .exiting outside
  let stopped : System Progress :=
    { gone with
      env := gone.env.printed (Text.bytes "PANIC: kernel.c:375: switched to the idle process!\n")
      halted := true }
  -- The shell has the number 2, and no other process can run.
  have exits : turn (Shell.program layout mem) strings outside first = some gone := by
    have message : first.say (strings .exited) [.int 2] =
        some { first with env := first.env.printed (Text.bytes "process 2 exited\n") } :=
      say_eq (run_exited same)
    have pid : Int32.ofInt (first.globals.procs first.current).pid = 2 := rfl
    rw [turn_program, Shell.request_eq loaded bytes]
    simp only [List.getElem?_eq_none (Nat.le_refl _), exited]
    show (first.say (strings .exited) [.int (.ofInt (first.globals.procs first.current).pid)]).bind
      _ = some gone
    rw [pid, message]
    rfl
  -- The idle process goes on in `kernel_main`, behind its only `yield`.
  have stops : turn (Shell.program layout mem) strings outside gone = some stopped := by
    have message : gone.say (strings .idle) [.pointer (strings .file), .int 375] =
        some { stopped with halted := false } :=
      say_eq (run_idle same)
    show (gone.say (strings .idle) [.pointer (strings .file), .int 375]).bind _ = some stopped
    rw [message]
    rfl
  have run : Turns (Shell.program layout mem) strings outside first gone := .single exits
  refine ⟨stopped, run.tail stops, rfl, ?_⟩
  -- The two messages are the last words of a session that was told to exit.
  have words : lastWords read = Text.bytes "process 2 exited\n" ++
      Text.bytes "PANIC: kernel.c:375: switched to the idle process!\n" := by
    rw [lastWords, exited]
    decide
  show (first.env.out ++ _) ++ _ = _
  rw [printed, words, ← List.append_assoc, ← List.append_assoc]
  rfl

/-- Where the shell waits for more, what the polls find leads to the end. -/
theorem turns_waiting (outside : Int → Process) (loaded : Shell.Loaded layout mem)
    (has : HasMessages strings env.mem) (bytes : ∀ b ∈ read, b ≠ 0) (input : some 0 ∉ polls)
    (waiting : ending [] read = .waiting) (inside : place ≠ .exiting) :
    ∃ last, Turns (Shell.program layout mem) strings outside
        (running env polls read (console read).length place) last ∧
      turn (Shell.program layout mem) strings outside last = none ∧
      last.env.out = env.out ++
        (console (read ++ polls.reduceOption) ++ lastWords (read ++ polls.reduceOption)) := by
  -- The induction is on what the polls find, and is over when the shell exits.
  induction polls generalizing read place with
  | nil =>
    refine ⟨_, .refl, turn_waiting loaded bytes waiting inside, ?_⟩
    rw [running_env, List.reduceOption_nil, List.append_nil, lastWords, waiting, List.append_nil]
    rfl
  | cons found polls ih =>
    have poll : turn (Shell.program layout mem) strings outside
        (running env (found :: polls) read (console read).length place) = _ :=
      turn_waiting loaded bytes waiting inside
    have later : some 0 ∉ polls := fun member => input (List.mem_cons_of_mem _ member)
    cases found with
    | none =>
      -- Nothing is read, and nothing is shown.
      obtain ⟨last, run, stop, out⟩ := ih bytes later waiting (nofun : Place.polling ≠ .exiting)
      exact ⟨last, .head (poll.trans poll_none) run, stop, out⟩
    | some ch =>
      have more : ∀ b ∈ read ++ [ch], b ≠ 0 := by
        intro b member
        rcases List.mem_append.mp member with old | new
        · exact bytes b old
        · rw [List.mem_singleton.mp new]
          rintro rfl
          exact input List.mem_cons_self
      obtain ⟨rest, same, _⟩ := console_append read [ch]
      have longer : (console read).length ≤ (console (read ++ [ch])).length := by
        rw [same, List.length_append]
        exact Nat.le_add_right _ _
      -- The character is read, and what the shell prints on it is put out.
      have reads : Turns (Shell.program layout mem) strings outside
          (running env (some ch :: polls) read (console read).length place)
          (running env polls (read ++ [ch]) (console (read ++ [ch])).length .program) :=
        .head (poll.trans (poll_some ch)) (turns_putchar loaded more longer)
      have input : read ++ (some ch :: polls).reduceOption =
          read ++ [ch] ++ polls.reduceOption := by
        rw [List.reduceOption_cons_of_some, List.append_assoc]
        rfl
      rw [input]
      cases state : ending [] (read ++ [ch]) with
      | waiting =>
        obtain ⟨last, run, stop, out⟩ := ih more later state (nofun : Place.program ≠ .exiting)
        exact ⟨last, reads.trans run, stop, out⟩
      | exited =>
        -- The polls that are left are never made.
        obtain ⟨last, run, stop, out⟩ :=
          turns_exit outside polls loaded has more state
        obtain ⟨nothing, shown, quiet⟩ := console_append (read ++ [ch]) polls.reduceOption
        obtain ⟨rfl, still⟩ := quiet state
        refine ⟨last, reads.trans run, stop, ?_⟩
        rw [out, shown, List.append_nil, lastWords, lastWords, state, still]

/--
Boot leads to the shell, and what is typed decides what the console shows in the end.

Polls that find nothing leave no trace. When the shell exits, the kernel reports the exit and stops,
and otherwise it waits for more.
-/
theorem console_from_boot (loaded : Shell.Loaded layout mem) (has : HasMessages strings env.mem)
    (quiet : ¬ (outside (-1)).Ready) (input : some 0 ∉ polls) :
    ∃ first last, boot outside env polls ⟨[], 0⟩ = some first ∧
      Turns (Shell.program layout mem) strings outside first last ∧
      turn (Shell.program layout mem) strings outside last = none ∧
      last.env.out = env.out ++ (console polls.reduceOption ++ lastWords polls.reduceOption) := by
  have none : ∀ b ∈ ([] : List UInt8), b ≠ 0 := by simp
  -- First the prompt, before anything was typed; then the turns that read the rest.
  have prompt : Turns (Shell.program layout mem) strings outside (running env polls [] 0 .program)
      (running env polls [] (console []).length .program) :=
    turns_putchar loaded none (Nat.zero_le _)
  obtain ⟨last, run, stop, out⟩ :=
    turns_waiting outside loaded has none input rfl (nofun : Place.program ≠ .exiting)
  exact ⟨_, last, boot_eq quiet, prompt.trans run, stop, out⟩

/-- Where the messages of the kernel are. -/
def messageAddress : Message → Nat
  | .exited => 0x80201000
  | .unreachable => 0x80201013
  | .unexpectedSyscall => 0x8020102e
  | .idle => 0x80201057
  | .file => 0x80201084

/-- Memory of the kernel with its messages in it, and an empty console. -/
def messageEnv : Env :=
  ⟨Text.only 0x80201000 ([Message.exited, .unreachable, .unexpectedSyscall, .idle, .file].flatMap
    fun message => message.text ++ [0]), []⟩

/-- The messages are in memory. -/
theorem has_messageEnv : HasMessages messageAddress messageEnv.mem := by
  intro message
  cases message
  all_goals exact ⟨by decide +kernel, by decide⟩

/-- What the polls find while someone tells the shell to exit. -/
def exitPolls : List (Option UInt8) :=
  [none, some 'e'.toUInt8, some 'x'.toUInt8, none, some 'i'.toUInt8, some 't'.toUInt8,
    some '\r'.toUInt8, some 'a'.toUInt8]

/-- The shell is told to exit, and nothing behind that is read. -/
theorem console_from_boot_exit : ∃ first last,
    boot blank messageEnv exitPolls ⟨[], 0⟩ = some first ∧
    Turns (Shell.program Shell.imageLayout Shell.imageEnv.mem) messageAddress blank first last ∧
    last.env.out = Text.bytes
      "> exit\r\nprocess 2 exited\nPANIC: kernel.c:375: switched to the idle process!\n" := by
  have input : some 0 ∉ exitPolls := by decide
  obtain ⟨first, last, booted, run, _, out⟩ :=
    console_from_boot Shell.image_loaded has_messageEnv (by decide : ¬ (blank (-1)).Ready) input
  refine ⟨first, last, booted, run, ?_⟩
  rw [out]
  decide

end System

end Os1k.C
