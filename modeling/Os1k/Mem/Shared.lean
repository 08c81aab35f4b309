import Os1k.Sync.Mutex
import Os1k.Sync.OnceCell
import Os1k.Mem.Futures
import Os1k.Mem.Managed

/-! The static allocator of `mem.rs`, which harts share under any interleaving of their steps. -/

namespace Os1k.Memory.Shared

open Sync

/-- The arguments of the call of `Memory::new` that a closure makes. -/
structure Arguments where
  ramStart : Option Nat
  ramEnd : Option Nat
  allocMemStart : Option Nat
  allocMemEnd : Option Nat
  deriving DecidableEq, Repr

/--
A closure builds an allocator.

A closure that panics builds none, and then the hart that runs it stops there.
-/
def Builds (profile : Profile) (arguments : Arguments) (memory : Memory) : Prop :=
  ∃ written, (new profile arguments.ramStart arguments.ramEnd arguments.allocMemStart
    arguments.allocMemEnd).run [] = .ok memory written

/-- A call of one of the functions through which the rest of the kernel uses the allocator. -/
inductive Request where
  | init (ramStart ramEnd allocMemStart allocMemEnd : Nat)
  | call (call : Call)
  deriving DecidableEq, Repr

/-- The arguments in the closure of a request. -/
def Request.arguments : Request → Arguments
  | .init ramStart ramEnd allocMemStart allocMemEnd =>
    ⟨some ramStart, some ramEnd, some allocMemStart, some allocMemEnd⟩
  | .call _ => ⟨none, none, none, none⟩

/-- What a request does with the allocator, once it is there. -/
def Request.goal : Request → Option Call
  | .init _ _ _ _ => none
  | .call wanted => some wanted

/-- A call returns an answer. -/
inductive Performs (profile : Profile) : Call → Memory → Answer → Memory → Prop where
  | alloc {memory after : Memory} {n : Nat} {result : Except MemError PhysAddr}
      (ran : (buddyAlloc profile n).run memory = .ok result after) :
      Performs profile (.alloc n) memory (.alloc result) after
  | free {memory after : Memory} {addr : PhysAddr}
      (ran : (buddyFree profile addr).run memory = .ok () after) :
      Performs profile (.free addr) memory .free after

/-- A call that has returned, with its answer. -/
structure Event where
  call : Call
  answer : Answer

/-- Calls that have returned, one after the other, and the allocator that they leave. -/
inductive Sequential (profile : Profile) (boot : Memory) : List Event → Memory → Prop where
  | boot : Sequential profile boot [] boot
  | call {log : List Event} {memory after : Memory} {event : Event}
      (before : Sequential profile boot log memory)
      (performs : Performs profile event.call memory event.answer after) :
      Sequential profile boot (log ++ [event]) after

/--
The static, with a record of the calls that have returned.

The mutex is the one in the cell, and means nothing before the cell has a value. What a hart keeps
of the data is the allocator as it was when it got the lock.
-/
structure Static where
  cell : OnceCell Arguments Memory
  mutex : Mutex (Option Memory) Memory
  log : List Event

/-- A hart looks at the allocator, and keeps it in mind. -/
def lookAt : Sync.Access (Option Memory) Memory := .read fun _ memory => some memory

/-- A hart changes the allocator. -/
def put (memory : Memory) : Sync.Access (Option Memory) Memory := .write fun _ _ => memory

/-- Where a hart is in a request. -/
inductive Spot where
  /-- It is in `get_or_init`, or has no request to make. -/
  | entering (place : Place Arguments Memory) (goal : Option Call)
  /-- It has the mutex, and wants or has the lock. -/
  | inside (stand : Stand (Option Memory) Memory) (call : Call)

/-- Where a hart goes once it has the mutex. -/
def Spot.arrive : Option Call → Spot
  | none => .entering .outside none
  | some call => .inside (.locking none) call

variable {ι : Type} [DecidableEq ι]

/--
One atomic step of a hart.

A hart that has the lock may put anything into the allocator on its way, and comes to its end with
what the call makes of the allocator that it found. A call that panics does not come to its end, and
keeps the lock.
-/
inductive Step (profile : Profile) (i : ι) : Static → Spot → Static → Spot → Prop where
  | request {static : Static} {goal : Option Call} (request : Request) :
      Step profile i static (.entering .outside goal)
        static (.entering (.check request.arguments) request.goal)
  | once {static : Static} {place next : Place Arguments Memory} {goal : Option Call}
      {cell : OnceCell Arguments Memory}
      (taken : OnceStep (Builds profile) i static.cell place cell next)
      (enters : place ≠ .outside) (stays : next ≠ .outside)
      (keeps : cell.value = static.cell.value) :
      Step profile i static (.entering place goal) { static with cell } (.entering next goal)
  | store {static : Static} {memory : Memory} {goal : Option Call} :
      Step profile i static (.entering (.storing memory) goal)
        { static with
          cell := { static.cell with value := some memory }
          mutex := .new memory }
        (.entering .completing goal)
  | unwrap {static : Static} {memory : Memory} {goal : Option Call}
      (found : static.cell.value = some memory) :
      Step profile i static (.entering .reading goal)
        { static with cell := { static.cell with returned := static.cell.returned ++ [memory] } }
        (.arrive goal)
  | wait {static : Static} {next : Stand (Option Memory) Memory} {call : Call}
      {mutex : Mutex (Option Memory) Memory}
      (taken : MutexStep i static.mutex (.locking none) mutex next) :
      Step profile i static (.inside (.locking none) call) { static with mutex } (.inside next call)
  | look {static : Static} {done : Section (Option Memory) Memory} {call : Call} :
      Step profile i static (.inside (.holding done none) call)
        static (.inside (.holding (done.also lookAt) (some static.mutex.data)) call)
  | scratch {static : Static} {done : Section (Option Memory) Memory} {call : Call}
      {found : Memory} (memory : Memory) :
      Step profile i static (.inside (.holding done (some found)) call)
        { static with mutex := { static.mutex with data := memory } }
        (.inside (.holding (done.also (put memory)) (some found)) call)
  | drop {static : Static} {done : Section (Option Memory) Memory} {call : Call} {found : Memory}
      {answer : Answer} (performs : Performs profile call found answer static.mutex.data) :
      Step profile i static (.inside (.holding done (some found)) call)
        { static with
          mutex := { static.mutex with
            lock := .free, completed := static.mutex.completed ++ [done] }
          log := static.log ++ [⟨call, answer⟩] }
        (.entering .outside none)

/-- Before boot, the cell is new and no hart is in a request. -/
def start (mutex : Mutex (Option Memory) Memory) : Config ι Static Spot :=
  ⟨⟨.new, mutex, []⟩, fun _ => .entering .outside none⟩

/-- Where a hart is in the cell. -/
def Spot.place : Spot → Place Arguments Memory
  | .entering place _ => place
  | .inside _ _ => .outside

/-- Where a hart is with respect to the mutex. -/
def Spot.stand : Spot → Stand (Option Memory) Memory
  | .entering _ _ => .outside none
  | .inside stand _ => stand

/-- The cell, and where the harts are in it. -/
def onceOf (config : Config ι Static Spot) :
    Config ι (OnceCell Arguments Memory) (Place Arguments Memory) :=
  config.view Static.cell Spot.place

/-- The mutex, and where the harts are with respect to it. -/
def mutexOf (config : Config ι Static Spot) :
    Config ι (Mutex (Option Memory) Memory) (Stand (Option Memory) Memory) :=
  config.view Static.mutex Spot.stand

/--
What a hart keeps in mind is the allocator on which its section started.

Before it has looked at the allocator, it has not changed anything either.
-/
def Spot.Mindful : Spot → Prop
  | .inside (.holding done none) _ => ∀ data, done.run data = (none, data)
  | .inside (.holding done (some _)) _ => ∀ data, (done.run data).1 = some data
  | _ => True

/-- How far the static has come: nobody can have the mutex before the cell has a value. -/
inductive Phase (profile : Profile) (config : Config ι Static Spot) : Prop where
  | empty (value : config.shared.cell.value = none) (log : config.shared.log = [])
      (enter : ∀ i, ∃ place goal, config.place i = .entering place goal)
  | ready {boot : Memory} (value : config.shared.cell.value = some boot)
      (serial : Serial boot (mutexOf config))
      (sequential : Sequential profile boot config.shared.log
        (replay boot config.shared.mutex.completed))

/-- What holds of the static in every run. -/
structure Sound (profile : Profile) (config : Config ι Static Spot) : Prop where
  once : Consistent (Builds profile) (onceOf config)
  mindful : ∀ i, (config.place i).Mindful
  phase : Phase profile config

/-- Where a hart goes once it has the mutex, it has no claim on the cell and no guard. -/
theorem arrive_idle (goal : Option Call) :
    (Spot.arrive goal).place = .outside ∧ ¬ (Spot.arrive goal).stand.Holds ∧
      (Spot.arrive goal).Mindful := by
  cases goal with
  | none => exact ⟨rfl, id, trivial⟩
  | some call => exact ⟨rfl, id, trivial⟩

namespace Sound

variable {profile : Profile} {config : Config ι Static Spot} {i : ι}

omit [DecidableEq ι] in
/-- A hart that is inside has found a value in the cell. -/
theorem ready (sound : Sound profile config) {stand : Stand (Option Memory) Memory} {call : Call}
    (there : config.place i = .inside stand call) :
    ∃ boot, config.shared.cell.value = some boot ∧ Serial boot (mutexOf config) ∧
      Sequential profile boot config.shared.log
        (replay boot config.shared.mutex.completed) := by
  cases sound.phase with
  -- Before there is a value everyone is still on the way in.
  | empty _ _ enter =>
    obtain ⟨place, goal, outside⟩ := enter i
    rw [there] at outside
    exact absurd outside nofun
  | ready value serial sequential => exact ⟨_, value, serial, sequential⟩

/-- What holds of each hart holds after a step, if it does of the hart that moved. -/
theorem mindful_move (sound : Sound profile config) {shared : Static} {next : Spot}
    (new : next.Mindful) : ∀ j, ((config.move i shared next).place j).Mindful :=
  Config.forall_move Spot.Mindful (fun j _ => sound.mindful j) new

/-- A hart that enters the cell, or goes on in it, leaves the mutex and the calls as they are. -/
theorem enter (sound : Sound profile config) {place next : Place Arguments Memory}
    {goal wanted : Option Call} {cell : OnceCell Arguments Memory}
    (there : config.place i = .entering place goal)
    (once : Consistent (Builds profile) ((onceOf config).move i cell next))
    (keeps : cell.value = config.shared.cell.value) :
    Sound profile (config.move i { config.shared with cell } (.entering next wanted)) := by
  -- Whoever is still in `get_or_init` stands outside the lock.
  have outside : ((mutexOf config).place i) = .outside none := by
    show (config.place i).stand = _
    rw [there]
    rfl
  refine ⟨?_, sound.mindful_move trivial, ?_⟩
  · rw [onceOf, Config.view_move]
    exact once
  · -- The value in the cell stays what it was, so the phase stays too.
    cases sound.phase with
    | empty value log enter =>
      refine .empty (keeps.trans value) log fun j => ?_
      by_cases here : j = i
      · subst here
        exact ⟨next, wanted, Config.move_self _ _ _ _⟩
      · rw [Config.move_other here]
        exact enter j
    | ready value serial sequential =>
      refine .ready (keeps.trans value) ?_ sequential
      rw [mutexOf, Config.view_move]
      exact serial.wait (by rw [outside]; exact id) id

/-- The allocator is stored once, and its mutex is then new. -/
theorem store (sound : Sound profile config) {memory : Memory} {goal : Option Call}
    (there : config.place i = .entering (.storing memory) goal) :
    Sound profile (config.move i
      { config.shared with
        cell := { config.shared.cell with value := some memory }
        mutex := .new memory }
      (.entering .completing goal)) := by
  have here : (onceOf config).place i = .storing memory := congrArg Spot.place there
  -- A hart stores only into a cell that has no value.
  obtain ⟨f, _, _, _, initialising, _⟩ := sound.once.owner (i := i) (by rw [here]; exact id)
    (by rw [here]; exact nofun)
  have none : config.shared.cell.value = none := by
    rw [here] at initialising
    generalize held : (onceOf config).shared.value = value at initialising
    cases initialising with
    | storing _ => exact held
  cases sound.phase with
  | ready value =>
    rw [none] at value
    exact absurd value nofun
  | empty _ log enter =>
    have taken : OnceStep (Builds profile) i (onceOf config).shared ((onceOf config).place i)
        { config.shared.cell with value := some memory } .completing := by
      rw [here]
      exact .store
    refine ⟨?_, sound.mindful_move trivial, .ready rfl ?_ ?_⟩
    · rw [onceOf, Config.view_move]
      exact sound.once.step taken
    · -- Nobody holds the lock of an allocator that was only just stored.
      refine .free rfl rfl (fun j => ?_) rfl rfl
      rw [mutexOf, Config.view_move]
      revert j
      refine Config.forall_move (fun stand : Stand (Option Memory) Memory => ¬ stand.Holds) ?_ id
      intro j _
      obtain ⟨place, goal, outside⟩ := enter j
      show ¬ (config.place j).stand.Holds
      rw [outside]
      exact id
    · show Sequential profile memory config.shared.log (replay memory [])
      rw [log]
      exact .boot

/-- A hart that has the cell's value goes on to the lock, if it has a call to make. -/
theorem unwrap (sound : Sound profile config) {memory : Memory} {goal : Option Call}
    (there : config.place i = .entering .reading goal)
    (found : config.shared.cell.value = some memory) :
    Sound profile (config.move i
      { config.shared with cell := { config.shared.cell with
        returned := config.shared.cell.returned ++ [memory] } } (.arrive goal)) := by
  obtain ⟨place, idle, mindful⟩ := arrive_idle goal
  have here : (onceOf config).place i = .reading := congrArg Spot.place there
  have outside : (mutexOf config).place i = .outside none := congrArg Spot.stand there
  have taken : OnceStep (Builds profile) i (onceOf config).shared ((onceOf config).place i)
      { config.shared.cell with returned := config.shared.cell.returned ++ [memory] }
      .outside := by
    rw [here]
    exact .unwrap found
  refine ⟨?_, sound.mindful_move mindful, ?_⟩
  · rw [onceOf, Config.view_move, place]
    exact sound.once.step taken
  · -- A cell that is empty has no value to go on with.
    cases sound.phase with
    | empty value =>
      rw [value] at found
      exact absurd found nofun
    | ready value serial sequential =>
      refine .ready value ?_ sequential
      rw [mutexOf, Config.view_move]
      exact serial.wait (by rw [outside]; exact id) idle

/-- A hart that stays inside takes a step of the mutex, and completes no section. -/
theorem stay (sound : Sound profile config) {stand next : Stand (Option Memory) Memory}
    {call : Call} {mutex : Mutex (Option Memory) Memory}
    (there : config.place i = .inside stand call)
    (taken : MutexStep i config.shared.mutex stand mutex next)
    (same : mutex.completed = config.shared.mutex.completed)
    (mindful : (Spot.inside next call).Mindful) :
    Sound profile (config.move i { config.shared with mutex } (.inside next call)) := by
  -- Whoever is past `get_or_init` found a value there, so the cell has its final value.
  obtain ⟨boot, value, serial, sequential⟩ := sound.ready there
  have here : (onceOf config).place i = .outside := congrArg Spot.place there
  have stands : (mutexOf config).place i = stand := congrArg Spot.stand there
  refine ⟨?_, sound.mindful_move mindful, .ready value ?_ ?_⟩
  · rw [onceOf, Config.view_move]
    exact sound.once.wait (by rw [here]; exact trivial) trivial
  · rw [mutexOf, Config.view_move]
    exact serial.step (stands ▸ taken)
  · -- The log is the same, so it is still a run of the same calls.
    show Sequential profile boot config.shared.log (replay boot mutex.completed)
    rw [same]
    exact sequential

/-- A call that comes to its end is the next one of the sequence. -/
theorem drop (sound : Sound profile config) {done : Section (Option Memory) Memory} {call : Call}
    {found : Memory} {answer : Answer}
    (there : config.place i = .inside (.holding done (some found)) call)
    (performs : Performs profile call found answer config.shared.mutex.data) :
    Sound profile (config.move i
      { config.shared with
        mutex := { config.shared.mutex with
          lock := .free, completed := config.shared.mutex.completed ++ [done] }
        log := config.shared.log ++ [⟨call, answer⟩] }
      (.entering .outside none)) := by
  obtain ⟨boot, value, serial, sequential⟩ := sound.ready there
  have here : (onceOf config).place i = .outside := congrArg Spot.place there
  have stands : (mutexOf config).place i = .holding done (some found) :=
    congrArg Spot.stand there
  -- What the hart kept in mind is the allocator that the earlier calls have left.
  obtain ⟨_, data, _⟩ := serial.held stands
  have mindful := sound.mindful i
  rw [there] at mindful
  have start : found = replay boot config.shared.mutex.completed := by
    have first := congrArg Prod.fst data
    rw [mindful, Option.some.injEq] at first
    exact first
  have finish : config.shared.mutex.data =
      done.update (replay boot config.shared.mutex.completed) := congrArg Prod.snd data
  refine ⟨?_, sound.mindful_move trivial, .ready value ?_ ?_⟩
  · rw [onceOf, Config.view_move]
    exact sound.once.wait (by rw [here]; exact trivial) trivial
  · rw [mutexOf, Config.view_move]
    -- Without a guard, the hart forgets what it kept in mind.
    exact (serial.drop stands).forget none
  · show Sequential profile boot (config.shared.log ++ [⟨call, answer⟩])
      (replay boot (config.shared.mutex.completed ++ [done]))
    rw [replay_concat, ← finish]
    rw [start] at performs
    exact .call sequential performs

/-- Every step of every hart keeps what holds of the static. -/
theorem step (sound : Sound profile config) {static : Static} {next : Spot}
    (taken : Step profile i config.shared (config.place i) static next) :
    Sound profile (config.move i static next) := by
  -- Each step is one of the cell or one of the mutex, and nothing to the other.
  generalize there : config.place i = spot at taken
  have mindful := sound.mindful i
  rw [there] at mindful
  cases taken with
  | request request =>
    have here : (onceOf config).place i = .outside := congrArg Spot.place there
    exact sound.enter there (sound.once.wait (by rw [here]; exact trivial) trivial) rfl
  | @once place next goal cell taken enters stays keeps =>
    have here : (onceOf config).place i = place := congrArg Spot.place there
    exact sound.enter there (sound.once.step (here ▸ taken)) keeps
  -- The value is stored once, and from then on the mutex in it is what is shared.
  | store => exact sound.store there
  | unwrap found => exact sound.unwrap there found
  | wait taken =>
    cases taken with
    | spin taken => exact sound.stay there (.spin taken) rfl trivial
    | acquire free => exact sound.stay there (.acquire free) rfl fun _ => rfl
  | @look done call =>
    refine sound.stay there (.access lookAt) rfl fun data => ?_
    rw [Section.run_also, mindful data]
    rfl
  | @scratch done call found memory =>
    refine sound.stay there (.access (put memory)) rfl fun data => ?_
    rw [Section.run_also]
    exact mindful data
  | drop performs => exact sound.drop there performs

end Sound

variable {profile : Profile} {config : Config ι Static Spot}
  {mutex : Mutex (Option Memory) Memory}

/-- What holds of the static holds in every run. -/
theorem sound_of_run (run : Config.Run (Step profile) (start mutex) config) :
    Sound profile config := by
  -- At the start, the cell is empty and every hart is outside.
  refine run.keeps (Sound profile) (fun _ _ _ _ sound taken => sound.step taken) ?_
  exact ⟨.incomplete rfl rfl rfl rfl fun _ => trivial, fun _ => trivial,
    .empty rfl rfl fun _ => ⟨_, _, rfl⟩⟩

/-- An address that is expected is there. -/
theorem expect_eq_some {σ : Type} {fault : Fault} {wanted : Option Nat} {state after : σ}
    {value : Nat} (ran : (expect fault wanted).run state = .ok value after) :
    wanted = some value := by
  cases wanted with
  | none => exact absurd ran nofun
  | some held =>
    rw [expect, EStateM.run_pure, EStateM.Result.ok.injEq] at ran
    rw [ran.1]

/-- An allocator is built only from four addresses. -/
theorem Builds.addresses {arguments : Arguments} {memory : Memory}
    (builds : Builds profile arguments memory) :
    ∃ ramStart ramEnd allocMemStart allocMemEnd,
      arguments = ⟨some ramStart, some ramEnd, some allocMemStart, some allocMemEnd⟩ := by
  -- Each of the four is expected before the allocator is built.
  obtain ⟨written, ran⟩ := builds
  unfold new at ran
  obtain ⟨allocMemStart, _, first, ran⟩ := Exec.run_bind_ok.mp ran
  obtain ⟨allocMemEnd, _, second, ran⟩ := Exec.run_bind_ok.mp ran
  obtain ⟨_, _, _, ran⟩ := Exec.run_bind_ok.mp ran
  obtain ⟨ramStart, _, third, ran⟩ := Exec.run_bind_ok.mp ran
  obtain ⟨ramEnd, _, fourth, _⟩ := Exec.run_bind_ok.mp ran
  refine ⟨ramStart, ramEnd, allocMemStart, allocMemEnd, ?_⟩
  rw [← expect_eq_some first, ← expect_eq_some second, ← expect_eq_some third,
    ← expect_eq_some fourth]

/--
Whatever the order of the harts' steps, the allocator is used as if by one hart alone.

It is built at most once, no hart finds the cell empty or shares the lock, and the calls that have
returned are one sequence of calls on the allocator that some `init` has built. Their answers are
those of the sequence, and when nobody has the lock the allocator is what the sequence leaves.
-/
theorem shared_sequential (run : Config.Run (Step profile) (start mutex) config) :
    config.shared.cell.started.length ≤ 1 ∧
    (∀ i goal, config.place i ≠ .entering .panicked goal) ∧
    (∀ i j, (config.place i).stand.Holds → (config.place j).stand.Holds → i = j) ∧
    (config.shared.log = [] ∨ ∃ ramStart ramEnd allocMemStart allocMemEnd boot memory,
      config.shared.cell.started =
        [⟨some ramStart, some ramEnd, some allocMemStart, some allocMemEnd⟩] ∧
      Builds profile ⟨some ramStart, some ramEnd, some allocMemStart, some allocMemEnd⟩ boot ∧
      Sequential profile boot config.shared.log memory ∧
      ((∀ i, ¬ (config.place i).stand.Holds) → config.shared.mutex.data = memory)) := by
  have sound := sound_of_run run
  refine ⟨sound.once.started_le, fun i goal failed => ?_, fun i j first second => ?_, ?_⟩
  · exact sound.once.not_panicked i (congrArg Spot.place failed)
  · -- A hart that has a guard is inside, and then the mutex tells of no other.
    cases sound.phase with
    | empty _ _ enter =>
      obtain ⟨place, goal, outside⟩ := enter i
      rw [outside] at first
      exact first.elim
    | ready _ serial _ =>
      obtain ⟨done, here, holds⟩ := Stand.Holds.exists second
      obtain ⟨_, _, others, _⟩ := serial.held (i := j) holds
      by_contra different
      exact others i different first
  · cases sound.phase with
    | empty _ log _ => exact .inl log
    | @ready boot value serial sequential =>
      obtain ⟨arguments, started, builds⟩ := sound.once.yielded value
      obtain ⟨ramStart, ramEnd, allocMemStart, allocMemEnd, rfl⟩ := Builds.addresses builds
      refine .inr ⟨ramStart, ramEnd, allocMemStart, allocMemEnd, boot, _, started, builds,
        sequential, fun nobody => ?_⟩
      -- Nobody has a guard, so that the last section is complete.
      cases serial with
      | free _ data => exact data
      | @locked holder _ _ _ holds =>
        have guarded : (config.place holder).stand.Holds := by
          have same : (config.place holder).stand = _ := holds
          rw [same]
          exact trivial
        exact absurd guarded (nobody holder)

/-- The arguments of an `init` for two pages. -/
def twoPagesArguments : Arguments :=
  ⟨some 0x80000000, some 0x80002000, some 0x70000000, some 0x70080000⟩

theorem twoPages_builds :
    Builds .dev twoPagesArguments (twoPages [.free, .free, .free] [0, 0]) := ⟨_, rfl⟩

/-- A small request is given the first page. -/
theorem performs_first : Performs .dev (.alloc 100) (twoPages [.free, .free, .free] [0, 0])
    (.alloc (.ok ⟨0x80000000, some 0x1000⟩)) (twoPages [.split, .allocated, .free] [2, 1]) :=
  .alloc rfl

/-- The next request is given the second page. -/
theorem performs_second :
    Performs .dev (.alloc 4096) (twoPages [.split, .allocated, .free] [2, 1])
      (.alloc (.ok ⟨0x80001000, some 0x1000⟩)) (twoPages [.split, .allocated, .allocated] [2, 1]) :=
  .alloc rfl

/-- What is no mutex yet, since the cell has no value. -/
def noMutex : Mutex (Option Memory) Memory := .new (twoPages [] [])

/-- Two harts race for the lock, and each is given a page. -/
theorem exists_run_pages :
    ∃ config : Config Bool Static Spot, Config.Run (Step .dev) (start noMutex) config ∧
      config.shared.cell.started = [twoPagesArguments] ∧
      config.shared.log = [⟨.alloc 100, .alloc (.ok ⟨0x80000000, some 0x1000⟩)⟩,
        ⟨.alloc 4096, .alloc (.ok ⟨0x80001000, some 0x1000⟩)⟩] := by
  have none : Config.Run (Step (ι := Bool) .dev) (start noMutex) (start noMutex) := .here
  -- The one hart builds the allocator.
  have run := none.step (i := true) (.request (.init 0x80000000 0x80002000 0x70000000 0x70080000))
  have run := run.step (i := true) (.once (.slow nofun) nofun nofun rfl)
  have run := run.step (i := true) (.once (.win rfl) nofun nofun rfl)
  have run := run.step (i := true) (.once (.finish twoPages_builds) nofun nofun rfl)
  have run := run.step (i := true) .store
  have run := run.step (i := true) (.once .complete nofun nofun rfl)
  have run := run.step (i := true) (.unwrap rfl)
  -- Both want the lock, and the other one is turned away once.
  have run := run.step (i := true) (.request (.call (.alloc 100)))
  have run := run.step (i := true) (.once (.fast rfl) nofun nofun rfl)
  have run := run.step (i := false) (.request (.call (.alloc 4096)))
  have run := run.step (i := false) (.once (.fast rfl) nofun nofun rfl)
  have run := run.step (i := true) (.unwrap rfl)
  have run := run.step (i := false) (.unwrap rfl)
  have run := run.step (i := true) (.wait (.acquire rfl))
  have run := run.step (i := false) (.wait (.spin nofun))
  have run := run.step (i := true) .look
  have run := run.step (i := true) (.scratch (twoPages [.split, .allocated, .free] [2, 1]))
  have run := run.step (i := true) (.drop performs_first)
  have run := run.step (i := false) (.wait (.acquire rfl))
  have run := run.step (i := false) .look
  have run := run.step (i := false) (.scratch (twoPages [.split, .allocated, .allocated] [2, 1]))
  have run := run.step (i := false) (.drop performs_second)
  exact ⟨_, run, rfl, rfl⟩

/-- The race is a sequence of two calls on the allocator that the first hart has built. -/
theorem shared_sequential_pages :
    ∃ config : Config Bool Static Spot, Config.Run (Step .dev) (start noMutex) config ∧
      ∃ boot memory, Builds .dev twoPagesArguments boot ∧
        Sequential .dev boot config.shared.log memory ∧ config.shared.log.length = 2 := by
  obtain ⟨config, run, started, log⟩ := exists_run_pages
  refine ⟨config, run, ?_⟩
  obtain ⟨_, _, _, none | ⟨_, _, _, _, boot, memory, same, builds, sequential, _⟩⟩ :=
    shared_sequential run
  · -- The run has a log, so the allocator was built.
    rw [log] at none
    exact absurd none nofun
  · rw [started, List.singleton_inj] at same
    rw [← same] at builds
    exact ⟨boot, memory, builds, sequential, congrArg List.length log⟩

/-- The blocks in use after a call, as long as only such blocks are given back. -/
def Event.apply (live : List LiveBlock) : Event → Option (List LiveBlock)
  | ⟨.alloc n, .alloc result⟩ => some (inUse n live result)
  | ⟨.free addr, .free⟩ => (live.find? fun used => used.block = addr).map live.erase
  | _ => none

/-- The blocks in use after some calls, as long as only such blocks are given back. -/
def heldAfter (log : List Event) : Option (List LiveBlock) := log.foldlM Event.apply []

/-- One more call decides about the blocks in use after the earlier ones. -/
theorem heldAfter_concat (log : List Event) (event : Event) :
    heldAfter (log ++ [event]) = (heldAfter log).bind fun live => event.apply live := by
  simp [heldAfter, List.foldlM_append, Option.bind_eq_bind]

/-- A call keeps the arena, with what it says of the blocks in use. -/
theorem Performs.managed {ramStart ramEnd : Nat} {call : Call} {memory after : Memory}
    {answer : Answer} {live next : List LiveBlock}
    (performs : Performs profile call memory answer after)
    (managed : Managed ramStart ramEnd memory live)
    (legal : Event.apply live ⟨call, answer⟩ = some next) : Managed ramStart ramEnd after next := by
  cases performs with
  -- A request adds what it was given to the blocks held; a refused one leaves them.
  | alloc ran =>
    rw [Event.apply, Option.some.injEq] at legal
    subst legal
    exact managed.request ran
  | @free _ _ addr ran =>
    rw [Event.apply] at legal
    -- A legal release names a block that is held.
    obtain ⟨used, found, rfl⟩ := Option.map_eq_some_iff.mp legal
    have same : used.block = addr := by simpa using List.find?_some found
    subst same
    exact managed.release (List.mem_of_find?_eq_some found) ran

/-- A sequence of calls keeps the arena. -/
theorem Sequential.managed {ramStart ramEnd : Nat} {boot memory : Memory} {log : List Event}
    (sequential : Sequential profile boot log memory) (managed : Managed ramStart ramEnd boot [])
    {live : List LiveBlock} (legal : heldAfter log = some live) :
    Managed ramStart ramEnd memory live := by
  -- The induction is on the calls.
  induction sequential generalizing live with
  | boot =>
    have empty : [] = live := Option.some.inj legal
    rw [← empty]
    exact managed
  | call _ performs ih =>
    rw [heldAfter_concat] at legal
    obtain ⟨earlier, before, apply⟩ := Option.bind_eq_some_iff.mp legal
    exact performs.managed (ih before) apply

/--
Harts that share the allocator are given blocks that do not overlap.

As long as blocks are given back only while they are in use, those that are in use lie apart from
each other inside the pages of the one `init`, whichever harts they were given to.
-/
theorem shared_blocks_disjoint (run : Config.Run (Step profile) (start mutex) config)
    {ramStart ramEnd allocMemStart allocMemEnd : Nat} (ordered : ramStart ≤ ramEnd)
    (word : ramEnd < wordLimit) (aligned : ramStart % pageSize = 0)
    (pages : ∃ count, 0 < count ∧ ramEnd - ramStart = count * pageSize)
    (init : config.shared.cell.started =
      [⟨some ramStart, some ramEnd, some allocMemStart, some allocMemEnd⟩])
    {live : List LiveBlock} (legal : heldAfter config.shared.log = some live) :
    live.Pairwise (fun first second => Disjoint first.block.bytes second.block.bytes) ∧
    ∀ used ∈ live, ∃ size, used.block.size = some size ∧ used.request ≤ size ∧
      ramStart ≤ used.block.addr ∧ used.block.addr + size ≤ ramEnd := by
  have sound := sound_of_run run
  cases sound.phase with
  | empty _ log _ =>
    -- Nothing has been handed out yet.
    rw [log] at legal
    have empty : [] = live := Option.some.inj legal
    rw [← empty]
    exact ⟨.nil, nofun⟩
  | @ready boot value serial sequential =>
    obtain ⟨arguments, started, built⟩ := sound.once.yielded value
    have same := init.symm.trans started
    rw [List.singleton_inj] at same
    rw [← same] at built
    obtain ⟨written, ran⟩ := built
    have arena : PageArena profile ramStart ramEnd boot :=
      ⟨ordered, word, ⟨_, _, _, ran⟩, aligned, pages⟩
    have managed := sequential.managed arena.managed legal
    refine ⟨managed.disjoint, fun used member => ?_⟩
    obtain ⟨size, found, holds, _, low, high⟩ := managed.room member
    exact ⟨size, found, holds, low, high⟩

/-- The pages of the two harts lie apart. -/
theorem shared_blocks_disjoint_pages :
    ∃ config : Config Bool Static Spot, Config.Run (Step .dev) (start noMutex) config ∧
      config.shared.log.length = 2 ∧ Disjoint (PhysAddr.bytes ⟨0x80001000, some 0x1000⟩)
        (PhysAddr.bytes ⟨0x80000000, some 0x1000⟩) := by
  obtain ⟨config, run, started, log⟩ := exists_run_pages
  have legal : heldAfter config.shared.log = some [⟨4096, ⟨0x80001000, some 0x1000⟩⟩,
      ⟨100, ⟨0x80000000, some 0x1000⟩⟩] := by rw [log]; rfl
  obtain ⟨apart, _⟩ := shared_blocks_disjoint run (by decide) (by decide) (by decide)
    ⟨2, by decide, by decide⟩ started legal
  refine ⟨config, run, ?_, List.rel_of_pairwise_cons apart List.mem_cons_self⟩
  rw [log]
  rfl

end Os1k.Memory.Shared
