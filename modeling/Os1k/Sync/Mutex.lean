import Os1k.Lib.Interleaving

/-! The spinning mutex of `sync.rs`, under any interleaving of its atomic steps. -/

namespace Os1k.Sync

/-- The states of the lock byte. -/
inductive MutexState where
  | free
  | locked
  deriving DecidableEq, Repr

/-- What a context with local values `L` does through its guard in one step. -/
inductive Access (L T : Type) where
  /-- It looks at the data, and keeps what it likes. -/
  | read (keep : L → T → L)
  /-- It stores something into the data, or into a part of it. -/
  | write (store : L → T → T)

/-- The local values and the data after one access. -/
def Access.run {L T : Type} : Access L T → L × T → L × T
  | .read keep, (here, data) => (keep here data, data)
  | .write store, (here, data) => (here, store here data)

/--
What a context has done through one guard.

The ticket counts how many times the lock had been acquired before.
-/
structure Section (L T : Type) where
  ticket : Nat
  start : L
  accesses : List (Access L T)

namespace Section

variable {L T : Type}

/-- The local values and the data after all of a section, if nobody else touches the data. -/
def run (done : Section L T) (data : T) : L × T :=
  done.accesses.foldl (fun state access => access.run state) (done.start, data)

/-- The update that a section makes. -/
def update (data : T) (done : Section L T) : T := (done.run data).2

/-- A section with one more access. -/
def also (done : Section L T) (access : Access L T) : Section L T :=
  { done with accesses := done.accesses ++ [access] }

@[simp] theorem run_also (done : Section L T) (access : Access L T) (data : T) :
    (done.also access).run data = access.run (done.run data) := by
  simp [run, also]

end Section

/--
A `Mutex`, with a record of what happened to it.

The record is not part of the mutex: how often the lock was acquired, and the critical sections
whose guard was dropped.
-/
structure Mutex (L T : Type) where
  lock : MutexState
  data : T
  acquired : Nat
  completed : List (Section L T)

/-- A new mutex is free. -/
def Mutex.new {L T : Type} (data : T) : Mutex L T := ⟨.free, data, 0, []⟩

/-- Where a context is. -/
inductive Stand (L T : Type) where
  /-- It has no guard, and does not want one. -/
  | outside (here : L)
  /-- It tries for the lock. -/
  | locking (here : L)
  /-- It has a guard, and has done something through it. -/
  | holding (done : Section L T) (here : L)

/-- The context has a guard. -/
def Stand.Holds {L T : Type} : Stand L T → Prop
  | .holding _ _ => True
  | _ => False

variable {ι L T : Type} [DecidableEq ι]

/-- One atomic step of a context. -/
inductive MutexStep (i : ι) : Mutex L T → Stand L T → Mutex L T → Stand L T → Prop where
  | work {mutex : Mutex L T} {here : L} (next : L) :
      MutexStep i mutex (.outside here) mutex (.outside next)
  | call {mutex : Mutex L T} {here : L} : MutexStep i mutex (.outside here) mutex (.locking here)
  | spin {mutex : Mutex L T} {here : L} (taken : mutex.lock ≠ .free) :
      MutexStep i mutex (.locking here) mutex (.locking here)
  | acquire {mutex : Mutex L T} {here : L} (free : mutex.lock = .free) :
      MutexStep i mutex (.locking here)
        { mutex with lock := .locked, acquired := mutex.acquired + 1 }
        (.holding ⟨mutex.acquired, here, []⟩ here)
  | access {mutex : Mutex L T} {done : Section L T} {here : L} (access : Access L T) :
      MutexStep i mutex (.holding done here)
        { mutex with data := (access.run (here, mutex.data)).2 }
        (.holding (done.also access) (access.run (here, mutex.data)).1)
  | drop {mutex : Mutex L T} {done : Section L T} {here : L} :
      MutexStep i mutex (.holding done here)
        { mutex with lock := .free, completed := mutex.completed ++ [done] } (.outside here)

/-- The data after some sections, one after another. -/
def replay (initial : T) (sections : List (Section L T)) : T :=
  sections.foldl Section.update initial

@[simp] theorem replay_concat (initial : T) (sections : List (Section L T))
    (done : Section L T) :
    replay initial (sections ++ [done]) = done.update (replay initial sections) := by
  simp [replay]

/-- What links the lock byte, the guard, and the data. -/
inductive Serial (initial : T) (config : Config ι (Mutex L T) (Stand L T)) : Prop where
  | free (lock : config.shared.lock = .free)
      (data : config.shared.data = replay initial config.shared.completed)
      (nobody : ∀ j, ¬ (config.place j).Holds)
      (count : config.shared.acquired = config.shared.completed.length)
      (order : config.shared.completed.map Section.ticket =
        List.range config.shared.completed.length)
  | locked {i : ι} {done : Section L T} {here : L} (lock : config.shared.lock = .locked)
      (holder : config.place i = .holding done here)
      (data : (here, config.shared.data) = done.run (replay initial config.shared.completed))
      (others : ∀ j, j ≠ i → ¬ (config.place j).Holds)
      (ticket : done.ticket = config.shared.completed.length)
      (count : config.shared.acquired = config.shared.completed.length + 1)
      (order : config.shared.completed.map Section.ticket =
        List.range config.shared.completed.length)

namespace Serial

variable {initial : T} {config : Config ι (Mutex L T) (Stand L T)}

/-- A step of a context that has no guard and gets none. -/
theorem wait (serial : Serial initial config) {i : ι} {next : Stand L T}
    (before : ¬ (config.place i).Holds) (after : ¬ next.Holds) :
    Serial initial (config.move i config.shared next) := by
  cases serial with
  | free lock data nobody count order =>
    refine .free lock data ?_ count order
    exact Config.forall_move (fun stand : Stand L T => ¬ stand.Holds) (fun j _ => nobody j) after
  | @locked holder done here lock holds data others ticket count order =>
    -- The context that has the guard is another one.
    have different : holder ≠ i := by
      rintro rfl
      rw [holds] at before
      exact before trivial
    refine .locked lock ((Config.move_other different _ next).trans holds) data
      (fun j other => ?_) ticket count order
    by_cases this : j = i
    · rw [this, Config.move_self]
      exact after
    · rw [Config.move_other this]
      exact others j other

/-- A context that gets the lock starts a section on what the completed ones have left. -/
theorem acquire (serial : Serial initial config) (free : config.shared.lock = .free) (i : ι)
    (here : L) :
    Serial initial (config.move i
      { config.shared with lock := .locked, acquired := config.shared.acquired + 1 }
      (.holding ⟨config.shared.acquired, here, []⟩ here)) := by
  -- The lock is free, so that nobody else is in a section.
  cases serial with
  | free lock data nobody count order =>
    refine .locked rfl (Config.move_self _ i _ _) ?_ (fun j other => ?_) count
      (congrArg (· + 1) count) order
    · rw [Config.move_shared, data]
      rfl
    · rw [Config.move_other other]
      exact nobody j
  | locked lock =>
    rw [lock] at free
    exact absurd free nofun

/-- The context that has a guard is the one that locked the mutex. -/
theorem held (serial : Serial initial config) {i : ι} {done : Section L T} {here : L}
    (holds : config.place i = .holding done here) :
    config.shared.lock = .locked ∧
    (here, config.shared.data) = done.run (replay initial config.shared.completed) ∧
    (∀ j, j ≠ i → ¬ (config.place j).Holds) ∧ done.ticket = config.shared.completed.length ∧
    config.shared.acquired = config.shared.completed.length + 1 ∧
    config.shared.completed.map Section.ticket = List.range config.shared.completed.length := by
  -- Only one context can have a guard, so its section is the one that the invariant tells of.
  have guarded : (config.place i).Holds := by
    rw [holds]
    exact trivial
  cases serial with
  | free lock data nobody => exact absurd guarded (nobody i)
  | @locked holder known values lock found data others ticket count order =>
    have same : holder = i := by
      by_contra different
      exact others i (Ne.symm different) guarded
    subst same
    rw [found, Stand.holding.injEq] at holds
    obtain ⟨rfl, rfl⟩ := holds
    exact ⟨lock, data, others, ticket, count, order⟩

/-- An access through the guard is one more access of the open section. -/
theorem access (serial : Serial initial config) {i : ι} {done : Section L T} {here : L}
    (holds : config.place i = .holding done here) (access : Access L T) :
    Serial initial (config.move i
      { config.shared with data := (access.run (here, config.shared.data)).2 }
      (.holding (done.also access) (access.run (here, config.shared.data)).1)) := by
  -- The data is what the open section has made of it so far.
  obtain ⟨lock, data, others, ticket, count, order⟩ := serial.held holds
  refine .locked lock (Config.move_self _ i _ _) ?_ (fun j other => ?_) ticket count order
  · rw [Config.move_shared, Section.run_also, ← data]
  · rw [Config.move_other other]
    exact others j other

/-- A dropped guard completes the section that started last. -/
theorem drop (serial : Serial initial config) {i : ι} {done : Section L T} {here : L}
    (holds : config.place i = .holding done here) :
    Serial initial (config.move i
      { config.shared with lock := .free, completed := config.shared.completed ++ [done] }
      (.outside here)) := by
  -- The section that is open is the one with the last ticket.
  obtain ⟨lock, data, others, ticket, count, order⟩ := serial.held holds
  refine .free rfl ?_ ?_ ?_ ?_
  · rw [Config.move_shared, replay_concat, Section.update, ← data]
  · exact Config.forall_move (fun stand : Stand L T => ¬ stand.Holds) others id
  · rw [Config.move_shared, count, List.length_append]
    rfl
  · rw [Config.move_shared, List.map_append, order, List.length_append, List.length_singleton,
      List.range_succ, List.map_singleton, ticket]

/-- What a context keeps outside is no matter. -/
theorem forget {i : ι} {mutex : Mutex L T} {here : L}
    (serial : Serial initial (config.move i mutex (.outside here))) (next : L) :
    Serial initial (config.move i mutex (.outside next)) := by
  -- Neither the old place nor the new one holds the lock.
  have outside : ¬ ((config.move i mutex (.outside here)).place i).Holds := by
    rw [Config.move_self]
    exact id
  have after : ¬ (Stand.outside next : Stand L T).Holds := id
  have moved := serial.wait outside after
  rw [Config.move_move] at moved
  exact moved

/-- Every atomic step of every context keeps the links. -/
theorem step (serial : Serial initial config) {i : ι} {mutex : Mutex L T} {next : Stand L T}
    (taken : MutexStep i config.shared (config.place i) mutex next) :
    Serial initial (config.move i mutex next) := by
  -- Each step is one of four kinds: it waits, acquires, uses the guard, or drops it.
  generalize there : config.place i = stand at taken
  cases taken with
  | work next => exact serial.wait (by rw [there]; exact id) id
  | call => exact serial.wait (by rw [there]; exact id) id
  | spin taken => exact serial.wait (by rw [there]; exact id) id
  | acquire free => exact serial.acquire free i _
  | access access => exact serial.access there access
  | drop => exact serial.drop there

end Serial

/-- Nobody has locked a new mutex. -/
def mutexStart (initial : T) (start : ι → L) : Config ι (Mutex L T) (Stand L T) :=
  ⟨.new initial, fun i => .outside (start i)⟩

variable {initial : T} {start : ι → L} {config : Config ι (Mutex L T) (Stand L T)}

/-- The links hold in every run. -/
theorem serial_of_run (run : Config.Run MutexStep (mutexStart initial start) config) :
    Serial initial config :=
  run.keeps (Serial initial) (fun _ _ _ _ kept taken => kept.step taken)
    (.free rfl rfl (fun _ => id) rfl rfl)

/-- A context that holds the mutex has some section open. -/
theorem Stand.Holds.exists {stand : Stand L T} (holds : stand.Holds) :
    ∃ done here, stand = .holding done here := by
  -- Of the three places, only one has a guard.
  cases stand with
  | outside => exact holds.elim
  | locking => exact holds.elim
  | holding done here => exact ⟨done, here, rfl⟩

/--
A mutex excludes, and loses no update.

At most one guard exists, the lock byte is locked exactly while one does, and the data is what the
completed sections make of it in the order in which they got the lock, followed by what the open
section, if there is one, has done so far.
-/
theorem lock_serialises (run : Config.Run MutexStep (mutexStart initial start) config) :
    (∀ i j, (config.place i).Holds → (config.place j).Holds → i = j) ∧
    (config.shared.lock = .locked ↔ ∃ i, (config.place i).Holds) ∧
    config.shared.completed.map Section.ticket = List.range config.shared.completed.length ∧
    ((∀ i, ¬ (config.place i).Holds) →
      config.shared.data = replay initial config.shared.completed) ∧
    ∀ i done here, config.place i = .holding done here →
      done.ticket = config.shared.completed.length ∧
      (here, config.shared.data) = done.run (replay initial config.shared.completed) := by
  -- All parts are read off the invariant, which says where the one guard is.
  have serial := serial_of_run run
  have alone : ∀ i, (config.place i).Holds →
      config.shared.lock = .locked ∧ ∀ j, j ≠ i → ¬ (config.place j).Holds := by
    intro i holds
    obtain ⟨done, here, there⟩ := holds.exists
    obtain ⟨lock, _, others, _⟩ := serial.held there
    exact ⟨lock, others⟩
  refine ⟨fun i j first second => ?_, ⟨fun lock => ?_, fun ⟨i, holds⟩ => (alone i holds).1⟩, ?_,
    fun nobody => ?_, fun i done here there => ?_⟩
  · by_contra different
    exact (alone j second).2 i different first
  · cases serial with
    | free free =>
      rw [free] at lock
      exact absurd lock nofun
    | locked _ holder => exact ⟨_, by rw [holder]; exact trivial⟩
  · cases serial with
    | free _ _ _ _ order => exact order
    | locked _ _ _ _ _ _ order => exact order
  · cases serial with
    | free _ data => exact data
    | locked _ holder => exact absurd (by rw [holder]; exact trivial) (nobody _)
  · obtain ⟨_, data, _, ticket, _⟩ := serial.held there
    exact ⟨ticket, data⟩

/-- A context keeps the counter that it reads. -/
def readCounter : Access Nat Nat := .read fun _ counter => counter

/-- A context stores one more than it has read. -/
def storeNext : Access Nat Nat := .write fun seen _ => seen + 1

/-- Two contexts count to two, while the second one spins for the lock of the first. -/
theorem exists_run_counting :
    ∃ config : Config Bool (Mutex Nat Nat) (Stand Nat Nat),
      Config.Run MutexStep (mutexStart 0 fun _ => 0) config ∧
      (∀ i, ¬ (config.place i).Holds) ∧ config.shared.completed.length = 2 ∧
      config.shared.data = 2 := by
  -- The second context is turned away once, and comes after the first one has written.
  have none : Config.Run (MutexStep (ι := Bool))
    (mutexStart 0 fun _ => 0 : Config Bool (Mutex Nat Nat) (Stand Nat Nat)) _ := .here
  have run := none.step (i := true) .call
  have run := run.step (i := false) .call
  have run := run.step (i := true) (.acquire rfl)
  have run := run.step (i := true) (.access readCounter)
  have run := run.step (i := false) (.spin nofun)
  have run := run.step (i := true) (.access storeNext)
  have run := run.step (i := true) .drop
  have run := run.step (i := false) (.acquire rfl)
  have run := run.step (i := false) (.access readCounter)
  have run := run.step (i := false) (.access storeNext)
  have run := run.step (i := false) .drop
  refine ⟨_, run, fun i => ?_, rfl, rfl⟩
  cases i with
  | false => exact id
  | true => exact id

/-- Two contexts that count to two lose neither update. -/
theorem lock_serialises_counting :
    ∃ config : Config Bool (Mutex Nat Nat) (Stand Nat Nat),
      Config.Run MutexStep (mutexStart 0 fun _ => 0) config ∧ config.shared.data = 2 ∧
      config.shared.completed.map Section.ticket = [0, 1] ∧
      replay 0 config.shared.completed = 2 := by
  -- Nobody holds a guard at the end, so the data is the result of both sections.
  obtain ⟨config, run, nobody, length, data⟩ := exists_run_counting
  obtain ⟨_, _, order, result, _⟩ := lock_serialises run
  rw [length] at order
  exact ⟨config, run, data, order, (result nobody).symm.trans data⟩

/-- While a guard exists, the data may hold more than the completed sections have left. -/
theorem lock_half_finished :
    ¬ ∀ config : Config Bool (Mutex Nat Nat) (Stand Nat Nat),
      Config.Run MutexStep (mutexStart 0 fun _ => 0) config →
      config.shared.data = replay 0 config.shared.completed := by
  -- The one context has written, but has not dropped its guard.
  intro always
  have none : Config.Run (MutexStep (ι := Bool))
    (mutexStart 0 fun _ => 0 : Config Bool (Mutex Nat Nat) (Stand Nat Nat)) _ := .here
  have run := none.step (i := true) .call
  have run := run.step (i := true) (.acquire rfl)
  have run := run.step (i := true) (.access storeNext)
  exact absurd (always _ run) (by decide)

end Os1k.Sync
