import Os1k.Lib.Interleaving

/-! The cell of `sync.rs` that is initialised once, under any interleaving of its atomic steps. -/

namespace Os1k.Sync

/-- The states of a `Once`. -/
inductive OnceState where
  | incomplete
  | inProgress
  | completed
  deriving DecidableEq, Repr

/--
A `OnceCell`, with a record of what happened to it.

The record is not part of the cell: the closures that were started, and the values that calls of
`get_or_init` have returned.
-/
structure OnceCell (F T : Type) where
  state : OnceState
  value : Option T
  started : List F
  returned : List T

/-- A new cell holds nothing. -/
def OnceCell.new {F T : Type} : OnceCell F T := ⟨.incomplete, none, [], []⟩

/-- Where a context is in `get_or_init`, by what it does next. -/
inductive Place (F T : Type) where
  /-- It may call `get_or_init`. -/
  | outside
  /-- It looks whether the cell is complete. -/
  | check (f : F)
  /-- It tries for the right to initialise. -/
  | exchange (f : F)
  /-- Its closure runs. -/
  | running (f : F)
  /-- It stores what its closure returned. -/
  | storing (value : T)
  /-- It marks the cell as complete. -/
  | completing
  /-- It spins until the cell is complete. -/
  | spinning
  /-- It unwraps the stored value. -/
  | reading
  /-- It found nothing to unwrap. -/
  | panicked

variable {ι F T : Type} [DecidableEq ι]

/--
One atomic step of a context.

A closure may return any of the values it yields, and takes as long as it likes.
-/
inductive OnceStep (yields : F → T → Prop) (i : ι) :
    OnceCell F T → Place F T → OnceCell F T → Place F T → Prop where
  | call {cell : OnceCell F T} (f : F) : OnceStep yields i cell .outside cell (.check f)
  | fast {cell : OnceCell F T} {f : F} (complete : cell.state = .completed) :
      OnceStep yields i cell (.check f) cell .reading
  | slow {cell : OnceCell F T} {f : F} (pending : cell.state ≠ .completed) :
      OnceStep yields i cell (.check f) cell (.exchange f)
  | win {cell : OnceCell F T} {f : F} (free : cell.state = .incomplete) :
      OnceStep yields i cell (.exchange f)
        { cell with state := .inProgress, started := cell.started ++ [f] } (.running f)
  | lose {cell : OnceCell F T} {f : F} (taken : cell.state ≠ .incomplete) :
      OnceStep yields i cell (.exchange f) cell .spinning
  | finish {cell : OnceCell F T} {f : F} {value : T} (result : yields f value) :
      OnceStep yields i cell (.running f) cell (.storing value)
  | store {cell : OnceCell F T} {value : T} :
      OnceStep yields i cell (.storing value) { cell with value := some value } .completing
  | complete {cell : OnceCell F T} :
      OnceStep yields i cell .completing { cell with state := .completed } .reading
  | spin {cell : OnceCell F T} (pending : cell.state ≠ .completed) :
      OnceStep yields i cell .spinning cell .spinning
  | done {cell : OnceCell F T} (complete : cell.state = .completed) :
      OnceStep yields i cell .spinning cell .reading
  | unwrap {cell : OnceCell F T} {value : T} (found : cell.value = some value) :
      OnceStep yields i cell .reading { cell with returned := cell.returned ++ [value] } .outside
  | panic {cell : OnceCell F T} (empty : cell.value = none) :
      OnceStep yields i cell .reading cell .panicked

/-- A place where a context has no claim on the cell. -/
def Place.Waits : Place F T → Prop
  | .outside | .check _ | .exchange _ | .spinning => True
  | _ => False

/-- A place where a context waits, or has found the cell to be complete. -/
def Place.Settled (place : Place F T) : Prop := place.Waits ∨ place = .reading

/-- What the context that won the exchange has done so far, while its closure is the one started. -/
inductive Initialising (yields : F → T → Prop) (f : F) : Option T → Place F T → Prop where
  | running : Initialising yields f none (.running f)
  | storing {value : T} (result : yields f value) : Initialising yields f none (.storing value)
  | completing {value : T} (result : yields f value) :
      Initialising yields f (some value) .completing

/-- What links the state, the context that initialises, and the stored value. -/
inductive Consistent (yields : F → T → Prop) (config : Config ι (OnceCell F T) (Place F T)) :
    Prop where
  | incomplete (state : config.shared.state = .incomplete) (value : config.shared.value = none)
      (started : config.shared.started = []) (returned : config.shared.returned = [])
      (wait : ∀ j, (config.place j).Waits)
  | inProgress {i : ι} {f : F} (state : config.shared.state = .inProgress)
      (started : config.shared.started = [f]) (returned : config.shared.returned = [])
      (owner : Initialising yields f config.shared.value (config.place i))
      (wait : ∀ j, j ≠ i → (config.place j).Waits)
  | completed {f : F} {value : T} (state : config.shared.state = .completed)
      (started : config.shared.started = [f]) (result : yields f value)
      (stored : config.shared.value = some value)
      (same : ∀ other ∈ config.shared.returned, other = value)
      (wait : ∀ j, (config.place j).Settled)

/-- The context that initialises does not wait. -/
theorem Initialising.not_waits {yields : F → T → Prop} {f : F} {value : Option T}
    {place : Place F T} (initialising : Initialising yields f value place) : ¬ place.Waits := by
  -- It runs its closure, stores, or marks the cell, and does not wait in any of these.
  cases initialising with
  | running => exact id
  | storing _ => exact id
  | completing _ => exact id

/-- The context that initialises does not read. -/
theorem Initialising.not_reading {yields : F → T → Prop} {f : F} {value : Option T}
    {place : Place F T} (initialising : Initialising yields f value place) :
    place ≠ .reading := by
  -- It reads only after it has marked the cell, and then no longer initialises.
  cases initialising with
  | running => exact nofun
  | storing _ => exact nofun
  | completing _ => exact nofun

/-- The context that initialises has not failed. -/
theorem Initialising.not_failed {yields : F → T → Prop} {f : F} {value : Option T}
    {place : Place F T} (initialising : Initialising yields f value place) :
    place ≠ .panicked := by
  -- It has not come to the unwrap yet.
  cases initialising with
  | running => exact nofun
  | storing _ => exact nofun
  | completing _ => exact nofun

/-- A closure that runs is the one that was started, and nothing is stored yet. -/
theorem Initialising.of_running {yields : F → T → Prop} {f g : F} {value : Option T}
    (initialising : Initialising yields f value (.running g)) : g = f ∧ value = none := by
  cases initialising with
  | running => exact ⟨rfl, rfl⟩

/-- A value about to be stored is one that the closure yields. -/
theorem Initialising.of_storing {yields : F → T → Prop} {f : F} {value : Option T} {new : T}
    (initialising : Initialising yields f value (.storing new)) : yields f new := by
  cases initialising with
  | storing result => exact result

/-- Before the cell is marked, the value of the closure is stored. -/
theorem Initialising.of_completing {yields : F → T → Prop} {f : F} {value : Option T}
    (initialising : Initialising yields f value .completing) :
    ∃ new, yields f new ∧ value = some new := by
  cases initialising with
  | completing result => exact ⟨_, result, rfl⟩

namespace Consistent

variable {yields : F → T → Prop} {config : Config ι (OnceCell F T) (Place F T)}

/-- A step of a context that has no claim on the cell, which leaves the cell alone. -/
theorem wait (consistent : Consistent yields config) {i : ι} {next : Place F T}
    (before : (config.place i).Waits) (after : next.Waits) :
    Consistent yields (config.move i config.shared next) := by
  cases consistent with
  | incomplete state value started returned wait =>
    refine .incomplete state value started returned ?_
    exact Config.forall_move Place.Waits (fun j _ => wait j) after
  | @inProgress owner f state started returned initialising wait =>
    -- The context that initialises is another one.
    have other : owner ≠ i := by
      rintro rfl
      exact initialising.not_waits before
    refine .inProgress state started returned ((Config.move_other other _ next).symm ▸ initialising)
      fun j different => ?_
    by_cases here : j = i
    · rw [here, Config.move_self]
      exact after
    · rw [Config.move_other here]
      exact wait j different
  | completed state started result stored same wait =>
    refine .completed state started result stored same ?_
    exact Config.forall_move Place.Settled (fun j _ => wait j) (.inl after)

/-- A context goes on to read a complete cell. -/
theorem read (consistent : Consistent yields config) (complete : config.shared.state = .completed)
    (i : ι) : Consistent yields (config.move i config.shared .reading) := by
  -- Before the cell is complete, its state has another value.
  cases consistent with
  | incomplete state =>
    rw [state] at complete
    exact absurd complete nofun
  | inProgress state =>
    rw [state] at complete
    exact absurd complete nofun
  | completed state started result stored same wait =>
    refine .completed state started result stored same ?_
    exact Config.forall_move Place.Settled (fun j _ => wait j) (.inr rfl)

/-- A context wins the right to initialise, and starts its closure. -/
theorem win (consistent : Consistent yields config) (free : config.shared.state = .incomplete)
    (i : ι) (f : F) :
    Consistent yields (config.move i
      { config.shared with state := .inProgress, started := config.shared.started ++ [f] }
      (.running f)) := by
  -- Nothing has been started as long as the cell is incomplete.
  cases consistent with
  | incomplete state value started returned wait =>
    refine .inProgress (i := i) (f := f) rfl ?_ returned ?_ fun j different => ?_
    · rw [Config.move_shared, started, List.nil_append]
    · rw [Config.move_self, Config.move_shared, value]
      exact .running
    · rw [Config.move_other different]
      exact wait j
  | inProgress state =>
    rw [state] at free
    exact absurd free nofun
  | completed state =>
    rw [state] at free
    exact absurd free nofun

/-- A context that neither waits nor reads is the one that initialises. -/
theorem owner (consistent : Consistent yields config) {i : ι}
    (busy : ¬ (config.place i).Waits) (active : config.place i ≠ .reading) :
    ∃ f, config.shared.state = .inProgress ∧ config.shared.started = [f] ∧
      config.shared.returned = [] ∧ Initialising yields f config.shared.value (config.place i) ∧
      ∀ j, j ≠ i → (config.place j).Waits := by
  -- In a new cell all wait, and in a complete one all wait or read.
  cases consistent with
  | incomplete _ _ _ _ wait => exact absurd (wait i) busy
  | @inProgress owner f state started returned initialising wait =>
    have same : owner = i := by
      by_contra other
      exact busy (wait i (Ne.symm other))
    subst same
    exact ⟨f, state, started, returned, initialising, wait⟩
  | completed _ _ _ _ _ wait => exact ((wait i).elim busy active).elim

/-- The context that initialises takes a step of its own. -/
theorem initialise {i : ι} {f : F} {value : Option T} {next : Place F T}
    (state : config.shared.state = .inProgress) (started : config.shared.started = [f])
    (returned : config.shared.returned = []) (wait : ∀ j, j ≠ i → (config.place j).Waits)
    (initialising : Initialising yields f value next) :
    Consistent yields (config.move i { config.shared with value } next) := by
  -- The other contexts still wait, so the one that moved is the only one to look at.
  refine .inProgress (i := i) (f := f) state started returned ?_ fun j different => ?_
  · rw [Config.move_self]
    exact initialising
  · rw [Config.move_other different]
    exact wait j different

/-- A context that reads finds the value of the one closure. -/
theorem stored (consistent : Consistent yields config) {i : ι} (reads : config.place i = .reading) :
    ∃ f value, config.shared.state = .completed ∧ config.shared.started = [f] ∧ yields f value ∧
      config.shared.value = some value ∧ (∀ other ∈ config.shared.returned, other = value) ∧
      ∀ j, (config.place j).Settled := by
  cases consistent with
  | incomplete _ _ _ _ wait =>
    have none := wait i
    rw [reads] at none
    exact none.elim
  | @inProgress owner f state started returned initialising wait =>
    -- Nobody reads while the cell is being initialised.
    by_cases here : i = owner
    · subst here
      exact absurd reads initialising.not_reading
    · have none := wait i here
      rw [reads] at none
      exact none.elim
  | completed state started result stored same wait =>
    exact ⟨_, _, state, started, result, stored, same, wait⟩

/-- Every atomic step of every context keeps the links. -/
theorem step (consistent : Consistent yields config) {i : ι} {cell : OnceCell F T}
    {next : Place F T} (taken : OnceStep yields i config.shared (config.place i) cell next) :
    Consistent yields (config.move i cell next) := by
  -- Most steps leave the cell alone; the rest are those of the one context that initialises.
  generalize there : config.place i = place at taken
  cases taken with
  | call f => exact consistent.wait (there ▸ trivial) trivial
  | fast complete => exact consistent.read complete i
  | slow pending => exact consistent.wait (there ▸ trivial) trivial
  | win free => exact consistent.win free i _
  | lose _ => exact consistent.wait (there ▸ trivial) trivial
  | spin pending => exact consistent.wait (there ▸ trivial) trivial
  | done complete => exact consistent.read complete i
  -- The initialising context goes on: it has the value, stores it, and completes.
  | finish result =>
    obtain ⟨f, state, started, returned, initialising, wait⟩ :=
      consistent.owner (i := i) (by rw [there]; exact id) (by rw [there]; exact nofun)
    rw [there] at initialising
    obtain ⟨rfl, empty⟩ := initialising.of_running
    refine initialise state started returned wait ?_
    rw [empty]
    exact .storing result
  | store =>
    obtain ⟨f, state, started, returned, initialising, wait⟩ :=
      consistent.owner (i := i) (by rw [there]; exact id) (by rw [there]; exact nofun)
    rw [there] at initialising
    exact initialise state started returned wait (.completing initialising.of_storing)
  | complete =>
    obtain ⟨f, state, started, returned, initialising, wait⟩ :=
      consistent.owner (i := i) (by rw [there]; exact id) (by rw [there]; exact nofun)
    rw [there] at initialising
    obtain ⟨value, result, stored⟩ := initialising.of_completing
    refine .completed rfl started result stored (fun other member => ?_) ?_
    · rw [Config.move_shared, returned] at member
      exact absurd member List.not_mem_nil
    · exact Config.forall_move Place.Settled (fun j different => .inl (wait j different)) (.inr rfl)
  -- What is returned is the value in the cell, the same for everyone.
  | unwrap found =>
    obtain ⟨f, value, state, started, result, stored, same, wait⟩ := consistent.stored there
    rw [stored, Option.some.injEq] at found
    subst found
    refine .completed state started result stored (fun other member => ?_) ?_
    · rcases List.mem_append.mp member with old | new
      · exact same other old
      · exact List.mem_singleton.mp new
    · exact Config.forall_move Place.Settled (fun j _ => wait j) (.inl trivial)
  | panic empty =>
    obtain ⟨_, _, _, _, _, stored, _⟩ := consistent.stored there
    rw [stored] at empty
    exact absurd empty nofun

end Consistent

/-- All contexts are outside, and the cell is new. -/
def onceStart : Config ι (OnceCell F T) (Place F T) := ⟨.new, fun _ => .outside⟩

variable {yields : F → T → Prop} {config later : Config ι (OnceCell F T) (Place F T)}

/-- The links hold in every run. -/
theorem consistent_of_run (run : Config.Run (OnceStep yields) onceStart config) :
    Consistent yields config :=
  run.keeps (Consistent yields) (fun _ _ _ _ kept taken => kept.step taken)
    (.incomplete rfl rfl rfl rfl fun _ => trivial)

namespace Consistent

omit [DecidableEq ι] in
/-- At most one closure was started. -/
theorem started_le (consistent : Consistent yields config) : config.shared.started.length ≤ 1 := by
  -- The closures that were started are none, or the one of the context that won.
  cases consistent with
  | incomplete _ _ started => simp [started]
  | inProgress _ started => simp [started]
  | completed _ started => simp [started]

/-- No context finds the cell empty once it reads. -/
theorem not_panicked (consistent : Consistent yields config) (i : ι) :
    config.place i ≠ .panicked := by
  -- A context that found nothing to unwrap would neither wait nor read.
  intro failed
  by_cases busy : (config.place i).Waits
  · rw [failed] at busy
    exact busy
  · -- A context that does not wait and does not read is still initialising.
    obtain ⟨f, _, _, _, initialising, _⟩ := consistent.owner busy (by rw [failed]; exact nofun)
    exact initialising.not_failed failed

omit [DecidableEq ι] in
/-- What is stored is what the one closure has yielded. -/
theorem yielded (consistent : Consistent yields config) {value : T}
    (stored : config.shared.value = some value) :
    ∃ f, config.shared.started = [f] ∧ yields f value := by
  cases consistent with
  | incomplete _ empty =>
    rw [empty] at stored
    exact absurd stored nofun
  | inProgress _ started _ owner _ =>
    -- The context that initialises has stored its value, and has not marked the cell yet.
    rw [stored] at owner
    generalize config.place _ = place at owner
    cases owner with
    | completing result => exact ⟨_, started, result⟩
  | completed _ started result found =>
    rw [stored, Option.some.injEq] at found
    subst found
    exact ⟨_, started, result⟩

omit [DecidableEq ι] in
/-- Once a call has returned, the value of the one closure is stored and is what was returned. -/
theorem answered (consistent : Consistent yields config) (some : config.shared.returned ≠ []) :
    config.shared.state = .completed ∧ ∃ f value, config.shared.started = [f] ∧ yields f value ∧
      config.shared.value = Option.some value ∧
      ∀ other ∈ config.shared.returned, other = value := by
  -- A call returns only after it has read a complete cell.
  cases consistent with
  | incomplete _ _ _ returned => exact absurd returned some
  | inProgress _ _ returned => exact absurd returned some
  | completed state started result stored same =>
    exact ⟨state, _, _, started, result, stored, same⟩

/-- A step leaves what a complete cell stores, and it stays complete. -/
theorem step_stored (consistent : Consistent yields config) {i : ι} {cell : OnceCell F T}
    {next : Place F T} (complete : config.shared.state = .completed)
    (taken : OnceStep yields i config.shared (config.place i) cell next) :
    cell.state = .completed ∧ cell.value = config.shared.value := by
  -- Only the context that initialises stores, and no context initialises a complete cell.
  have nobody : ∀ place : Place F T, config.place i = place → ¬ place.Waits → place = .reading := by
    rintro place rfl busy
    by_contra active
    obtain ⟨_, state, _⟩ := consistent.owner busy active
    rw [complete] at state
    exact absurd state nofun
  generalize there : config.place i = place at taken
  have only := nobody place there
  cases taken with
  | call f => exact ⟨complete, rfl⟩
  | fast _ => exact ⟨complete, rfl⟩
  | slow _ => exact ⟨complete, rfl⟩
  | lose _ => exact ⟨complete, rfl⟩
  | spin _ => exact ⟨complete, rfl⟩
  | done _ => exact ⟨complete, rfl⟩
  | finish _ => exact ⟨complete, rfl⟩
  | unwrap _ => exact ⟨complete, rfl⟩
  | panic _ => exact ⟨complete, rfl⟩
  | complete => exact ⟨rfl, rfl⟩
  | win free =>
    rw [complete] at free
    exact absurd free nofun
  | store => exact absurd (only id) nofun

/-- What a complete cell stores, it stores for good. -/
theorem run_stored (consistent : Consistent yields config)
    (complete : config.shared.state = .completed)
    (run : Config.Run (OnceStep yields) config later) :
    later.shared.value = config.shared.value := by
  -- Besides the value, the invariant and the state are kept, so that the next step keeps it too.
  have kept := run.keeps (fun now => Consistent yields now ∧ now.shared.state = .completed ∧
    now.shared.value = config.shared.value) (fun _ _ _ _ holds taken => ?_)
    ⟨consistent, complete, rfl⟩
  · exact kept.2.2
  · obtain ⟨links, done, same⟩ := holds
    obtain ⟨still, unchanged⟩ := links.step_stored done taken
    exact ⟨links.step taken, still, unchanged.trans same⟩

end Consistent

/--
A cell is initialised at most once, whatever the order of the contexts' steps.

No call returns before the value of the one closure is stored, all calls return that value, nothing
is ever unwrapped in vain, and after the first return the stored value stays.
-/
theorem getOrInit_once (run : Config.Run (OnceStep yields) onceStart config) :
    config.shared.started.length ≤ 1 ∧
    (∀ i, config.place i ≠ .panicked) ∧
    (config.shared.returned ≠ [] → ∃ f value, config.shared.started = [f] ∧ yields f value ∧
      config.shared.value = some value ∧ (∀ other ∈ config.shared.returned, other = value) ∧
      ∀ later, Config.Run (OnceStep yields) config later → later.shared.value = some value ∧
        ∀ other ∈ later.shared.returned, other = value) := by
  -- A run that goes on from here is a run from the start, so the invariant holds there too.
  have consistent := consistent_of_run run
  refine ⟨consistent.started_le, consistent.not_panicked, fun answered => ?_⟩
  obtain ⟨complete, f, value, started, result, stored, same⟩ := consistent.answered answered
  refine ⟨f, value, started, result, stored, same, fun later continues => ?_⟩
  have unchanged := (consistent.run_stored complete continues).trans stored
  refine ⟨unchanged, fun other member => ?_⟩
  have after := consistent_of_run (run.trans continues)
  obtain ⟨_, _, _, _, _, found, all⟩ := after.answered (List.ne_nil_of_mem member)
  rw [unchanged, Option.some.injEq] at found
  rw [all other member, found]

/-- Two contexts call with the numbers three and four, and both get three. -/
theorem exists_run_three :
    ∃ config : Config Bool (OnceCell Nat Nat) (Place Nat Nat),
      Config.Run (OnceStep (· = ·)) onceStart config ∧ config.shared.returned = [3, 3] := by
  let yields : Nat → Nat → Prop := (· = ·)
  have none : Config.Run (OnceStep (ι := Bool) yields) onceStart onceStart := .here
  -- The first context goes all the way through while the second one is about to exchange.
  have late := none.step (i := false) (.call 4)
  have late := late.step (i := false) (.slow nofun)
  have run := late.step (i := true) (.call 3)
  have run := run.step (i := true) (.slow nofun)
  have run := run.step (i := true) (.win rfl)
  have run := run.step (i := true) (.finish rfl)
  have run := run.step (i := true) .store
  have run := run.step (i := true) .complete
  have run := run.step (i := true) (.unwrap rfl)
  have run := run.step (i := false) (.lose nofun)
  have run := run.step (i := false) (.done rfl)
  have run := run.step (i := false) (.unwrap rfl)
  exact ⟨_, run, rfl⟩

/-- Two contexts that race for a cell get the same number. -/
theorem getOrInit_once_three :
    ∃ config : Config Bool (OnceCell Nat Nat) (Place Nat Nat),
      Config.Run (OnceStep (· = ·)) onceStart config ∧ config.shared.returned = [3, 3] ∧
      config.shared.started.length ≤ 1 ∧ (∀ i, config.place i ≠ .panicked) ∧
      config.shared.value = some 3 := by
  -- Both calls have returned, so the stored value is what they returned.
  obtain ⟨config, run, returned⟩ := exists_run_three
  obtain ⟨once, sound, answered⟩ := getOrInit_once run
  obtain ⟨_, value, _, _, stored, same, _⟩ := answered (by rw [returned]; exact nofun)
  have three : 3 = value := same 3 (by rw [returned]; exact List.mem_cons_self)
  exact ⟨config, run, returned, once, sound, by rw [stored, three]⟩

omit [DecidableEq ι] in
/-- A closure that was started stays recorded. -/
theorem OnceStep.started {i : ι} {cell next : OnceCell F T} {place after : Place F T} {f : F}
    (taken : OnceStep yields i cell place next after) (member : f ∈ cell.started) :
    f ∈ next.started := by
  -- Only a win changes the record, and adds to it.
  cases taken with
  | win _ => exact List.mem_append_left _ member
  | call _ => exact member
  | fast _ => exact member
  | slow _ => exact member
  | lose _ => exact member
  | finish _ => exact member
  | store => exact member
  | complete => exact member
  | spin _ => exact member
  | done _ => exact member
  | unwrap _ => exact member
  | panic _ => exact member

omit [DecidableEq ι] in
/-- While the closure that was started yields nothing, everybody else waits. -/
theorem Consistent.hung (consistent : Consistent yields config) {f : F}
    (started : f ∈ config.shared.started) (panics : ∀ value, ¬ yields f value) :
    config.shared.state = .inProgress ∧ config.shared.value = none ∧
      config.shared.returned = [] ∧
      ∃ i, config.place i = .running f ∧ ∀ j, j ≠ i → (config.place j).Waits := by
  cases consistent with
  | incomplete _ _ none =>
    rw [none] at started
    exact absurd started List.not_mem_nil
  | @inProgress i g state only returned owner wait =>
    rw [only, List.mem_singleton] at started
    subst started
    -- Of what the one context can be doing, only its closure needs no value.
    generalize there : config.place i = place at owner
    generalize held : config.shared.value = value at owner
    cases owner with
    | running => exact ⟨state, rfl, returned, i, there, wait⟩
    | storing result => exact absurd result (panics _)
    | completing result => exact absurd result (panics _)
  | completed _ only result =>
    rw [only, List.mem_singleton] at started
    subst started
    exact absurd result (panics _)

omit [DecidableEq ι] in
/-- A context whose closure yields nothing takes no further step. -/
theorem OnceStep.not_running {i : ι} {cell next : OnceCell F T} {after : Place F T} {f : F}
    (panics : ∀ value, ¬ yields f value) : ¬ OnceStep yields i cell (.running f) next after := by
  intro taken
  cases taken with
  | finish result => exact panics _ result

/--
After a closure has panicked, no call of `get_or_init` ever returns.

The state stays in progress for good, the context with the closure stays where it is, and all others
that have called spin.
-/
theorem hung_forever (run : Config.Run (OnceStep yields) onceStart config) {f : F}
    (started : f ∈ config.shared.started) (panics : ∀ value, ¬ yields f value) :
    ∃ i, ∀ later, Config.Run (OnceStep yields) config later →
      later.shared.state = .inProgress ∧ later.shared.value = none ∧ later.shared.returned = [] ∧
      later.place i = .running f ∧ ∀ j, j ≠ i → (later.place j).Waits := by
  obtain ⟨_, _, _, i, here, _⟩ := (consistent_of_run run).hung started panics
  refine ⟨i, fun later continues => ?_⟩
  -- The closure stays recorded, and the context that runs it stays where it is.
  have kept := continues.keeps (fun now => f ∈ now.shared.started ∧ now.place i = .running f)
    (fun now j cell next holds taken => ?_) ⟨started, here⟩
  · obtain ⟨state, empty, returned, owner, runs, wait⟩ :=
      (consistent_of_run (run.trans continues)).hung kept.1 panics
    -- The context that does not wait is the one that runs the closure.
    have same : i = owner := by
      by_contra other
      have waits := wait i other
      rw [kept.2] at waits
      exact waits
    subst same
    exact ⟨state, empty, returned, runs, wait⟩
  · refine ⟨taken.started holds.1, ?_⟩
    by_cases acts : i = j
    · rw [← acts, holds.2] at taken
      exact absurd taken (OnceStep.not_running panics)
    · rw [Config.move_other acts]
      exact holds.2

/-- The closure of one context panics, and the other context spins. -/
theorem hung_forever_zero :
    ∃ config : Config Bool (OnceCell Nat Nat) (Place Nat Nat),
      Config.Run (OnceStep fun f value => f ≠ 0 ∧ value = f) onceStart config ∧
      ∃ i, config.place i = .running 0 ∧ config.place false = .spinning ∧
        config.shared.state = .inProgress ∧ config.shared.returned = [] := by
  let yields : Nat → Nat → Prop := fun f value => f ≠ 0 ∧ value = f
  have none : Config.Run (OnceStep (ι := Bool) yields) onceStart onceStart := .here
  have run := none.step (i := true) (.call 0)
  have run := run.step (i := true) (.slow nofun)
  have run := run.step (i := true) (.win rfl)
  have late := run.step (i := false) (.call 3)
  have late := late.step (i := false) (.slow nofun)
  have late := late.step (i := false) (.lose nofun)
  have spins := late.step (i := false) (.spin nofun)
  -- The context that spins goes on to do so, and the other one stays with its closure.
  obtain ⟨i, forever⟩ := hung_forever late List.mem_cons_self (fun _ both => both.1 rfl)
  obtain ⟨state, _, returned, runs, _⟩ := forever _ (.step .here (i := false) (.spin nofun))
  exact ⟨_, spins, i, runs, rfl, state, returned⟩

end Os1k.Sync
