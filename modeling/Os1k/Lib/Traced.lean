import Os1k.Lib.Oblivious

/-! Computations that also keep a log of what they do, and forgetting the log again. -/

namespace Os1k

/-- A state together with the events logged so far, the latest last. -/
structure Traced (σ event : Type) where
  state : σ
  log : List event

namespace Traced

variable {ε σ event α β : Type}

/-- Log one event. -/
def note (happened : event) : Exec ε (Traced σ event) Unit :=
  modify fun traced => { traced with log := traced.log ++ [happened] }

/-- Run a computation that logs nothing. -/
def lift (part : Exec ε σ α) : Exec ε (Traced σ event) α :=
  Exec.zoom Traced.state (fun traced state => { traced with state }) part

/-- The state that a computation ends in, whether it returns or not. -/
def final : EStateM.Result ε σ α → σ
  | .ok _ state => state
  | .error _ state => state

/-- The outcome of a computation without its log. -/
def forget : EStateM.Result ε (Traced σ event) α → EStateM.Result ε σ α
  | .ok value traced => .ok value traced.state
  | .error fault traced => .error fault traced.state

/-- Without the log, the first computation does what the second one does. -/
def Erases (traced : Exec ε (Traced σ event) α) (plain : Exec ε σ α) : Prop :=
  ∀ start, forget (traced.run start) = plain.run start.state

@[simp] theorem run_note (happened : event) (traced : Traced σ event) :
    (note happened : Exec ε (Traced σ event) Unit).run traced =
      .ok () { traced with log := traced.log ++ [happened] } := rfl

/-- A computation that returns does so without touching the log. -/
theorem run_lift_ok (traced : Traced σ event) {part : Exec ε σ α} {value : α} {after : σ}
    (ran : part.run traced.state = .ok value after) :
    (lift part).run traced = .ok value { traced with state := after } :=
  Exec.run_zoom_ok.mpr ⟨after, ran, rfl⟩

/-- What logs nothing leaves the log as it is, whether it returns or not. -/
theorem log_lift (traced : Traced σ event) (part : Exec ε σ α) :
    (final ((lift part).run traced)).log = traced.log := by
  -- Lifted, the part sees the state without the log.
  unfold lift Exec.zoom EStateM.run
  cases ran : part traced.state with
  | ok value after => simp only [ran, final]
  | error fault after => simp only [ran, final]

/-- Returning a value is the same with a log. -/
@[simp] theorem lift_pure (value : α) :
    lift (pure value : Exec ε σ α) = (pure value : Exec ε (Traced σ event) α) := rfl

namespace Erases

/-- Returning a value logs nothing. -/
theorem pure (value : α) :
    Erases (Pure.pure value : Exec ε (Traced σ event) α) (Pure.pure value) := fun _ => rfl

/-- Halting logs nothing. -/
theorem throw (fault : ε) :
    Erases (MonadExcept.throw fault : Exec ε (Traced σ event) α) (MonadExcept.throw fault) :=
  fun _ => rfl

/-- What logs nothing is its own erasure. -/
theorem lift (part : Exec ε σ α) : Erases (Traced.lift part : Exec ε (Traced σ event) α) part := by
  intro start
  unfold Traced.lift Exec.zoom EStateM.run
  -- Both outcomes carry the state that the part left, with the log as it was.
  cases ran : part start.state with
  | ok value after => simp only [ran, forget]
  | error fault after => simp only [ran, forget]

/-- A sequence is erased step by step. -/
theorem bind {first : Exec ε (Traced σ event) α} {plain : Exec ε σ α}
    {next : α → Exec ε (Traced σ event) β} {plainNext : α → Exec ε σ β} (head : Erases first plain)
    (rest : ∀ value, Erases (next value) (plainNext value)) :
    Erases (first >>= next) (plain >>= plainNext) := by
  intro start
  have ran := head start
  -- The first part ends alike on both sides, so the second starts in the same state.
  rw [EStateM.run_bind, EStateM.run_bind, ← ran]
  cases first.run start with
  | ok value traced => exact rest value traced
  | error fault traced => rfl

/-- Logging an event first is no matter once the log is forgotten. -/
theorem note {next : Exec ε (Traced σ event) α} {plain : Exec ε σ α} (happened : event)
    (rest : Erases next plain) : Erases (do Traced.note happened; next) plain := by
  intro start
  rw [EStateM.run_bind, run_note]
  exact rest { start with log := start.log ++ [happened] }

/-- A case distinction is erased in each case. -/
theorem ite {condition : Prop} [Decidable condition] {first second : Exec ε (Traced σ event) α}
    {plainFirst plainSecond : Exec ε σ α} (yes : Erases first plainFirst)
    (no : Erases second plainSecond) :
    Erases (if condition then first else second) (if condition then plainFirst else plainSecond) := by
  -- The condition is not about the log, so both sides take the same case.
  by_cases holds : condition
  · rw [if_pos holds, if_pos holds]
    exact yes
  · rw [if_neg holds, if_neg holds]
    exact no

end Erases

/-- A computation that, whenever it returns, has appended the same events to the log. -/
def Appends (events : List event) (part : Exec ε (Traced σ event) α) : Prop :=
  ∀ start value after, part.run start = .ok value after → after.log = start.log ++ events

namespace Appends

/-- Returning a value appends nothing. -/
theorem pure (value : α) :
    Appends [] (Pure.pure value : Exec ε (Traced σ event) α) := by
  intro start result after ran
  rw [EStateM.run_pure, EStateM.Result.ok.injEq] at ran
  rw [← ran.2, List.append_nil]

/-- What logs nothing appends nothing. -/
theorem lift (part : Exec ε σ α) :
    Appends [] (Traced.lift part : Exec ε (Traced σ event) α) := by
  intro start value after ran
  obtain ⟨state, _, rfl⟩ := Exec.run_zoom_ok.mp ran
  rw [List.append_nil]

/-- A note appends itself. -/
theorem note (happened : event) :
    Appends [happened] (Traced.note happened : Exec ε (Traced σ event) Unit) := by
  intro start value after ran
  rw [run_note, EStateM.Result.ok.injEq] at ran
  rw [← ran.2]

/-- A sequence appends what its first half does, and then what its second half does. -/
theorem bind {first : Exec ε (Traced σ event) α} {next : α → Exec ε (Traced σ event) β}
    {early late : List event} (head : Appends early first)
    (rest : ∀ value, Appends late (next value)) : Appends (early ++ late) (first >>= next) := by
  intro start value after ran
  obtain ⟨between, middle, headRan, restRan⟩ := Exec.run_bind_ok.mp ran
  rw [rest between _ _ _ restRan, head _ _ _ headRan, List.append_assoc]

/-- What logs nothing may come first. -/
theorem plain (part : Exec ε σ α) {next : α → Exec ε (Traced σ event) β} {events : List event}
    (rest : ∀ value, Appends events (next value)) :
    Appends events (Traced.lift part >>= next) := by
  have both := (lift part).bind rest
  rwa [List.nil_append] at both

end Appends

/-- A computation returns with its log what it returns without it. -/
theorem Erases.run_ok {part : Exec ε (Traced σ event) α} {plain : Exec ε σ α}
    (erases : Erases part plain) {events : List event} (appends : Appends events part)
    {start : Traced σ event} {value : α} {after : σ} (ran : plain.run start.state = .ok value after) :
    part.run start = .ok value ⟨after, start.log ++ events⟩ := by
  have same := erases start
  rw [ran] at same
  cases logged : part.run start with
  | ok result traced =>
    rw [logged, forget, EStateM.Result.ok.injEq] at same
    have log := appends _ _ _ logged
    rw [same.1, ← same.2, ← log]
  | error fault traced =>
    -- What halts does so without its log as well.
    rw [logged, forget] at same
    exact absurd same nofun

/-- The same log beside another state. -/
def map (change : σ → σ) (traced : Traced σ event) : Traced σ event :=
  { traced with state := change traced.state }

/--
A computation that does not log an event does not notice a change of what the event is about.

It does the same with the change as without it, and leaves the change as it is. So it logs the event
whenever it looks at what the event is about, or writes it.
-/
structure Confined (change : σ → σ) (happened : event) (part : Exec ε (Traced σ event) α) :
    Prop where
  grows : ∀ start, ∀ earlier ∈ start.log, earlier ∈ (final (part.run start)).log
  unnoticed : ∀ start, happened ∉ (final (part.run start)).log →
    part.run (start.map change) = Exec.mapState (map change) (part.run start)

namespace Confined

variable {change : σ → σ} {happened : event}

/-- Returning a value touches nothing. -/
theorem pure (value : α) :
    Confined change happened (Pure.pure value : Exec ε (Traced σ event) α) :=
  ⟨fun _ _ member => member, fun _ _ => rfl⟩

/-- Halting touches nothing. -/
theorem throw (fault : ε) :
    Confined change happened (MonadExcept.throw fault : Exec ε (Traced σ event) α) :=
  ⟨fun _ _ member => member, fun _ _ => rfl⟩

/-- What does not notice the change need not log anything. -/
theorem lift {part : Exec ε σ α} (oblivious : Exec.Oblivious change part) :
    Confined change happened (Traced.lift part : Exec ε (Traced σ event) α) := by
  refine ⟨fun start earlier member => ?_, fun start _ => ?_⟩
  · rw [log_lift]
    exact member
  · have same : part (change start.state) = Exec.mapState change (part start.state) :=
      oblivious start.state
    unfold Traced.lift Exec.zoom EStateM.run
    simp only [map, same]
    -- Both outcomes carry the changed state, with the log as it was.
    cases part start.state with
    | ok value after => rfl
    | error fault after => rfl

/-- A sequence is confined if both of its halves are. -/
theorem bind {first : Exec ε (Traced σ event) α} {next : α → Exec ε (Traced σ event) β}
    (head : Confined change happened first)
    (rest : ∀ value, Confined change happened (next value)) :
    Confined change happened (first >>= next) := by
  constructor
  · intro start earlier member
    have before := head.grows start earlier member
    rw [EStateM.run_bind]
    cases ran : first.run start with
    | ok value middle =>
      rw [ran] at before
      exact (rest value).grows middle earlier before
    | error fault middle =>
      rw [ran] at before
      exact before
  · intro start absent
    have unnoticed := head.unnoticed start
    rw [EStateM.run_bind] at absent
    rw [EStateM.run_bind, EStateM.run_bind]
    cases ran : first.run start with
    | ok value middle =>
      rw [ran] at absent unnoticed
      -- What the first half had logged would still be in the log at the end.
      have early : happened ∉ middle.log := fun member =>
        absent ((rest value).grows middle happened member)
      rw [unnoticed early]
      exact (rest value).unnoticed middle absent
    | error fault middle =>
      rw [ran] at absent unnoticed
      rw [unnoticed absent]
      rfl

/-- What is noted first may look at what the note is about, and write it. -/
theorem note {part : Exec ε σ α} (noted : event)
    (oblivious : noted ≠ happened → Exec.Oblivious change part) :
    Confined change happened (do Traced.note noted; Traced.lift part) := by
  have logged (start : Traced σ event) : (final ((do Traced.note noted; Traced.lift part :
      Exec ε (Traced σ event) α).run start)).log = start.log ++ [noted] := by
    rw [EStateM.run_bind, run_note]
    exact log_lift _ part
  refine ⟨fun start earlier member => ?_, fun start absent => ?_⟩
  · rw [logged]
    exact List.mem_append_left _ member
  · -- The note itself is in the log, so it is about something else.
    rw [logged] at absent
    have other : noted ≠ happened := fun same =>
      absent (List.mem_append_right _ (List.mem_singleton.mpr same.symm))
    rw [EStateM.run_bind, EStateM.run_bind, run_note, run_note]
    have rest : Confined change happened (Traced.lift part) := lift (oblivious other)
    refine rest.unnoticed { start with log := start.log ++ [noted] } ?_
    rw [log_lift]
    exact absent

/-- A note touches nothing. -/
theorem noted (noted : event) :
    Confined change happened (Traced.note noted : Exec ε (Traced σ event) Unit) :=
  ⟨fun _ _ member => List.mem_append_left _ member, fun _ _ => rfl⟩

/-- A case distinction is confined if both of its cases are. -/
theorem ite {condition : Prop} [Decidable condition] {first second : Exec ε (Traced σ event) α}
    (yes : Confined change happened first) (no : Confined change happened second) :
    Confined change happened (if condition then first else second) := by
  by_cases holds : condition
  · rw [if_pos holds]
    exact yes
  · rw [if_neg holds]
    exact no

/-- What is done with the state may depend on what does not change. -/
theorem get {next : σ → Exec ε (Traced σ event) α} (same : ∀ state, next (change state) = next state)
    (rest : ∀ state, Confined change happened (next state)) :
    Confined change happened (Traced.lift MonadState.get >>= next) := by
  -- What follows is the same whether the state is changed before or after it is read.
  constructor
  · exact fun start => (rest start.state).grows start
  · intro start absent
    have unnoticed := (rest start.state).unnoticed start absent
    rw [← same start.state] at unnoticed
    exact unnoticed.trans (by rw [same start.state]; rfl)

end Confined

end Traced

end Os1k
