import Os1k.Lib.Exec

/-! Computations that do not look at a part of their state, and do the same whatever it is. -/

namespace Os1k.Exec

variable {ε σ τ α β : Type}

/-- An outcome with its state changed. -/
def mapState (image : σ → τ) : EStateM.Result ε σ α → EStateM.Result ε τ α
  | .ok value state => .ok value (image state)
  | .error fault state => .error fault (image state)

/-- A program does not notice a change of the state: it does the same, and the change stays. -/
def Oblivious (image : σ → σ) (program : Exec ε σ α) : Prop :=
  ∀ state, program.run (image state) = mapState image (program.run state)

namespace Oblivious

variable {image : σ → σ}

/-- Returning a value looks at nothing. -/
theorem pure (value : α) : Oblivious image (Pure.pure value : Exec ε σ α) := fun _ => rfl

/-- Halting looks at nothing. -/
theorem throw (fault : ε) : Oblivious image (MonadExcept.throw fault : Exec ε σ α) := fun _ => rfl

/-- A sequence notices nothing if neither of its halves does. -/
theorem bind {first : Exec ε σ α} {next : α → Exec ε σ β} (head : Oblivious image first)
    (rest : ∀ value, Oblivious image (next value)) : Oblivious image (first >>= next) := by
  intro state
  -- The first half ends alike with the change and without it, and leaves it in place.
  rw [EStateM.run_bind, EStateM.run_bind, head state]
  cases first.run state with
  | ok value after => exact rest value after
  | error fault after => rfl

/-- A case distinction notices nothing if neither of its cases does. -/
theorem ite {condition : Prop} [Decidable condition] {yes no : Exec ε σ α}
    (first : Oblivious image yes) (second : Oblivious image no) :
    Oblivious image (if condition then yes else no) := by
  by_cases holds : condition
  · rw [if_pos holds]
    exact first
  · rw [if_neg holds]
    exact second

/-- A check that halts notices nothing if what follows it does not. -/
theorem check {condition : Prop} [Decidable condition] {fault : ε} {next : PUnit → Exec ε σ β}
    (rest : Oblivious image (next ())) :
    Oblivious image (if condition then MonadExcept.throw fault >>= next else next ()) :=
  ite (fun _ => rfl) rest

/-- What is done with the state may depend on what does not change. -/
theorem get {next : σ → Exec ε σ α} (same : ∀ state, next (image state) = next state)
    (rest : ∀ state, Oblivious image (next state)) : Oblivious image (MonadState.get >>= next) := by
  intro state
  rw [EStateM.run_bind, EStateM.run_bind, EStateM.run_get, EStateM.run_get]
  simp only
  rw [same state]
  exact rest state state

/-- A change of the state that goes along with the other. -/
theorem modify {change : σ → σ} (swap : ∀ state, change (image state) = image (change state)) :
    Oblivious image (modify change : Exec ε σ Unit) := by
  intro state
  rw [EStateM.run_modify, EStateM.run_modify, swap state]
  rfl

/-- A component that does not change is all that its programs look at. -/
theorem zoom {read : σ → τ} {write : σ → τ → σ} (same : ∀ state, read (image state) = read state)
    (swap : ∀ state part, write (image state) part = image (write state part))
    (part : Exec ε τ α) : Oblivious image (Exec.zoom read write part) := by
  intro state
  unfold Exec.zoom EStateM.run
  -- The part starts in the same state, and what it leaves is put back beside the change.
  cases ran : part (read state) with
  | ok value after => simp only [same, ran, mapState, swap]
  | error fault after => simp only [same, ran, mapState, swap]

/-- A loop notices nothing if none of its turns does. -/
theorem forM {body : α → Exec ε σ Unit} {list : List α}
    (turn : ∀ value ∈ list, Oblivious image (body value)) : Oblivious image (forM list body) := by
  -- The induction is on the list, one turn after another.
  induction list with
  | nil => exact pure ()
  | cons value rest ih =>
    rw [List.forM_cons]
    exact bind (turn value List.mem_cons_self) fun _ =>
      ih fun other member => turn other (List.mem_cons_of_mem _ member)

/-- A search notices nothing if none of its tests does. -/
theorem findM? {test : α → Exec ε σ Bool} {list : List α}
    (turn : ∀ value ∈ list, Oblivious image (test value)) : Oblivious image (list.findM? test) := by
  -- The induction is on the list: a turn decides whether the rest is looked at.
  induction list with
  | nil => exact pure none
  | cons value rest ih =>
    rw [List.findM?]
    refine bind (turn value List.mem_cons_self) fun found => ?_
    cases found with
    | true => exact pure (some value)
    | false => exact ih fun other member => turn other (List.mem_cons_of_mem _ member)

/-- What returns in a changed state returns without the change as well. -/
theorem run_ok {program : Exec ε σ α} (oblivious : Oblivious image program) {state after : σ}
    {value : α} (ran : program.run (image state) = .ok value after) :
    ∃ plain, program.run state = .ok value plain ∧ after = image plain := by
  rw [oblivious state] at ran
  -- An outcome keeps its kind and its value when its state is changed.
  cases outcome : program.run state with
  | ok result plain =>
    rw [outcome, mapState, EStateM.Result.ok.injEq] at ran
    obtain ⟨rfl, rfl⟩ := ran
    exact ⟨plain, rfl, rfl⟩
  | error fault plain =>
    rw [outcome] at ran
    simp [mapState] at ran

end Oblivious

end Os1k.Exec
