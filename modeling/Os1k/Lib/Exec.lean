import Mathlib.Tactic

/-! Computations that change a state and may stop for good, keeping the state they stopped in. -/

namespace Os1k

/--
A computation over a state `σ` that either returns or halts with a fault.

The state reached so far is kept in both cases, as memory is when a machine stops.
-/
abbrev Exec (ε σ α : Type) := EStateM ε σ α

namespace Exec

variable {ε σ τ α β : Type}

/-- Run a computation on one component of a larger state. -/
def zoom (read : τ → σ) (write : τ → σ → τ) (part : Exec ε σ α) : Exec ε τ α := fun whole =>
  -- The fault of the part is the fault of the whole, in the state the part had reached.
  match part.run (read whole) with
  | .ok value state => .ok value (write whole state)
  | .error fault state => .error fault (write whole state)

/-- A halted computation stays in the state it halted in. -/
@[simp] theorem run_throw (fault : ε) (state : σ) :
    EStateM.run (throw fault : Exec ε σ α) state = .error fault state := rfl

/-- A sequence returns exactly when both of its halves do. -/
theorem run_bind_ok {first : Exec ε σ α} {next : α → Exec ε σ β} {state after : σ} {result : β} :
    EStateM.run (first >>= next) state = .ok result after ↔
      ∃ value middle, first.run state = .ok value middle ∧
        (next value).run middle = .ok result after := by
  rw [EStateM.run_bind]
  cases ran : first.run state with
  | ok value middle => simp
  | error fault middle => simp

/-- A sequence goes on with its second half once the first has returned. -/
theorem run_bind_of_ok {first : Exec ε σ α} {next : α → Exec ε σ β} {state middle : σ} {value : α}
    (ran : first.run state = .ok value middle) :
    EStateM.run (first >>= next) state = (next value).run middle := by
  rw [EStateM.run_bind, ran]

/-- A sequence fails with its first half. -/
theorem run_bind_error {first : Exec ε σ α} {next : α → Exec ε σ β} {fault : ε} {state stopped : σ}
    (failed : first.run state = .error fault stopped) :
    EStateM.run (first >>= next) state = .error fault stopped := by
  rw [EStateM.run_bind, failed]

/-- A part returns inside the whole exactly when it returns on its own component. -/
theorem run_zoom_ok {read : τ → σ} {write : τ → σ → τ} {part : Exec ε σ α} {whole after : τ}
    {value : α} :
    EStateM.run (zoom read write part) whole = .ok value after ↔
      ∃ state, part.run (read whole) = .ok value state ∧ after = write whole state := by
  -- The part decides whether the whole returns.
  unfold zoom EStateM.run
  cases ran : part (read whole) with
  | ok result state =>
    simp only [ran, EStateM.Result.ok.injEq]
    constructor
    · rintro ⟨rfl, rfl⟩
      exact ⟨state, ⟨rfl, rfl⟩, rfl⟩
    · rintro ⟨_, ⟨rfl, rfl⟩, rfl⟩
      exact ⟨rfl, rfl⟩
  | error fault state => simp [ran]

/-- What can be seen of a computation that returns. -/
def observe (program : Exec ε σ α) (state : σ) (view : α → σ → β) : Option β :=
  match program.run state with
  | .ok value after => some (view value after)
  | .error _ _ => none

/-- Something is seen exactly when the computation returns. -/
theorem observe_eq_some {program : Exec ε σ α} {state : σ} {view : α → σ → β} {seen : β} :
    observe program state view = some seen ↔
      ∃ value after, program.run state = .ok value after ∧ view value after = seen := by
  unfold observe
  cases ran : program.run state with
  | ok value after => simp
  | error fault after => simp

/--
What the first program returns on a state, the second returns on the image of that state.

The second may be more generous: it is not asked to fail where the first one does.
-/
def Carries (image : σ → τ) (first : Exec ε σ α) (second : Exec ε τ α) : Prop :=
  ∀ state value after, first.run state = .ok value after →
    second.run (image state) = .ok value (image after)

namespace Carries

variable {image : σ → τ}

/-- Returning a value does not depend on the state. -/
theorem pure (value : α) :
    Carries image (Pure.pure value : Exec ε σ α) (Pure.pure value : Exec ε τ α) := by
  intro state result after ran
  rw [EStateM.run_pure, EStateM.Result.ok.injEq] at ran
  rw [EStateM.run_pure, ran.1, ran.2]

/-- Every program does what it does. -/
theorem refl (program : Exec ε σ α) : Carries id program program := fun _ _ _ ran => ran

/-- Nothing is asked where the first program halts. -/
theorem throw (fault : ε) (second : Exec ε τ α) :
    Carries image (MonadExcept.throw fault : Exec ε σ α) second :=
  fun _ _ _ ran => absurd ran nofun

/-- Sequences are carried over step by step. -/
theorem bind {first : Exec ε σ α} {second : Exec ε τ α} {next : α → Exec ε σ β}
    {other : α → Exec ε τ β} (head : Carries image first second)
    (rest : ∀ value, Carries image (next value) (other value)) :
    Carries image (first >>= next) (second >>= other) := by
  intro state value after ran
  obtain ⟨middle, between, headRan, restRan⟩ := run_bind_ok.mp ran
  exact run_bind_ok.mpr ⟨middle, image between, head _ _ _ headRan, rest middle _ _ _ restRan⟩

/-- A case distinction is carried over in each case. -/
theorem ite {condition : Prop} [Decidable condition] {first otherwise : Exec ε σ α}
    {second instead : Exec ε τ α} (yes : Carries image first second)
    (no : Carries image otherwise instead) :
    Carries image (if condition then first else otherwise)
      (if condition then second else instead) := by
  by_cases holds : condition
  · rw [if_pos holds, if_pos holds]
    exact yes
  · rw [if_neg holds, if_neg holds]
    exact no

/-- A program that looks at the state is carried over if it does the same with the image. -/
theorem get {next : σ → Exec ε σ α} {other : τ → Exec ε τ α}
    (rest : ∀ state, Carries image (next state) (other (image state))) :
    Carries image (MonadState.get >>= next) (MonadState.get >>= other) := by
  intro state value after ran
  exact rest state state value after ran

end Carries

end Exec

end Os1k
