import Os1k.Lib.Exec

/-! Two programs that return the same, step by step, from states that are alike. -/

namespace Os1k.Exec

variable {ε σ τ α β : Type}

/--
Two outcomes are the same as far as one can tell.

Both are the same value, in states that are alike, or both the same fault, in any states.
-/
inductive SameOutcome (alike : α → σ → τ → Prop) :
    EStateM.Result ε σ α → EStateM.Result ε τ α → Prop where
  | ok {value : α} {state : σ} {other : τ} (holds : alike value state other) :
      SameOutcome alike (.ok value state) (.ok value other)
  | error {fault : ε} {state : σ} {other : τ} :
      SameOutcome alike (.error fault state) (.error fault other)

/-- From states that are alike, two programs have the same outcome, in states that are again. -/
def Lockstep (before : σ → τ → Prop) (first : Exec ε σ α) (second : Exec ε τ α)
    (after : α → σ → τ → Prop) : Prop :=
  ∀ state other, before state other → SameOutcome after (first.run state) (second.run other)

namespace Lockstep

variable {before : σ → τ → Prop} {after : α → σ → τ → Prop} {last : β → σ → τ → Prop}

/-- Returning a value changes no state. -/
theorem pure {value : α} (holds : ∀ state other, before state other → after value state other) :
    Lockstep before (Pure.pure value : Exec ε σ α) (Pure.pure value : Exec ε τ α) after :=
  fun state other alike => .ok (holds state other alike)

theorem throw (fault : ε) :
    Lockstep before (MonadExcept.throw fault : Exec ε σ α)
      (MonadExcept.throw fault : Exec ε τ α) after :=
  fun _ _ _ => .error

/-- Programs go on from the states that earlier ones leave. -/
theorem bind {first : Exec ε σ α} {second : Exec ε τ α} {next : α → Exec ε σ β}
    {other : α → Exec ε τ β} (head : Lockstep before first second after)
    (rest : ∀ value, Lockstep (after value) (next value) (other value) last) :
    Lockstep before (first >>= next) (second >>= other) last := by
  intro state twin alike
  have outcome := head state twin alike
  rw [EStateM.run_bind, EStateM.run_bind]
  generalize first.run state = left at outcome
  generalize second.run twin = right at outcome
  -- Both have returned the same value, or both have stopped.
  cases outcome with
  | ok holds => exact rest _ _ _ holds
  | error => exact .error

theorem ite {condition : Prop} [Decidable condition] {first otherwise : Exec ε σ α}
    {second instead : Exec ε τ α} (yes : condition → Lockstep before first second after)
    (no : ¬ condition → Lockstep before otherwise instead after) :
    Lockstep before (if condition then first else otherwise)
      (if condition then second else instead) after := by
  by_cases holds : condition
  · rw [if_pos holds, if_pos holds]
    exact yes holds
  · rw [if_neg holds, if_neg holds]
    exact no holds

/-- A program that looks at the state goes on with two states that are alike. -/
theorem get {next : σ → Exec ε σ α} {other : τ → Exec ε τ α}
    (rest : ∀ state twin, before state twin → Lockstep before (next state) (other twin) after) :
    Lockstep before (MonadState.get >>= next) (MonadState.get >>= other) after :=
  fun state twin alike => rest state twin alike state twin alike

/-- Less may be known before, and more after. -/
theorem mono {weaker : σ → τ → Prop} {stronger : α → σ → τ → Prop} {first : Exec ε σ α}
    {second : Exec ε τ α} (run : Lockstep weaker first second stronger)
    (less : ∀ state other, before state other → weaker state other)
    (more : ∀ value state other, stronger value state other → after value state other) :
    Lockstep before first second after := by
  intro state other alike
  -- The runs are the same; only what is said of their ends changes.
  have outcome := run state other (less state other alike)
  generalize first.run state = left at outcome ⊢
  generalize second.run other = right at outcome ⊢
  cases outcome with
  | ok holds => exact .ok (more _ _ _ holds)
  | error => exact .error

end Lockstep

end Os1k.Exec
