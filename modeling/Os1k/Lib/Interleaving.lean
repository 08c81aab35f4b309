import Mathlib.Logic.Function.Basic
import Mathlib.Tactic.Common

/-! Execution contexts that share a state and take their atomic steps in any order. -/

namespace Os1k

/-- The shared state, and where each context is in its own program. -/
structure Config (ι S L : Type) where
  shared : S
  place : ι → L

namespace Config

variable {ι S L : Type} [DecidableEq ι]

/-- One context takes a step, and the others stay where they are. -/
def move (config : Config ι S L) (i : ι) (shared : S) (next : L) : Config ι S L :=
  ⟨shared, Function.update config.place i next⟩

@[simp] theorem move_shared (config : Config ι S L) (i : ι) (shared : S) (next : L) :
    (config.move i shared next).shared = shared := rfl

@[simp] theorem move_self (config : Config ι S L) (i : ι) (shared : S) (next : L) :
    (config.move i shared next).place i = next := Function.update_self _ _ _

theorem move_other {config : Config ι S L} {i j : ι} (other : j ≠ i) (shared : S) (next : L) :
    (config.move i shared next).place j = config.place j := Function.update_of_ne other _ _

/-- Of two moves of a context, the second one decides where it is. -/
theorem move_move (config : Config ι S L) (i : ι) (shared later : S) (next last : L) :
    (config.move i shared next).move i later last = config.move i later last := by
  simp only [move, Function.update_idem]

omit [DecidableEq ι] in
/-- A part of the shared state, and of where each context is. -/
def view {S' L' : Type} (part : S → S') (see : L → L') (config : Config ι S L) : Config ι S' L' :=
  ⟨part config.shared, fun i => see (config.place i)⟩

/-- What is seen of a step is what the parts make of it. -/
theorem view_move {S' L' : Type} (part : S → S') (see : L → L') (config : Config ι S L) (i : ι)
    (shared : S) (next : L) :
    (config.move i shared next).view part see =
      (config.view part see).move i (part shared) (see next) := by
  rw [view, view, move, move, mk.injEq]
  exact ⟨rfl, Function.comp_update see config.place i next⟩

/-- What holds of every place held before, and of the new one, holds of every place. -/
theorem forall_move (property : L → Prop) {config : Config ι S L} {i : ι} {shared : S} {next : L}
    (others : ∀ j, j ≠ i → property (config.place j)) (new : property next) :
    ∀ j, property ((config.move i shared next).place j) := by
  -- Only one place is new.
  intro j
  by_cases here : j = i
  · subst here
    rw [move_self]
    exact new
  · rw [move_other here]
    exact others j here

/--
The runs from one configuration to another, in any interleaving of the contexts' steps.

A step takes the shared state and the place of a context to new ones.
-/
inductive Run (step : ι → S → L → S → L → Prop) (start : Config ι S L) : Config ι S L → Prop where
  | here : Run step start start
  | step {config : Config ι S L} {i : ι} {shared : S} {next : L} (before : Run step start config)
      (taken : step i config.shared (config.place i) shared next) :
      Run step start (config.move i shared next)

namespace Run

variable {step : ι → S → L → S → L → Prop} {start middle last : Config ι S L}

/-- Runs continue one another. -/
theorem trans (first : Run step start middle) (second : Run step middle last) :
    Run step start last := by
  -- The induction is on the second run, which ends with the last step.
  induction second with
  | here => exact first
  | step _ taken ih => exact .step ih taken

/-- What every step keeps holds along a run. -/
theorem keeps (property : Config ι S L → Prop)
    (kept : ∀ config i shared next, property config →
      step i config.shared (config.place i) shared next → property (config.move i shared next))
    (run : Run step start last) (holds : property start) : property last := by
  -- The induction is on the steps of the run.
  induction run with
  | here => exact holds
  | step _ taken ih => exact kept _ _ _ _ ih taken

end Run

end Config

end Os1k
