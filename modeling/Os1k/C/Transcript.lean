import Os1k.C.Shell

/-! What is on the console after a session with the shell, whatever was typed. -/

namespace Os1k.C.Shell

open Lines (heard)

/-- A program puts a text on the console, whatever was done before, and comes to an end. -/
def Prints (program : Exec Undefined State Ending) (env : Env) (text : List UInt8) (ending : Ending) :
    Prop :=
  ∀ trace, ∃ after, program.run ⟨env, trace⟩ = .ok ending after ∧ after.env.out = env.out ++ text

variable {layout : Layout} {env : Env}

/-- More input adds to what is on the console, unless the shell has ended. -/
theorem session_append (line input more : List UInt8) :
    ∃ rest, session line (input ++ more) = session line input ++ rest ∧
      (ending line input = .exited → rest = [] ∧ ending line (input ++ more) = .exited) := by
  -- The induction is on the input, and each character puts the same on the console in both sessions.
  induction input generalizing line with
  | nil => exact ⟨session line more, rfl, fun exited => absurd exited (by simp [ending, heard])⟩
  | cons ch input ih =>
    rw [List.cons_append, session, session]
    by_cases full : line.length + 1 = cmdlineSize
    · -- The line is refused, and both go on with an empty one.
      obtain ⟨rest, same, quiet⟩ := ih []
      rw [if_pos full, if_pos full, ending_full full, ending_full full, same]
      exact ⟨rest, (List.append_assoc _ _ _).symm, quiet⟩
    · rw [if_neg full, if_neg full]
      by_cases ended : ch = '\r'.toUInt8
      · subst ended
        rw [if_pos rfl, if_pos rfl, ending_line full, ending_line full]
        cases quits line with
        -- Once the shell has ended, what is left of the input does not matter.
        | true => exact ⟨[], (List.append_nil _).symm, fun _ => ⟨rfl, rfl⟩⟩
        | false =>
          obtain ⟨rest, same, quiet⟩ := ih []
          simp only [Bool.false_eq_true, if_false, same]
          exact ⟨rest, by simp only [List.append_assoc], quiet⟩
      · obtain ⟨rest, same, quiet⟩ := ih (line ++ [ch])
        rw [if_neg ended, if_neg ended, ending_more full ended, ending_more full ended, same]
        exact ⟨rest, rfl, quiet⟩

/-- From the first prompt on, the session is put on the console. -/
theorem main_prints (loaded : Loaded layout env.mem) {input : List UInt8}
    (bytes : ∀ b ∈ input, b ≠ 0) :
    Prints (main layout input) env (Literal.prompt.text ++ session [] input) (ending [] input) := by
  intro trace
  obtain ⟨after, events, ran, _, out⟩ := main_tells loaded bytes trace
  exact ⟨⟨after, trace ++ events⟩, ran, out⟩

/--
What is on the console after a session with the shell, and whether the shell has ended.

Neither the command line in memory nor the formats of the messages matter any more.
-/
theorem shell_transcript (loaded : Loaded layout env.mem) {input : List UInt8}
    (bytes : ∀ b ∈ input, b ≠ 0) :
    ∃ after, (main layout input).run ⟨env, []⟩ = .ok (ending [] input) after ∧
      after.env.out = env.out ++ (Literal.prompt.text ++ session [] input) :=
  main_prints loaded bytes []

/-- A session with one command that is unknown, and the one that ends the shell. -/
theorem shell_transcript_exit : ∃ after,
    (main imageLayout (Text.bytes "ls\rexit\r")).run ⟨imageEnv, []⟩ = .ok .exited after ∧
      after.env.out = Text.bytes "> ls\r\nunknown command: ls\n> exit\r\n" := by
  have bytes : ∀ b ∈ Text.bytes "ls\rexit\r", b ≠ 0 := by decide +kernel
  exact shell_transcript image_loaded bytes

end Os1k.C.Shell
