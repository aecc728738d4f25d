/-!
# Shell scripts under `set -e`

Simple commands act on a state and succeed or fail. A script of them is run as a POSIX shell
runs it with `set -e`: a command that fails ends the script, unless it is a condition, stands
under `!`, or is not the last of an `&&`/`||` list.
-/

namespace ServerBox.Std

/-- A script over a state. -/
inductive ShellScript (State : Type) where
  /-- A simple command: whether it succeeds, and what it leaves. -/
  | command (act : State → Bool × State)
  | seq (first second : ShellScript State)
  | andThen (first second : ShellScript State)
  | orElse (first second : ShellScript State)
  | not (negated : ShellScript State)
  | ifElse (condition yes no : ShellScript State)
  | exit (status : Nat)

namespace ShellScript

variable {State : Type}

/-- Where a script is after a part of it: at its end with whether that succeeded, or out. -/
inductive Ended (State : Type) where
  | goesOn (succeeded : Bool) (state : State)
  | exited (status : Nat) (state : State)

def Ended.state : Ended State → State
  | .goesOn _ state | .exited _ state => state

/-- A failure's exit status, as far as it is told from success. -/
def failed : Nat := 1

/-- The run of a script, where a failure ends it or is let go. -/
def run : (errexit : Bool) → ShellScript State → State → Ended State
  | errexit, command act, state =>
      match act state with
      | (true, after) => .goesOn true after
      | (false, after) => if errexit then .exited failed after else .goesOn false after
  | errexit, seq first second, state =>
      match run errexit first state with
      | .goesOn _ after => run errexit second after
      | exited => exited
  | errexit, andThen first second, state =>
      match run false first state with
      | .goesOn true after => run errexit second after
      | ended => ended
  | errexit, orElse first second, state =>
      match run false first state with
      | .goesOn false after => run errexit second after
      | ended => ended
  | _, not negated, state =>
      match run false negated state with
      | .goesOn succeeded after => .goesOn (!succeeded) after
      | exited => exited
  | errexit, ifElse condition yes no, state =>
      match run false condition state with
      | .goesOn true after => run errexit yes after
      | .goesOn false after => run errexit no after
      | exited => exited
  | _, exit status, state => .exited status state

/-- The whole script under `set -e`. -/
def runErrexit (script : ShellScript State) (state : State) : Ended State := script.run true state

/-- The commands one after the other. -/
def block (last : ShellScript State) (parts : List (ShellScript State)) : ShellScript State :=
  parts.foldr seq last

theorem run_seq_command (act : State → Bool × State) (rest : ShellScript State) (state : State) :
    (seq (command act) rest).run true state =
      if (act state).1 then rest.run true (act state).2 else .exited failed (act state).2 := by
  rcases holds : act state with ⟨_ | _, after⟩ <;> simp [run, holds]

theorem run_ifElse_not_command (act : State → Bool × State) (yes no : ShellScript State)
    (state : State) (errexit : Bool) :
    (ifElse (not (command act)) yes no).run errexit state =
      if (act state).1 then no.run errexit (act state).2 else yes.run errexit (act state).2 := by
  rcases holds : act state with ⟨_ | _, after⟩ <;> simp [run, holds]

theorem run_seq_ifElse (act : State → Bool × State) (yes no rest : ShellScript State)
    (state : State) (errexit : Bool) :
    (seq (ifElse (command act) yes no) rest).run errexit state =
      if (act state).1 then (seq yes rest).run errexit (act state).2
      else (seq no rest).run errexit (act state).2 := by
  rcases holds : act state with ⟨_ | _, after⟩ <;> simp [run, holds]

/-- In `a && b || c` the last is run when either of the others failed, and only its own failure
ends the script. -/
theorem run_seq_andOr (first second third : State → Bool × State) (rest : ShellScript State)
    (state : State) :
    (seq (orElse (andThen (command first) (command second)) (command third)) rest).run true state =
      if (first state).1 then
        if (second (first state).2).1 then rest.run true (second (first state).2).2
        else (seq (command third) rest).run true (second (first state).2).2
      else (seq (command third) rest).run true (first state).2 := by
  rcases isFirst : first state with ⟨_ | _, after⟩
  · rcases isThird : third after with ⟨_ | _, last⟩ <;> simp [run, isFirst, isThird]
  · rcases isSecond : second after with ⟨_ | _, next⟩
    · rcases isThird : third next with ⟨_ | _, last⟩ <;> simp [run, isFirst, isSecond, isThird]
    · simp [run, isFirst, isSecond]

end ShellScript

end ServerBox.Std
