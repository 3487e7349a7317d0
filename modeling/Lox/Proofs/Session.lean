import Lox.Session

/-!
# Runs and sessions

What a run comes to when fuel is left out of account, and what a session comes to over many runs.

`Session.Ends` says how a run of a program ends, given enough fuel; that there is only one way is shown
in `Eval.CutOff`. `Session.inTurn` is a session from its first source text to its last: a text that is
rejected or fails does not keep the next one from being run. How a program is executed is a parameter of
`Session.runBy`, so that execution can be compared with other ways of it.
-/
namespace Lox

namespace Session

theorem runProgram_eq (cfg : Config) (fuel : Nat) (p : Program) (s : Session) :
    s.runProgram cfg fuel p = ((evalProgram cfg fuel p).run s.machine).fold
      (fun _ m => (.completed, ⟨m⟩)) (fun e m => (.ofStop e, ⟨m⟩)) := by
  rw [runProgram, enterProgram, Deep.run_enter]
  rfl

theorem run_of_rejected {source : String} {errors : List SyntaxError}
    (h : (Program.ofSource source 0).program = .error errors) (cfg : Config) (fuel : Nat) (s : Session) :
    s.run cfg fuel source = (.rejected errors, s) := by
  rw [run, enter, h]
  rfl

theorem run_of_program {source : String} {p : Program} (h : (Program.ofSource source 0).program = .ok p)
    (cfg : Config) (fuel : Nat) (s : Session) : s.run cfg fuel source = s.runProgram cfg fuel p := by
  rw [run, enter, h]
  rfl

/-- A run of the program ends with `o` and leaves `s'` behind, given enough fuel. -/
def Ends (cfg : Config) (p : Program) (s : Session) (o : Outcome) (s' : Session) : Prop :=
  o ≠ .outOfFuel ∧ ∃ fuel, s.runProgram cfg fuel p = (o, s')

/-- The lines printed since an earlier state of the session. -/
def printedSince (s before : Session) : List String := s.printed.toList.drop before.printed.size

/-- Runs a source text, with `exec` to execute a program. -/
def runBy (exec : Program → EvalM Unit) (source : String) (s : Session) : Outcome × Session :=
  match (Program.ofSource source 0).program with
  | .error errors => (.rejected errors, s)
  | .ok p => ((exec p).run s.machine).fold (fun _ m => (.completed, ⟨m⟩)) fun e m => (.ofStop e, ⟨m⟩)

theorem run_eq (cfg : Config) (fuel : Nat) (source : String) (s : Session) :
    s.run cfg fuel source = s.runBy (evalProgram cfg fuel) source := by
  unfold runBy
  cases h : (Program.ofSource source 0).program with
  | error errors => exact run_of_rejected h cfg fuel s
  | ok p => rw [run_of_program h, runProgram_eq]

/-- Runs source texts one after the other, each of them by `run`. -/
def inTurn (run : String → Session → Outcome × Session) : List String → Session → List Outcome × Session
  | [], s => ([], s)
  | source :: rest, s =>
    let (o, s) := run source s
    let (os, s) := inTurn run rest s
    (o :: os, s)

end Session
end Lox
