import Lox.Eval.Run
import Lox.Grammar.Program

/-!
# Sessions

A session runs source texts one after the other in one global frame. A text that is no program is
not run at all. A fault ends its run, and what the run did before stays done.
-/
namespace Lox

/-- The state between two runs (`Lox`). -/
structure Session where
  machine : Machine

/-- What came of running a source text (`RunOutcome`). -/
inductive Outcome where
  | completed
  | rejected (errors : List SyntaxError)
  | failed (fault : Fault)
  | outOfFuel

/-- The outcome of a run that stopped for a reason. -/
def Outcome.ofStop : Stop → Outcome
  | .fault f => .failed f
  | .outOfFuel => .outOfFuel

/-- The status of a process that ends with an outcome (`RunOutcome.exit_code`). -/
def Outcome.exitCode : Outcome → Nat
  | completed => 0
  | rejected _ => 65
  | failed _ => 70
  | outOfFuel => 75

namespace Session

def initial : Session := ⟨.initial⟩

/-- The lines printed in all runs so far. -/
def printed (s : Session) : Array String := s.machine.printed

/-- Runs a program, and then `k` on what came of it (`Interpreter.interpret`). -/
def enterProgram {R : Type} (cfg : Config) (fuel : Nat) (p : Program) (s : Session)
    (k : Outcome → Session → R) : Bounce R :=
  (evalProgram cfg fuel p).enter (fun _ m => .done (k .completed ⟨m⟩)) (fun e m => .done (k (.ofStop e) ⟨m⟩))
    s.machine

/-- Runs a source text, and then `k` on what came of it (`Lox.run`). -/
def enter {R : Type} (cfg : Config) (fuel : Nat) (source : String) (s : Session) (k : Outcome → Session → R) :
    Bounce R :=
  match (Program.ofSource source 0).program with
  | .error errors => .done (k (.rejected errors) s)
  | .ok p => s.enterProgram cfg fuel p k

/-- What comes of running a program. -/
def runProgram (cfg : Config) (fuel : Nat) (p : Program) (s : Session) : Outcome × Session :=
  (s.enterProgram cfg fuel p Prod.mk).run

/-- What comes of running a source text. -/
def run (cfg : Config) (fuel : Nat) (source : String) (s : Session) : Outcome × Session :=
  (s.enter cfg fuel source Prod.mk).run

end Session
end Lox
