import Lox.Eval.Step

/-!
# Evaluation

`evalExpr` and `evalStmt` tie the levels of `Eval.Step` together. Fuel limits how deep evaluation
nests and how many rounds each loop runs, so both are total; a run that needs more ends `outOfFuel`,
which is neither a value nor a fault. Fuel that is enough for a run changes nothing about it.
-/
namespace Lox

mutual

/-- The value of an expression in `frame` (`Interpreter.evaluate_expr`). -/
def evalExpr (cfg : Config) : (fuel : Nat) → FrameId → Expr → EvalM Value
  | 0, _, _ => EvalM.outOfFuel
  | fuel + 1, frame, e => .later fun _ =>
    Eval.exprStep cfg (evalExpr cfg fuel) (evalStmt cfg fuel) frame e

/-- Executes a statement in `frame` (`Interpreter.evaluate_stmt`). -/
def evalStmt (cfg : Config) : (fuel : Nat) → FrameId → Stmt → EvalM Flow
  | 0, _, _ => EvalM.outOfFuel
  | fuel + 1, frame, s => .later fun _ =>
    Eval.stmtStep fuel (evalExpr cfg fuel) (evalStmt cfg fuel) frame s

end

/-- Executes statements in `frame` itself, up to the first that returns
(`Interpreter.execute_block`). -/
def evalBlock (cfg : Config) (fuel : Nat) (frame : FrameId) (body : List Stmt) : EvalM Flow :=
  Eval.runAll (evalStmt cfg fuel frame) body

/-- Executes a program in the global frame, statement by statement (`Interpreter.interpret`). -/
def evalProgram (cfg : Config) (fuel : Nat) : Program → EvalM Unit
  | [] => return ()
  | s :: rest => do
    let _ ← evalStmt cfg fuel Heap.globals s
    evalProgram cfg fuel rest

/-- Applies a function value to arguments without counting the call or its arguments
(`FunctionObject.call`). -/
def applyClosure (cfg : Config) (fuel : Nat) (f : Closure) (args : List Value) : EvalM Value :=
  Eval.callClosure (evalStmt cfg fuel) f args

/-- Fuel for more levels and rounds than a computer gets through. -/
def ampleFuel : Nat := Nat.pow 2 62

end Lox
