import Lox.Eval.Machine
import Lox.Eval.Operator

/-!
# One level of evaluation

How an expression or a statement is evaluated, given evaluators of its parts. Parts are evaluated
from left to right. A statement ends normally or with the value of a `return`, which ends the blocks
and loops around it up to the call.
-/
namespace Lox.Eval

open EvalM

/-- Statements in order, up to the first that returns (`Interpreter.execute_block`). -/
def runAll (stmt : Stmt → EvalM Flow) : List Stmt → EvalM Flow
  | [] => return .normal
  | s :: rest => do
    match ← stmt s with
    | .returned v => return .returned v
    | .normal => runAll stmt rest

/-- Repeats `body` as long as `test` holds, up to the first `return` in it (a case of
`Interpreter.evaluate_stmt_inner`). `fuel` limits the rounds. -/
def runWhile (test : EvalM Value) (body : EvalM Flow) : (fuel : Nat) → EvalM Flow
  | 0 => outOfFuel
  | fuel + 1 => do
    if (← test).isTruthy then
      match ← body with
      | .returned v => return .returned v
      | .normal => runWhile test body fuel
    else return .normal

/-- Runs the body of a function in a new frame that binds its parameters (`FunctionObject.call`). -/
def callClosure (stmt : FrameId → Stmt → EvalM Flow) (f : Closure) (args : List Value) : EvalM Value := do
  let frame ← newFrame f.frame
  bindParams frame f.params args
  match ← runAll (stmt frame) f.body with
  | .returned v => return v
  | .normal => return .nil

/-- Checks the number of arguments (a check of `Interpreter.call`). -/
def checkArity (expected got line : Nat) : EvalM Unit :=
  if got = expected then pure () else fault (.wrongArity expected got) line

/-- Calls a value on `line` (`Interpreter.call`). -/
def callValue (cfg : Config) (stmt : FrameId → Stmt → EvalM Flow) (callee : Value) (args : List Value)
    (line : Nat) : EvalM Value :=
  match callee with
  | .native f => do
    checkArity f.arity args.length line
    counted cfg line (readClock cfg)
  | .function f => do
    checkArity f.params.length args.length line
    counted cfg line (callClosure stmt f args)
  | _ => fault .notCallable line

/-- An expression, given evaluators of what it is made of (`Interpreter.evaluate_expr_inner`). -/
def exprStep (cfg : Config) (expr : FrameId → Expr → EvalM Value) (stmt : FrameId → Stmt → EvalM Flow)
    (frame : FrameId) : Expr → EvalM Value
  | .literal _ value => return .ofLiteral value
  | .var _ name => readVar frame name
  | .assign _ name value => do
    let v ← expr frame value
    assignVar frame name v
    return v
  | .unary _ op operand => do
    let v ← expr frame operand
    ofExcept (Operator.unary op v)
  | .binary _ left op right => do
    let l ← expr frame left
    let r ← expr frame right
    ofExcept (Operator.binary op l r)
  | .logical _ left op right => do
    let l ← expr frame left
    match ← ofExcept (Operator.shortCut op l) with
    | some v => return v
    | none => expr frame right
  | .grouping _ inner => expr frame inner
  | .call _ callee paren args => do
    let f ← expr frame callee
    let vs ← args.mapM (expr frame)
    callValue cfg stmt f vs paren.line

/-- The value of an expression that may be missing. -/
def optionalStep (expr : Expr → EvalM Value) : Option Expr → EvalM Value
  | none => return .nil
  | some e => expr e

/-- A statement, given evaluators of what it is made of (`Interpreter.evaluate_stmt_inner`). `fuel`
limits the rounds of a loop. -/
def stmtStep (fuel : Nat) (expr : FrameId → Expr → EvalM Value) (stmt : FrameId → Stmt → EvalM Flow)
    (frame : FrameId) : Stmt → EvalM Flow
  | .expression _ e => do
    let _ ← expr frame e
    return .normal
  | .print _ e => do
    let v ← expr frame e
    print v.text
    return .normal
  | .varDecl _ name init => do
    let v ← optionalStep (expr frame) init
    defineVar frame name.lexeme v
    return .normal
  | .block _ body => do
    let inner ← newFrame frame
    runAll (stmt inner) body
  | .ifThen _ condition yes => do
    if (← expr frame condition).isTruthy then stmt frame yes else return .normal
  | .ifElse _ condition yes no => do
    if (← expr frame condition).isTruthy then stmt frame yes else stmt frame no
  | .whileLoop _ condition body => runWhile (expr frame condition) (stmt frame body) fuel
  | .funDecl _ name params body => do
    let f ← newFunction frame name params body
    defineVar frame name.lexeme f
    return .normal
  | .ret _ keyword value => do
    if (← callDepth) = 0 then fault .returnOutsideFunction keyword.line
    else
      let v ← optionalStep (expr frame) value
      return .returned v

end Lox.Eval
