import Lox.Fault
import Lox.Value

/-!
# Operators on values

What an operator token does to operands that have been evaluated. A token that is no operator of
the language can stand in a tree that did not come from source text, and is a fault.
-/
namespace Lox.Operator

open Token (Kind)

/-- A fault at an operator. -/
def fault {α : Type} (op : Token) (cause : Fault.Cause) : Except Fault α := .error ⟨cause, op.line⟩

/-- Sum of two numbers, or two strings one after the other. -/
def add (op : Token) : Value → Value → Except Fault Value
  | .number x, .number y => .ok (.number (x + y))
  | .string s, .string t => .ok (.string (s ++ t))
  | _, _ => fault op .operandsNotNumbersOrStrings

/-- An operation on two numbers. -/
def onNumbers (op : Token) (f : Float → Float → Value) : Value → Value → Except Fault Value
  | .number x, .number y => .ok (f x y)
  | _, _ => fault op .operandsNotNumbers

/-- A binary operator (`Interpreter.binary`). -/
def binary (op : Token) (left right : Value) : Except Fault Value :=
  match op.kind with
  | .plus => add op left right
  | .minus => onNumbers op (fun x y => .number (x - y)) left right
  | .star => onNumbers op (fun x y => .number (x * y)) left right
  | .slash => onNumbers op (fun x y => .number (x / y)) left right
  | .greater => onNumbers op (fun x y => .boolean (y < x)) left right
  | .greaterEqual => onNumbers op (fun x y => .boolean (y ≤ x)) left right
  | .less => onNumbers op (fun x y => .boolean (x < y)) left right
  | .lessEqual => onNumbers op (fun x y => .boolean (x ≤ y)) left right
  | .equalEqual => .ok (.boolean (left.equals right))
  | .bangEqual => .ok (.boolean (!left.equals right))
  | _ => fault op (.unsupportedOperator op.lexeme)

/-- A unary operator (`Interpreter.evaluate_expr`). -/
def unary (op : Token) (operand : Value) : Except Fault Value :=
  match op.kind, operand with
  | .minus, .number x => .ok (.number (-x))
  | .minus, _ => fault op .operandNotNumber
  | .bang, v => .ok (.boolean (!v.isTruthy))
  | _, _ => fault op (.unsupportedOperator op.lexeme)

/-- A logical operator: the value of the whole if the left operand settles it
(`Interpreter.evaluate_expr`). -/
def shortCut (op : Token) (left : Value) : Except Fault (Option Value) :=
  match op.kind with
  | .kwOr => .ok (if left.isTruthy then some left else none)
  | .kwAnd => .ok (if left.isTruthy then none else some left)
  | _ => fault op (.unsupportedOperator op.lexeme)

end Lox.Operator
