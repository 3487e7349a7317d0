/-!
# Runtime faults

Why a program stopped, and the line of the token responsible.
-/
namespace Lox

inductive Fault.Cause where
  | operandNotNumber
  | operandsNotNumbers
  | operandsNotNumbersOrStrings
  | unsupportedOperator (lexeme : String)
  | undefinedVariable (name : String)
  | notCallable
  | wrongArity (expected got : Nat)
  | returnOutsideFunction
  | stackOverflow
  deriving DecidableEq, Repr

/-- A reason and a line (`RuntimeError`). -/
structure Fault where
  cause : Fault.Cause
  line : Nat
  deriving DecidableEq, Repr

def Fault.Cause.message : Fault.Cause → String
  | operandNotNumber => "Operand must be a number."
  | operandsNotNumbers => "Operands must be numbers."
  | operandsNotNumbersOrStrings => "Operands must be two numbers or two strings."
  | unsupportedOperator lexeme => "Unsupported operator '" ++ lexeme ++ "'."
  | undefinedVariable name => "Undefined variable '" ++ name ++ "'."
  | notCallable => "Can only call functions."
  | wrongArity expected got => "Expected " ++ toString expected ++ " arguments but got " ++ toString got ++ "."
  | returnOutsideFunction => "Can't return from top-level code."
  | stackOverflow => "Stack overflow."

def Fault.message (f : Fault) : String := f.cause.message

end Lox
