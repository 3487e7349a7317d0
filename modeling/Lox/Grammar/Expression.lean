import Lox.Grammar.State

/-!
# Expressions

    expression  →  IDENTIFIER "=" expression | disjunction
    disjunction →  conjunction ( "or" conjunction )*
    conjunction →  equality ( "and" equality )*
    equality    →  comparison ( ( "!=" | "==" ) comparison )*
    comparison  →  term ( ( "<" | "<=" | ">" | ">=" ) term )*
    term        →  factor ( ( "-" | "+" ) factor )*
    factor      →  unary ( ( "/" | "*" ) unary )*
    unary       →  ( "!" | "-" )* call
    call        →  primary ( "(" ( expression ( "," expression )* )? ")" )*
    primary     →  NUMBER | STRING | "true" | "false" | "nil" | IDENTIFIER | "(" expression ")"

Each rule is a reader that takes the reader of nested expressions as an argument, and `expression`
ties the knot. Its bound limits nesting and repetition. It is never reached as long as it exceeds the
number of remaining tokens, because a nested expression and a repetition each come behind a token
that was taken.
-/
namespace Lox.Grammar

open Token (Kind)

def isEqualityOp : Kind → Bool
  | .bangEqual | .equalEqual => true
  | _ => false

def isComparisonOp : Kind → Bool
  | .less | .lessEqual | .greater | .greaterEqual => true
  | _ => false

def isTermOp : Kind → Bool
  | .minus | .plus => true
  | _ => false

def isFactorOp : Kind → Bool
  | .slash | .star => true
  | _ => false

def isUnaryOp : Kind → Bool
  | .bang | .minus => true
  | _ => false

def startsPrimary : Kind → Bool
  | .kwFalse | .kwTrue | .kwNil | .number | .string | .identifier | .leftParen => true
  | _ => false

/-- Gives up where an expression should start (the last cases of `Parser.parse_primary`). -/
def noExpression {α : Type} : Reader α := do
  match ← next? with
  | none => fail (.expected .expression)
  | some t => if t.kind.isReserved then fail (.unsupported t.lexeme) else fail (.expected .expression)

/-- The value of a number or string token is the literal it carries, whatever its type. -/
def literalOf (t : Token) : Reader Expr :=
  match t.literal with
  | some value => node (.literal · value)
  | none => do throw (← blameTaken t (.expected .expression))

/-- An expression without operators and calls (`Parser.parse_primary`). -/
def primary (nested : Reader Expr) : Reader Expr := do
  match ← accept startsPrimary with
  | none => noExpression
  | some t =>
    match t.kind with
    | .kwFalse => node (.literal · (.boolean false))
    | .kwTrue => node (.literal · (.boolean true))
    | .kwNil => node (.literal · .nil)
    | .identifier => node (.var · t)
    | .leftParen => do
      let inner ← nested
      let _ ← expect .rightParen .parenAfterExpression
      node (.grouping · inner)
    | _ => literalOf t

/-- Calls of `callee`, and of what they return (`Parser.finish_call`). -/
def calls (nested : Reader Expr) : (bound : Nat) → (callee : Expr) → Reader Expr
  | 0, _ => fail (.expected .expression)
  | bound + 1, callee => do
    match ← accept (· == .leftParen) with
    | none => return callee
    | some _ => do
      let args ← parenthesized nested bound
      let paren ← expect .rightParen .parenAfterArguments
      let called ← node (.call · callee paren args)
      Deep.pause
      calls nested bound called

/-- An expression without operators (`Parser.parse_call`). -/
def call (nested : Reader Expr) (bound : Nat) : Reader Expr := do
  let callee ← primary nested
  calls nested bound callee

/-- The longest run of unary operators at the front of `rest`, the last one first, together with
those already `taken`. -/
def unaryOps (taken : List Token) : List Token → List Token × List Token
  | [] => (taken, [])
  | t :: rest => if isUnaryOp t.kind then unaryOps (t :: taken) rest else (taken, t :: rest)

/-- Takes all unary operators, and returns them with the innermost first. -/
def takeUnaryOps : Reader (List Token) := .of fun s =>
  let (ops, rest) := unaryOps [] s.rest
  .ok ops { s with rest, position := s.position + ops.length }

/-- Wraps an operand in unary operators, the innermost first. -/
def wrapUnary : List Token → Expr → Reader Expr
  | [], e => return e
  | op :: ops, e => do
    let e' ← node (.unary · op e)
    Deep.pause
    wrapUnary ops e'

/-- An operand with its unary operators (`Parser.parse_unary`). -/
def unary (nested : Reader Expr) (bound : Nat) : Reader Expr := do
  let ops ← takeUnaryOps
  let operand ← call nested bound
  wrapUnary ops operand

/-- Operators of one level behind a left operand, grouped to the left. -/
def chain (isOp : Kind → Bool) (build : NodeId → Expr → Token → Expr → Expr) (operand : Reader Expr) :
    (bound : Nat) → (left : Expr) → Reader Expr
  | 0, _ => fail (.expected .expression)
  | bound + 1, left => do
    match ← accept isOp with
    | none => return left
    | some op => do
      let right ← operand
      let whole ← node (build · left op right)
      Deep.pause
      chain isOp build operand bound whole

/-- Operands of one level with operators between them. -/
def level (isOp : Kind → Bool) (build : NodeId → Expr → Token → Expr → Expr) (operand : Reader Expr)
    (bound : Nat) : Reader Expr := do
  let left ← operand
  chain isOp build operand bound left

/-- Products and quotients (`Parser.parse_factor`). -/
def factor (nested : Reader Expr) (bound : Nat) : Reader Expr :=
  level isFactorOp .binary (unary nested bound) bound

/-- Sums and differences (`Parser.parse_term`). -/
def term (nested : Reader Expr) (bound : Nat) : Reader Expr :=
  level isTermOp .binary (factor nested bound) bound

/-- Comparisons of size (`Parser.parse_comparison`). -/
def comparison (nested : Reader Expr) (bound : Nat) : Reader Expr :=
  level isComparisonOp .binary (term nested bound) bound

/-- Comparisons for equality (`Parser.parse_equality`). -/
def equality (nested : Reader Expr) (bound : Nat) : Reader Expr :=
  level isEqualityOp .binary (comparison nested bound) bound

/-- Operands with `and` between them (`Parser.parse_and`). -/
def conjunction (nested : Reader Expr) (bound : Nat) : Reader Expr :=
  level (· == .kwAnd) .logical (equality nested bound) bound

/-- Operands with `or` between them (`Parser.parse_or`). -/
def disjunction (nested : Reader Expr) (bound : Nat) : Reader Expr :=
  level (· == .kwOr) .logical (conjunction nested bound) bound

/-- An assignment or a disjunction (`Parser.parse_assignment`). Whether the left side is a variable
is asked when the right side has been read; if it is not, the sign is blamed, and reading goes on
with the left side. -/
def assignment (nested : Reader Expr) (bound : Nat) : Reader Expr := do
  let target ← disjunction nested bound
  match ← accept (· == .equal) with
  | none => return target
  | some sign => do
    let blame ← blameTaken sign .invalidTarget
    let value ← nested
    match target with
    | .var _ name => node (.assign · name value)
    | _ => do
      complain blame
      return target

/-- An expression (`Parser.parse_expression`). -/
def expression : (bound : Nat) → Reader Expr
  | 0 => fail (.expected .expression)
  | bound + 1 => .later fun _ => assignment (expression bound) bound

end Lox.Grammar
