import Lox.Grammar.Expression

/-!
# Statements

    declaration →  "fun" function | "var" variable | statement
    function    →  IDENTIFIER "(" ( IDENTIFIER ( "," IDENTIFIER )* )? ")" "{" declaration* "}"
    variable    →  IDENTIFIER ( "=" expression )? ";"
    statement   →  "for" "(" ( ";" | "var" variable | expression ";" ) expression? ";" expression? ")" statement
                |  "if" "(" expression ")" statement ( "else" statement )?
                |  "print" expression ";"
                |  "return" expression? ";"
                |  "while" "(" expression ")" statement
                |  "{" declaration* "}"
                |  expression ";"

A declaration that cannot be read is reported and left out, and reading goes on at the next
statement boundary. The bound serves as it does for expressions; a declaration hands one level down
to the statement in the same place, so two levels come with each token.
-/
namespace Lox.Grammar

open Token (Kind)

/-- Keywords at which a statement starts. -/
def startsStatement : Kind → Bool
  | .kwClass | .kwFun | .kwVar | .kwFor | .kwIf | .kwWhile | .kwPrint | .kwReturn => true
  | _ => false

/-- Skips a token, and more of them up to the end of a statement or to a keyword at which one
starts. Returns the rest and the number of skipped tokens. -/
def skipStatement (skipped : Nat) : List Token → List Token × Nat
  | [] => ([], skipped)
  | [_] => ([], skipped + 1)
  | t :: next :: rest =>
    if t.kind = .semicolon ∨ startsStatement next.kind then (next :: rest, skipped + 1)
    else skipStatement (skipped + 1) (next :: rest)

/-- Goes on behind a statement that cannot be read (`Parser.synchronize`). -/
def resume : Reader Unit := .of fun s =>
  let (rest, skipped) := skipStatement 0 s.rest
  .ok () { s with rest, position := s.position + skipped }

/-- Reports a failure of `reader` and goes on behind it (the end of
`Parser.parse_declaration_inner`). -/
def recovering (reader : Reader Stmt) : Reader (Option Stmt) :=
  tryCatch (some <$> reader) fun blame => do
    complain blame
    resume
    return none

/-- An expression, unless the next token is the one that may stand in its place. -/
def optionalExpression (absent : Kind) (bound : Nat) : Reader (Option Expr) := do
  if (← nextKind) == absent then return none else return some (← expression bound)

/-- What follows `var` (`Parser.parse_variable_decl`). -/
def variableDeclaration (bound : Nat) : Reader Stmt := do
  let name ← expect .identifier .variableName
  let init ← match ← accept (· == .equal) with
    | some _ => some <$> expression bound
    | none => pure none
  let _ ← expect .semicolon .semicolonAfterDeclaration
  node (.varDecl · name init)

/-- An expression as a statement (`Parser.parse_expression_statement`). -/
def expressionStatement (bound : Nat) : Reader Stmt := do
  let value ← expression bound
  let _ ← expect .semicolon .semicolonAfterExpression
  node (.expression · value)

/-- What follows `print` (`Parser.parse_print_statement`). -/
def printStatement (bound : Nat) : Reader Stmt := do
  let value ← expression bound
  let _ ← expect .semicolon .semicolonAfterValue
  node (.print · value)

/-- What follows `return` (`Parser.parse_return_statement`). -/
def returnStatement (keyword : Token) (bound : Nat) : Reader Stmt := do
  let value ← optionalExpression .semicolon bound
  let _ ← expect .semicolon .semicolonAfterReturnValue
  node (.ret · keyword value)

/-- What follows `while` (`Parser.parse_while_statement`). -/
def whileStatement (statement : Reader Stmt) (bound : Nat) : Reader Stmt := do
  let _ ← expect .leftParen .parenAfterWhile
  let condition ← expression bound
  let _ ← expect .rightParen .parenAfterCondition
  let body ← statement
  node (.whileLoop · condition body)

/-- What follows `if` (`Parser.parse_if_statement`). An `else` belongs to the nearest `if`. -/
def ifStatement (statement : Reader Stmt) (bound : Nat) : Reader Stmt := do
  let _ ← expect .leftParen .parenAfterIf
  let condition ← expression bound
  let _ ← expect .rightParen .parenAfterIfCondition
  let yes ← statement
  match ← accept (· == .kwElse) with
  | none => node (.ifThen · condition yes)
  | some _ => do
    let no ← statement
    node (.ifElse · condition yes no)

/-- What a `for` loop starts with (`Parser.parse_for_statement`). -/
def forInitializer (bound : Nat) : Reader (Option Stmt) := do
  match ← nextKind with
  | .semicolon => do
    let _ ← accept (· == .semicolon)
    return none
  | .kwVar => do
    let _ ← accept (· == .kwVar)
    return some (← variableDeclaration bound)
  | _ => return some (← expressionStatement bound)

/-- The statements that a `for` loop stands for: the increment runs after the body in a block with
it, a missing condition is `true`, and the initializer has a block around it and the loop
(`Parser.parse_for_statement`). -/
def desugarFor (init : Option Stmt) (condition increment : Option Expr) (body : Stmt) : Reader Stmt := do
  let body ← match increment with
    | none => pure body
    | some step => do
      let step ← node (.expression · step)
      node (.block · [body, step])
  let condition ← match condition with
    | none => node (.literal · (.boolean true))
    | some c => pure c
  let loop ← node (.whileLoop · condition body)
  match init with
  | none => return loop
  | some init => node (.block · [init, loop])

/-- What follows `for` (`Parser.parse_for_statement`). -/
def forStatement (statement : Reader Stmt) (bound : Nat) : Reader Stmt := do
  let _ ← expect .leftParen .parenAfterFor
  let init ← forInitializer bound
  let condition ← optionalExpression .semicolon bound
  let _ ← expect .semicolon .semicolonAfterLoopCondition
  let increment ← optionalExpression .rightParen bound
  let _ ← expect .rightParen .parenAfterForClauses
  let body ← statement
  desugarFor init condition increment body

/-- Declarations up to a token of a `closing` kind or the end of the input. -/
def declarations (closing : Kind → Bool) (declaration : Reader (Option Stmt)) :
    (bound : Nat) → Array Stmt → Reader (List Stmt)
  | 0, _ => fail (.expected .expression)
  | bound + 1, done => do
    match ← next? with
    | none => return done.toList
    | some t =>
      if closing t.kind then return done.toList
      else
        match ← declaration with
        | none => declarations closing declaration bound done
        | some stmt => declarations closing declaration bound (done.push stmt)

/-- What follows the opening brace of a block (`Parser.parse_block`). -/
def blockBody (declaration : Reader (Option Stmt)) (bound : Nat) : Reader (List Stmt) := do
  let body ← declarations (· == .rightBrace) declaration bound #[]
  let _ ← expect .rightBrace .braceAfterBlock
  return body

/-- What follows `fun` (`Parser.parse_function`). -/
def functionDeclaration (declaration : Reader (Option Stmt)) (bound : Nat) : Reader Stmt := do
  let name ← expect .identifier .functionName
  let _ ← expect .leftParen .parenAfterFunctionName
  let params ← parenthesized (expect .identifier .parameterName) bound
  let _ ← expect .rightParen .parenAfterParameters
  let _ ← expect .leftBrace .braceBeforeBody
  let body ← blockBody declaration bound
  node (.funDecl · name params body)

def startsKeywordStatement : Kind → Bool
  | .kwFor | .kwIf | .kwPrint | .kwReturn | .kwWhile | .leftBrace => true
  | _ => false

/-- A statement, given the readers of what may be nested in it (`Parser.parse_statement`). -/
def statementForm (declaration : Reader (Option Stmt)) (statement : Reader Stmt) (bound : Nat) :
    Reader Stmt := do
  match ← accept startsKeywordStatement with
  | none => expressionStatement bound
  | some t =>
    match t.kind with
    | .kwFor => forStatement statement bound
    | .kwIf => ifStatement statement bound
    | .kwPrint => printStatement bound
    | .kwReturn => returnStatement t bound
    | .kwWhile => whileStatement statement bound
    | _ => do
      let body ← blockBody declaration bound
      node (.block · body)

/-- A declaration, given the readers of what may be nested in it (the start of
`Parser.parse_declaration_inner`). -/
def declarationForm (declaration : Reader (Option Stmt)) (statement : Reader Stmt) (bound : Nat) :
    Reader Stmt := do
  match ← nextKind with
  | .kwFun => do
    let _ ← accept (· == .kwFun)
    functionDeclaration declaration bound
  | .kwVar => do
    let _ ← accept (· == .kwVar)
    variableDeclaration bound
  | .kwClass => noExpression
  | _ => statement

mutual

/-- A statement (`Parser.parse_statement`). -/
def statement : (bound : Nat) → Reader Stmt
  | 0 => fail (.expected .expression)
  | bound + 1 => .later fun _ =>
    statementForm (declaration bound) (statement bound) bound

/-- A declaration (`Parser.parse_declaration`); none if it could not be read. -/
def declaration : (bound : Nat) → Reader (Option Stmt)
  | 0 => fail (.expected .expression)
  | bound + 1 => .later fun _ =>
    recovering (declarationForm (declaration bound) (statement bound) bound)

end

end Lox.Grammar
