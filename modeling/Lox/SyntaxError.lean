/-!
# Syntax errors

Why a source text is no program, and where. A cause is data; its wording is given once, by
`Cause.message`.
-/
namespace Lox

namespace SyntaxError

/-- What the grammar asks for at a point. -/
inductive Expected where
  | expression
  | functionName | parenAfterFunctionName | parameterName | parenAfterParameters | braceBeforeBody
  | variableName | semicolonAfterDeclaration
  | parenAfterFor | semicolonAfterLoopCondition | parenAfterForClauses
  | parenAfterIf | parenAfterIfCondition
  | parenAfterWhile | parenAfterCondition
  | semicolonAfterValue | semicolonAfterReturnValue | semicolonAfterExpression
  | braceAfterBlock | parenAfterArguments | parenAfterExpression
  deriving DecidableEq, Repr

/-- The grammar's wish in words. -/
def Expected.text : Expected → String
  | expression => "expression"
  | functionName => "function name"
  | parenAfterFunctionName => "'(' after function name"
  | parameterName => "parameter name"
  | parenAfterParameters => "')' after parameters"
  | braceBeforeBody => "'\x7b' before function body"
  | variableName => "variable name"
  | semicolonAfterDeclaration => "';' after variable declaration"
  | parenAfterFor => "'(' after 'for'"
  | semicolonAfterLoopCondition => "';' after loop condition"
  | parenAfterForClauses => "')' after for clauses"
  | parenAfterIf => "'(' after 'if'"
  | parenAfterIfCondition => "')' after if condition"
  | parenAfterWhile => "'(' after 'while'"
  | parenAfterCondition => "')' after condition"
  | semicolonAfterValue => "';' after value"
  | semicolonAfterReturnValue => "';' after return value"
  | semicolonAfterExpression => "';' after expression"
  | braceAfterBlock => "'\x7d' after block"
  | parenAfterArguments => "')' after arguments"
  | parenAfterExpression => "')' after expression"

/-- The kinds of syntax errors. The first three are found in the text, the others among the
tokens. -/
inductive Cause where
  | unexpectedCharacter
  | unterminatedString
  | unterminatedComment
  | expected (what : Expected)
  | invalidTarget
  | unsupported (lexeme : String)
  deriving DecidableEq, Repr

def Cause.message : Cause → String
  | unexpectedCharacter => "Unexpected character."
  | unterminatedString => "Unterminated string."
  | unterminatedComment => "Unterminated block comment."
  | expected what => "Expect " ++ what.text ++ "."
  | invalidTarget => "Invalid assignment target."
  | unsupported lexeme => "'" ++ lexeme ++ "' is not supported."

/-- What an error points at: nothing but its line, the end of the input, or a token. -/
inductive Place where
  | line
  | inputEnd
  | token (lexeme : String)
  deriving DecidableEq, Repr

def Place.text : Place → String
  | line => ""
  | inputEnd => " at end"
  | token lexeme => " at '" ++ lexeme ++ "'"

end SyntaxError

structure SyntaxError where
  line : Nat
  place : SyntaxError.Place
  cause : SyntaxError.Cause
  deriving DecidableEq, Repr

namespace SyntaxError

def location (e : SyntaxError) : String := e.place.text

def message (e : SyntaxError) : String := e.cause.message

/-- The line printed for an error. -/
def render (e : SyntaxError) : String :=
  "[line " ++ toString e.line ++ "] Error" ++ e.location ++ ": " ++ e.message

/-- One line for each error (`join_lines`). -/
def renderAll (es : List SyntaxError) : String := "\n".intercalate (es.map render)

end SyntaxError
end Lox
