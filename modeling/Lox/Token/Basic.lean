import Lox.Decimal.Layout

/-!
# Tokens

A token is a classified piece of source text: its kind, the characters it was made from, the value
it carries if it is a number or a string, and the line it ends on. Token lists may come from a
caller as well as from source text, so the kind, the text and the value of a token need not agree.

Here and below, a name in parentheses at the end of a description is the name that the operation or
the type has in the interpreter that is modelled.
-/
namespace Lox

/-- A constant of the language. -/
inductive Literal where
  | number (x : Float)
  | string (s : String)
  | boolean (b : Bool)
  | nil

/-- Numbers are written positionally with the fewest digits that read back, and a whole number
without a point. -/
def numberLayout : Decimal.Layout := ⟨fun _ => true, false⟩

/-- The text of a number. -/
def numberText (x : Float) : String := numberLayout.write x

namespace Token

/-- The classes of tokens (`TokenKind`). -/
inductive Kind where
  | leftParen | rightParen | leftBrace | rightBrace
  | comma | dot | minus | plus | semicolon | slash | star
  | bang | bangEqual | equal | equalEqual
  | greater | greaterEqual | less | lessEqual
  | identifier | string | number
  | kwAnd | kwClass | kwElse | kwFalse | kwFun | kwFor | kwIf | kwNil | kwOr
  | kwPrint | kwReturn | kwSuper | kwThis | kwTrue | kwVar | kwWhile
  | eof
  deriving DecidableEq, Repr

namespace Kind

/-- Every kind, in declaration order. -/
def all : List Kind :=
  [leftParen, rightParen, leftBrace, rightBrace,
   comma, dot, minus, plus, semicolon, slash, star,
   bang, bangEqual, equal, equalEqual,
   greater, greaterEqual, less, lessEqual,
   identifier, string, number,
   kwAnd, kwClass, kwElse, kwFalse, kwFun, kwFor, kwIf, kwNil, kwOr,
   kwPrint, kwReturn, kwSuper, kwThis, kwTrue, kwVar, kwWhile,
   eof]

theorem mem_all (k : Kind) : k ∈ all := by cases k <;> decide

/-- The name by which a kind is shown. -/
def name : Kind → String
  | leftParen => "LeftParen" | rightParen => "RightParen"
  | leftBrace => "LeftBrace" | rightBrace => "RightBrace"
  | comma => "Comma" | dot => "Dot" | minus => "Minus" | plus => "Plus"
  | semicolon => "Semicolon" | slash => "Slash" | star => "Star"
  | bang => "Bang" | bangEqual => "BangEqual" | equal => "Equal" | equalEqual => "EqualEqual"
  | greater => "Greater" | greaterEqual => "GreaterEqual" | less => "Less" | lessEqual => "LessEqual"
  | identifier => "Identifier" | string => "String" | number => "Number"
  | kwAnd => "And" | kwClass => "Class" | kwElse => "Else" | kwFalse => "False" | kwFun => "Fun"
  | kwFor => "For" | kwIf => "If" | kwNil => "Nil" | kwOr => "Or" | kwPrint => "Print"
  | kwReturn => "Return" | kwSuper => "Super" | kwThis => "This" | kwTrue => "True"
  | kwVar => "Var" | kwWhile => "While"
  | eof => "Eof"

/-- The kind shown by a name. -/
def ofName? (s : String) : Option Kind := all.find? fun k => k.name == s

/-- The words that are not identifiers. -/
def keywords : List (String × Kind) :=
  [("and", kwAnd), ("class", kwClass), ("else", kwElse), ("false", kwFalse), ("for", kwFor),
   ("fun", kwFun), ("if", kwIf), ("nil", kwNil), ("or", kwOr), ("print", kwPrint),
   ("return", kwReturn), ("super", kwSuper), ("this", kwThis), ("true", kwTrue), ("var", kwVar),
   ("while", kwWhile)]

/-- The kind of a keyword (`TokenKind.keyword`). -/
def keyword? (word : String) : Option Kind := keywords.lookup word

/-- Keywords set aside for features that the language does not have (`TokenKind.is_reserved`). -/
def isReserved : Kind → Bool
  | kwClass | kwSuper | kwThis => true
  | _ => false

end Kind
end Token

/-- A classified piece of source text. -/
structure Token where
  kind : Token.Kind
  lexeme : String
  literal : Option Literal
  line : Nat

/-- The token that ends a list of tokens (`Token.eof`). -/
def Token.endOfInput (line : Nat) : Token := ⟨.eof, "", none, line⟩

end Lox
