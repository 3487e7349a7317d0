import Lox.Text.Quoted
import Lox.Token.Basic

/-!
# How a token is shown

A token is shown as its kind, its text and its literal. A literal is shown with its type, so that a
number and a string of the same text differ.
-/
namespace Lox

/-- A shown number keeps its point, and has an exponent below `10^-4` and from `10^16` on. -/
def shownNumberLayout : Decimal.Layout := ⟨fun e => -4 ≤ e && e < 16, true⟩

def Literal.describe : Literal → String
  | number x => "Number(" ++ shownNumberLayout.write x ++ ")"
  | string s => "String(" ++ Text.quote s ++ ")"
  | boolean b => "Boolean(" ++ (if b then "true" else "false") ++ ")"
  | nil => "Nil"

/-- The text of a token (`Token.fmt`). -/
def Token.describe (t : Token) : String :=
  let literal := match t.literal with
    | none => "None"
    | some v => "Some(" ++ v.describe ++ ")"
  t.kind.name ++ " " ++ t.lexeme ++ " " ++ literal

end Lox
