import Lox.Tree.Render

/-!
# Values

Numbers, strings, truth values, `nil` and functions. A function value is told apart from all others
by its identity, a number that is handed out when its declaration is executed.
-/
namespace Lox

/-- The place of a frame in the heap. -/
abbrev FrameId := Nat

/-- Functions that the language provides (`NativeFunction`). -/
inductive Native where
  | clock
  deriving DecidableEq, Repr

namespace Native

def name : Native → String
  | clock => "clock"

def arity : Native → Nat
  | clock => 0

end Native

/-- A function of a program together with the frame it was declared in (`FunctionObject`). The number
of the declaration's node, which shows in log lines only, is left out. -/
structure Closure where
  identity : Nat
  name : String
  params : List String
  body : List Stmt
  frame : FrameId

inductive Value where
  | number (x : Float)
  | string (s : String)
  | boolean (b : Bool)
  | nil
  | native (f : Native)
  | function (f : Closure)

namespace Value

/-- The value of a constant (`Value.from`). -/
def ofLiteral : Literal → Value
  | .number x => .number x
  | .string s => .string s
  | .boolean b => .boolean b
  | .nil => .nil

/-- Only `nil` and `false` count as false (`Value.is_truthy`). -/
def isTruthy : Value → Bool
  | nil => false
  | boolean b => b
  | _ => true

/-- Equality of the language (`Value.eq`, `Object.eq`). Values of different kinds differ, numbers
compare as floats, and a function equals only itself. -/
def equals : Value → Value → Bool
  | number x, number y => x == y
  | string s, string t => s == t
  | boolean b, boolean c => b == c
  | nil, nil => true
  | native f, native g => f == g
  | function f, function g => f.identity == g.identity
  | _, _ => false

/-- The text that `print` shows (`Value.fmt`). -/
def text : Value → String
  | number x => numberText x
  | string s => s
  | boolean true => "true"
  | boolean false => "false"
  | nil => "nil"
  | native _ => "<native fn>"
  | function f => "<fn " ++ f.name ++ ">"

end Value
end Lox
