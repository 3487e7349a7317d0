import Lox.Command.Options
import Lox.Command.Pattern
import Lox.Text.Alphanumeric
import Lox.Text.Blank

/-!
# Log filters

A filter is a list of directives with commas between them. A directive has a target, a span in
brackets, or both, and may end with an equal sign and a level:

    target            target=level            target[span]=level
    level             [span]=level            target[span{field=pattern}]=level

A word without an equal sign that is no level is a target.

Nothing is logged; a filter is only checked. The check stands for the one that the interpreter's
logging library makes of the option `--log` before anything is run (`init_tracing`). It is here
because it settles whether and with which status the program ends at once. No result is about it.

White space around a directive is passed over when its parts are looked for, but a part is taken
from the whole text at the place where it was found. White space in front thus shifts all parts, and
can make one of them begin or end inside a character.
-/
namespace Lox.Command.LogFilter

/-- Why a filter cannot be used. -/
inductive Trouble where
  | malformed
  | splitCharacter
  deriving DecidableEq, Repr

/-- The place in a directive of its next character. Numbers say where a part started, in bytes. -/
inductive Place where
  | start
  | word
  | span (since : Nat)
  | field (since : Nat)
  | fieldsEnd
  | spanEnd
  | level (since : Nat)

def isBoundary (text : String) (i : Nat) : Bool := (String.fromUTF8? (text.toUTF8.extract 0 i)).isSome

/-- The part of a text between two places. -/
def cut (text : String) (i j : Nat) : Except Trouble String :=
  if isBoundary text i && isBoundary text j then
    match String.fromUTF8? (text.toUTF8.extract i j) with
    | some part => .ok part
    | none => .error .splitCharacter
  else .error .splitCharacter

/-- Level names in any case of letters, and numbers up to 5. -/
def isLevel (s : String) : Bool :=
  ["trace", "debug", "info", "warn", "error", "off"].contains s.toLower ||
    match readLimit s with
    | .ok n => n ≤ 5
    | .error _ => false

/-- A number with a plus sign, which is no pattern. -/
def isPositiveNumber (s : String) : Bool :=
  match s.toList with
  | '+' :: cs =>
    let whole := cs.takeWhile Char.isDigit
    let (fraction, rest) := match cs.dropWhile Char.isDigit with
      | '.' :: cs => (cs.takeWhile Char.isDigit, cs.dropWhile Char.isDigit)
      | cs => ([], cs)
    let exponent (cs : List Char) : Bool := !cs.isEmpty && cs.all Char.isDigit
    ["inf", "infinity", "nan"].contains (String.ofList cs).toLower ||
      (!(whole.isEmpty && fraction.isEmpty) &&
        match rest with
        | [] => true
        | e :: '+' :: cs | e :: '-' :: cs => e.toLower == 'e' && exponent cs
        | e :: cs => e.toLower == 'e' && exponent cs)
  | _ => false

/-- A field, or a field with the value or the pattern it is to match. -/
def isField (s : String) : Bool :=
  match s.splitOn "=" with
  | _ :: value :: _ => isPositiveNumber value || Pattern.isPattern value
  | _ => s ≠ ""

/-- The place behind a character at `pos`. -/
def step (text : String) (pos : Nat) : Place → Char → Except Trouble Place
  | .start, '[' => .ok (.span (pos + 1))
  | .start, c =>
    if Text.isAlphanumeric c || c == '-' || c == ':' || c == '_' then .ok .word else .error .malformed
  | .word, '=' => do
    let _ ← cut text 0 pos
    return .level (pos + 1)
  | .word, '[' => do
    let _ ← cut text 0 pos
    return .span (pos + 1)
  | .word, _ => .ok .word
  | .span since, ']' => do
    let _ ← cut text since pos
    return .spanEnd
  | .span since, '\x7b' => do
    let _ ← cut text since pos
    return .field (pos + 1)
  | .span since, _ => .ok (.span since)
  | .field since, '\x7d' => do
    if isField (← cut text since pos) then return .fieldsEnd else throw .malformed
  | .field since, _ => .ok (.field since)
  | .fieldsEnd, ']' => .ok .spanEnd
  | .fieldsEnd, _ => .error .malformed
  | .spanEnd, '=' => .ok (.level (pos + 1))
  | .spanEnd, _ => .error .malformed
  | .level since, _ => .ok (.level since)

def walk (text : String) (pos : Nat) (place : Place) : List Char → Except Trouble Place
  | [] => .ok place
  | c :: cs => do walk text (pos + c.utf8Size) (← step text pos place c) cs

/-- The characters of a text without the white space around them. -/
def trimmed (text : String) : List Char :=
  ((text.toList.dropWhile Text.isBlankChar).reverse.dropWhile Text.isBlankChar).reverse

def checkDirective (text : String) : Except Trouble Unit := do
  match ← walk text 0 .start (trimmed text) with
  | .word | .spanEnd => return ()
  | .level since =>
    let level ← cut text since text.utf8ByteSize
    if level = "" ∨ isLevel level then return () else throw .malformed
  | _ => throw .malformed

/-- Checks the directives of a filter from left to right. -/
def check (filter : String) : Except Trouble Unit :=
  ((filter.splitOn ",").filter (· ≠ "")).forM checkDirective

/-- The status of a program that is given a filter it cannot use. -/
def Trouble.exitCode : Trouble → Nat
  | malformed => 1
  | splitCharacter => 101

end Lox.Command.LogFilter
