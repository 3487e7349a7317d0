/-!
# Text without terminal controls

What is left of a text that is written to something other than a terminal: control sequences are
dropped as a whole, and so are other control characters, except for white space.

A sequence starts with an escape character. Behind it come, depending on the next character, a
control sequence up to a final letter, a string up to a bell, a device string or message up to a
string terminator, or further characters up to a final one.
-/
namespace Lox.Text

/-- Where a character stands with regard to control sequences. -/
inductive Mode where
  | ground
  | escape
  | control
  | string
  | device
  deriving DecidableEq, Repr

def escapeChar : Char := '\x1b'

/-- White space among the control characters. -/
def isLayout (c : Char) : Bool := c == '\t' || c == '\n' || c == '\x0c' || c == '\r'

/-- Whether a string terminator is among the bytes of a character. -/
def holdsTerminator (c : Char) : Bool := (String.singleton c).toUTF8.toList.contains 0x9C

/-- The place behind a printing character of ASCII in a sequence. -/
def Mode.behind (c : Char) : Mode → Mode
  | ground => ground
  | escape =>
    if c == '[' then control
    else if c == ']' then string
    else if c == 'P' || c == 'X' || c == '^' || c == '_' then device
    else if c.toNat < 0x30 then escape
    else ground
  | control => if c.toNat < 0x40 then control else ground
  | string => string
  | device => device

/-- The place behind a character, and whether the character is kept. -/
def Mode.step (m : Mode) (c : Char) : Mode × Bool :=
  if c == escapeChar then (escape, false)
  else if c == '\x18' || c == '\x1a' then (ground, false)
  else if c.toNat < 0x20 then
    match m with
    | string => (if c == '\x07' then ground else string, false)
    | device => (device, false)
    | m => (m, isLayout c)
  else if c == '\x7f' then (m, false)
  else if 0x80 ≤ c.toNat then
    match m with
    | ground => (ground, true)
    | device => (if holdsTerminator c then ground else device, false)
    | m => (m, false)
  else (m.behind c, m == ground)

def plainFrom (m : Mode) (kept : List Char) : List Char → List Char
  | [] => kept.reverse
  | c :: cs =>
    match m.step c with
    | (m, true) => plainFrom m (c :: kept) cs
    | (m, false) => plainFrom m kept cs

/-- A text without terminal controls. -/
def plain (s : String) : String := String.ofList (plainFrom .ground [] s.toList)

end Lox.Text
