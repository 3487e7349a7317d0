/-!
# Patterns in log filters

A filter may ask that a field's value matches a pattern. Patterns are only checked: groups and
classes are closed, repetitions have something to repeat, escapes exist, names and flags are not
given twice. Counted repetitions and named properties need a closing brace, which no pattern in a
filter can hold, and boundaries of words cannot be matched, so these are refused.

The check stands for the one that the logging library has its patterns go through. Like the check of
filters, it only settles whether the program starts at all, and no result is about it.
-/
namespace Lox.Command.Pattern

def isHexDigit (c : Char) : Bool := c.isDigit || ('a' ≤ c && c ≤ 'f') || ('A' ≤ c && c ≤ 'F')

def hexValue (cs : List Char) : Nat :=
  cs.foldl (fun n c => 16 * n + if c.isDigit then c.toNat - 48 else c.toLower.toNat - 87) 0

/-- A character given by `digits` hexadecimal digits. -/
def hexChar? (digits : Nat) (cs : List Char) : Option (Char × List Char) :=
  let code := cs.take digits
  if code.length = digits ∧ code.all isHexDigit ∧ (hexValue code).isValidChar then
    some (Char.ofNat (hexValue code), cs.drop digits)
  else none

/-- What an escape or a plain character stands for inside a class. -/
inductive Item where
  | char (c : Char)
  | set

/-- What follows a backslash, as far as it stands for characters. -/
def escaped? : List Char → Option (Item × List Char)
  | 'a' :: cs => some (.char '\x07', cs)
  | 'f' :: cs => some (.char '\x0c', cs)
  | 't' :: cs => some (.char '\t', cs)
  | 'n' :: cs => some (.char '\n', cs)
  | 'r' :: cs => some (.char '\r', cs)
  | 'v' :: cs => some (.char '\x0b', cs)
  | 'x' :: cs => (hexChar? 2 cs).map fun (c, cs) => (.char c, cs)
  | 'u' :: cs => (hexChar? 4 cs).map fun (c, cs) => (.char c, cs)
  | 'U' :: cs => (hexChar? 8 cs).map fun (c, cs) => (.char c, cs)
  | 'p' :: c :: cs | 'P' :: c :: cs => if "LMNPSZC".toList.contains c then some (.set, cs) else none
  | c :: cs =>
    if "dDsSwW".toList.contains c then some (.set, cs)
    else if c.toNat < 0x80 ∧ ¬c.isAlphanum ∧ c ≠ '<' ∧ c ≠ '>' then some (.char c, cs)
    else none
  | [] => none

def item? : List Char → Option (Item × List Char)
  | '\\' :: cs => escaped? cs
  | c :: cs => some (.char c, cs)
  | [] => none

/-- An item of a class, or a range of them in ascending order. -/
def range? (cs : List Char) : Option (List Char) := do
  let (low, cs) ← item? cs
  match cs with
  | '-' :: ']' :: _ | '-' :: '-' :: _ => some cs
  | '-' :: cs => do
    let (high, cs) ← item? cs
    match low, high with
    | .char a, .char b => if a ≤ b then some cs else none
    | _, _ => none
  | cs => some cs

def classNames : List String :=
  ["alnum", "alpha", "ascii", "blank", "cntrl", "digit", "graph", "lower", "print", "punct", "space",
    "upper", "word", "xdigit"]

/-- What follows a named class such as `[:alpha:]`, read from behind its bracket. -/
def namedClass? : List Char → Option (List Char)
  | ':' :: cs =>
    let cs := if cs.head? = some '^' then cs.tail else cs
    let name := cs.takeWhile Char.isLower
    match cs.dropWhile Char.isLower with
    | ':' :: ']' :: rest => if classNames.contains (String.ofList name) then some rest else none
    | _ => none
  | _ => none

/-- What follows the opening of a class, where hyphens and a bracket stand for themselves. -/
def classStart (cs : List Char) : List Char :=
  let cs := if cs.head? = some '^' then cs.tail else cs
  match cs with
  | '-' :: _ => cs.dropWhile (· == '-')
  | ']' :: rest => rest
  | cs => cs

/-- What follows a class, with `depth` more classes around the innermost open one. -/
def class? : (fuel : Nat) → (depth : Nat) → List Char → Option (List Char)
  | 0, _, _ | _, _, [] => none
  | fuel + 1, depth, ']' :: cs => if depth = 0 then some cs else class? fuel (depth - 1) cs
  | fuel + 1, depth, '[' :: cs =>
    match namedClass? cs with
    | some rest => class? fuel depth rest
    | none => class? fuel (depth + 1) (classStart cs)
  | fuel + 1, depth, '&' :: '&' :: cs | fuel + 1, depth, '-' :: '-' :: cs
  | fuel + 1, depth, '~' :: '~' :: cs => class? fuel depth cs
  | fuel + 1, depth, cs => do
    let rest ← range? cs
    class? fuel depth rest

/-- What an opening parenthesis starts. -/
inductive Opening where
  | group (name : Option String) (rest : List Char)
  | flags (rest : List Char)

def groupName? (cs : List Char) : Option Opening :=
  let name := cs.takeWhile (· != '>')
  let isInner (c : Char) : Bool := c.isAlphanum || c == '_' || c == '.' || c == '[' || c == ']'
  match name, cs.dropWhile (· != '>') with
  | first :: more, _ :: rest =>
    if (first.isAlpha || first == '_') && more.all isInner then some (.group (some (String.ofList name)) rest)
    else none
  | _, _ => none

/-- Flags up to a parenthesis or a colon, each at most once, with at most one hyphen between them. -/
def flags? (cs : List Char) : Option Opening :=
  let isEnd (c : Char) : Bool := c == ')' || c == ':'
  let flags := cs.takeWhile fun c => !isEnd c
  let sound := flags.all ("imsUuRx-".toList.contains ·) && flags.all (fun c => flags.count c ≤ 1) &&
    flags.getLast? != some '-'
  match cs.dropWhile fun c => !isEnd c with
  | ':' :: rest => if sound then some (.group none rest) else none
  | _ :: rest => if sound && !flags.isEmpty then some (.flags rest) else none
  | [] => none

def opening? : List Char → Option Opening
  | '?' :: 'P' :: '<' :: cs => groupName? cs
  | '?' :: '<' :: cs => groupName? cs
  | '?' :: cs => flags? cs
  | cs => some (.group none cs)

/-- Whether a pattern is well formed from here on, inside `depth` groups, behind groups with `names`.
`item` tells whether something stands here that can be repeated. -/
def isSound : (fuel : Nat) → (depth : Nat) → (names : List String) → (item : Bool) → List Char → Bool
  | _, depth, _, _, [] => depth == 0
  | 0, _, _, _, _ => false
  | fuel + 1, depth, names, item, c :: cs =>
    match c with
    | '(' =>
      match opening? cs with
      | none => false
      | some (.flags rest) => isSound fuel depth names false rest
      | some (.group none rest) => isSound fuel (depth + 1) names false rest
      | some (.group (some name) rest) => !names.contains name && isSound fuel (depth + 1) (name :: names) false rest
    | ')' => depth != 0 && isSound fuel (depth - 1) names true cs
    | '|' => isSound fuel depth names false cs
    | '*' | '+' | '?' => item && isSound fuel depth names true cs
    | '\x7b' => false
    | '[' =>
      match class? (cs.length + 1) 0 (classStart cs) with
      | none => false
      | some rest => isSound fuel depth names true rest
    | '\\' =>
      match cs with
      | 'A' :: rest | 'z' :: rest => isSound fuel depth names true rest
      | cs =>
        match escaped? cs with
        | none => false
        | some (_, rest) => isSound fuel depth names true rest
    | _ => isSound fuel depth names true cs

/-- Whether a text is a pattern. -/
def isPattern (s : String) : Bool := isSound (s.length + 1) 0 [] false s.toList

end Lox.Command.Pattern
