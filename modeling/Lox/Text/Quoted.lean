import Lox.Text.Printable

/-!
# Quoted text

A text between double quotes. A quote and a backslash get a backslash before them, tab, line feed,
carriage return and NUL have a letter or digit each, and the other unprintable characters are
written by their code in hexadecimal.
-/
namespace Lox.Text

/-- A character inside quotes. -/
def quoteChar : Char → List Char
  | '"' => ['\\', '"']
  | '\\' => ['\\', '\\']
  | '\n' => ['\\', 'n']
  | '\r' => ['\\', 'r']
  | '\t' => ['\\', 't']
  | c =>
    if c.toNat = 0 then ['\\', '0']
    else if isUnprintable c then '\\' :: 'u' :: '\x7b' :: (Nat.toDigits 16 c.toNat ++ ['\x7d'])
    else [c]

/-- A text between double quotes. -/
def quote (s : String) : String := String.ofList ('"' :: (s.toList.flatMap quoteChar ++ ['"']))

end Lox.Text
