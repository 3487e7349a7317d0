import Lox.Token.Piece

/-!
# From source text to tokens

Every lexeme among the pieces of a text becomes a token and every faulty piece an error, in the
order of the text. A token or error stands on the line that has been reached when its piece has been
read. Lines start from 1 and go up by what is counted while a piece is read. One end-of-input token
closes the list.
-/
namespace Lox

/-- What has been made of the pieces so far, and the line reached (`Scanner`). -/
structure Scan where
  line : Nat
  tokens : Array Token
  errors : Array SyntaxError

namespace Scan

def start : Scan := ⟨1, #[], #[]⟩

/-- Takes in one more piece (`Scanner.add_token`, `Scanner.error`). -/
def add (s : Scan) (p : Piece.Counted) : Scan :=
  let line := s.line + p.lines
  match p.form with
  | .lexeme kind literal =>
    { s with line, tokens := s.tokens.push ⟨kind, String.ofList p.text, literal, line⟩ }
  | .skipped => { s with line }
  | .faulty cause => { s with line, errors := s.errors.push ⟨line, .line, cause⟩ }

/-- The tokens with the closing one. -/
def close (s : Scan) : List Token := (s.tokens.push (.endOfInput s.line)).toList

end Scan

/-- Tokens and lexical errors of a text (`Scanner.scan_tokens`). -/
def scan (source : String) : List Token × List SyntaxError :=
  let s := (pieces source.toList).foldl Scan.add Scan.start
  (s.close, s.errors.toList)

end Lox
