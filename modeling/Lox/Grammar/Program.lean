import Lox.Grammar.Statement
import Lox.Token.Scan

/-!
# Programs

A program is a list of declarations up to the end of the input, which is the first end-of-input
token or, if there is none, the end of the list. It counts as read only if there was no complaint.
From source text, lexical errors come first and the tokens are read all the same, so that one
attempt shows all errors.
-/
namespace Lox

open Token (Kind)

namespace Grammar

/-- The tokens in front of the first end-of-input token, and the line of the end (`Parser.new`).
Where no such token marks the end, it is on the line of the last token. -/
def splitEnd (tokens : List Token) : List Token × Nat :=
  let front := tokens.takeWhile (·.kind != .eof)
  let line := match tokens.dropWhile (·.kind != .eof) with
    | t :: _ => t.line
    | [] => (tokens.getLast?.map (·.line)).getD 1
  (front, line)

/-- The error that a complaint amounts to, with the end of the input on line `endLine`
(`SyntaxError.at_token`). -/
def Blame.toError (endLine : Nat) (b : Blame) : SyntaxError :=
  match b.token with
  | none => ⟨endLine, .inputEnd, b.cause⟩
  | some t => ⟨t.line, .token t.lexeme, b.cause⟩

/-- What came of reading tokens to their end. The statements are those that could be read. -/
structure Reading where
  body : List Stmt
  blames : List Blame
  nextId : NodeId

/-- Reads declarations to the end of the input, numbering nodes from `firstId` on (the loop of
`Parser.parse`). -/
def read (tokens : List Token) (firstId : NodeId) : Reading :=
  let bound := 2 * tokens.length + 2
  match (declarations (fun _ => false) (declaration bound) bound #[]).run (.start tokens firstId) with
  | .ok body s => ⟨body, s.blames.toList, s.nextId⟩
  | .error blame s => ⟨[], (s.blames.push blame).toList, s.nextId⟩

end Grammar

/-- What came of reading a program: the program or the errors, and the next node identifier. -/
structure Parsed where
  program : Except (List SyntaxError) Program
  nextId : NodeId

namespace Program

/-- Reads a program from tokens, numbering its nodes from `firstId` on (`Parser.parse`). -/
def ofTokens (tokens : List Token) (firstId : NodeId) : Parsed :=
  let (front, endLine) := Grammar.splitEnd tokens
  let reading := Grammar.read front firstId
  if reading.blames.isEmpty then ⟨.ok reading.body, reading.nextId⟩
  else ⟨.error (reading.blames.map (·.toError endLine)), reading.nextId⟩

/-- Reads a program from source text, numbering its nodes from `firstId` on (`parse_source`). -/
def ofSource (source : String) (firstId : NodeId) : Parsed :=
  let (tokens, lexical) := scan source
  let parsed := ofTokens tokens firstId
  match lexical, parsed.program with
  | [], _ => parsed
  | _, .ok _ => ⟨.error lexical, parsed.nextId⟩
  | _, .error syntactic => ⟨.error (lexical ++ syntactic), parsed.nextId⟩

end Program
end Lox
