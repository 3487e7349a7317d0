import Lox.Deep
import Lox.SyntaxError
import Lox.Tree.Basic

/-!
# Reading tokens

A reader works through a list of tokens from the front. Its state holds the tokens not yet taken,
how many were taken, the next node identifier and the complaints made so far. A reader may give up
with a complaint; what it took until then stays taken, and the complaints and identifiers of its
parts stay made.

The end of the input is the end of the list: end-of-input tokens do not occur in it.
-/
namespace Lox.Grammar

open Token (Kind)

/-- A complaint about the token at a position, or about the end of the input. -/
structure Blame where
  position : Nat
  token : Option Token
  cause : SyntaxError.Cause

/-- How far reading has come (`Parser`). -/
structure State where
  rest : List Token
  position : Nat
  nextId : NodeId
  blames : Array Blame

abbrev Reader := Deep Blame State

namespace State

/-- The state in front of `tokens`, with nodes numbered from `firstId` on. -/
def start (tokens : List Token) (firstId : NodeId) : State := ⟨tokens, 0, firstId, #[]⟩

/-- The state behind the first of the remaining tokens. -/
def behind (s : State) (rest : List Token) : State := { s with rest, position := s.position + 1 }

/-- A complaint about the next token. -/
def blame (s : State) (cause : SyntaxError.Cause) : Blame := ⟨s.position, s.rest.head?, cause⟩

end State

/-- Gives up with a complaint about the next token. -/
def fail {α : Type} (cause : SyntaxError.Cause) : Reader α := .of fun s => .error (s.blame cause) s

/-- The next token, if there is one. -/
def next? : Reader (Option Token) := .of fun s => .ok s.rest.head? s

/-- The kind of the next token (`Parser.peek`). -/
def nextKind : Reader Kind := .of fun s =>
  match s.rest with
  | [] => .ok .eof s
  | t :: _ => .ok t.kind s

/-- Takes the next token if its kind is wanted (`Parser.match_`). -/
def accept (wanted : Kind → Bool) : Reader (Option Token) := .of fun s =>
  match s.rest with
  | [] => .ok none s
  | t :: rest => if wanted t.kind then .ok (some t) (s.behind rest) else .ok none s

/-- Takes a token of the given kind (`Parser.consume`). -/
def expect (kind : Kind) (what : SyntaxError.Expected) : Reader Token := .of fun s =>
  match s.rest with
  | [] => .error (s.blame (.expected what)) s
  | t :: rest => if t.kind = kind then .ok t (s.behind rest) else .error (s.blame (.expected what)) s

/-- A complaint about the token that was taken last. -/
def blameTaken (t : Token) (cause : SyntaxError.Cause) : Reader Blame := .of fun s =>
  .ok ⟨s.position - 1, some t, cause⟩ s

/-- Makes a complaint and goes on (`Parser.report`). -/
def complain (b : Blame) : Reader Unit := .of fun s => .ok () { s with blames := s.blames.push b }

/-- Builds a node with the next identifier (`NodeId.next`). -/
def node {α : Type} (build : NodeId → α) : Reader α := .of fun s =>
  .ok (build s.nextId) { s with nextId := s.nextId + 1 }

/-- At least one item, with commas between them. `bound` limits their number. -/
def commaSeparated {α : Type} (item : Reader α) : (bound : Nat) → Array α → Reader (List α)
  | 0, _ => fail (.expected .expression)
  | bound + 1, done => do
    let a ← item
    match ← accept (· == .comma) with
    | some _ => do
      Deep.pause
      commaSeparated item bound (done.push a)
    | none => return (done.push a).toList

/-- Comma-separated items before a closing parenthesis, or none at all (`Parser.parse_function`,
`Parser.finish_call`). -/
def parenthesized {α : Type} (item : Reader α) (bound : Nat) : Reader (List α) := do
  match ← nextKind with
  | .rightParen => return []
  | _ => commaSeparated item bound #[]

end Lox.Grammar
