import Lox.Proofs.Decimal.ReadBack
import Lox.Proofs.Session

/-!
# Printed values can be read

What `print` shows of a number, a string, a truth value or `nil` is source text for this value: a program that
prints it shows the same again. A string has to be put in quotes, and one that has a quote in it cannot be written
at all. A negative number is a minus and the literal of its magnitude, so it is computed and not read. That nothing
is lost on the way is clear for all but the numbers; for these it is `Decimal.read_numberText`, which needs no
assumption on how floats are written or read.

**Results.**
* `pieces_number`, `pieces_string`: literals are cut off in front of a semicolon.
* `Value.Writable.readsAs`: the text is read as an expression that has the value.
* `printed_value_reads_back`.
-/
namespace Lox

open Token (Kind)

/-! ## Values in source text -/

/-- The source text of a value: what `print` shows of it, in quotes if it is a string. -/
def Value.source : Value → String
  | .string s => "\"" ++ s ++ "\""
  | v => v.text

/-- The values that have a source text. -/
def Value.Writable : Value → Prop
  | .number x => x.isFinite = true
  | .string s => '"' ∉ s.toList
  | .boolean _ | .nil => True
  | .native _ | .function _ => False

instance : DecidablePred Value.Writable
  | .number x => inferInstanceAs (Decidable (x.isFinite = true))
  | .string s => inferInstanceAs (Decidable ('"' ∉ s.toList))
  | .boolean _ | .nil => .isTrue trivial
  | .native _ | .function _ => .isFalse id

/-! ## Pieces -/

namespace Piece

/-- A semicolon is a lexeme of its own. -/
theorem Lexical.eq_semicolon {text : List Char} (h : Lexical text) (hmem : ';' ∈ text) : text = [';'] := by
  have hletter : ¬ IsLetter ';' := by decide
  have hdigit : ¬ IsDigit ';' := by decide
  rcases h with hword | ⟨whole, fraction, hnumber⟩ | ⟨kind, hoperator⟩
  · cases text with
    | nil => exact hword.elim
    | cons c cs =>
      rcases List.mem_cons.1 hmem with rfl | hmem
      · exact absurd hword.1 hletter
      · exact ((hword.2 _ hmem).elim hletter hdigit).elim
  · cases hnumber with
    | plain hds => exact absurd (hds.2 _ hmem) hdigit
    | pointed hds hes =>
      rw [List.mem_append, List.mem_cons] at hmem
      rcases hmem with hmem | hmem | hmem
      · exact absurd (hds.2 _ hmem) hdigit
      · exact absurd hmem (by decide)
      · exact absurd (hes.2 _ hmem) hdigit
  · have htable : (operators.all fun p => !p.1.contains ';' || p.1 == [';']) = true := by decide
    have hentry := List.all_eq_true.1 htable _ hoperator
    simpa [hmem] using hentry

theorem longest_at_semicolon {text : List Char} (hne : text ≠ []) (rest : List Char) :
    Longest text (';' :: rest) := by
  intro longer hlexical hprefix
  apply Nat.le_of_not_lt
  intro hlt
  -- a longer lexeme would have the semicolon in it
  obtain ⟨more, rfl⟩ := List.prefix_of_prefix_length_le (List.prefix_append text _) hprefix (Nat.le_of_lt hlt)
  rw [List.prefix_append_right_inj] at hprefix
  cases more with
  | nil => simp at hlt
  | cons c more =>
    obtain ⟨behind, hbehind⟩ := hprefix
    cases hbehind
    have halone := hlexical.eq_semicolon (by simp)
    rw [List.append_eq_cons_iff] at halone
    simp [hne] at halone

end Piece

open Piece

theorem pieces_of_cut {p : Piece} {rest : List Char} (h : Cut p rest) :
    pieces (p.text ++ rest) = p.counted :: pieces rest := by
  rw [pieces_of_splits (.cons h (splits_pieces rest)), List.map_cons, ← pieces_of_splits (splits_pieces rest)]

/-- The pieces of a statement that prints something. -/
theorem pieces_print (text : String) : pieces ("print " ++ text ++ ";").toList =
    ⟨⟨.lexeme .kwPrint none, ['p', 'r', 'i', 'n', 't']⟩, 0⟩ :: ⟨⟨.skipped, [' ']⟩, 0⟩ ::
      pieces (text.toList ++ [';']) := by
  rw [String.toList_append, String.toList_append]
  change pieces ('p' :: 'r' :: 'i' :: 'n' :: 't' :: ' ' :: (text.toList ++ [';'])) = _
  rw [pieces_cons]
  change _ :: pieces (' ' :: (text.toList ++ [';'])) = _
  rw [pieces_cons]
  rfl

theorem pieces_semicolon : pieces [';'] = [⟨⟨.lexeme .semicolon none, [';']⟩, 0⟩] := by
  rw [pieces_cons]
  change [_] ++ pieces [] = _
  rw [pieces_nil]
  rfl

theorem pieces_number {whole fraction text : List Char} (h : IsNumber whole fraction text) :
    pieces (text ++ [';']) =
      [counted ⟨.lexeme .number (some (.number (Decimal.read whole fraction))), text⟩,
        ⟨⟨.lexeme .semicolon none, [';']⟩, 0⟩] := by
  have hcut : Cut _ [';'] := .number h (longest_at_semicolon h.ne_nil [])
  exact (pieces_of_cut hcut).trans (by rw [pieces_semicolon])

theorem pieces_minus (cs : List Char) : pieces ('-' :: cs) = ⟨⟨.lexeme .minus none, ['-']⟩, 0⟩ :: pieces cs := by
  rw [pieces_cons]
  rfl

theorem pieces_string {inner : List Char} (h : '"' ∉ inner) :
    pieces ('"' :: inner ++ ['"'] ++ [';']) =
      [counted ⟨.lexeme .string (some (.string (String.ofList inner))), '"' :: inner ++ ['"']⟩,
        ⟨⟨.lexeme .semicolon none, [';']⟩, 0⟩] := by
  have hcut : Cut _ [';'] := .string h
  exact (pieces_of_cut hcut).trans (by rw [pieces_semicolon])

theorem isWord_of_keyword {word : String} {kind : Kind} (h : (word, kind) ∈ Kind.keywords) : IsWord word.toList := by
  have htable : (Kind.keywords.all fun p =>
      p.1.toList.head?.any isWordStart && p.1.toList.all isWordPart) = true := by decide
  have hentry := List.all_eq_true.1 htable _ h
  rw [Bool.and_eq_true, List.all_eq_true] at hentry
  cases hword : word.toList with
  | nil => simp [hword] at hentry
  | cons c cs =>
    simp only [hword, List.head?_cons, Option.any_some, List.forall_mem_cons] at hentry
    exact ⟨isWordStart_iff.1 hentry.1, fun d hd => isWordPart_iff.1 (hentry.2.2 d hd)⟩

theorem pieces_keyword {word : String} {kind : Kind} (h : (word, kind) ∈ Kind.keywords) :
    pieces (word.toList ++ [';']) =
      [counted ⟨.lexeme kind none, word.toList⟩, ⟨⟨.lexeme .semicolon none, [';']⟩, 0⟩] := by
  have hword := isWord_of_keyword h
  have hne : word.toList ≠ [] := by
    intro hnil
    rw [hnil] at hword
    exact hword
  have hcut : Cut _ [';'] := .word hword (longest_at_semicolon hne []) (.inl (by rwa [String.ofList_toList]))
  exact (pieces_of_cut hcut).trans (by rw [pieces_semicolon])

/-! ## Programs -/

/-- Tokens that are literals, and the values that they stand for. -/
inductive Token.Denotes : Kind → Option Literal → Literal → Prop where
  | number (x : Float) : Denotes .number (some (.number x)) (.number x)
  | string (s : String) : Denotes .string (some (.string s)) (.string s)
  | true : Denotes .kwTrue none (.boolean true)
  | false : Denotes .kwFalse none (.boolean false)
  | nil : Denotes .kwNil none .nil

/-- A statement that prints the text is read as one that prints an expression, and the expression has the value. -/
def ReadsAs (text : String) (v : Value) : Prop :=
  ∀ firstId, ∃ id e, (Program.ofSource ("print " ++ text ++ ";") firstId).program = .ok [.print id e] ∧
    ∀ cfg fuel frame m, (evalExpr cfg (fuel + 2) frame e).run m = .ok v m

section
variable {text : String}

theorem readsAs_literal {kind : Kind} {literal : Option Literal} {l : Literal} (hl : Token.Denotes kind literal l)
    (hpieces : pieces (text.toList ++ [';']) =
      [counted ⟨.lexeme kind literal, text.toList⟩, ⟨⟨.lexeme .semicolon none, [';']⟩, 0⟩]) :
    ReadsAs text (.ofLiteral l) := by
  intro firstId
  refine ⟨firstId + 1, .literal firstId l, ?_, fun _ _ _ _ => rfl⟩
  unfold Program.ofSource scan
  rw [pieces_print, hpieces]
  cases hl <;> rfl

theorem readsAs_minus {x : Float} {digits : List Char} (hpieces : pieces (text.toList ++ [';']) =
      [⟨⟨.lexeme .minus none, ['-']⟩, 0⟩, counted ⟨.lexeme .number (some (.number x)), digits⟩,
        ⟨⟨.lexeme .semicolon none, [';']⟩, 0⟩]) : ReadsAs text (.number (-x)) := by
  intro firstId
  refine ⟨firstId + 2, .unary (firstId + 1) ⟨.minus, "-", none, 1⟩ (.literal firstId (.number x)), ?_,
    fun _ _ _ _ => rfl⟩
  unfold Program.ofSource scan
  rw [pieces_print, hpieces]
  rfl

end

/-- A value is read from its source text. -/
theorem Value.Writable.readsAs {v : Value} (hv : v.Writable) : ReadsAs v.source v := by
  cases v with
  | number x =>
    obtain ⟨whole, fraction, text, hnumber, ⟨htext, rfl⟩ | ⟨htext, rfl⟩⟩ := Decimal.read_numberText hv
    · have hpieces := pieces_number hnumber
      rw [← htext] at hpieces
      exact readsAs_literal (.number _) hpieces
    · have hpieces := pieces_minus (text ++ [';'])
      rw [pieces_number hnumber, ← List.cons_append, ← htext] at hpieces
      exact readsAs_minus hpieces
  | string s =>
    have hquoted : (Value.string s).source.toList = '"' :: s.toList ++ ['"'] := by
      rw [source, String.toList_append, String.toList_append]
      rfl
    have hpieces := pieces_string hv
    rw [← hquoted, String.ofList_toList] at hpieces
    exact readsAs_literal (.string s) hpieces
  | boolean b =>
    cases b with
    | true => exact readsAs_literal .true (pieces_keyword (by decide))
    | false => exact readsAs_literal .false (pieces_keyword (by decide))
  | nil => exact readsAs_literal .nil (pieces_keyword (by decide))
  | native | function => exact hv.elim

/-- Printing what was printed prints it again, in any session and whatever has been run in it. The run completes and
does nothing else. -/
theorem printed_value_reads_back (cfg : Config) (fuel : Nat) (s : Session) {v : Value} (hv : v.Writable) :
    s.run cfg (fuel + 3) ("print " ++ v.source ++ ";") =
      (.completed, ⟨{ s.machine with printed := s.machine.printed.push v.text }⟩) := by
  obtain ⟨id, e, hprogram, heval⟩ := hv.readsAs 0
  have hprint : (evalProgram cfg (fuel + 3) [.print id e]).run s.machine =
      .ok () { s.machine with printed := s.machine.printed.push v.text } := by
    rw [evalProgram, Deep.run_bind, evalStmt, Deep.run_later, Eval.stmtStep, Deep.run_bind, heval]
    rfl
  rw [Session.run_of_program hprogram, Session.runProgram_eq, hprint]
  rfl

theorem printed_value_reads_back_negative_zero :
    (Value.number (-0.0)).Writable ∧ (Value.number (-0.0)).text = "-0" ∧
      Session.initial.run ⟨8, fun _ => 0⟩ 3 "print -0;" = (.completed, ⟨⟨.initial, 0, 0, #["-0"]⟩⟩) := by
  have hwritable : (Value.number (-0.0)).Writable := by decide +kernel
  have htext : (Value.number (-0.0)).text = "-0" := by decide +kernel
  have hrun := printed_value_reads_back ⟨8, fun _ => 0⟩ 0 .initial hwritable
  rw [show (Value.number (-0.0)).source = "-0" from htext, htext] at hrun
  exact ⟨hwritable, htext, hrun⟩

end Lox
