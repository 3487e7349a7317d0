import Lox.SyntaxError
import Lox.Token.Basic

/-!
# Pieces of source text

Source text falls into pieces: lexemes, single blanks, comments, and faulty pieces. `Piece.first`
cuts the first piece off a nonempty text by looking at its first one or two characters and then
taking the longest run that belongs to it; `pieces` repeats this to the end.

Line feeds are counted while pieces are read, and in three places: a line feed between lexemes where
it is skipped, one in a string by the loop that looks for the closing quote, and one in a block
comment by the loop that looks for the closing mark. A line comment ends in front of its line feed
and counts none.

Results: `first_append` (a piece and the rest are the text it was cut from), `first_ne_nil` (no
piece is empty), `first_lines` (the three places together count the line feeds of a piece),
`pieces_cons` (the pieces of a text, one by one).
-/
namespace Lox

/-- What a piece of text is. -/
inductive Piece.Form where
  | lexeme (kind : Token.Kind) (literal : Option Literal)
  | skipped
  | faulty (cause : SyntaxError.Cause)

/-- A piece of source text and what it is. -/
structure Piece where
  form : Piece.Form
  text : List Char

/-- A piece, and how many line feeds were counted while it was read. -/
structure Piece.Counted extends Piece where
  lines : Nat

namespace Piece

/-- Blanks that end no line: space, tab and carriage return. -/
def isBlank (c : Char) : Bool := c == ' ' || c == '\t' || c == '\r'

/-- Characters that start a word (`is_alpha`). -/
def isWordStart (c : Char) : Bool := c.isAlpha || c == '_'

/-- Characters that go on with a word (`is_alphanumeric`). -/
def isWordPart (c : Char) : Bool := isWordStart c || c.isDigit

/-- The lexemes of one character that no longer lexeme starts with. -/
def single? : Char → Option Token.Kind
  | '(' => some .leftParen
  | ')' => some .rightParen
  | '\x7b' => some .leftBrace
  | '\x7d' => some .rightBrace
  | ',' => some .comma
  | '.' => some .dot
  | '-' => some .minus
  | '+' => some .plus
  | ';' => some .semicolon
  | '*' => some .star
  | _ => none

/-- The lexemes of one character that an equal sign may follow, alone and with it. -/
def double? : Char → Option (Token.Kind × Token.Kind)
  | '!' => some (.bang, .bangEqual)
  | '=' => some (.equal, .equalEqual)
  | '<' => some (.less, .lessEqual)
  | '>' => some (.greater, .greaterEqual)
  | _ => none

/-- How far a block comment reaches, and whether it is closed there. -/
structure Comment where
  closed : Bool
  text : List Char
  lines : Nat
  rest : List Char

/-- Reads a text to just behind the mark that closes the last of `depth` open block comments, or to
its end if nothing does. `seen` holds the characters before the text, last one first, and `lines`
the line feeds counted so far (the loop of `Scanner.block_comment`). -/
def closeComment : (depth lines : Nat) → (seen : List Char) → List Char → Comment
  | 0, lines, seen, cs => ⟨true, seen.reverse, lines, cs⟩
  | _ + 1, lines, seen, [] => ⟨false, seen.reverse, lines, []⟩
  | d + 1, lines, seen, '*' :: '/' :: cs => closeComment d lines ('/' :: '*' :: seen) cs
  | d + 1, lines, seen, '/' :: '*' :: cs => closeComment (d + 2) lines ('*' :: '/' :: seen) cs
  | d + 1, lines, seen, '\n' :: cs => closeComment (d + 1) (lines + 1) ('\n' :: seen) cs
  | d + 1, lines, seen, c :: cs => closeComment (d + 1) lines (c :: seen) cs

/-- A piece made of `c` and the longest run of characters that satisfy `p`. -/
def run (p : Char → Bool) (form : List Char → Form) (c : Char) (cs : List Char) : Counted × List Char :=
  let text := c :: cs.takeWhile p
  (⟨⟨form text, text⟩, 0⟩, cs.dropWhile p)

/-- The block comment opened by `/` and `*`, with `cs` behind them (`Scanner.block_comment`). -/
def blockComment (cs : List Char) : Counted × List Char :=
  let comment := closeComment 1 0 ['*', '/'] cs
  let form := if comment.closed then .skipped else .faulty .unterminatedComment
  (⟨⟨form, comment.text⟩, comment.lines⟩, comment.rest)

/-- Reads a text up to the next quote, or to its end if there is none, and gives what stands before
the quote and the rest. `seen` and `lines` are as for comments (the loop of `Scanner.string`). -/
def untilQuote : (lines : Nat) → (seen : List Char) → List Char → List Char × Nat × List Char
  | lines, seen, [] => (seen.reverse, lines, [])
  | lines, seen, c :: cs =>
    if c = '"' then (seen.reverse, lines, c :: cs)
    else untilQuote (if c = '\n' then lines + 1 else lines) (c :: seen) cs

/-- The string opened by a quote, with `cs` behind it. Its value is what stands between the quotes,
unchanged (`Scanner.string`). -/
def quoted (cs : List Char) : Counted × List Char :=
  match untilQuote 0 [] cs with
  | (inner, lines, []) => (⟨⟨.faulty .unterminatedString, '"' :: inner⟩, lines⟩, [])
  | (inner, lines, q :: rest) =>
    (⟨⟨.lexeme .string (some (.string (String.ofList inner))), '"' :: inner ++ [q]⟩, lines⟩, rest)

/-- The number that starts with the digit `c`. A point belongs to it only before a digit
(`Scanner.number`). -/
def numeral (c : Char) (cs : List Char) : Counted × List Char :=
  let whole := c :: cs.takeWhile Char.isDigit
  let plain : Counted := ⟨⟨.lexeme .number (some (.number (Decimal.read whole []))), whole⟩, 0⟩
  match cs.dropWhile Char.isDigit with
  | '.' :: d :: more =>
    if d.isDigit then
      let fraction := d :: more.takeWhile Char.isDigit
      (⟨⟨.lexeme .number (some (.number (Decimal.read whole fraction))), whole ++ '.' :: fraction⟩, 0⟩,
        more.dropWhile Char.isDigit)
    else (plain, '.' :: d :: more)
  | rest => (plain, rest)

/-- A keyword or an identifier (`Scanner.identifier`). -/
def wordForm (text : List Char) : Form :=
  .lexeme ((Token.Kind.keyword? (String.ofList text)).getD .identifier) none

/-- Cuts the first piece off the text `c :: cs` (`Scanner.scan_token`). -/
def first (c : Char) (cs : List Char) : Counted × List Char :=
  match single? c, double? c with
  | some kind, _ => (⟨⟨.lexeme kind none, [c]⟩, 0⟩, cs)
  | none, some (alone, withEqual) =>
    match cs with
    | '=' :: rest => (⟨⟨.lexeme withEqual none, [c, '=']⟩, 0⟩, rest)
    | _ => (⟨⟨.lexeme alone none, [c]⟩, 0⟩, cs)
  | none, none =>
    if c = '/' then
      match cs with
      | '/' :: rest => run (· != '\n') (fun _ => .skipped) c ('/' :: rest)
      | '*' :: rest => blockComment rest
      | _ => (⟨⟨.lexeme .slash none, [c]⟩, 0⟩, cs)
    else if c = '"' then quoted cs
    else if isBlank c then (⟨⟨.skipped, [c]⟩, 0⟩, cs)
    else if c = '\n' then (⟨⟨.skipped, [c]⟩, 1⟩, cs)
    else if c.isDigit then numeral c cs
    else if isWordStart c then run isWordPart wordForm c cs
    else (⟨⟨.faulty .unexpectedCharacter, [c]⟩, 0⟩, cs)

/-- A character that is part of no mark is read alone. -/
theorem closeComment_other {c : Char} {cs : List Char} (d lines : Nat) (seen : List Char)
    (hclose : ∀ more, c = '*' → cs = '/' :: more → False) (hopen : ∀ more, c = '/' → cs = '*' :: more → False) :
    closeComment (d + 1) lines seen (c :: cs) =
      closeComment (d + 1) (lines + [c].count '\n') (c :: seen) cs := by
  by_cases hc : c = '\n'
  · subst hc
    rw [closeComment]
    rfl
  · have hzero : [c].count '\n' = 0 := by simp [hc]
    rw [hzero, Nat.add_zero lines, closeComment]
    · exact hclose
    · exact hopen
    · exact hc

theorem closeComment_append (d lines : Nat) (seen cs : List Char) :
    (closeComment d lines seen cs).text ++ (closeComment d lines seen cs).rest = seen.reverse ++ cs := by
  fun_induction closeComment d lines seen cs with
  | case1 => rfl
  | case2 => rfl
  | case3 d lines seen cs ih => simpa using ih
  | case4 d lines seen cs ih => simpa using ih
  | case5 d lines seen cs ih => simpa using ih
  | case6 d lines seen c cs _ _ _ ih => simpa using ih

/-- The loop counts the line feeds that it passes. -/
theorem closeComment_lines (d lines : Nat) (seen cs : List Char) :
    (closeComment d lines seen cs).lines + seen.count '\n' =
      lines + (closeComment d lines seen cs).text.count '\n' := by
  fun_induction closeComment d lines seen cs with
  | case1 => simp
  | case2 => simp
  | case3 d lines seen cs ih => simpa [List.count_cons] using ih
  | case4 d lines seen cs ih => simpa [List.count_cons] using ih
  | case5 d lines seen cs ih =>
    rw [List.count_cons_self] at ih
    omega
  | case6 d lines seen c cs _ _ hc ih =>
    have hne : c ≠ '\n' := hc
    rwa [List.count_cons_of_ne hne] at ih

theorem untilQuote_eq (lines : Nat) (seen cs : List Char) :
    untilQuote lines seen cs = (seen.reverse ++ cs.takeWhile (· != '"'),
      lines + (cs.takeWhile (· != '"')).count '\n', cs.dropWhile (· != '"')) := by
  fun_induction untilQuote lines seen cs with
  | case1 => simp
  | case2 lines seen cs => simp
  | case3 lines seen c cs hc ih =>
    rw [ih]
    by_cases hn : c = '\n'
    · subst hn
      simp [Nat.add_assoc, Nat.add_comm 1]
    · simp [hc, hn]

section
variable {cs : List Char}

theorem quoted_of_dropWhile_nil (h : cs.dropWhile (· != '"') = []) :
    quoted cs = (⟨⟨.faulty .unterminatedString, '"' :: cs.takeWhile (· != '"')⟩,
      (cs.takeWhile (· != '"')).count '\n'⟩, []) := by
  rw [quoted, untilQuote_eq, h]
  simp

theorem quoted_of_dropWhile_cons {q : Char} {rest : List Char} (h : cs.dropWhile (· != '"') = q :: rest) :
    quoted cs = (⟨⟨.lexeme .string (some (.string (String.ofList (cs.takeWhile (· != '"'))))),
      '"' :: cs.takeWhile (· != '"') ++ [q]⟩, (cs.takeWhile (· != '"')).count '\n'⟩, rest) := by
  rw [quoted, untilQuote_eq, h]
  simp

end

theorem run_append (p : Char → Bool) (form : List Char → Form) (c : Char) (cs : List Char) :
    (run p form c cs).1.text ++ (run p form c cs).2 = c :: cs := by
  simp [run, List.takeWhile_append_dropWhile]

theorem blockComment_append (cs : List Char) :
    (blockComment cs).1.text ++ (blockComment cs).2 = '/' :: '*' :: cs :=
  closeComment_append 1 0 ['*', '/'] cs

theorem quoted_append (cs : List Char) : (quoted cs).1.text ++ (quoted cs).2 = '"' :: cs := by
  have h := List.takeWhile_append_dropWhile (p := (· != '"')) (l := cs)
  cases hrest : cs.dropWhile (· != '"') with
  | nil =>
    rw [quoted_of_dropWhile_nil hrest]
    rw [hrest] at h
    simpa using h
  | cons q rest =>
    rw [quoted_of_dropWhile_cons hrest]
    rw [hrest] at h
    simpa using h

theorem numeral_append (c : Char) (cs : List Char) :
    (numeral c cs).1.text ++ (numeral c cs).2 = c :: cs := by
  have h := List.takeWhile_append_dropWhile (p := Char.isDigit) (l := cs)
  unfold numeral
  split
  · next d more e =>
    have h' := List.takeWhile_append_dropWhile (p := Char.isDigit) (l := more)
    rw [e] at h
    split
    · simp [h', h]
    · simpa using h
  · simp

/-- A piece and the rest are the text that the piece was cut from. -/
theorem first_append (c : Char) (cs : List Char) : (first c cs).1.text ++ (first c cs).2 = c :: cs := by
  unfold first
  split
  · rfl
  · split <;> rfl
  · split
    · next hc =>
      subst hc
      split
      · exact run_append _ _ _ _
      · exact blockComment_append _
      · rfl
    · split
      · next hc => subst hc; exact quoted_append cs
      · split
        · rfl
        · split
          · rfl
          · split
            · exact numeral_append c cs
            · split
              · exact run_append _ _ _ _
              · rfl

theorem closeComment_length (d lines : Nat) (seen cs : List Char) :
    seen.length ≤ (closeComment d lines seen cs).text.length := by
  fun_induction closeComment d lines seen cs with
  | case1 => simp
  | case2 => simp
  | case3 d lines seen cs ih => simp only [List.length_cons] at ih; omega
  | case4 d lines seen cs ih => simp only [List.length_cons] at ih; omega
  | case5 d lines seen cs ih => simp only [List.length_cons] at ih; omega
  | case6 d lines seen c cs _ _ _ ih => simp only [List.length_cons] at ih; omega

theorem blockComment_ne_nil (cs : List Char) : (blockComment cs).1.text ≠ [] := by
  have hlength : 2 ≤ (blockComment cs).1.text.length := closeComment_length 1 0 ['*', '/'] cs
  intro h
  rw [h] at hlength
  cases hlength

theorem quoted_ne_nil (cs : List Char) : (quoted cs).1.text ≠ [] := by
  unfold quoted; split <;> simp

theorem numeral_ne_nil (c : Char) (cs : List Char) : (numeral c cs).1.text ≠ [] := by
  unfold numeral
  split
  · split <;> simp
  · simp

/-- No piece is empty. -/
theorem first_ne_nil (c : Char) (cs : List Char) : (first c cs).1.text ≠ [] := by
  unfold first
  repeat' split
  all_goals first
    | exact blockComment_ne_nil _
    | exact quoted_ne_nil _
    | exact numeral_ne_nil _ _
    | simp [run]

/-! ## Line feeds -/

theorem run_lines {p : Char → Bool} (hp : p '\n' = false) (form : List Char → Form) {c : Char} (hc : c ≠ '\n')
    (cs : List Char) : (run p form c cs).1.lines = (run p form c cs).1.text.count '\n' := by
  have hnone : '\n' ∉ cs.takeWhile p := by
    intro hmem
    have hall := List.all_eq_true.1 (List.all_takeWhile (p := p) (l := cs)) _ hmem
    rw [hp] at hall
    cases hall
  have hcount : (c :: cs.takeWhile p).count '\n' = 0 := by
    rw [List.count_cons_of_ne hc, List.count_eq_zero.2 hnone]
  exact hcount.symm

theorem blockComment_lines (cs : List Char) :
    (blockComment cs).1.lines = (blockComment cs).1.text.count '\n' := by
  have h := closeComment_lines 1 0 ['*', '/'] cs
  rw [Nat.zero_add] at h
  exact h

theorem quoted_lines (cs : List Char) : (quoted cs).1.lines = (quoted cs).1.text.count '\n' := by
  cases hrest : cs.dropWhile (· != '"') with
  | nil =>
    rw [quoted_of_dropWhile_nil hrest]
    simp
  | cons q rest =>
    have hq : (q != '"') = false := by
      have hhead := List.head?_dropWhile_not (· != '"') cs
      rw [hrest] at hhead
      exact hhead
    obtain rfl : q = '"' := by simpa using hq
    rw [quoted_of_dropWhile_cons hrest]
    simp

theorem numeral_lines {c : Char} (hc : c.isDigit = true) (cs : List Char) :
    (numeral c cs).1.lines = (numeral c cs).1.text.count '\n' := by
  have hdigits (ds : List Char) : '\n' ∉ ds.takeWhile Char.isDigit := by
    intro hmem
    have hall := List.all_eq_true.1 (List.all_takeWhile (p := Char.isDigit) (l := ds)) _ hmem
    cases hall
  have hne {d : Char} (hd : d.isDigit = true) : d ≠ '\n' := by
    rintro rfl
    cases hd
  unfold numeral
  split
  · next d more _ =>
    split
    · next hd => simp [List.count_eq_zero.2 (hdigits cs), List.count_eq_zero.2 (hdigits more), hne hc, hne hd]
    · simp [List.count_eq_zero.2 (hdigits cs), hne hc]
  · simp [List.count_eq_zero.2 (hdigits cs), hne hc]

/-- While a piece is read, each of its line feeds is counted once, and nothing else is. -/
theorem first_lines (c : Char) (cs : List Char) : (first c cs).1.lines = (first c cs).1.text.count '\n' := by
  unfold first
  split
  · next hkind =>
    have hc : c ≠ '\n' := by
      rintro rfl
      cases hkind
    simp [hc]
  · next hkinds =>
    have hc : c ≠ '\n' := by
      rintro rfl
      cases hkinds
    split <;> simp [hc]
  · split
    · next hc =>
      subst hc
      split
      · exact run_lines rfl _ (by decide) _
      · exact blockComment_lines _
      · rfl
    · split
      · exact quoted_lines cs
      · split
        · next hblank =>
          have hc : c ≠ '\n' := by
            rintro rfl
            cases hblank
          simp [hc]
        · split
          · next hc =>
            subst hc
            rfl
          · next hc =>
            split
            · next hdigit => exact numeral_lines hdigit cs
            · split
              · exact run_lines rfl _ hc cs
              · simp [hc]

/-- Cutting off a piece leaves less text. -/
theorem length_rest_lt (c : Char) (cs : List Char) : (first c cs).2.length < cs.length + 1 := by
  have h := congrArg List.length (first_append c cs)
  have := List.length_pos_iff.2 (first_ne_nil c cs)
  simp only [List.length_append, List.length_cons] at h
  omega

end Piece

/-- The pieces of a text behind those already found, which are held last one first. -/
def piecesFrom (found : List Piece.Counted) (cs : List Char) : List Piece.Counted :=
  match cs with
  | [] => found.reverse
  | c :: cs =>
    let cut := Piece.first c cs
    piecesFrom (cut.1 :: found) cut.2
termination_by cs.length
decreasing_by exact Piece.length_rest_lt c cs

/-- The pieces of a text, as they are read one after the other (the loop of `Scanner.scan_tokens`). -/
def pieces (cs : List Char) : List Piece.Counted := piecesFrom [] cs

theorem piecesFrom_eq (found : List Piece.Counted) (cs : List Char) :
    piecesFrom found cs = found.reverse ++ pieces cs := by
  suffices h : ∀ n, ∀ cs : List Char, cs.length ≤ n → ∀ found,
      piecesFrom found cs = found.reverse ++ piecesFrom [] cs from h _ _ (Nat.le_refl _) _
  intro n
  induction n with
  | zero =>
    intro cs hn found
    rw [List.eq_nil_of_length_eq_zero (Nat.le_zero.1 hn)]
    simp [piecesFrom]
  | succ n ih =>
    intro cs hn found
    match cs with
    | [] => simp [piecesFrom]
    | c :: cs =>
      have := Piece.length_rest_lt c cs
      simp only [List.length_cons] at hn
      rw [piecesFrom, piecesFrom, ih _ (by omega), ih _ (by omega) [_]]
      simp

@[simp] theorem pieces_nil : pieces [] = [] := by simp [pieces, piecesFrom]

theorem pieces_cons (c : Char) (cs : List Char) :
    pieces (c :: cs) = (Piece.first c cs).1 :: pieces (Piece.first c cs).2 := by
  rw [pieces, piecesFrom, piecesFrom_eq]; rfl

end Lox
