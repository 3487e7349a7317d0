import Lox.Token.Scan

/-!
# Texts below each other

A line feed ends every piece of text that has nothing faulty in it. So the pieces of two texts, one below
the other, are those of the first, the line feed, and those of the second. The only pieces that could
reach over the line feed are strings and comments that are not closed, and these are faulty.

Tokens stand on lines, which are counted on from the first text to the second: the tokens of the second
text are those that it has alone, moved down by the line feeds of the first one (`totalLines_pieces`).

**Results.**
* `pieces_below`: the pieces of a text that something stands below.
* `scan_eq_nil_iff`, `scan_tokens`: errors and tokens of a text by its pieces.
* `pieces_stack`: the tokens of texts below each other.
-/
namespace Lox

/-- The piece is an error. -/
def Piece.isFaulty (p : Piece) : Bool :=
  match p.form with
  | .faulty _ => true
  | _ => false

/-- The piece that a line feed is. -/
def Piece.Counted.lineFeed : Piece.Counted := ⟨⟨.skipped, ['\n']⟩, 1⟩

/-! ## Pieces -/

section
variable {p : Char → Bool} (hp : p '\n' = false) (cs rest : List Char)
include hp

/-- A run that no line feed belongs to ends there. -/
theorem takeWhile_below : (cs ++ '\n' :: rest).takeWhile p = cs.takeWhile p := by
  induction cs with
  | nil => simp [hp]
  | cons c cs ih => simp only [List.cons_append, List.takeWhile_cons, ih]

@[inherit_doc takeWhile_below]
theorem dropWhile_below : (cs ++ '\n' :: rest).dropWhile p = cs.dropWhile p ++ '\n' :: rest := by
  induction cs with
  | nil => simp [hp]
  | cons c cs ih =>
    simp only [List.cons_append, List.dropWhile_cons, ih]
    split <;> rfl

end

namespace Piece

variable {c : Char} {cs rest : List Char}

theorem run_below {p : Char → Bool} (hp : p '\n' = false) (form : List Char → Form) (c : Char)
    (cs rest : List Char) :
    run p form c (cs ++ '\n' :: rest) = ((run p form c cs).1, (run p form c cs).2 ++ '\n' :: rest) := by
  simp only [run, takeWhile_below hp, dropWhile_below hp]

theorem closeComment_below {d lines : Nat} {seen : List Char} (more : List Char)
    (h : (closeComment d lines seen cs).closed = true) :
    closeComment d lines seen (cs ++ more) =
      { closeComment d lines seen cs with rest := (closeComment d lines seen cs).rest ++ more } := by
  fun_induction closeComment d lines seen cs with
  | case1 => rw [closeComment]
  | case2 => cases h
  | case3 d lines seen cs ih => exact ih h
  | case4 d lines seen cs ih => exact ih h
  | case5 d lines seen cs ih => exact ih h
  | case6 d lines seen c cs hclose hopen hfeed ih =>
    -- behind the last character nothing can be closed any more, so there are others
    cases cs with
    | nil => simp [closeComment] at h
    | cons c' cs =>
      rw [List.cons_append, closeComment]
      · exact ih h
      · intro cs' hc hcs
        cases hcs
        exact hclose cs hc rfl
      · intro cs' hc hcs
        cases hcs
        exact hopen cs hc rfl
      · exact hfeed

theorem blockComment_below (h : (blockComment cs).1.isFaulty = false) :
    blockComment (cs ++ rest) = ((blockComment cs).1, (blockComment cs).2 ++ rest) := by
  have hclosed : (closeComment 1 0 ['*', '/'] cs).closed = true := by
    cases hopen : (closeComment 1 0 ['*', '/'] cs).closed with
    | true => rfl
    | false => simp [blockComment, isFaulty, hopen] at h
  simp only [blockComment, closeComment_below rest hclosed]

theorem quoted_below (h : (quoted cs).1.isFaulty = false) :
    quoted (cs ++ rest) = ((quoted cs).1, (quoted cs).2 ++ rest) := by
  cases hclose : cs.dropWhile (· != '"') with
  | nil =>
    rw [quoted_of_dropWhile_nil hclose] at h
    cases h
  | cons q left =>
    have hdrop : (cs ++ rest).dropWhile (· != '"') = q :: (left ++ rest) := by
      rw [List.dropWhile_append, hclose]
      rfl
    have htake : (cs ++ rest).takeWhile (· != '"') = cs.takeWhile (· != '"') := by
      rw [List.takeWhile_append, if_neg]
      intro hlength
      have hall := congrArg List.length (List.takeWhile_append_dropWhile (p := (· != '"')) (l := cs))
      rw [List.length_append, hlength, hclose] at hall
      simp at hall
    rw [quoted_of_dropWhile_cons hclose, quoted_of_dropWhile_cons hdrop, htake]

/-- A number with a point in it. -/
theorem numeral_fraction {d : Char} {more : List Char} (h : cs.dropWhile Char.isDigit = '.' :: d :: more)
    (hd : d.isDigit = true) :
    numeral c cs = (⟨⟨.lexeme .number (some (.number (Decimal.read (c :: cs.takeWhile Char.isDigit)
      (d :: more.takeWhile Char.isDigit)))),
      c :: cs.takeWhile Char.isDigit ++ '.' :: d :: more.takeWhile Char.isDigit⟩, 0⟩,
      more.dropWhile Char.isDigit) := by
  unfold numeral
  rw [h]
  simp only [hd, if_true]

/-- A number without a point. -/
theorem numeral_whole (h : ∀ d more, cs.dropWhile Char.isDigit = '.' :: d :: more → d.isDigit = false) :
    numeral c cs = (⟨⟨.lexeme .number (some (.number (Decimal.read (c :: cs.takeWhile Char.isDigit) []))),
      c :: cs.takeWhile Char.isDigit⟩, 0⟩, cs.dropWhile Char.isDigit) := by
  unfold numeral
  generalize cs.dropWhile Char.isDigit = left at h ⊢
  split
  · simp only [h _ _ rfl, Bool.false_eq_true, if_false]
  · rfl

theorem numeral_below :
    numeral c (cs ++ '\n' :: rest) = ((numeral c cs).1, (numeral c cs).2 ++ '\n' :: rest) := by
  have htake := takeWhile_below (p := Char.isDigit) rfl cs rest
  have hdrop := dropWhile_below (p := Char.isDigit) rfl cs rest
  by_cases hpoint : ∃ d more, cs.dropWhile Char.isDigit = '.' :: d :: more ∧ d.isDigit = true
  · obtain ⟨d, more, hleft, hd⟩ := hpoint
    rw [hleft, List.cons_append, List.cons_append] at hdrop
    rw [numeral_fraction hleft hd, numeral_fraction hdrop hd, htake, takeWhile_below rfl more rest,
      dropWhile_below rfl more rest]
  · have habove : ∀ d more, cs.dropWhile Char.isDigit = '.' :: d :: more → d.isDigit = false := by
      intro d more hleft
      exact Bool.eq_false_iff.2 fun hd => hpoint ⟨d, more, hleft, hd⟩
    have hbelow : ∀ d more, (cs ++ '\n' :: rest).dropWhile Char.isDigit = '.' :: d :: more →
        d.isDigit = false := by
      intro d more hleft
      rw [hdrop] at hleft
      -- a point at the end of the text above has the line feed behind it
      rcases hcut : cs.dropWhile Char.isDigit with _ | ⟨point, _ | ⟨d', more'⟩⟩
      · simp [hcut] at hleft
      · simp only [hcut, List.cons_append, List.nil_append, List.cons.injEq] at hleft
        rw [← hleft.2.1]
        rfl
      · simp only [hcut, List.cons_append, List.cons.injEq] at hleft
        exact habove d more' (by rw [hcut, hleft.1, hleft.2.1])
    rw [numeral_whole habove, numeral_whole hbelow, htake, hdrop]

/-- A piece that is not faulty ends before the line feed. -/
theorem first_below (h : (first c cs).1.isFaulty = false) :
    first c (cs ++ '\n' :: rest) = ((first c cs).1, (first c cs).2 ++ '\n' :: rest) := by
  unfold first at h ⊢
  split
  · rfl
  · -- an equal sign may follow only in the text above
    rcases cs with _ | ⟨c', cs⟩
    · rfl
    · by_cases hc' : c' = '='
      · subst hc'
        rfl
      · simp [hc']
  · next hsingle hdouble =>
    simp only [hsingle, hdouble] at h
    split
    · next hc =>
      subst hc
      rcases cs with _ | ⟨c', cs⟩
      · rfl
      · by_cases hline : c' = '/'
        · subst hline
          exact run_below (p := (· != '\n')) rfl _ '/' ('/' :: cs) rest
        · by_cases hblock : c' = '*'
          · subst hblock
            exact blockComment_below h
          · simp [hline, hblock]
    · split
      · next hslash hquote =>
        rw [if_neg hslash, if_pos hquote] at h
        exact quoted_below h
      · split
        · rfl
        · split
          · rfl
          · split
            · exact numeral_below
            · split
              · exact run_below rfl _ c cs rest
              · rfl

end Piece

/-- The pieces of a text without errors and of one below it. -/
theorem pieces_below {cs : List Char} (h : ∀ p ∈ pieces cs, p.isFaulty = false) (rest : List Char) :
    pieces (cs ++ '\n' :: rest) = pieces cs ++ .lineFeed :: pieces rest := by
  match cs with
  | [] =>
    have hfirst : Piece.first '\n' rest = (.lineFeed, rest) := rfl
    rw [List.nil_append, pieces_cons, hfirst, pieces_nil, List.nil_append]
  | c :: cs =>
    rw [pieces_cons, List.forall_mem_cons] at h
    rw [List.cons_append, pieces_cons, pieces_cons, Piece.first_below h.1]
    dsimp only
    rw [pieces_below h.2, List.cons_append]
termination_by cs.length
decreasing_by exact Piece.length_rest_lt c _

/-- Each piece of a text counts its own line feeds. -/
theorem lines_pieces (cs : List Char) : ∀ p ∈ pieces cs, p.lines = p.text.count '\n' := by
  match cs with
  | [] => simp
  | c :: cs =>
    rw [pieces_cons, List.forall_mem_cons]
    exact ⟨Piece.first_lines c cs, lines_pieces _⟩
termination_by cs.length
decreasing_by exact Piece.length_rest_lt c _

/-- The pieces make up the text. -/
theorem flatMap_pieces (cs : List Char) : (pieces cs).flatMap (·.text) = cs := by
  match cs with
  | [] => simp
  | c :: cs =>
    rw [pieces_cons, List.flatMap_cons, flatMap_pieces, Piece.first_append]
termination_by cs.length
decreasing_by exact Piece.length_rest_lt c _

/-- The line feeds that pieces count together. -/
def totalLines : List Piece.Counted → Nat
  | [] => 0
  | p :: ps => p.lines + totalLines ps

theorem totalLines_eq_count {ps : List Piece.Counted} (h : ∀ p ∈ ps, p.lines = p.text.count '\n') :
    totalLines ps = (ps.flatMap (·.text)).count '\n' := by
  induction ps with
  | nil => rfl
  | cons p ps ih =>
    rw [List.forall_mem_cons] at h
    rw [totalLines, h.1, ih h.2, List.flatMap_cons, List.count_append]

/-- The pieces of a text together count all of its line feeds. -/
theorem totalLines_pieces (cs : List Char) : totalLines (pieces cs) = cs.count '\n' := by
  rw [totalLines_eq_count (lines_pieces cs), flatMap_pieces]

/-! ## Tokens -/

/-- The token, `k` lines further down. -/
def Token.shift (k : Nat) (t : Token) : Token := { t with line := t.line + k }

/-- The token that a piece which ends on `line` makes. -/
def Piece.token? (p : Piece) (line : Nat) : Option Token :=
  match p.form with
  | .lexeme kind literal => some ⟨kind, String.ofList p.text, literal, line⟩
  | _ => none

/-- The tokens of pieces, the first of which starts on `line`. -/
def tokensFrom : (line : Nat) → List Piece.Counted → List Token
  | _, [] => []
  | line, p :: ps =>
    let line := line + p.lines
    (p.token? line).toList ++ tokensFrom line ps

/-- Taking in pieces adds their tokens, and errors if there are faulty ones. -/
theorem foldl_add (ps : List Piece.Counted) (s : Scan) :
    (ps.foldl Scan.add s).tokens.toList = s.tokens.toList ++ tokensFrom s.line ps ∧
      ((ps.foldl Scan.add s).errors.toList = [] ↔
        s.errors.toList = [] ∧ ∀ p ∈ ps, p.isFaulty = false) := by
  induction ps generalizing s with
  | nil => simp [tokensFrom]
  | cons p ps ih =>
    obtain ⟨htokens, herrors⟩ := ih (s.add p)
    rw [List.foldl_cons, htokens, herrors, List.forall_mem_cons, tokensFrom]
    obtain ⟨⟨form, text⟩, lines⟩ := p
    cases form with
    | lexeme kind literal => simp [Scan.add, Piece.token?, Piece.isFaulty]
    | skipped => simp [Scan.add, Piece.token?, Piece.isFaulty]
    | faulty cause => simp [Scan.add, Piece.token?, Piece.isFaulty]

theorem scan_eq_nil_iff {source : String} :
    (scan source).2 = [] ↔ ∀ p ∈ pieces source.toList, p.isFaulty = false := by
  have herrors := (foldl_add (pieces source.toList) .start).2
  simpa [scan, Scan.start] using herrors

theorem scan_tokens (source : String) :
    ∃ line, (scan source).1 = tokensFrom 1 (pieces source.toList) ++ [.endOfInput line] := by
  have htokens := (foldl_add (pieces source.toList) .start).1
  refine ⟨((pieces source.toList).foldl Scan.add .start).line, ?_⟩
  rw [scan, Scan.close, Array.toList_push, htokens]
  rfl

theorem Token.Kind.keyword?_ne_eof (word : String) : keyword? word ≠ some .eof := by
  intro h
  obtain ⟨before, after, hkeywords, -⟩ := List.lookup_eq_some_iff.1 h
  have hnone : ∀ k ∈ keywords, k.2 ≠ .eof := by decide
  exact hnone (word, .eof) (by rw [hkeywords]; simp) rfl

/-- No piece makes an end-of-input token. -/
theorem Piece.form_ne_eof (c : Char) (cs : List Char) (literal : Option Literal) :
    (first c cs).1.form ≠ .lexeme .eof literal := by
  intro h
  unfold first at h
  split at h
  · next kind _ hkind =>
    cases h
    unfold single? at hkind
    split at hkind <;> cases hkind
  · next alone withEqual _ hkinds =>
    have hne : alone ≠ .eof ∧ withEqual ≠ .eof := by
      unfold double? at hkinds
      split at hkinds <;> cases hkinds <;> exact ⟨nofun, nofun⟩
    split at h
    · cases h
      exact hne.2 rfl
    · cases h
      exact hne.1 rfl
  · split at h
    · split at h
      · cases h
      · unfold blockComment at h
        dsimp only at h
        split at h <;> cases h
      · cases h
    · split at h
      · unfold quoted at h
        split at h <;> cases h
      · split at h
        · cases h
        · split at h
          · cases h
          · split at h
            · unfold numeral at h
              split at h
              · split at h <;> cases h
              · cases h
            · split at h
              · simp only [run, wordForm, Form.lexeme.injEq] at h
                generalize String.ofList _ = word at h
                cases hkind : Token.Kind.keyword? word with
                | none =>
                  rw [hkind] at h
                  cases h.1
                | some kind =>
                  rw [hkind] at h
                  have heof : kind = .eof := h.1
                  exact Token.Kind.keyword?_ne_eof word (heof ▸ hkind)
              · cases h

theorem tokensFrom_ne_eof (line : Nat) (cs : List Char) :
    ∀ t ∈ tokensFrom line (pieces cs), t.kind ≠ .eof := by
  match cs with
  | [] => simp [tokensFrom]
  | c :: cs =>
    intro t ht
    rw [pieces_cons, tokensFrom, List.mem_append] at ht
    rcases ht with ht | ht
    · intro hkind
      have htoken : (Piece.first c cs).1.token? _ = some t := Option.mem_toList.1 ht
      unfold Piece.token? at htoken
      split at htoken
      · next hform =>
        cases htoken
        cases hkind
        exact Piece.form_ne_eof _ _ _ hform
      · cases htoken
    · exact tokensFrom_ne_eof _ _ t ht
termination_by cs.length
decreasing_by exact Piece.length_rest_lt c _

theorem tokensFrom_append (line : Nat) (ps qs : List Piece.Counted) :
    tokensFrom line (ps ++ qs) = tokensFrom line ps ++ tokensFrom (line + totalLines ps) qs := by
  induction ps generalizing line with
  | nil => rfl
  | cons p ps ih => simp [tokensFrom, totalLines, ih, Nat.add_assoc]

theorem Piece.token?_shift (p : Piece) (line k : Nat) :
    p.token? (line + k) = (p.token? line).map (Token.shift k) := by
  unfold Piece.token?
  split <;> rfl

theorem tokensFrom_shift (line k : Nat) (ps : List Piece.Counted) :
    tokensFrom (line + k) ps = (tokensFrom line ps).map (Token.shift k) := by
  induction ps generalizing line with
  | nil => rfl
  | cons p ps ih =>
    simp only [tokensFrom, Nat.add_right_comm line k, Piece.token?_shift, ih, List.map_append,
      Option.toList_map]

/-! ## Stacks of texts -/

/-- The tokens of texts below each other, the first of which starts on `line`. -/
def stackTokens : (line : Nat) → List String → List Token
  | _, [] => []
  | line, source :: rest =>
    tokensFrom line (pieces source.toList) ++ stackTokens (line + source.toList.count '\n' + 1) rest

/-- Texts without errors have none below each other either, and keep their tokens. -/
theorem pieces_stack {sources : List String}
    (h : ∀ source ∈ sources, ∀ p ∈ pieces source.toList, p.isFaulty = false) :
    (∀ p ∈ pieces ("\n".intercalate sources).toList, p.isFaulty = false) ∧
      ∀ line, tokensFrom line (pieces ("\n".intercalate sources).toList) = stackTokens line sources := by
  induction sources with
  | nil => simp [tokensFrom, stackTokens]
  | cons source rest ih =>
    rw [List.forall_mem_cons] at h
    obtain ⟨hsource, hrest⟩ := h
    cases rest with
    | nil => simpa [stackTokens] using hsource
    | cons next rest =>
      obtain ⟨hclean, htokens⟩ := ih hrest
      have htext : ("\n".intercalate (source :: next :: rest)).toList =
          source.toList ++ '\n' :: ("\n".intercalate (next :: rest)).toList := by
        rw [String.intercalate_cons_cons]
        simp
      rw [htext, pieces_below hsource]
      refine ⟨?_, fun line => ?_⟩
      · simp only [List.forall_mem_append, List.forall_mem_cons]
        exact ⟨hsource, rfl, hclean⟩
      · rw [tokensFrom_append, totalLines_pieces, tokensFrom, htokens, stackTokens]
        rfl

end Lox
