import Lox.Proofs.Token.Decomposition

/-!
# Tokens written out and scanned again

No word, number or operator has a blank in it, and in front of a blank a slash starts no comment. So a blank ends
every lexeme, whatever comes behind it. A separator is a blank with blanks and comments behind it, each of which is
a piece of its own wherever it stands. The pieces of tokens that are written out with separators between them are
therefore the lexemes and what the separators are made of.

**Results.**
* `cut_before_blank`: a lexeme is rightly cut off in front of a blank, and at the end of the text.
* `splits_filler`, `splits_writeOut`: the pieces of what is written out.
* `scan_undoes_writing_out`.
-/
namespace Lox

open Token (Kind)
open Piece

/-- Blanks, line comments with the line feeds behind them, and closed block comments. -/
inductive Filler : List Char → Prop where
  | nil : Filler []
  | blank {c rest} (hc : c ∈ blanks) (h : Filler rest) : Filler (c :: rest)
  | lineComment {inner rest} (hi : '\n' ∉ inner) (h : Filler rest) :
      Filler ('/' :: '/' :: inner ++ '\n' :: rest)
  | blockComment {inner rest} (hi : Closes inner) (h : Filler rest) : Filler ('/' :: '*' :: inner ++ rest)

/-- A blank with any filler behind it. -/
inductive IsSeparator : List Char → Prop where
  | mk {c filler} (hc : c ∈ blanks) (h : Filler filler) : IsSeparator (c :: filler)

/-- Scanning some text gives this token. The end of the input is not meant. -/
def Token.IsScanned (t : Token) : Prop := t.kind ≠ .eof ∧ ∃ source, t ∈ (scan source).1

/-- The lexemes of tokens, with a separator between each two of them. -/
def writeOut : List Token → (separators : List (List Char)) → List Char
  | [], _ => []
  | [t], _ => t.lexeme.toList
  | t :: ts, separators => t.lexeme.toList ++ separators.headD [] ++ writeOut ts separators.tail

/-! ## Lexemes in front of blanks -/

namespace Piece

theorem IsDigit.not_blank {c : Char} (h : IsDigit c) : c ∉ blanks := fun hc => (blank_start hc).2.1 h

theorem IsLetter.not_blank {c : Char} (h : IsLetter c) : c ∉ blanks := fun hc => (blank_start hc).1 h

theorem Lexical.not_blank {text : List Char} (h : Lexical text) : ∀ c ∈ text, c ∉ blanks := by
  rcases h with hword | ⟨whole, fraction, hnumber⟩ | ⟨kind, hoperator⟩
  · cases text with
    | nil => exact hword.elim
    | cons d ds =>
      rw [List.forall_mem_cons]
      exact ⟨IsLetter.not_blank hword.1, fun c hc => (hword.2 c hc).elim IsLetter.not_blank IsDigit.not_blank⟩
  · cases hnumber with
    | plain hds => exact fun c hc => IsDigit.not_blank (hds.2 c hc)
    | pointed hds hes =>
      rw [List.forall_mem_append, List.forall_mem_cons]
      exact ⟨fun c hc => IsDigit.not_blank (hds.2 c hc), by decide, fun c hc => IsDigit.not_blank (hes.2 c hc)⟩
  · have htable : (operators.all fun p => p.1.all fun c => decide (c ∉ blanks)) = true := by decide
    intro c hc
    have hall := List.all_eq_true.1 (List.all_eq_true.1 htable _ hoperator) c hc
    exact of_decide_eq_true hall

/-- The text is at its end or goes on with a blank. -/
def AtBlank (rest : List Char) : Prop := ∀ c more, rest = c :: more → c ∈ blanks

theorem longest_at_blank {text rest : List Char} (h : AtBlank rest) : Longest text rest := by
  intro longer hlexical hprefix
  apply Nat.le_of_not_lt
  intro hlt
  -- a longer lexeme would have the blank in it
  obtain ⟨more, rfl⟩ := List.prefix_of_prefix_length_le (List.prefix_append text rest) hprefix (Nat.le_of_lt hlt)
  rw [List.prefix_append_right_inj] at hprefix
  cases more with
  | nil => simp at hlt
  | cons c more =>
    obtain ⟨behind, rfl⟩ := hprefix
    have hblank := h c (more ++ behind) rfl
    exact hlexical.not_blank c (by simp) hblank

theorem cut_before_blank {kind : Kind} {literal : Option Literal} {text before rest : List Char}
    (h : Cut ⟨.lexeme kind literal, text⟩ before) (hr : AtBlank rest) : Cut ⟨.lexeme kind literal, text⟩ rest := by
  cases h with
  | word hword _ hk => exact .word hword (longest_at_blank hr) hk
  | number hnumber _ => exact .number hnumber (longest_at_blank hr)
  | operator hmem _ _ =>
    refine .operator hmem (longest_at_blank hr) fun _ more => ⟨?_, ?_⟩
    · rintro rfl
      exact absurd (hr '/' more rfl) (by decide)
    · rintro rfl
      exact absurd (hr '*' more rfl) (by decide)
  | string hinner => exact .string hinner

/-! ## Separators -/

theorem Splits.cut_of_mem {cs : List Char} {ps : List Piece} (h : Splits cs ps) {p : Piece} (hp : p ∈ ps) :
    ∃ rest, Cut p rest := by
  induction h with
  | nil => cases hp
  | @cons q ps rest hq _ ih =>
    rcases List.mem_cons.1 hp with rfl | hp
    · exact ⟨rest, hq⟩
    · exact ih hp

/-- A filler is cut into pieces that are skipped, whatever stands behind it. -/
theorem splits_filler {filler rest : List Char} (hf : Filler filler) {ps : List Piece} (h : Splits rest ps) :
    ∃ qs, (∀ q ∈ qs, q.form = .skipped) ∧ Splits (filler ++ rest) (qs ++ ps) := by
  induction hf with
  | nil => exact ⟨[], by simp, h⟩
  | @blank c filler hc _ ih =>
    obtain ⟨qs, hqs, hsplits⟩ := ih
    exact ⟨⟨.skipped, [c]⟩ :: qs, List.forall_mem_cons.2 ⟨rfl, hqs⟩, .cons (.blank hc) hsplits⟩
  | @lineComment inner filler hi _ ih =>
    obtain ⟨qs, hqs, hsplits⟩ := ih
    have hfeed : Splits ('\n' :: (filler ++ rest)) (⟨.skipped, ['\n']⟩ :: (qs ++ ps)) :=
      .cons (.blank (by decide)) hsplits
    have hcomment := Splits.cons (.lineComment hi (.inr ⟨_, rfl⟩)) hfeed
    refine ⟨⟨.skipped, '/' :: '/' :: inner⟩ :: ⟨.skipped, ['\n']⟩ :: qs, ?_, ?_⟩
    · simpa using hqs
    · simpa using hcomment
  | @blockComment inner filler hi _ ih =>
    obtain ⟨qs, hqs, hsplits⟩ := ih
    refine ⟨⟨.skipped, '/' :: '*' :: inner⟩ :: qs, List.forall_mem_cons.2 ⟨rfl, hqs⟩, ?_⟩
    rw [List.append_assoc]
    exact .cons (.blockComment hi) hsplits

end Piece

/-! ## Tokens and separators -/

theorem mem_tokensFrom {line : Nat} {ps : List Counted} {t : Token} (h : t ∈ tokensFrom line ps) :
    ⟨.lexeme t.kind t.literal, t.lexeme.toList⟩ ∈ ps.map (·.toPiece) := by
  induction ps generalizing line with
  | nil => cases h
  | cons p ps ih =>
    rw [tokensFrom, List.mem_append, Option.mem_toList] at h
    rcases h with h | h
    · obtain ⟨⟨form, text⟩, lines⟩ := p
      cases form with
      | lexeme kind literal =>
        cases h
        simp
      | skipped => cases h
      | faulty cause => cases h
    · exact List.mem_cons_of_mem _ (ih h)

/-- The lexeme of a token is cut off as that token somewhere. -/
theorem Token.IsScanned.cut {t : Token} (h : t.IsScanned) :
    ∃ rest, Cut ⟨.lexeme t.kind t.literal, t.lexeme.toList⟩ rest := by
  obtain ⟨hkind, source, hmem⟩ := h
  obtain ⟨line, htokens⟩ := scan_tokens source
  rw [htokens, List.mem_append, List.mem_singleton] at hmem
  rcases hmem with hmem | rfl
  · exact (splits_pieces source.toList).cut_of_mem (mem_tokensFrom hmem)
  · exact absurd rfl hkind

theorem lexeme?_of_token (t : Token) : Piece.lexeme? ⟨.lexeme t.kind t.literal, t.lexeme.toList⟩ = some t.reading := by
  simp [Piece.lexeme?, Token.reading]

theorem filterMap_skipped {qs : List Piece} (h : ∀ q ∈ qs, q.form = .skipped) : qs.filterMap Piece.lexeme? = [] := by
  apply List.filterMap_eq_nil_iff.2
  intro q hq
  simp [Piece.lexeme?, h q hq]

/-- The text of tokens falls into their lexemes and pieces that are skipped. -/
theorem splits_writeOut {tokens : List Token} {separators : List (List Char)} (ht : ∀ t ∈ tokens, t.IsScanned)
    (hs : ∀ s ∈ separators, IsSeparator s) (hlength : tokens.length ≤ separators.length + 1) :
    ∃ ps, Splits (writeOut tokens separators) ps ∧ (∀ p ∈ ps, p.isFaulty = false) ∧
      ps.filterMap Piece.lexeme? = tokens.map Token.reading := by
  fun_induction writeOut tokens separators with
  | case1 => exact ⟨[], .nil, by simp, rfl⟩
  | case2 separators t =>
    obtain ⟨before, hcut⟩ := (ht t (by simp)).cut
    have hend : AtBlank [] := by
      intro c more heq
      cases heq
    have hsplits := Splits.cons (cut_before_blank hcut hend) .nil
    rw [List.append_nil] at hsplits
    refine ⟨_, hsplits, by simp [Piece.isFaulty], ?_⟩
    rw [List.filterMap_cons_some (lexeme?_of_token t)]
    rfl
  | case3 t ts separators hts ih =>
    cases separators with
    | nil =>
      -- with no separator there is no second token
      cases ts with
      | nil => exact absurd rfl hts
      | cons u us => simp at hlength
    | cons s separators =>
      rw [List.forall_mem_cons] at ht hs
      obtain ⟨ps, hsplits, hclean, hreadings⟩ := ih ht.2 hs.2 (Nat.le_of_succ_le_succ hlength)
      obtain ⟨before, hcut⟩ := ht.1.cut
      obtain @⟨c, filler, hc, hfiller⟩ := hs.1
      obtain ⟨qs, hqs, hbehind⟩ := splits_filler (.blank hc hfiller) hsplits
      have hblank : AtBlank (c :: filler ++ writeOut ts separators) := by
        intro d more heq
        cases heq
        exact hc
      refine ⟨⟨.lexeme t.kind t.literal, t.lexeme.toList⟩ :: (qs ++ ps), ?_, ?_, ?_⟩
      · rw [List.headD_cons, List.tail_cons, List.append_assoc]
        exact .cons (cut_before_blank hcut hblank) hbehind
      · rw [List.forall_mem_cons, List.forall_mem_append]
        exact ⟨rfl, fun q hq => by simp [Piece.isFaulty, hqs q hq], hclean⟩
      · rw [List.filterMap_cons_some (lexeme?_of_token t), List.filterMap_append, filterMap_skipped hqs, hreadings]
        rfl

/-- Pieces that a text falls into, none of them faulty, are what is scanned. -/
theorem scan_of_splits {cs : List Char} {ps : List Piece} (h : Splits cs ps) (hclean : ∀ p ∈ ps, p.isFaulty = false) :
    (scan (String.ofList cs)).2 = [] ∧
      (scan (String.ofList cs)).1.map Token.reading = ps.filterMap Piece.lexeme? ++ [(.eof, "", none)] := by
  obtain ⟨line, htokens⟩ := scan_tokens (String.ofList cs)
  rw [eq_pieces_of_splits h] at hclean ⊢
  rw [scan_eq_nil_iff, htokens, List.map_append, map_reading_tokensFrom, String.toList_ofList]
  exact ⟨List.forall_mem_map.1 hclean, rfl⟩

theorem writeOut_spaces (tokens : List Token) :
    writeOut tokens (List.replicate tokens.length [' ']) = (" ".intercalate (tokens.map (·.lexeme))).toList := by
  rw [String.toList_intercalate]
  induction tokens with
  | nil => simp [writeOut]
  | cons t ts ih =>
    cases ts with
    | nil => simp [writeOut]
    | cons u us =>
      rw [List.length_cons, List.replicate_succ, writeOut, List.headD_cons, List.tail_cons, ih]
      · simp
      · simp

/-- Scanning undoes writing out tokens. Between each two of them stands a blank with blanks and comments behind
it, and what is scanned has no error and the same kinds, lexemes and literals, with the end of the input behind
them. So the lexemes of any text, joined by spaces, are scanned as that text is, lines and errors apart. -/
theorem scan_undoes_writing_out (tokens : List Token) (separators : List (List Char)) (source : String)
    (ht : ∀ t ∈ tokens, t.IsScanned) (hs : ∀ s ∈ separators, IsSeparator s)
    (hlength : tokens.length ≤ separators.length + 1) :
    ((scan (String.ofList (writeOut tokens separators))).2 = [] ∧
      (scan (String.ofList (writeOut tokens separators))).1.map Token.reading =
        tokens.map Token.reading ++ [(.eof, "", none)]) ∧
    (scan (" ".intercalate ((scan source).1.dropLast.map (·.lexeme)))).2 = [] ∧
      (scan (" ".intercalate ((scan source).1.dropLast.map (·.lexeme)))).1.map Token.reading =
        (scan source).1.map Token.reading := by
  constructor
  · obtain ⟨ps, hsplits, hclean, hreadings⟩ := splits_writeOut ht hs hlength
    rw [← hreadings]
    exact scan_of_splits hsplits hclean
  · obtain ⟨line, htokens⟩ := scan_tokens source
    have hscanned : ∀ t ∈ tokensFrom 1 (pieces source.toList), t.IsScanned := by
      intro t ht
      refine ⟨tokensFrom_ne_eof 1 _ t ht, source, ?_⟩
      rw [htokens]
      exact List.mem_append_left _ ht
    have hspaces : ∀ s ∈ List.replicate (tokensFrom 1 (pieces source.toList)).length [' '], IsSeparator s := by
      intro s hs
      rw [List.eq_of_mem_replicate hs]
      exact .mk (by decide) .nil
    obtain ⟨ps, hsplits, hclean, hreadings⟩ := splits_writeOut hscanned hspaces (by simp)
    have hscan := scan_of_splits hsplits hclean
    rw [writeOut_spaces, String.ofList_toList, hreadings] at hscan
    rw [htokens, List.dropLast_concat, List.map_append]
    exact hscan

/-- A slash in front of a line comment that looks like a string and a block comment, two equal signs with a nested
comment between them, and a string that looks like comments. -/
theorem scan_undoes_writing_out_comments :
    (scan "/ //\"/*\n= /*\"/**/*/=\t\"// /*\"").2 = [] ∧
      (scan "/ //\"/*\n= /*\"/**/*/=\t\"// /*\"").1.map Token.reading =
        [(.slash, "/", none), (.equal, "=", none), (.equal, "=", none),
          (.string, "\"// /*\"", some (.string "// /*")), (.eof, "", none)] := by
  have ht : ∀ t ∈ (scan "/ = = \"// /*\"").1.dropLast, t.IsScanned := by
    intro t ht
    have hkinds : ((scan "/ = = \"// /*\"").1.dropLast.all fun t => decide (t.kind ≠ .eof)) = true := by
      decide +kernel
    exact ⟨of_decide_eq_true (List.all_eq_true.1 hkinds t ht), _, List.dropLast_subset _ ht⟩
  have hline : IsSeparator (' ' :: ('/' :: '/' :: ['"', '/', '*'] ++ '\n' :: [])) :=
    .mk (by decide) (.lineComment (by decide) .nil)
  have hblock : IsSeparator (' ' :: ('/' :: '*' :: ('"' :: '/' :: '*' :: (['*', '/'] ++ ['*', '/'])) ++ [])) :=
    .mk (by decide) (.blockComment (.other (by decide) (by decide) (.nested .mark .mark)) .nil)
  have htab : IsSeparator ['\t'] := .mk (by decide) .nil
  have hscan := (scan_undoes_writing_out _ [_, _, _] "" ht
    (List.forall_mem_cons.2 ⟨hline, List.forall_mem_cons.2 ⟨hblock, List.forall_mem_singleton.2 htab⟩⟩)
    (by decide +kernel)).1
  have hwritten : String.ofList (writeOut (scan "/ = = \"// /*\"").1.dropLast
      [' ' :: ('/' :: '/' :: ['"', '/', '*'] ++ '\n' :: []),
        ' ' :: ('/' :: '*' :: ('"' :: '/' :: '*' :: (['*', '/'] ++ ['*', '/'])) ++ []), ['\t']]) =
      "/ //\"/*\n= /*\"/**/*/=\t\"// /*\"" := by decide +kernel
  have hreadings : (scan "/ = = \"// /*\"").1.dropLast.map Token.reading =
      [(.slash, "/", none), (.equal, "=", none), (.equal, "=", none),
        (.string, "\"// /*\"", some (.string "// /*"))] := by
    simp [scan, pieces_cons, first, single?, double?, quoted, untilQuote, isBlank, Scan.add, Scan.start, Scan.close,
      Token.reading]
  rw [hwritten, hreadings] at hscan
  exact hscan

end Lox
