import Lox.Proofs.Token.Decomposition

/-!
# The lines of tokens and errors

A token or an error stands on the line that has been reached when its piece of text has been read. This is the
line that is found by counting line feeds from the start of the whole text. While pieces are read, line feeds are
counted in three places, and `Piece.first_lines` says that together they count each line feed of a piece once,
also where a string or a comment is not closed. What is left is to count on from piece to piece.

`withEnds` has the place at which each piece ends, and `lineAt` counts the line feeds before a place.

**Results.**
* `linesFrom_eq`: where each piece counts its own line feeds, lines that are counted from piece to piece are
  counted from the start of the text.
* `withEnds_of_splits`: where pieces end, strings and pieces that nothing closes among them.
* `lines_count_line_feeds`.
-/
namespace Lox

open Piece

/-- The line on which a text goes on behind its first `n` characters. -/
def lineAt (cs : List Char) (n : Nat) : Nat := 1 + (cs.take n).count '\n'

theorem lineAt_mono (cs : List Char) {m n : Nat} (h : m ≤ n) : lineAt cs m ≤ lineAt cs n :=
  Nat.add_le_add_left ((List.take_sublist_take_left h).count_le '\n') 1

theorem lineAt_length (cs : List Char) : lineAt cs cs.length = 1 + cs.count '\n' := by
  rw [lineAt, List.take_length]

/-- The pieces of a text from place `start` on, each with the place at which it ends. -/
def withEnds : (start : Nat) → List Piece → List (Piece × Nat)
  | _, [] => []
  | start, p :: ps => (p, start + p.text.length) :: withEnds (start + p.text.length) ps

/-- The error that a faulty piece makes which ends on `line`. -/
def Piece.error? (p : Piece) (line : Nat) : Option SyntaxError :=
  match p.form with
  | .faulty cause => some ⟨line, .line, cause⟩
  | _ => none

/-! ## Counting from piece to piece -/

section
variable {α : Type} (f : Piece → Nat → Option α)

/-- What `f` makes of pieces and the lines reached behind them, if the first piece starts on `line`. -/
def linesFrom : (line : Nat) → List Counted → List α
  | _, [] => []
  | line, p :: ps => (f p.toPiece (line + p.lines)).toList ++ linesFrom (line + p.lines) ps

theorem linesFrom_eq (before : List Char) {ps : List Counted} (h : ∀ p ∈ ps, p.lines = p.text.count '\n') :
    linesFrom f (1 + before.count '\n') ps =
      (withEnds before.length (ps.map (·.toPiece))).filterMap fun q =>
        f q.1 (lineAt (before ++ ps.flatMap (·.text)) q.2) := by
  induction ps generalizing before with
  | nil => rfl
  | cons p ps ih =>
    rw [List.forall_mem_cons] at h
    have hcount : 1 + before.count '\n' + p.lines = 1 + (before ++ p.text).count '\n' := by
      rw [h.1, List.count_append, Nat.add_assoc]
    have hlength : before.length + p.text.length = (before ++ p.text).length := List.length_append.symm
    have htext : before ++ (p :: ps).flatMap (·.text) = before ++ p.text ++ ps.flatMap (·.text) := by
      rw [List.flatMap_cons, List.append_assoc]
    have hline : lineAt (before ++ p.text ++ ps.flatMap (·.text)) (before ++ p.text).length =
        1 + (before ++ p.text).count '\n' := by
      rw [lineAt, List.take_left]
    rw [linesFrom, List.map_cons, withEnds, htext, hcount, hlength, ih _ h.2, List.filterMap_cons, hline]
    cases f p.toPiece (1 + (before ++ p.text).count '\n') <;> rfl

end

theorem tokensFrom_eq_linesFrom (line : Nat) (ps : List Counted) :
    tokensFrom line ps = linesFrom Piece.token? line ps := by
  induction ps generalizing line with
  | nil => rfl
  | cons p ps ih => rw [tokensFrom, linesFrom, ih]

theorem errors_eq_linesFrom (ps : List Counted) (s : Scan) :
    (ps.foldl Scan.add s).errors.toList = s.errors.toList ++ linesFrom Piece.error? s.line ps := by
  induction ps generalizing s with
  | nil => simp [linesFrom]
  | cons p ps ih =>
    obtain ⟨⟨form, text⟩, lines⟩ := p
    rw [List.foldl_cons, ih, linesFrom]
    cases form <;> simp [Scan.add, Piece.error?]

theorem line_foldl_add (ps : List Counted) (s : Scan) :
    (ps.foldl Scan.add s).line = s.line + totalLines ps := by
  induction ps generalizing s with
  | nil => rfl
  | cons p ps ih =>
    have hadd : (s.add p).line = s.line + p.lines := by
      unfold Scan.add
      split <;> rfl
    rw [List.foldl_cons, ih, hadd, totalLines, Nat.add_assoc]

/-! ## Where pieces end -/

/-- A piece reaches back from its end. A string ends with a quote, and what nothing closes ends with the text. -/
structure EndsAt (cs : List Char) (p : Piece) (stop : Nat) : Prop where
  stop_le : stop ≤ cs.length
  suffix : p.text <:+ cs.take stop
  quote : ∀ v, p.form = .lexeme .string (some v) → (cs.take stop).getLast? = some '"'
  unclosed : p.form = .faulty .unterminatedString ∨ p.form = .faulty .unterminatedComment → stop = cs.length

theorem Piece.Cut.getLast_string {p : Piece} {rest : List Char} (h : Cut p rest) {v : Literal}
    (hform : p.form = .lexeme .string (some v)) : ∃ front, p.text = front ++ ['"'] := by
  cases h with
  | @string inner => exact ⟨'"' :: inner, rfl⟩
  | _ => cases hform

theorem Piece.Cut.rest_eq_nil {p : Piece} {rest : List Char} (h : Cut p rest)
    (hform : p.form = .faulty .unterminatedString ∨ p.form = .faulty .unterminatedComment) : rest = [] := by
  cases h with
  | openString => rfl
  | openComment => rfl
  | _ => rcases hform with hform | hform <;> cases hform

theorem withEnds_of_splits {rest : List Char} {ps : List Piece} (h : Splits rest ps) (before : List Char) :
    (∀ q ∈ withEnds before.length ps, EndsAt (before ++ rest) q.1 q.2) ∧
      (withEnds before.length ps).Pairwise (fun q r => q.2 ≤ r.2) ∧
      ∀ q ∈ withEnds before.length ps, before.length ≤ q.2 := by
  induction h generalizing before with
  | nil =>
    refine ⟨?_, .nil, ?_⟩
    · intro q hq
      cases hq
    · intro q hq
      cases hq
  | @cons p ps rest hp _ ih =>
    obtain ⟨hends, hsorted, hbehind⟩ := ih (before ++ p.text)
    rw [List.append_assoc] at hends
    rw [List.length_append] at hends hsorted hbehind
    have htake : (before ++ (p.text ++ rest)).take (before.length + p.text.length) = before ++ p.text := by
      rw [← List.append_assoc, ← List.length_append, List.take_left]
    have hend : EndsAt (before ++ (p.text ++ rest)) p (before.length + p.text.length) := by
      refine ⟨?_, ?_, fun v hform => ?_, fun hform => ?_⟩
      · rw [List.length_append, List.length_append]
        omega
      · rw [htake]
        exact List.suffix_append before p.text
      · obtain ⟨front, hfront⟩ := hp.getLast_string hform
        rw [htake, hfront, ← List.append_assoc, List.getLast?_concat]
      · rw [hp.rest_eq_nil hform]
        simp
    rw [withEnds]
    refine ⟨List.forall_mem_cons.2 ⟨hend, hends⟩, List.pairwise_cons.2 ⟨hbehind, hsorted⟩, ?_⟩
    refine List.forall_mem_cons.2 ⟨Nat.le_add_right _ _, fun q hq => ?_⟩
    have hle := hbehind q hq
    omega

/-! ## The whole text -/

theorem Piece.line_of_token? {p : Piece} {line : Nat} {t : Token} (h : p.token? line = some t) : t.line = line := by
  unfold Piece.token? at h
  split at h <;> cases h
  rfl

theorem Piece.line_of_error? {p : Piece} {line : Nat} {e : SyntaxError} (h : p.error? line = some e) :
    e.line = line ∧ p.form = .faulty e.cause := by
  unfold Piece.error? at h
  split at h
  · next cause hform =>
    cases h
    exact ⟨rfl, hform⟩
  · cases h

/-- Pieces that end further behind have lines that are not smaller. -/
theorem pairwise_lines {α : Type} (f : Piece → Nat → Option α) (line : α → Nat)
    (hf : ∀ p n a, f p n = some a → line a = n) (cs : List Char) {qs : List (Piece × Nat)}
    (h : qs.Pairwise fun q r => q.2 ≤ r.2) :
    ((qs.filterMap fun q => f q.1 (lineAt cs q.2)).map line).Pairwise (· ≤ ·) := by
  rw [List.pairwise_map, List.pairwise_filterMap]
  refine h.imp fun {q r} hqr a ha b hb => ?_
  rw [hf _ _ a ha, hf _ _ b hb]
  exact lineAt_mono cs hqr

/-- The tokens and errors of a text by its pieces and the places where they end. -/
theorem scan_eq_withEnds (source : String) :
    (scan source).1 = ((withEnds 0 ((pieces source.toList).map (·.toPiece))).filterMap fun q =>
        q.1.token? (lineAt source.toList q.2)) ++ [.endOfInput (1 + source.toList.count '\n')] ∧
      (scan source).2 = (withEnds 0 ((pieces source.toList).map (·.toPiece))).filterMap fun q =>
        q.1.error? (lineAt source.toList q.2) := by
  have hlines {α : Type} (f : Piece → Nat → Option α) : linesFrom f 1 (pieces source.toList) =
      (withEnds 0 ((pieces source.toList).map (·.toPiece))).filterMap fun q =>
        f q.1 (lineAt source.toList q.2) := by
    have heq := linesFrom_eq f [] (lines_pieces source.toList)
    rwa [List.nil_append, flatMap_pieces] at heq
  refine ⟨?_, ?_⟩
  · rw [← hlines, ← tokensFrom_eq_linesFrom, scan, Scan.close, Array.toList_push, (foldl_add _ _).1,
      line_foldl_add, totalLines_pieces]
    rfl
  · rw [← hlines]
    exact errors_eq_linesFrom (pieces source.toList) .start

/-- Every token and every error of a text has a line that is one more than the number of line feeds in the text up
to the end of its piece, and the end-of-input token has one more than the number of all of them. So a string is on
the line of its closing quote, what nothing closes is on the last line, and lines never go down. -/
theorem lines_count_line_feeds (source : String) :
    ∃ ps, Splits source.toList ps ∧ (∀ q ∈ withEnds 0 ps, EndsAt source.toList q.1 q.2) ∧
      (scan source).1 = ((withEnds 0 ps).filterMap fun q => q.1.token? (lineAt source.toList q.2)) ++
        [.endOfInput (1 + source.toList.count '\n')] ∧
      (scan source).2 = ((withEnds 0 ps).filterMap fun q => q.1.error? (lineAt source.toList q.2)) ∧
      ((scan source).1.map (·.line)).Pairwise (· ≤ ·) ∧ ((scan source).2.map (·.line)).Pairwise (· ≤ ·) ∧
      ∀ e ∈ (scan source).2, e.cause = .unterminatedString ∨ e.cause = .unterminatedComment →
        e.line = 1 + source.toList.count '\n' := by
  have hsplits := splits_pieces source.toList
  obtain ⟨hends, hsorted, -⟩ := withEnds_of_splits hsplits []
  obtain ⟨htokens, herrors⟩ := scan_eq_withEnds source
  refine ⟨_, hsplits, hends, htokens, herrors, ?_, ?_, ?_⟩
  · rw [htokens, List.map_append, List.pairwise_append]
    refine ⟨?_, List.pairwise_singleton _ _, ?_⟩
    · exact pairwise_lines Piece.token? (·.line) (fun _ _ _ => Piece.line_of_token?) _ hsorted
    · intro m hm n hn
      rw [List.map_singleton, List.mem_singleton] at hn
      obtain ⟨t, ht, rfl⟩ := List.mem_map.1 hm
      obtain ⟨q, hq, hmade⟩ := List.mem_filterMap.1 ht
      rw [Piece.line_of_token? hmade, hn]
      show lineAt source.toList q.2 ≤ 1 + source.toList.count '\n'
      rw [← lineAt_length]
      exact lineAt_mono _ (hends q hq).stop_le
  · rw [herrors]
    exact pairwise_lines Piece.error? (·.line) (fun _ _ _ h => (Piece.line_of_error? h).1) _ hsorted
  · intro e he hcause
    rw [herrors] at he
    obtain ⟨q, hq, hmade⟩ := List.mem_filterMap.1 he
    obtain ⟨hline, hform⟩ := Piece.line_of_error? hmade
    have hstop : q.2 = source.toList.length := by
      apply (hends q hq).unclosed
      rw [hform]
      exact hcause.imp (congrArg _) (congrArg _)
    rw [hline, hstop, lineAt_length]

end Lox
