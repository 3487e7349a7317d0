import Lox.Token.Scan

/-!
# Comments inside comments

A block comment is looked through by counting: an opening mark counts up, a closing mark counts down, and the
comment ends where the count comes to zero. The rule that this stands for is a recursion: an opening mark
inside a comment starts a comment that is read to its own end, and then the outer one goes on.

**Counting.** `Counter` is the state of the count at a place of a text, and `Counter.step` looks at the two
characters from there on. Nothing in it keeps the place inside the text or the count from going below zero.

**Nesting.** `nesting` is the recursion. An inner comment that is not closed ends with the text, and there the
outer one goes on, with nothing left to close it. So each comment that is still open adds one to
`Nesting.unclosed`, and the count says the same at the end.

**Results.**
* `Counter.Runs.valid`: place and count stay within their bounds.
* `runs_nesting`: counting comes to where the recursion does.
* `blockComment_eq`: the comment that is cut off a text is the one that the recursion finds.
* `comment_counter_is_nesting`.
-/
namespace Lox

namespace Piece

/-! ## Counting -/

/-- How many comments are open at a place of a text, and the line of this place. -/
structure Counter where
  depth : Int
  position : Nat
  line : Nat

namespace Counter

/-- Goes on by one mark or by one character, unless all comments are closed or the text is at its end. -/
def step (text : List Char) (s : Counter) : Option Counter :=
  if 0 < s.depth then
    match text[s.position]?, text[s.position + 1]? with
    | none, _ => none
    | some '*', some '/' => some { s with depth := s.depth - 1, position := s.position + 2 }
    | some '/', some '*' => some { s with depth := s.depth + 1, position := s.position + 2 }
    | some '\n', _ => some { s with line := s.line + 1, position := s.position + 1 }
    | some _, _ => some { s with position := s.position + 1 }
  else none

/-- The second state comes up in the count that starts with the first one. -/
inductive Runs (text : List Char) : Counter → Counter → Prop where
  | here {s} : Runs text s s
  | step {s s' t} (hs : s.step text = some s') (h : Runs text s' t) : Runs text s t

theorem Runs.trans {text : List Char} {s t u : Counter} (h : Runs text s t) (h' : Runs text t u) :
    Runs text s u := by
  induction h with
  | here => exact h'
  | step hs _ ih => exact .step hs (ih h')

/-- A step by the text that is left. -/
theorem step_eq (text : List Char) (s : Counter) : s.step text =
    if 0 < s.depth then
      match text.drop s.position with
      | [] => none
      | '*' :: '/' :: _ => some ⟨s.depth - 1, s.position + 2, s.line⟩
      | '/' :: '*' :: _ => some ⟨s.depth + 1, s.position + 2, s.line⟩
      | c :: _ => some ⟨s.depth, s.position + 1, s.line + [c].count '\n'⟩
    else none := by
  have hfirst : text[s.position]? = (text.drop s.position)[0]? := by simp
  have hsecond : text[s.position + 1]? = (text.drop s.position)[1]? := by simp
  rw [step, hfirst, hsecond]
  generalize text.drop s.position = left
  congr 1
  rcases left with _ | ⟨c, _ | ⟨d, rest⟩⟩
  · rfl
  · by_cases hline : c = '\n'
    · subst hline
      rfl
    · simp [hline]
  · by_cases hclose : c = '*' ∧ d = '/'
    · obtain ⟨rfl, rfl⟩ := hclose
      rfl
    · by_cases hopen : c = '/' ∧ d = '*'
      · obtain ⟨rfl, rfl⟩ := hopen
        rfl
      · by_cases hline : c = '\n'
        · subst hline
          rfl
        · split <;> simp_all

section
variable {d : Int} (hd : 0 < d) (front rest : List Char) (line : Nat)
include hd

theorem step_close : step (front ++ '*' :: '/' :: rest) ⟨d, front.length, line⟩ =
    some ⟨d - 1, front.length + 2, line⟩ := by
  rw [step_eq, if_pos hd, List.drop_left]
  rfl

theorem step_open : step (front ++ '/' :: '*' :: rest) ⟨d, front.length, line⟩ =
    some ⟨d + 1, front.length + 2, line⟩ := by
  rw [step_eq, if_pos hd, List.drop_left]
  rfl

theorem step_other {c : Char} (hclose : ∀ more, c = '*' → rest = '/' :: more → False)
    (hopen : ∀ more, c = '/' → rest = '*' :: more → False) :
    step (front ++ c :: rest) ⟨d, front.length, line⟩ =
      some ⟨d, front.length + 1, line + [c].count '\n'⟩ := by
  rw [step_eq, if_pos hd, List.drop_left]
  split
  · next h => cases h
  · next h =>
    cases h
    exact (hclose _ rfl rfl).elim
  · next h =>
    cases h
    exact (hopen _ rfl rfl).elim
  · next h =>
    cases h
    rfl

end

/-- The place is in the text or at its end, and not more comments were closed than opened. -/
structure Valid (text : List Char) (s : Counter) : Prop where
  position_le : s.position ≤ text.length
  depth_nonneg : 0 ≤ s.depth

theorem Valid.step {text : List Char} {s s' : Counter} (hs : s.step text = some s') (h : Valid text s) :
    Valid text s' := by
  have hlength := List.length_drop (i := s.position) (l := text)
  have hle := h.position_le
  rw [step_eq] at hs
  split at hs
  · next hd =>
    split at hs
    · cases hs
    all_goals
      next heq =>
        rw [heq] at hlength
        simp only [List.length_cons] at hlength
        cases hs
        constructor <;> dsimp only <;> omega
  · cases hs

theorem Runs.valid {text : List Char} {s t : Counter} (h : Runs text s t) (hs : Valid text s) : Valid text t := by
  induction h with
  | here => exact hs
  | step hstep _ ih => exact ih (hs.step hstep)

end Counter

/-! ## Nesting -/

/-- What a comment comes to that is read behind its opening mark: how many comments are not closed, this one
included, and how many characters and line feeds were read. -/
structure Nesting where
  unclosed : Nat
  length : Nat
  lines : Nat
  deriving DecidableEq

theorem length_drop_lt (n : Nat) (cs : List Char) : (cs.drop n).length < cs.length + 1 + 1 := by
  rw [List.length_drop]
  omega

/-- Reads a comment behind its opening mark, from left to right. A closing mark ends it. An opening mark starts
an inner comment, and when this has been read the outer one goes on. -/
def nesting : List Char → Nesting
  | [] => ⟨1, 0, 0⟩
  | '*' :: '/' :: _ => ⟨0, 2, 0⟩
  | '/' :: '*' :: cs =>
    let inner := nesting cs
    let outer := nesting (cs.drop inner.length)
    ⟨inner.unclosed + outer.unclosed, 2 + inner.length + outer.length, inner.lines + outer.lines⟩
  | c :: cs =>
    let more := nesting cs
    ⟨more.unclosed, 1 + more.length, [c].count '\n' + more.lines⟩
termination_by cs => cs.length
decreasing_by
  · exact length_drop_lt 0 cs
  · exact length_drop_lt _ cs
  · exact Nat.lt_succ_self _

/-- Marks do not overlap: the star of an opening mark closes nothing, and the slash of a closing mark opens
nothing. -/
example : nesting ['/', '*', '/', '*', '*', '/', '*', '/', '*', '\n'] = ⟨1, 10, 1⟩ := by decide +kernel

theorem length_nesting_le (cs : List Char) : (nesting cs).length ≤ cs.length := by
  fun_induction nesting cs with
  | case1 => exact Nat.zero_le _
  | case2 tail => simp
  | case3 cs inner outer ihi iho =>
    simp only [List.length_drop, List.length_cons, inner, outer] at ihi iho ⊢
    omega
  | case4 c cs _ _ more ih =>
    simp only [List.length_cons, more]
    omega

/-- A comment that is not closed has been read to the end of the text. -/
theorem length_nesting_of_unclosed {cs : List Char} (h : (nesting cs).unclosed ≠ 0) :
    (nesting cs).length = cs.length := by
  fun_induction nesting cs with
  | case1 => rfl
  | case2 => exact absurd rfl h
  | case3 cs inner outer ihi iho =>
    have hle := length_nesting_le cs
    have hrest : outer.unclosed ≠ 0 := by
      -- an inner comment that is not closed leaves nothing to close the outer one
      intro hclosed
      have hinner : inner.unclosed ≠ 0 := by
        intro hinner
        exact h (by rw [hinner, hclosed])
      have hend : cs.drop inner.length = [] := List.drop_eq_nil_of_le (Nat.le_of_eq (ihi hinner).symm)
      simp only [outer, hend, nesting] at hclosed
      cases hclosed
    have hlength := iho hrest
    simp only [List.length_drop, List.length_cons, inner, outer] at hlength ⊢
    omega
  | case4 c cs _ _ more ih =>
    have hlength := ih h
    simp only [List.length_cons, more]
    omega

/-! ## Counting is nesting -/

open Counter

/-- With `d` more comments open around it, a comment is counted to where it is read to. The count starts with
one more than `d`, and what is not closed stays on it. -/
theorem runs_nesting (front cs : List Char) (d line : Nat) :
    Runs (front ++ cs) ⟨d + 1, front.length, line⟩
      ⟨d + (nesting cs).unclosed, front.length + (nesting cs).length, line + (nesting cs).lines⟩ := by
  have hpos (d : Nat) : (0 : Int) < d + 1 := by omega
  fun_induction nesting cs generalizing front d line with
  | case1 => exact .here
  | case2 tail =>
    refine .step (step_close (hpos d) front tail line) ?_
    rw [Int.add_sub_cancel]
    exact .here
  | case3 cs inner outer ihi iho =>
    have hinner : Runs (front ++ '/' :: '*' :: cs) ⟨d + 1 + 1, front.length + 2, line⟩
        ⟨d + inner.unclosed + 1, front.length + 2 + inner.length, line + inner.lines⟩ := by
      have h := ihi (front ++ ['/', '*']) (d + 1) line
      simpa [inner, Int.add_right_comm] using h
    have houter : Runs (front ++ '/' :: '*' :: cs)
        ⟨d + inner.unclosed + 1, front.length + 2 + inner.length, line + inner.lines⟩
        ⟨d + inner.unclosed + outer.unclosed, front.length + 2 + inner.length + outer.length,
          line + inner.lines + outer.lines⟩ := by
      have hle : inner.length ≤ cs.length := length_nesting_le cs
      have h := iho (front ++ '/' :: '*' :: cs.take inner.length) (d + inner.unclosed) (line + inner.lines)
      simpa [outer, hle, Nat.add_assoc, Nat.add_comm 2] using h
    have hboth := (Runs.step (step_open (hpos d) front cs line) hinner).trans houter
    simpa [Int.add_assoc, Nat.add_assoc] using hboth
  | case4 c cs hclose hopen more ih =>
    have hmore := ih (front ++ [c]) d (line + [c].count '\n')
    rw [List.append_assoc, List.singleton_append, List.length_append, List.length_singleton] at hmore
    have hall := Runs.step (step_other (hpos d) front cs line hclose hopen) hmore
    rwa [Nat.add_assoc, Nat.add_assoc] at hall

/-- Where counting stops, nothing is left to be counted. -/
theorem step_nesting (front cs : List Char) (line : Nat) : Counter.step (front ++ cs)
    ⟨(nesting cs).unclosed, front.length + (nesting cs).length, line⟩ = none := by
  rw [step_eq]
  split
  · next hd =>
    have hopen : (nesting cs).unclosed ≠ 0 := by
      intro h
      rw [h] at hd
      exact Int.lt_irrefl 0 hd
    have hend : (front ++ cs).drop (front.length + (nesting cs).length) = [] := by
      rw [length_nesting_of_unclosed hopen, ← List.length_append, List.drop_length]
    rw [hend]
  · rfl

/-! ## Comments are closed by counting -/

/-- What closing comments comes to, with as many open and as many line feeds as were counted up to a place. -/
def Counter.closing (text : List Char) (s : Counter) : Comment :=
  closeComment s.depth.toNat s.line (text.take s.position).reverse (text.drop s.position)

theorem closing_step {text : List Char} {s s' : Counter} (hs : s.step text = some s') :
    s.closing text = s'.closing text := by
  obtain ⟨depth, p, line⟩ := s
  have hmove (n : Nat) : (text.take (p + n)).reverse = ((text.drop p).take n).reverse ++ (text.take p).reverse ∧
      text.drop (p + n) = (text.drop p).drop n := by
    rw [List.take_add, List.reverse_append, List.drop_drop]
    exact ⟨rfl, rfl⟩
  rw [step_eq] at hs
  split at hs
  · next hd =>
    obtain ⟨d, rfl⟩ : ∃ d : Nat, depth = d + 1 := ⟨depth.toNat - 1, by dsimp only at hd; omega⟩
    have hdown : ((d : Int) + 1 - 1).toNat = d := by omega
    have hup : ((d : Int) + 1 + 1).toNat = d + 2 := by omega
    have hsame : ((d : Int) + 1).toNat = d + 1 := by omega
    split at hs
    · cases hs
    · next heq =>
      cases hs
      rw [closing, closing, (hmove 2).1, (hmove 2).2, heq, hdown, hsame, closeComment]
      rfl
    · next heq =>
      cases hs
      rw [closing, closing, (hmove 2).1, (hmove 2).2, heq, hup, hsame, closeComment]
      rfl
    · next hclose hopen heq =>
      cases hs
      rw [closing, closing, (hmove 1).1, (hmove 1).2, heq, hsame]
      exact closeComment_other d line _ hclose hopen
  · cases hs

theorem closing_runs {text : List Char} {s t : Counter} (h : Runs text s t) : s.closing text = t.closing text := by
  induction h with
  | here => rfl
  | step hs _ ih => exact (closing_step hs).trans ih

theorem blockComment_eq (cs : List Char) : blockComment cs =
    if (nesting cs).unclosed = 0 then
      (⟨⟨.skipped, '/' :: '*' :: cs.take (nesting cs).length⟩, (nesting cs).lines⟩, cs.drop (nesting cs).length)
    else (⟨⟨.faulty .unterminatedComment, '/' :: '*' :: cs⟩, (nesting cs).lines⟩, []) := by
  have hclosing : closeComment 1 0 ['*', '/'] cs = closeComment (nesting cs).unclosed (nesting cs).lines
      ('/' :: '*' :: cs.take (nesting cs).length).reverse (cs.drop (nesting cs).length) := by
    have hruns := closing_runs (runs_nesting ['/', '*'] cs 0 0)
    simpa [closing, Nat.add_comm 2] using hruns
  rw [blockComment, hclosing]
  cases hopen : (nesting cs).unclosed with
  | zero =>
    rw [closeComment, List.reverse_reverse]
    rfl
  | succ d =>
    have hlength : (nesting cs).length = cs.length := length_nesting_of_unclosed (by omega)
    rw [hlength, List.drop_length, closeComment, List.take_length, List.reverse_reverse]
    rfl

end Piece

open Piece

/-- The pieces of a text behind an opening mark. -/
theorem pieces_blockComment (cs : List Char) :
    pieces ('/' :: '*' :: cs) = (blockComment cs).1 :: pieces (blockComment cs).2 :=
  pieces_cons '/' ('*' :: cs)

/-- Counting the marks of a comment comes to an end where reading it by the rule of nesting does, with as many line
feeds counted and as many comments not closed. Until then the place does not pass the end of the text, the count
does not go below zero, and what is left of the comment is closed from there as from its start. The scanner goes on
behind a comment that is closed; else it is at the end of the text and has one more error, whatever the number of
comments that are not closed. -/
theorem comment_counter_is_nesting (before cs : List Char) (s : Scan) :
    (Counter.Runs (before ++ cs) ⟨1, before.length, s.line⟩
        ⟨(nesting cs).unclosed, before.length + (nesting cs).length, s.line + (nesting cs).lines⟩ ∧
      Counter.step (before ++ cs)
        ⟨(nesting cs).unclosed, before.length + (nesting cs).length, s.line + (nesting cs).lines⟩ = none) ∧
      (∀ c, Counter.Runs (before ++ cs) ⟨1, before.length, s.line⟩ c →
        c.position ≤ (before ++ cs).length ∧ 0 ≤ c.depth ∧
          closeComment c.depth.toNat c.line ((before ++ cs).take c.position).reverse
              ((before ++ cs).drop c.position) = closeComment 1 s.line before.reverse cs) ∧
      ((nesting cs).unclosed = 0 →
        (pieces ('/' :: '*' :: cs)).foldl Scan.add s =
          (pieces (cs.drop (nesting cs).length)).foldl Scan.add { s with line := s.line + (nesting cs).lines }) ∧
      ((nesting cs).unclosed ≠ 0 → (nesting cs).length = cs.length ∧
        ∃ e : SyntaxError, e.message = "Unterminated block comment." ∧
          (pieces ('/' :: '*' :: cs)).foldl Scan.add s =
            { s with line := s.line + (nesting cs).lines, errors := s.errors.push e }) := by
  have hruns : Counter.Runs (before ++ cs) ⟨1, before.length, s.line⟩
      ⟨(nesting cs).unclosed, before.length + (nesting cs).length, s.line + (nesting cs).lines⟩ := by
    have h := runs_nesting before cs 0 s.line
    rwa [Int.natCast_zero, Int.zero_add, Int.zero_add] at h
  refine ⟨⟨hruns, step_nesting before cs _⟩, fun c hc => ?_, fun hclosed => ?_, fun hopen => ?_⟩
  · have hvalid := hc.valid ⟨by simp, Int.one_nonneg⟩
    refine ⟨hvalid.position_le, hvalid.depth_nonneg, ?_⟩
    have hclosing := closing_runs hc
    simp only [Counter.closing, List.take_left, List.drop_left] at hclosing
    exact hclosing.symm
  · rw [pieces_blockComment, blockComment_eq, if_pos hclosed, List.foldl_cons]
    simp [Scan.add]
  · have hlength := length_nesting_of_unclosed hopen
    refine ⟨hlength, ⟨s.line + (nesting cs).lines, .line, .unterminatedComment⟩, rfl, ?_⟩
    rw [pieces_blockComment, blockComment_eq, if_neg hopen, pieces_nil]
    simp [Scan.add]

end Lox
