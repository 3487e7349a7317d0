import Lox.Proofs.Token.Stacked

/-!
# Texts fall into pieces in one way

What a piece of text may be is said here by rules that do not mention how pieces are found. A word, a
number or an operator is the longest beginning of the text that is one of these; a string reaches to the
next quote; a line comment to the end of its line; a block comment to the mark that closes it, where
comments inside it are comments again. What is none of these is faulty: a character that starts nothing,
or a string or a block comment that nothing closes.

**Rules.** `Closes` is the rule of nested comments, `Lexical` has the forms of lexemes, and `Cut p rest`
says that `p` is rightly cut off in front of `rest`. `Splits cs ps` says this of all pieces of a text, one
after the other.

**Results.**
* `cut_first`: the piece that is found is rightly cut off.
* `first_of_cut`: there is no other.
* `scan_splits`: a text splits in one way, and tokens and errors are read off its pieces.
-/
namespace Lox

open Token (Kind)

namespace Piece

/-! ## Forms of lexemes -/

/-- A letter of the Latin alphabet, or an underscore. -/
def IsLetter (c : Char) : Prop := 'a' ≤ c ∧ c ≤ 'z' ∨ 'A' ≤ c ∧ c ≤ 'Z' ∨ c = '_'

def IsDigit (c : Char) : Prop := '0' ≤ c ∧ c ≤ '9'

instance : DecidablePred IsLetter := fun _ => inferInstanceAs (Decidable (_ ∨ _))

instance : DecidablePred IsDigit := fun _ => inferInstanceAs (Decidable (_ ∧ _))

/-- A letter with letters and digits behind it. -/
def IsWord : List Char → Prop
  | [] => False
  | c :: cs => IsLetter c ∧ ∀ d ∈ cs, IsLetter d ∨ IsDigit d

/-- At least one digit, and nothing else. -/
def IsDigits (cs : List Char) : Prop := cs ≠ [] ∧ ∀ c ∈ cs, IsDigit c

/-- A number as it is written, with its digits in front of the point and behind it. -/
inductive IsNumber : (whole fraction text : List Char) → Prop where
  | plain {ds} (h : IsDigits ds) : IsNumber ds [] ds
  | pointed {ds es} (h : IsDigits ds) (h' : IsDigits es) : IsNumber ds es (ds ++ '.' :: es)

/-- The lexemes that are neither words nor numbers nor strings. -/
def operators : List (List Char × Kind) :=
  [(['('], .leftParen), ([')'], .rightParen), (['\x7b'], .leftBrace), (['\x7d'], .rightBrace),
   ([','], .comma), (['.'], .dot), (['-'], .minus), (['+'], .plus), ([';'], .semicolon),
   (['/'], .slash), (['*'], .star),
   (['!'], .bang), (['!', '='], .bangEqual), (['='], .equal), (['=', '='], .equalEqual),
   (['>'], .greater), (['>', '='], .greaterEqual), (['<'], .less), (['<', '='], .lessEqual)]

/-- A word, a number or an operator. -/
def Lexical (text : List Char) : Prop :=
  IsWord text ∨ (∃ whole fraction, IsNumber whole fraction text) ∨ ∃ kind, (text, kind) ∈ operators

/-- No longer beginning of the text is a word, a number or an operator. -/
def Longest (text rest : List Char) : Prop :=
  ∀ longer, Lexical longer → longer <+: text ++ rest → longer.length ≤ text.length

/-- The kind of a word: a keyword if the whole word is one. -/
def IsKindOf (kind : Kind) (text : List Char) : Prop :=
  (String.ofList text, kind) ∈ Kind.keywords ∨
    kind = .identifier ∧ ∀ k, (String.ofList text, k) ∉ Kind.keywords

/-! ## Rules for pieces -/

/-- The text behind an opening mark up to and including the mark that closes it. It is read from left to
right: an opening mark starts a comment that ends before the outer one goes on. -/
inductive Closes : List Char → Prop where
  | mark : Closes ['*', '/']
  | nested {inner outer} (hi : Closes inner) (ho : Closes outer) :
      Closes ('/' :: '*' :: (inner ++ outer))
  | other {c d cs} (hclose : ¬ (c = '*' ∧ d = '/')) (hopen : ¬ (c = '/' ∧ d = '*'))
      (h : Closes (d :: cs)) : Closes (c :: d :: cs)

def blanks : List Char := [' ', '\r', '\t', '\n']

/-- The piece is rightly cut off in front of the rest of the text. -/
inductive Cut : Piece → (rest : List Char) → Prop where
  | word {kind text rest} (h : IsWord text) (hl : Longest text rest) (hk : IsKindOf kind text) :
      Cut ⟨.lexeme kind none, text⟩ rest
  | number {whole fraction text rest} (h : IsNumber whole fraction text) (hl : Longest text rest) :
      Cut ⟨.lexeme .number (some (.number (Decimal.read whole fraction))), text⟩ rest
  /-- A slash in front of another one or of a star is no operator but starts a comment. -/
  | operator {kind text rest} (h : (text, kind) ∈ operators) (hl : Longest text rest)
      (hc : text = ['/'] → ∀ more, rest ≠ '/' :: more ∧ rest ≠ '*' :: more) :
      Cut ⟨.lexeme kind none, text⟩ rest
  | string {inner rest} (h : '"' ∉ inner) :
      Cut ⟨.lexeme .string (some (.string (String.ofList inner))), '"' :: inner ++ ['"']⟩ rest
  | blank {c rest} (h : c ∈ blanks) : Cut ⟨.skipped, [c]⟩ rest
  | lineComment {inner rest} (h : '\n' ∉ inner) (hr : rest = [] ∨ ∃ more, rest = '\n' :: more) :
      Cut ⟨.skipped, '/' :: '/' :: inner⟩ rest
  | blockComment {inner rest} (h : Closes inner) : Cut ⟨.skipped, '/' :: '*' :: inner⟩ rest
  | stray {c rest} (hl : ∀ more, ¬ Lexical (c :: more)) (hq : c ≠ '"') (hb : c ∉ blanks) :
      Cut ⟨.faulty .unexpectedCharacter, [c]⟩ rest
  | openString {inner} (h : '"' ∉ inner) : Cut ⟨.faulty .unterminatedString, '"' :: inner⟩ []
  | openComment {inner} (h : ∀ text, text <+: inner → ¬ Closes text) :
      Cut ⟨.faulty .unterminatedComment, '/' :: '*' :: inner⟩ []

theorem IsNumber.ne_nil {whole fraction text : List Char} (h : IsNumber whole fraction text) : text ≠ [] := by
  cases h with
  | plain hds => exact hds.1
  | pointed => simp

theorem Cut.ne_nil {p : Piece} {rest : List Char} (h : Cut p rest) : p.text ≠ [] := by
  cases h with
  | word h =>
    rintro rfl
    exact h.elim
  | number h => exact h.ne_nil
  | operator h =>
    rintro rfl
    simp [operators] at h
  | _ => simp

/-- The pieces make up the text, and each of them is rightly cut off in front of those behind it. -/
inductive Splits : List Char → List Piece → Prop where
  | nil : Splits [] []
  | cons {p ps rest} (hp : Cut p rest) (h : Splits rest ps) : Splits (p.text ++ rest) (p :: ps)

theorem Splits.ne_nil {cs : List Char} {ps : List Piece} (h : Splits cs ps) : ∀ p ∈ ps, p.text ≠ [] := by
  induction h with
  | nil => simp
  | cons hp _ ih => exact List.forall_mem_cons.2 ⟨hp.ne_nil, ih⟩

/-! ## Characters -/

theorem isWordStart_iff {c : Char} : isWordStart c = true ↔ IsLetter c := by
  delta isWordStart IsLetter Char.isAlpha Char.isUpper Char.isLower
  simp only [Char.le_def, Bool.or_eq_true, Bool.and_eq_true, decide_eq_true_eq, beq_iff_eq]
  grind

theorem isDigit_iff {c : Char} : c.isDigit = true ↔ IsDigit c := by
  simp [Char.isDigit, IsDigit, Char.le_def]

theorem isWordPart_iff {c : Char} : isWordPart c = true ↔ IsLetter c ∨ IsDigit c := by
  rw [isWordPart, Bool.or_eq_true, isWordStart_iff, isDigit_iff]

theorem mem_blanks_iff {c : Char} : c ∈ blanks ↔ isBlank c = true ∨ c = '\n' := by
  simp only [isBlank, blanks, Bool.or_eq_true, beq_iff_eq, List.mem_cons, List.not_mem_nil]
  grind

/-- The sorts of characters that a piece may start with exclude each other. -/
theorem operator_start {c : Char} {cs : List Char} {kind : Kind} (h : (c :: cs, kind) ∈ operators) :
    ¬ IsLetter c ∧ ¬ IsDigit c ∧ c ∉ blanks ∧ c ≠ '"' := by
  have htable : (operators.all fun p => p.1.head?.all fun c =>
      decide (¬ IsLetter c ∧ ¬ IsDigit c ∧ c ∉ blanks ∧ c ≠ '"')) = true := by decide
  exact of_decide_eq_true (List.all_eq_true.1 htable _ h)

theorem blank_start {c : Char} (h : c ∈ blanks) : ¬ IsLetter c ∧ ¬ IsDigit c ∧ c ≠ '"' := by
  have htable : (blanks.all fun c => decide (¬ IsLetter c ∧ ¬ IsDigit c ∧ c ≠ '"')) = true := by decide
  exact of_decide_eq_true (List.all_eq_true.1 htable c h)

theorem not_isLetter_of_isDigit {c : Char} (h : IsDigit c) : ¬ IsLetter c := by
  unfold IsDigit at h
  unfold IsLetter
  simp only [Char.le_def, UInt32.le_iff_toNat_le] at h ⊢
  have h9 : '9'.val.toNat = 57 := rfl
  have ha : 'a'.val.toNat = 97 := rfl
  have hA : 'A'.val.toNat = 65 := rfl
  rintro (hc | hc | rfl)
  · omega
  · omega
  · exact absurd h (by decide)

theorem single?_eq_some {c : Char} {kind : Kind} (h : single? c = some kind) :
    ([c], kind) ∈ operators ∧ ∀ cs k, (c :: cs, k) ∈ operators → cs = [] := by
  unfold single? at h
  split at h <;> cases h <;> simp [operators]

theorem double?_eq_some {c : Char} {alone withEqual : Kind} (h : double? c = some (alone, withEqual)) :
    (([c], alone) ∈ operators ∧ ([c, '='], withEqual) ∈ operators) ∧
      ∀ cs k, (c :: cs, k) ∈ operators → cs = [] ∨ cs = ['='] := by
  unfold double? at h
  split at h <;> cases h <;> simp [operators] <;> grind

theorem mem_operators_slash {cs : List Char} {kind : Kind} (h : ('/' :: cs, kind) ∈ operators) :
    cs = [] ∧ kind = .slash := by
  simpa [operators] using h

theorem IsNumber.start {whole fraction cs : List Char} {c : Char}
    (h : IsNumber whole fraction (c :: cs)) : IsDigit c := by
  generalize htext : c :: cs = text at h
  cases h with
  | plain hds =>
    subst htext
    exact hds.2 c List.mem_cons_self
  | pointed hds =>
    rcases whole with _ | ⟨d, whole⟩
    · exact absurd rfl hds.1
    · cases htext
      exact hds.2 c List.mem_cons_self

section
variable {c : Char} {cs : List Char} (h : Lexical (c :: cs))
include h

theorem Lexical.word (hc : IsLetter c) : IsWord (c :: cs) := by
  rcases h with hword | ⟨whole, fraction, hnumber⟩ | ⟨kind, hoperator⟩
  · exact hword
  · exact absurd hc (not_isLetter_of_isDigit hnumber.start)
  · exact absurd hc (operator_start hoperator).1

theorem Lexical.number (hc : IsDigit c) : ∃ whole fraction, IsNumber whole fraction (c :: cs) := by
  rcases h with hword | hnumber | ⟨kind, hoperator⟩
  · exact absurd hword.1 (not_isLetter_of_isDigit hc)
  · exact hnumber
  · exact absurd hc (operator_start hoperator).2.1

theorem Lexical.operator (hletter : ¬ IsLetter c) (hdigit : ¬ IsDigit c) :
    ∃ kind, (c :: cs, kind) ∈ operators := by
  rcases h with hword | ⟨whole, fraction, hnumber⟩ | hoperator
  · exact absurd hword.1 hletter
  · exact absurd hnumber.start hdigit
  · exact hoperator

end

/-- Nothing can be put onto a longest lexeme. -/
theorem Longest.no_more {text rest behind : List Char} (hl : Longest text rest) (more : List Char)
    (hrest : rest = more ++ behind) (h : Lexical (text ++ more)) : more = [] := by
  have hle := hl _ h ⟨behind, by rw [hrest, List.append_assoc]⟩
  rw [List.length_append] at hle
  exact List.eq_nil_of_length_eq_zero (by omega)

/-! ## Runs of characters -/

/-- The text does not go on with a character that satisfies `p`. -/
def Breaks (p : Char → Bool) (rest : List Char) : Prop := ∀ d more, rest = d :: more → p d = false

section
variable {p : Char → Bool} {body rest : List Char}

theorem breaks_dropWhile (p : Char → Bool) (cs : List Char) : Breaks p (cs.dropWhile p) := by
  intro d more h
  have hhead := List.head?_dropWhile_not p cs
  rw [h] at hhead
  exact hhead

theorem takeWhile_of_breaks (h : ∀ d ∈ body, p d = true) (hr : Breaks p rest) :
    (body ++ rest).takeWhile p = body := by
  rw [List.takeWhile_append_of_pos h]
  rcases rest with _ | ⟨d, more⟩
  · simp
  · simp [hr d more rfl]

theorem dropWhile_of_breaks (h : ∀ d ∈ body, p d = true) (hr : Breaks p rest) :
    (body ++ rest).dropWhile p = rest := by
  rw [List.dropWhile_append_of_pos h]
  rcases rest with _ | ⟨d, more⟩
  · rfl
  · simp [hr d more rfl]

/-- No run at the front is longer than the one that is taken. -/
theorem length_le_takeWhile {cs : List Char} (h : ∀ d ∈ body, p d = true) (hp : body <+: cs) :
    body.length ≤ (cs.takeWhile p).length := by
  obtain ⟨rest, rfl⟩ := hp
  rw [List.takeWhile_append_of_pos h, List.length_append]
  omega

theorem all_takeWhile (p : Char → Bool) (cs : List Char) : ∀ d ∈ cs.takeWhile p, p d = true :=
  List.all_eq_true.1 List.all_takeWhile

end

/-! ## Block comments -/

/-- A text that closes a comment brings the count of open ones down by one. -/
theorem closeComment_of_closes {text : List Char} (h : Closes text) (d lines : Nat) (seen rest : List Char) :
    closeComment (d + 1) lines seen (text ++ rest) =
      closeComment d (lines + text.count '\n') (text.reverse ++ seen) rest := by
  induction h generalizing d lines seen rest with
  | mark => rfl
  | @nested inner outer _ _ ihi iho =>
    have hopen : closeComment (d + 1) lines seen ('/' :: '*' :: (inner ++ outer) ++ rest) =
        closeComment (d + 2) lines ('*' :: '/' :: seen) (inner ++ (outer ++ rest)) := by
      rw [List.cons_append, List.cons_append, List.append_assoc, closeComment]
    rw [hopen, ihi, iho]
    simp [Nat.add_assoc]
  | @other c c' cs hclose hopen _ ih =>
    have hplain : closeComment (d + 1) lines seen (c :: c' :: cs ++ rest) =
        closeComment (d + 1) (lines + [c].count '\n') (c :: seen) (c' :: cs ++ rest) := by
      rw [List.cons_append]
      refine closeComment_other d lines seen (fun more hc hmore => ?_) fun more hc hmore => ?_
      · exact hclose ⟨hc, (List.cons.inj hmore).1⟩
      · exact hopen ⟨hc, (List.cons.inj hmore).1⟩
    have hcount : lines + [c].count '\n' + (c' :: cs).count '\n' = lines + (c :: c' :: cs).count '\n' := by
      rw [Nat.add_assoc, ← List.count_append, List.singleton_append]
    rw [hplain, ih, hcount]
    simp

/-- Where all comments are closed, the innermost one is closed first. -/
theorem closes_of_closeComment {d lines : Nat} {seen cs : List Char}
    (h : (closeComment (d + 1) lines seen cs).closed = true) :
    ∃ text rest, cs = text ++ rest ∧ Closes text := by
  match cs with
  | [] => simp [closeComment] at h
  | c :: [] =>
    rw [closeComment_other d lines seen (fun _ _ hcs => by cases hcs) fun _ _ hcs => by cases hcs] at h
    simp [closeComment] at h
  | c :: c' :: cs =>
    by_cases hclose : c = '*' ∧ c' = '/'
    · obtain ⟨rfl, rfl⟩ := hclose
      exact ⟨['*', '/'], cs, rfl, .mark⟩
    · by_cases hopen : c = '/' ∧ c' = '*'
      · obtain ⟨rfl, rfl⟩ := hopen
        rw [closeComment] at h
        obtain ⟨inner, rest, rfl, hinner⟩ := closes_of_closeComment h
        rw [closeComment_of_closes hinner] at h
        obtain ⟨outer, rest, rfl, houter⟩ := closes_of_closeComment h
        exact ⟨'/' :: '*' :: (inner ++ outer), rest, by simp, .nested hinner houter⟩
      · rw [closeComment_other] at h
        · obtain ⟨text, rest, htext, hcloses⟩ := closes_of_closeComment h
          rcases text with _ | ⟨d', text⟩
          · cases hcloses
          · cases htext
            exact ⟨c :: c' :: text, rest, rfl, .other hclose hopen hcloses⟩
        · intro more hc hmore
          exact hclose ⟨hc, (List.cons.inj hmore).1⟩
        · intro more hc hmore
          exact hopen ⟨hc, (List.cons.inj hmore).1⟩
termination_by cs.length

/-- A comment that nothing closes is read to the end of the text. -/
theorem rest_of_open {d lines : Nat} {seen cs : List Char} (h : (closeComment d lines seen cs).closed = false) :
    (closeComment d lines seen cs).rest = [] := by
  fun_induction closeComment d lines seen cs with
  | case1 => cases h
  | case2 => rfl
  | case3 _ _ _ _ ih => exact ih h
  | case4 _ _ _ _ ih => exact ih h
  | case5 _ _ _ _ ih => exact ih h
  | case6 _ _ _ _ _ _ _ _ ih => exact ih h

theorem blockComment_of_closes {text : List Char} (h : Closes text) (rest : List Char) :
    blockComment (text ++ rest) = (⟨⟨.skipped, '/' :: '*' :: text⟩, text.count '\n'⟩, rest) := by
  rw [blockComment, closeComment_of_closes h, closeComment]
  simp

theorem blockComment_of_open {cs : List Char} (h : ∀ text, text <+: cs → ¬ Closes text) :
    blockComment cs = (⟨⟨.faulty .unterminatedComment, '/' :: '*' :: cs⟩, cs.count '\n'⟩, []) := by
  have hopen : (closeComment 1 0 ['*', '/'] cs).closed = false := by
    apply Bool.eq_false_iff.2
    intro hclosed
    obtain ⟨text, rest, rfl, hcloses⟩ := closes_of_closeComment hclosed
    exact h text (List.prefix_append text rest) hcloses
  have htext := closeComment_append 1 0 ['*', '/'] cs
  have hlines := closeComment_lines 1 0 ['*', '/'] cs
  rw [rest_of_open hopen, List.append_nil] at htext
  rw [htext] at hlines
  rw [blockComment, hopen, rest_of_open hopen, htext]
  simpa using hlines

theorem cut_blockComment (cs : List Char) : Cut (blockComment cs).1.toPiece (blockComment cs).2 := by
  by_cases h : ∃ text, text <+: cs ∧ Closes text
  · obtain ⟨text, ⟨rest, rfl⟩, hcloses⟩ := h
    rw [blockComment_of_closes hcloses]
    exact .blockComment hcloses
  · have hopen : ∀ text, text <+: cs → ¬ Closes text := fun text hp hcloses => h ⟨text, hp, hcloses⟩
    rw [blockComment_of_open hopen]
    exact .openComment hopen

/-! ## Strings -/

theorem breaks_quote {inner : List Char} (h : '"' ∉ inner) (rest : List Char) :
    (∀ d ∈ inner, (d != '"') = true) ∧ Breaks (· != '"') ('"' :: rest) := by
  refine ⟨fun d hd => ?_, fun d more hd => ?_⟩
  · have hne : d ≠ '"' := fun heq => h (heq ▸ hd)
    simpa using hne
  · cases hd
    rfl

theorem quoted_of_closed {inner : List Char} (h : '"' ∉ inner) (rest : List Char) :
    quoted (inner ++ '"' :: rest) =
      (⟨⟨.lexeme .string (some (.string (String.ofList inner))), '"' :: inner ++ ['"']⟩,
        inner.count '\n'⟩, rest) := by
  obtain ⟨hinner, hbreaks⟩ := breaks_quote h rest
  rw [quoted_of_dropWhile_cons (dropWhile_of_breaks hinner hbreaks), takeWhile_of_breaks hinner hbreaks]

theorem quoted_of_open {inner : List Char} (h : '"' ∉ inner) :
    quoted inner = (⟨⟨.faulty .unterminatedString, '"' :: inner⟩, inner.count '\n'⟩, []) := by
  have hinner := (breaks_quote h []).1
  have hbreaks : Breaks (· != '"') [] := nofun
  have htake := takeWhile_of_breaks hinner hbreaks
  have hdrop := dropWhile_of_breaks hinner hbreaks
  rw [List.append_nil] at htake hdrop
  rw [quoted_of_dropWhile_nil hdrop, htake]

theorem cut_quoted (cs : List Char) : Cut (quoted cs).1.toPiece (quoted cs).2 := by
  have hinner : '"' ∉ cs.takeWhile (· != '"') := by
    intro hmem
    have := all_takeWhile (· != '"') cs '"' hmem
    simp at this
  have hsplit := List.takeWhile_append_dropWhile (p := (· != '"')) (l := cs)
  generalize cs.takeWhile (· != '"') = inner at hinner hsplit
  cases hrest : cs.dropWhile (· != '"') with
  | nil =>
    rw [hrest, List.append_nil] at hsplit
    rw [← hsplit, quoted_of_open hinner]
    exact .openString hinner
  | cons q rest =>
    have hq := breaks_dropWhile (· != '"') cs q rest hrest
    obtain rfl : q = '"' := by simpa using hq
    rw [hrest] at hsplit
    rw [← hsplit, quoted_of_closed hinner]
    exact .string hinner

/-! ## Words -/

theorem keyword?_eq_some_iff {word : String} {kind : Kind} :
    Kind.keyword? word = some kind ↔ (word, kind) ∈ Kind.keywords := by
  constructor
  · intro h
    obtain ⟨before, behind, htable, -⟩ := List.lookup_eq_some_iff.1 h
    rw [htable]
    simp
  · intro h
    have htable : ∀ p ∈ Kind.keywords, Kind.keyword? p.1 = some p.2 := by decide
    exact htable _ h

theorem isKindOf_iff {kind : Kind} {text : List Char} :
    IsKindOf kind text ↔ wordForm text = .lexeme kind none := by
  simp only [IsKindOf, wordForm, Form.lexeme.injEq, and_true, ← keyword?_eq_some_iff]
  cases Kind.keyword? (String.ofList text) with
  | none => simp [eq_comm]
  | some k => simp

section
variable {c : Char} {cs rest : List Char}

theorem longest_word (hc : IsLetter c) :
    Longest (c :: cs.takeWhile isWordPart) (cs.dropWhile isWordPart) := by
  intro longer hlexical hp
  rw [List.cons_append, List.takeWhile_append_dropWhile] at hp
  rcases longer with _ | ⟨d, longer⟩
  · exact Nat.zero_le _
  · obtain ⟨rfl, hprefix⟩ := List.cons_prefix_cons.1 hp
    have hword := (hlexical.word hc).2
    have hle := length_le_takeWhile (p := isWordPart) (fun d hd => isWordPart_iff.2 (hword d hd)) hprefix
    rw [List.length_cons, List.length_cons]
    omega

theorem breaks_of_longest_word (h : IsWord (c :: cs)) (hl : Longest (c :: cs) rest) :
    Breaks isWordPart rest := by
  rintro d more rfl
  apply Bool.eq_false_iff.2
  intro hd
  have hword : IsWord (c :: cs ++ [d]) := by
    refine ⟨h.1, fun e he => ?_⟩
    rcases List.mem_append.1 he with he | he
    · exact h.2 e he
    · rw [List.mem_singleton.1 he]
      exact isWordPart_iff.1 hd
  exact absurd (hl.no_more [d] rfl (.inl hword)) (List.cons_ne_nil d [])

/-! ## Numbers -/

theorem breaks_of_longest_number {whole fraction : List Char} (h : IsNumber whole fraction cs)
    (hl : Longest cs rest) : Breaks Char.isDigit rest := by
  rintro d more rfl
  apply Bool.eq_false_iff.2
  intro hd
  have hdigits (ds : List Char) (hds : IsDigits ds) : IsDigits (ds ++ [d]) := by
    refine ⟨by simp, fun e he => ?_⟩
    rcases List.mem_append.1 he with he | he
    · exact hds.2 e he
    · rw [List.mem_singleton.1 he]
      exact isDigit_iff.1 hd
  have hlonger : ∃ whole fraction, IsNumber whole fraction (cs ++ [d]) := by
    cases h with
    | plain hds => exact ⟨_, _, .plain (hdigits _ hds)⟩
    | pointed hds hes => exact ⟨_, _, by simpa using IsNumber.pointed hds (hdigits _ hes)⟩
  exact absurd (hl.no_more [d] rfl (.inr (.inl hlonger))) (List.cons_ne_nil d [])

theorem isDigits_takeWhile (hc : IsDigit c) : IsDigits (c :: cs.takeWhile Char.isDigit) := by
  refine ⟨by simp, fun d hd => ?_⟩
  rcases List.mem_cons.1 hd with rfl | hd
  · exact hc
  · exact isDigit_iff.1 (all_takeWhile _ cs d hd)

/-- Digits in front of a point are all the digits at the front. -/
theorem digits_point {ds more : List Char} (h : IsDigits ds) (heq : c :: cs = ds ++ '.' :: more) :
    c :: cs.takeWhile Char.isDigit = ds ∧ cs.dropWhile Char.isDigit = '.' :: more := by
  have hall : ∀ d ∈ ds, d.isDigit = true := fun d hd => isDigit_iff.2 (h.2 d hd)
  have hbreaks : Breaks Char.isDigit ('.' :: more) := by
    rintro d _ hd
    cases hd
    rfl
  have htake := takeWhile_of_breaks hall hbreaks
  have hdrop := dropWhile_of_breaks hall hbreaks
  have hc : c.isDigit = true := by
    rcases ds with _ | ⟨d, ds⟩
    · exact absurd rfl h.1
    · cases heq
      exact hall c List.mem_cons_self
  rw [← heq, List.takeWhile_cons_of_pos hc] at htake
  rw [← heq, List.dropWhile_cons_of_pos hc] at hdrop
  exact ⟨htake, hdrop⟩

theorem length_le_numeral (hc : IsDigit c) {whole fraction longer : List Char}
    (h : IsNumber whole fraction longer) (hp : longer <+: c :: cs) :
    longer.length ≤ (numeral c cs).1.text.length := by
  cases h with
  | plain hds =>
    have hle := length_le_takeWhile (fun d hd => isDigit_iff.2 (hds.2 d hd)) hp
    rw [List.takeWhile_cons_of_pos (isDigit_iff.2 hc)] at hle
    refine Nat.le_trans hle ?_
    unfold numeral
    split
    · split <;> simp
    · simp
  | pointed hds hes =>
    obtain ⟨rest, hrest⟩ := hp
    rw [List.append_assoc, List.cons_append] at hrest
    obtain ⟨hwhole, hleft⟩ := digits_point hds hrest.symm
    rcases fraction with _ | ⟨d, es⟩
    · exact absurd rfl hes.1
    · have hd := isDigit_iff.2 (hes.2 d List.mem_cons_self)
      have hes' : ∀ e ∈ es, Char.isDigit e = true := fun e he =>
        isDigit_iff.2 (hes.2 e (List.mem_cons_of_mem d he))
      have hle := length_le_takeWhile hes' (List.prefix_append es rest)
      have hcut : cs.dropWhile Char.isDigit = '.' :: d :: (es ++ rest) := hleft
      rw [numeral_fraction hcut hd, hwhole]
      simp only [List.length_append, List.length_cons]
      omega

theorem cut_numeral (hc : IsDigit c) : Cut (numeral c cs).1.toPiece (numeral c cs).2 := by
  have hwhole : IsDigits (c :: cs.takeWhile Char.isDigit) := isDigits_takeWhile hc
  have hlongest : Longest (numeral c cs).1.text (numeral c cs).2 := by
    intro longer hlexical hp
    rw [numeral_append] at hp
    rcases longer with _ | ⟨d, longer⟩
    · exact Nat.zero_le _
    · obtain ⟨rfl, -⟩ := List.cons_prefix_cons.1 hp
      obtain ⟨whole, fraction, hnumber⟩ := hlexical.number hc
      exact length_le_numeral hc hnumber hp
  by_cases hpoint : ∃ d more, cs.dropWhile Char.isDigit = '.' :: d :: more ∧ d.isDigit = true
  · obtain ⟨d, more, hleft, hd⟩ := hpoint
    rw [numeral_fraction hleft hd] at hlongest ⊢
    exact .number (.pointed hwhole (isDigits_takeWhile (isDigit_iff.1 hd))) hlongest
  · have hnone : ∀ d more, cs.dropWhile Char.isDigit = '.' :: d :: more → d.isDigit = false :=
      fun d more hleft => Bool.eq_false_iff.2 fun hd => hpoint ⟨d, more, hleft, hd⟩
    rw [numeral_whole hnone] at hlongest ⊢
    exact .number (.plain hwhole) hlongest

theorem numeral_of_number {whole fraction : List Char} (h : IsNumber whole fraction (c :: cs))
    (hl : Longest (c :: cs) rest) : numeral c (cs ++ rest) =
      (⟨⟨.lexeme .number (some (.number (Decimal.read whole fraction))), c :: cs⟩, 0⟩, rest) := by
  have hbreaks := breaks_of_longest_number h hl
  generalize htext : c :: cs = text at h
  cases h with
  | plain hds =>
    subst htext
    have hcs : ∀ d ∈ cs, d.isDigit = true := fun d hd => isDigit_iff.2 (hds.2 d (List.mem_cons_of_mem c hd))
    have hdrop := dropWhile_of_breaks hcs hbreaks
    have hnone : ∀ d more, (cs ++ rest).dropWhile Char.isDigit = '.' :: d :: more → d.isDigit = false := by
      intro d more hleft
      rw [hdrop] at hleft
      apply Bool.eq_false_iff.2
      intro hd
      have hfraction : IsDigits [d] := ⟨by simp, by simpa using isDigit_iff.1 hd⟩
      exact absurd (hl.no_more ['.', d] hleft (.inr (.inl ⟨_, _, .pointed hds hfraction⟩)))
        (List.cons_ne_nil _ _)
    rw [numeral_whole hnone, takeWhile_of_breaks hcs hbreaks, hdrop]
  | pointed hds hes =>
    rcases fraction with _ | ⟨d, es⟩
    · exact absurd rfl hes.1
    · have heq : c :: (cs ++ rest) = whole ++ '.' :: (d :: (es ++ rest)) := by
        rw [← List.cons_append, htext]
        simp
      obtain ⟨hwhole, hleft⟩ := digits_point hds heq
      have hd := isDigit_iff.2 (hes.2 d List.mem_cons_self)
      have hes' : ∀ e ∈ es, e.isDigit = true := fun e he =>
        isDigit_iff.2 (hes.2 e (List.mem_cons_of_mem d he))
      rw [numeral_fraction hleft hd, hwhole, takeWhile_of_breaks hes' hbreaks,
        dropWhile_of_breaks hes' hbreaks]

/-! ## Operators -/

theorem longest_operator (hletter : ¬ IsLetter c) (hdigit : ¬ IsDigit c)
    (h : ∀ more kind, (c :: more, kind) ∈ operators → more <+: cs ++ rest → more.length ≤ cs.length) :
    Longest (c :: cs) rest := by
  intro longer hlexical hp
  rcases longer with _ | ⟨d, longer⟩
  · exact Nat.zero_le _
  · obtain ⟨rfl, hprefix⟩ := List.cons_prefix_cons.1 hp
    obtain ⟨kind, hoperator⟩ := hlexical.operator hletter hdigit
    rw [List.length_cons, List.length_cons]
    have hle := h longer kind hoperator hprefix
    omega

/-- A character that starts an operator is one of three sorts. -/
theorem operator_sorts {kind : Kind} (h : (c :: cs, kind) ∈ operators) :
    (∃ kind, single? c = some kind) ∨ (∃ kinds, double? c = some kinds) ∨ c = '/' := by
  have htable : (operators.all fun p => p.1.head?.all fun c =>
      decide ((single? c).isSome = true ∨ (double? c).isSome = true ∨ c = '/')) = true := by decide
  rcases of_decide_eq_true (List.all_eq_true.1 htable _ h) with hsingle | hdouble | hslash
  · exact .inl (Option.isSome_iff_exists.1 hsingle)
  · exact .inr (.inl (Option.isSome_iff_exists.1 hdouble))
  · exact .inr (.inr hslash)

theorem first_of_single {kind : Kind} (h : single? c = some kind) :
    first c cs = (⟨⟨.lexeme kind none, [c]⟩, 0⟩, cs) := by
  unfold first
  rw [h]

theorem first_of_double {alone withEqual : Kind} (h : double? c = some (alone, withEqual)) :
    first c ('=' :: cs) = (⟨⟨.lexeme withEqual none, [c, '=']⟩, 0⟩, cs) ∧
      ((∀ more, cs ≠ '=' :: more) → first c cs = (⟨⟨.lexeme alone none, [c]⟩, 0⟩, cs)) := by
  have hsingle : single? c = none := by
    unfold double? at h
    split at h <;> cases h <;> rfl
  unfold first
  rw [hsingle, h]
  refine ⟨rfl, fun hmore => ?_⟩
  dsimp only
  split
  · next rest => exact absurd rfl (hmore rest)
  · rfl

theorem first_of_slash (h : ∀ more, cs ≠ '/' :: more ∧ cs ≠ '*' :: more) :
    first '/' cs = (⟨⟨.lexeme .slash none, ['/']⟩, 0⟩, cs) := by
  rcases cs with _ | ⟨d, cs⟩
  · rfl
  · have hline : d ≠ '/' := fun hd => (h cs).1 (by rw [hd])
    have hblock : d ≠ '*' := fun hd => (h cs).2 (by rw [hd])
    simp [first, single?, double?, hline, hblock]

theorem first_of_lineComment {inner : List Char} (h : '\n' ∉ inner)
    (hr : rest = [] ∨ ∃ more, rest = '\n' :: more) :
    first '/' ('/' :: inner ++ rest) = (⟨⟨.skipped, '/' :: '/' :: inner⟩, 0⟩, rest) := by
  have hinner : ∀ d ∈ '/' :: inner, (d != '\n') = true := by
    intro d hd
    have hne : d ≠ '\n' := by
      rintro rfl
      rcases List.mem_cons.1 hd with hd | hd
      · exact absurd hd (by decide)
      · exact h hd
    simpa using hne
  have hbreaks : Breaks (· != '\n') rest := by
    rintro d more rfl
    rcases hr with hr | ⟨more, hr⟩
    · cases hr
    · cases hr
      rfl
  have hrun : first '/' ('/' :: inner ++ rest) =
      run (· != '\n') (fun _ => .skipped) '/' ('/' :: inner ++ rest) := rfl
  rw [hrun, run, takeWhile_of_breaks hinner hbreaks, dropWhile_of_breaks hinner hbreaks]

theorem not_blank_cases (h : c ∉ blanks) : ¬ isBlank c = true ∧ ¬ c = '\n' :=
  not_or.1 fun hc => h (mem_blanks_iff.2 hc)

/-- How a text is cut that does not start with an operator. -/
theorem first_of_no_operator (h : ∀ cs kind, (c :: cs, kind) ∉ operators) : first c cs =
    if c = '"' then quoted cs
    else if isBlank c then (⟨⟨.skipped, [c]⟩, 0⟩, cs)
    else if c = '\n' then (⟨⟨.skipped, [c]⟩, 1⟩, cs)
    else if c.isDigit then numeral c cs
    else if isWordStart c then run isWordPart wordForm c cs
    else (⟨⟨.faulty .unexpectedCharacter, [c]⟩, 0⟩, cs) := by
  have hsingle : single? c = none := by
    cases hkind : single? c with
    | none => rfl
    | some kind => exact absurd (single?_eq_some hkind).1 (h _ _)
  have hdouble : double? c = none := by
    cases hkinds : double? c with
    | none => rfl
    | some kinds => exact absurd (double?_eq_some hkinds).1.1 (h _ _)
  have hslash : c ≠ '/' := by
    rintro rfl
    exact h [] .slash (by decide)
  unfold first
  rw [hsingle, hdouble]
  exact if_neg hslash

/-! ## The first piece -/

theorem cut_first_slash (cs : List Char) : Cut (first '/' cs).1.toPiece (first '/' cs).2 := by
  by_cases hline : ∃ more, cs = '/' :: more
  · obtain ⟨more, rfl⟩ := hline
    have hinner : '\n' ∉ more.takeWhile (· != '\n') := by
      intro hmem
      have hne := all_takeWhile (· != '\n') more '\n' hmem
      simp at hne
    have hrest : more.dropWhile (· != '\n') = [] ∨
        ∃ below, more.dropWhile (· != '\n') = '\n' :: below := by
      cases hbelow : more.dropWhile (· != '\n') with
      | nil => exact .inl rfl
      | cons d below =>
        have hd := breaks_dropWhile (· != '\n') more d below hbelow
        obtain rfl : d = '\n' := by simpa using hd
        exact .inr ⟨below, rfl⟩
    have hfirst := first_of_lineComment hinner hrest
    rw [List.cons_append, List.takeWhile_append_dropWhile] at hfirst
    rw [hfirst]
    exact .lineComment hinner hrest
  · by_cases hblock : ∃ more, cs = '*' :: more
    · obtain ⟨more, rfl⟩ := hblock
      exact cut_blockComment more
    · have hplain : ∀ more, cs ≠ '/' :: more ∧ cs ≠ '*' :: more := fun more =>
        ⟨fun h => hline ⟨more, h⟩, fun h => hblock ⟨more, h⟩⟩
      rw [first_of_slash hplain]
      refine .operator (by decide) (longest_operator (by decide) (by decide) ?_) fun _ => hplain
      intro more kind hmem _
      exact Nat.le_of_eq (congrArg List.length (mem_operators_slash hmem).1)

theorem cut_first (c : Char) (cs : List Char) : Cut (first c cs).1.toPiece (first c cs).2 := by
  by_cases hoperator : ∃ more kind, (c :: more, kind) ∈ operators
  · obtain ⟨more, kind, hmem⟩ := hoperator
    obtain ⟨hletter, hdigit, -⟩ := operator_start hmem
    rcases operator_sorts hmem with ⟨kind, hkind⟩ | ⟨⟨alone, withEqual⟩, hkinds⟩ | rfl
    · obtain ⟨hone, honly⟩ := single?_eq_some hkind
      rw [first_of_single hkind]
      refine .operator hone (longest_operator hletter hdigit fun more k hmem _ => ?_) fun hslash => ?_
      · exact Nat.le_of_eq (congrArg List.length (honly more k hmem))
      · cases hslash
        cases hkind
    · obtain ⟨⟨hone, htwo⟩, honly⟩ := double?_eq_some hkinds
      by_cases hequal : ∃ more, cs = '=' :: more
      · obtain ⟨more, rfl⟩ := hequal
        rw [(first_of_double hkinds).1]
        refine .operator htwo (longest_operator hletter hdigit fun more k hmem _ => ?_) nofun
        rcases honly more k hmem with rfl | rfl
        · exact Nat.zero_le _
        · exact Nat.le_refl _
      · rw [(first_of_double hkinds).2 fun more h => hequal ⟨more, h⟩]
        refine .operator hone (longest_operator hletter hdigit fun more k hmem hp => ?_) fun hslash => ?_
        · rcases honly more k hmem with rfl | rfl
          · exact Nat.le_refl _
          · obtain ⟨rest, hrest⟩ := hp
            exact absurd ⟨rest, hrest.symm⟩ hequal
        · cases hslash
          cases hkinds
    · exact cut_first_slash cs
  · have hnone : ∀ cs kind, (c :: cs, kind) ∉ operators := fun more kind hmem =>
      hoperator ⟨more, kind, hmem⟩
    rw [first_of_no_operator hnone]
    split
    · exact cut_quoted cs
    · next hquote =>
      split
      · next hblank => exact .blank (mem_blanks_iff.2 (.inl hblank))
      · next hblank =>
        split
        · next hfeed => exact .blank (mem_blanks_iff.2 (.inr hfeed))
        · next hfeed =>
          split
          · next hdigit => exact cut_numeral (isDigit_iff.1 hdigit)
          · next hdigit =>
            split
            · next hletter =>
              have hc := isWordStart_iff.1 hletter
              refine .word ⟨hc, fun d hd => ?_⟩ (longest_word hc) (isKindOf_iff.2 rfl)
              exact isWordPart_iff.1 (all_takeWhile _ _ d hd)
            · next hletter =>
              refine .stray (fun more hlexical => ?_) hquote fun hmem => ?_
              · obtain ⟨kind, hmem⟩ := hlexical.operator (fun h => hletter (isWordStart_iff.2 h))
                  fun h => hdigit (isDigit_iff.2 h)
                exact hnone more kind hmem
              · exact (mem_blanks_iff.1 hmem).elim hblank hfeed

/-- A rightly cut operator is the one that is found. -/
theorem first_of_operator {kind : Kind} (h : (c :: cs, kind) ∈ operators) (hl : Longest (c :: cs) rest)
    (hc : c :: cs = ['/'] → ∀ more, rest ≠ '/' :: more ∧ rest ≠ '*' :: more) :
    first c (cs ++ rest) = (⟨⟨.lexeme kind none, c :: cs⟩, 0⟩, rest) := by
  have hdistinct : ∀ p ∈ operators, ∀ q ∈ operators, p.1 = q.1 → p.2 = q.2 := by decide
  rcases operator_sorts h with ⟨k, hkind⟩ | ⟨⟨alone, withEqual⟩, hkinds⟩ | rfl
  · obtain ⟨hone, honly⟩ := single?_eq_some hkind
    obtain rfl := honly cs kind h
    obtain rfl : k = kind := hdistinct _ hone _ h rfl
    exact first_of_single hkind
  · obtain ⟨⟨hone, htwo⟩, honly⟩ := double?_eq_some hkinds
    rcases honly cs kind h with rfl | rfl
    · obtain rfl : alone = kind := hdistinct _ hone _ h rfl
      refine (first_of_double hkinds).2 fun more hmore => ?_
      exact absurd (hl.no_more ['='] hmore (.inr (.inr ⟨_, htwo⟩))) (List.cons_ne_nil _ _)
    · obtain rfl : withEqual = kind := hdistinct _ htwo _ h rfl
      exact (first_of_double hkinds).1
  · obtain ⟨rfl, rfl⟩ := mem_operators_slash h
    exact first_of_slash (hc rfl)

theorem first_of_word (h : IsWord (c :: cs)) (hl : Longest (c :: cs) rest) :
    first c (cs ++ rest) = (⟨⟨wordForm (c :: cs), c :: cs⟩, 0⟩, rest) := by
  have hnone : ∀ cs kind, (c :: cs, kind) ∉ operators := fun _ _ hmem => (operator_start hmem).1 h.1
  have hquote : c ≠ '"' := by
    rintro rfl
    exact absurd h.1 (by decide)
  obtain ⟨hblank, hfeed⟩ := not_blank_cases fun hc => (blank_start hc).1 h.1
  have hdigit : ¬ c.isDigit = true := fun hc => not_isLetter_of_isDigit (isDigit_iff.1 hc) h.1
  have hcs : ∀ d ∈ cs, isWordPart d = true := fun d hd => isWordPart_iff.2 (h.2 d hd)
  have hbreaks := breaks_of_longest_word h hl
  rw [first_of_no_operator hnone, if_neg hquote, if_neg hblank, if_neg hfeed, if_neg hdigit,
    if_pos (isWordStart_iff.2 h.1), run, takeWhile_of_breaks hcs hbreaks, dropWhile_of_breaks hcs hbreaks]

theorem first_of_digit (h : IsDigit c) : first c cs = numeral c cs := by
  have hnone : ∀ cs kind, (c :: cs, kind) ∉ operators := fun _ _ hmem => (operator_start hmem).2.1 h
  have hquote : c ≠ '"' := by
    rintro rfl
    exact absurd h (by decide)
  obtain ⟨hblank, hfeed⟩ := not_blank_cases fun hc => (blank_start hc).2.1 h
  rw [first_of_no_operator hnone, if_neg hquote, if_neg hblank, if_neg hfeed, if_pos (isDigit_iff.2 h)]

theorem first_of_blank (h : c ∈ blanks) : first c cs = (⟨⟨.skipped, [c]⟩, [c].count '\n'⟩, cs) := by
  have hnone : ∀ cs kind, (c :: cs, kind) ∉ operators := fun _ _ hmem => (operator_start hmem).2.2.1 h
  rw [first_of_no_operator hnone, if_neg (blank_start h).2.2]
  by_cases hfeed : c = '\n'
  · subst hfeed
    rfl
  · have hblank := (mem_blanks_iff.1 h).resolve_right hfeed
    rw [if_pos hblank]
    simp [hfeed]

theorem first_of_stray (hl : ∀ more, ¬ Lexical (c :: more)) (hq : c ≠ '"') (hb : c ∉ blanks) :
    first c cs = (⟨⟨.faulty .unexpectedCharacter, [c]⟩, 0⟩, cs) := by
  have hnone : ∀ cs kind, (c :: cs, kind) ∉ operators := fun more kind hmem =>
    hl more (.inr (.inr ⟨kind, hmem⟩))
  obtain ⟨hblank, hfeed⟩ := not_blank_cases hb
  have hdigit : ¬ c.isDigit = true := by
    intro hc
    have hone : IsDigits [c] := ⟨by simp, by simpa using isDigit_iff.1 hc⟩
    exact hl [] (.inr (.inl ⟨_, _, .plain hone⟩))
  have hletter : ¬ isWordStart c = true := by
    intro hc
    have hword : IsWord [c] := ⟨isWordStart_iff.1 hc, by simp⟩
    exact hl [] (.inl hword)
  rw [first_of_no_operator hnone, if_neg hq, if_neg hblank, if_neg hfeed, if_neg hdigit, if_neg hletter]

/-- There is no other way to cut off a piece. -/
theorem first_of_cut {p : Piece} (h : Cut p rest) (heq : p.text ++ rest = c :: cs) :
    ∃ lines, first c cs = (⟨p, lines⟩, rest) := by
  cases h with
  | @word kind text _ hword hl hk =>
    rcases text with _ | ⟨d, text⟩
    · exact hword.elim
    · cases heq
      rw [← isKindOf_iff.1 hk]
      exact ⟨_, first_of_word hword hl⟩
  | @number whole fraction text _ hnumber hl =>
    rcases text with _ | ⟨d, text⟩
    · exact absurd rfl hnumber.ne_nil
    · cases heq
      exact ⟨_, (first_of_digit hnumber.start).trans (numeral_of_number hnumber hl)⟩
  | @operator kind text _ hmem hl hc =>
    rcases text with _ | ⟨d, text⟩
    · simp [operators] at hmem
    · cases heq
      exact ⟨_, first_of_operator hmem hl hc⟩
  | @string inner _ hinner =>
    rw [List.append_assoc] at heq
    cases heq
    exact ⟨_, quoted_of_closed hinner rest⟩
  | blank hblank =>
    cases heq
    exact ⟨_, first_of_blank hblank⟩
  | lineComment hinner hr =>
    cases heq
    exact ⟨_, first_of_lineComment hinner hr⟩
  | blockComment hcloses =>
    cases heq
    exact ⟨_, blockComment_of_closes hcloses rest⟩
  | stray hl hq hb =>
    cases heq
    exact ⟨_, first_of_stray hl hq hb⟩
  | openString hinner =>
    rw [List.append_nil] at heq
    cases heq
    exact ⟨_, quoted_of_open hinner⟩
  | openComment hopen =>
    rw [List.append_nil] at heq
    cases heq
    exact ⟨_, blockComment_of_open hopen⟩

end

end Piece

/-! ## All pieces -/

open Piece

theorem splits_pieces (cs : List Char) : Splits cs ((pieces cs).map (·.toPiece)) := by
  match cs with
  | [] =>
    rw [pieces_nil]
    exact .nil
  | c :: cs =>
    have hsplits := Splits.cons (cut_first c cs) (splits_pieces (first c cs).2)
    rw [first_append] at hsplits
    rw [pieces_cons]
    exact hsplits
termination_by cs.length
decreasing_by exact length_rest_lt c _

theorem eq_pieces_of_splits {cs : List Char} {ps : List Piece} (h : Splits cs ps) :
    ps = (pieces cs).map (·.toPiece) := by
  induction h with
  | nil => rw [pieces_nil, List.map_nil]
  | @cons p ps rest hp _ ih =>
    cases heq : p.text ++ rest with
    | nil => exact absurd (List.append_eq_nil_iff.1 heq).1 hp.ne_nil
    | cons c cs =>
      obtain ⟨lines, hfirst⟩ := first_of_cut hp heq
      rw [pieces_cons, hfirst, List.map_cons, ← ih]

/-- The piece, with its line feeds counted. -/
def Piece.counted (p : Piece) : Counted := ⟨p, p.text.count '\n'⟩

theorem pieces_of_splits {cs : List Char} {ps : List Piece} (h : Splits cs ps) :
    pieces cs = ps.map Piece.counted := by
  have hcounted : ∀ p ∈ pieces cs, p.toPiece.counted = p := by
    intro p hp
    rw [Piece.counted, ← lines_pieces cs p hp]
  rw [eq_pieces_of_splits h, List.map_map]
  exact ((List.map_congr_left hcounted).trans (List.map_id' _)).symm

/-- What a token is, apart from its line. -/
def Token.reading (t : Token) : Kind × String × Option Literal := (t.kind, t.lexeme, t.literal)

/-- The token that a lexeme is, apart from its line. -/
def Piece.lexeme? (p : Piece) : Option (Kind × String × Option Literal) :=
  match p.form with
  | .lexeme kind literal => some (kind, String.ofList p.text, literal)
  | _ => none

/-- What is wrong with a faulty piece. -/
def Piece.fault? (p : Piece) : Option SyntaxError.Cause :=
  match p.form with
  | .faulty cause => some cause
  | _ => none

theorem map_reading_tokensFrom (line : Nat) (ps : List Counted) :
    (tokensFrom line ps).map Token.reading = (ps.map (·.toPiece)).filterMap Piece.lexeme? := by
  induction ps generalizing line with
  | nil => rfl
  | cons p ps ih =>
    obtain ⟨⟨form, text⟩, lines⟩ := p
    rw [tokensFrom, List.map_append, ih]
    cases form <;> simp [Piece.token?, Piece.lexeme?, Token.reading, List.filterMap_cons]

theorem errors_foldl_add (ps : List Counted) (s : Scan) :
    (ps.foldl Scan.add s).errors.toList.map (·.cause) =
      s.errors.toList.map (·.cause) ++ (ps.map (·.toPiece)).filterMap Piece.fault? := by
  induction ps generalizing s with
  | nil => simp
  | cons p ps ih =>
    obtain ⟨⟨form, text⟩, lines⟩ := p
    rw [List.foldl_cons, ih]
    cases form <;> simp [Scan.add, Piece.fault?, List.filterMap_cons]

theorem flatMap_toPiece (cs : List Char) : ((pieces cs).map (·.toPiece)).flatMap (·.text) = cs := by
  rw [List.flatMap_map]
  exact flatMap_pieces cs

/-- A text splits into pieces in exactly one way. They make up the text and none is empty. The tokens are
the lexemes among them, in order, with one end-of-input token behind them, and there is one error for each
faulty piece, in order. -/
theorem scan_splits (source : String) :
    ∃ ps, (Splits source.toList ps ∧ ∀ qs, Splits source.toList qs → qs = ps) ∧
      (ps.flatMap (·.text) = source.toList ∧ ∀ p ∈ ps, p.text ≠ []) ∧
      ((scan source).1.map Token.reading = ps.filterMap Piece.lexeme? ++ [(.eof, "", none)] ∧
        ∀ r ∈ ps.filterMap Piece.lexeme?, r.1 ≠ .eof) ∧
      (scan source).2.map (·.cause) = ps.filterMap Piece.fault? := by
  obtain ⟨line, htokens⟩ := scan_tokens source
  refine ⟨_, ⟨splits_pieces _, fun qs => eq_pieces_of_splits⟩, ⟨flatMap_toPiece _, ?_⟩,
    ⟨?_, ?_⟩, ?_⟩
  · exact (splits_pieces source.toList).ne_nil
  · rw [htokens, List.map_append, map_reading_tokensFrom]
    rfl
  · rw [← map_reading_tokensFrom 1, List.forall_mem_map]
    exact tokensFrom_ne_eof 1 source.toList
  · exact errors_foldl_add (pieces source.toList) .start

end Lox
