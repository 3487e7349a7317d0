import Lox.Proofs.Grammar.Tandem

/-!
# Node identifiers do not matter to a reading

Nodes are numbered as they are built, from a number that is given. A reading never looks at these numbers, so
from another one on it takes the same tokens, makes the same complaints and builds the same trees up to their
identifiers.

**Results.** `ofTokens_renumber` and `ofSource_renumber`, and `ofSource_error` for the errors of a text.
-/
namespace Lox

/-- The errors of tokens that are no program. -/
def Program.syntaxErrors (tokens : List Token) : List SyntaxError :=
  match (Program.ofTokens tokens 0).program with
  | .ok _ => []
  | .error errors => errors

open List (Forall₂)

theorem map_eq_iff_forall₂ {α β : Type} {f : α → β} {as bs : List α} :
    as.map f = bs.map f ↔ Forall₂ (fun a b => f a = f b) as bs := by
  rw [← List.forall₂_eq_eq_eq, List.forall₂_map_left_iff, List.forall₂_map_right_iff]

theorem map_eq_iff_rel {α β : Type} {f : α → β} {o o' : Option α} :
    o.map f = o'.map f ↔ Option.Rel (fun a b => f a = f b) o o' := by
  cases o <;> cases o' <;> simp

/-- Two results that agree up to `f` are the same error, or values that do. -/
theorem except_map_eq {ε α β : Type} {f : α → β} {x y : Except ε α} (h : x.map f = y.map f) :
    (∃ e, x = .error e ∧ y = .error e) ∨ ∃ a b, x = .ok a ∧ y = .ok b ∧ f a = f b := by
  cases x with
  | error e =>
    cases y with
    | error e' =>
      cases h
      exact .inl ⟨e, rfl, rfl⟩
    | ok b => cases h
  | ok a =>
    cases y with
    | error e' => cases h
    | ok b => exact .inr ⟨a, b, rfl, rfl, Except.ok.inj h⟩

namespace Grammar

/-- The same tokens, and trees that differ in their identifiers only. -/
def upToIds : Trees where
  Tokens := (· = ·)
  Ids _ _ := True
  Exprs e e' := e.eraseIds = e'.eraseIds
  Stmts s s' := s.eraseIds = s'.eraseIds
  kind_eq h := by rw [h]
  carries h := by rw [h]
  boolean _ _ := rfl
  nil _ := rfl
  literal _ _ _ ht _ _ hv hw := by
    rw [ht] at hv
    cases hv.symm.trans hw
    rfl
  var _ _ _ ht := by rw [ht]; rfl
  assign _ _ _ ht _ _ he := by simp [ht, he]
  unary _ _ _ ht _ _ he := by simp [ht, he]
  binary _ _ _ _ _ hl _ _ ht hr := by simp [hl, ht, hr]
  logical _ _ _ _ _ hl _ _ ht hr := by simp [hl, ht, hr]
  grouping _ _ _ he := by simp [he]
  call _ _ _ he _ _ ht _ _ ha := by simp [he, ht, map_eq_iff_forall₂.2 ha]
  target {e e'} h := by
    cases e <;> cases e' <;> simp_all
  expression _ _ _ he := by simp [he]
  print _ _ _ he := by simp [he]
  varDecl _ _ _ ht _ _ ho := by simp [ht, map_eq_iff_rel.2 ho]
  block _ _ _ hs := by simp [map_eq_iff_forall₂.2 hs]
  ifThen _ _ _ he _ _ hs := by simp [he, hs]
  ifElse _ _ _ he _ _ hs _ _ hn := by simp [he, hs, hn]
  whileLoop _ _ _ he _ _ hs := by simp [he, hs]
  funDecl _ _ _ ht _ _ hp _ _ hs := by simp [ht, List.forall₂_eq_eq_eq ▸ hp, map_eq_iff_forall₂.2 hs]
  ret _ _ _ ht _ _ ho := by simp [ht, map_eq_iff_rel.2 ho]

/-- Two states that differ in the next identifier only. -/
structure State.Renumbers (s s' : State) : Prop where
  rest_eq : s.rest = s'.rest
  position_eq : s.position = s'.position
  blames_eq : s.blames = s'.blames

/-- Readings of the same tokens, which end at once. -/
def numbering : Parallel upToIds where
  States := State.Renumbers
  Blames := (· = ·)
  ends _ := false
  heads {s s'} h := by
    obtain ⟨rest, p, i, bs⟩ := s
    obtain ⟨rest', p', j, bs'⟩ := s'
    obtain ⟨rfl, rfl, rfl⟩ := h
    cases rest with
    | nil => exact .border trivial trivial fun _ _ => rfl
    | cons t r => exact .token rfl rfl rfl ⟨rfl, rfl, rfl⟩ (fun _ _ => rfl) rfl
  ids _ := trivial
  numbered h := ⟨h.rest_eq, h.position_eq, h.blames_eq⟩
  complained h hb := ⟨h.rest_eq, h.position_eq, by rw [h.blames_eq, hb]⟩

theorem read_renumber (tokens : List Token) (i j : NodeId) :
    (read tokens i).blames = (read tokens j).blames ∧
      Program.eraseIds (read tokens i).body = Program.eraseIds (read tokens j).body := by
  have hdeclaration := (numbering.rel_statement_declaration (fun _ => rfl) (2 * tokens.length + 2)).2
  have hends := numbering.rel_declarations (fun _ => rfl) hdeclaration (fun _ => false)
    (2 * tokens.length + 2) #[] #[] .nil (.start tokens i) (.start tokens j) ⟨rfl, rfl, rfl⟩
  unfold read
  dsimp only
  generalize (declarations (fun _ => false) (declaration (2 * tokens.length + 2)) (2 * tokens.length + 2)
    #[]).run (.start tokens i) = r at hends ⊢
  generalize (declarations (fun _ => false) (declaration (2 * tokens.length + 2)) (2 * tokens.length + 2)
    #[]).run (.start tokens j) = r' at hends ⊢
  cases hends with
  | ok hbody hs => exact ⟨congrArg Array.toList hs.blames_eq, map_eq_iff_forall₂.2 hbody⟩
  | error hb hs =>
    cases hb
    exact ⟨congrArg (fun bs : Array Blame => (bs.push _).toList) hs.blames_eq, rfl⟩

/-- Numbered from another identifier on, tokens are the same program up to identifiers or have the same
errors. -/
theorem ofTokens_renumber (tokens : List Token) (i j : NodeId) :
    (Program.ofTokens tokens i).program.map Program.eraseIds =
      (Program.ofTokens tokens j).program.map Program.eraseIds := by
  obtain ⟨hblames, hbody⟩ := read_renumber (splitEnd tokens).1 i j
  unfold Program.ofTokens
  dsimp only
  rw [hblames]
  split
  · exact congrArg Except.ok hbody
  · rfl

theorem ofTokens_isOk (tokens : List Token) (i j : NodeId) :
    (Program.ofTokens tokens i).program.isOk = (Program.ofTokens tokens j).program.isOk := by
  rcases except_map_eq (ofTokens_renumber tokens i j) with ⟨errors, hi, hj⟩ | ⟨p, p', hi, hj, -⟩
  · rw [hi, hj]
  · rw [hi, hj]
    rfl

/-- Tokens have no errors if they are a program, whatever the identifiers. -/
theorem ofTokens_cases (tokens : List Token) (i : NodeId) :
    (∃ p, (Program.ofTokens tokens i).program = .ok p ∧ Program.syntaxErrors tokens = []) ∨
      (Program.ofTokens tokens i).program = .error (Program.syntaxErrors tokens) := by
  unfold Program.syntaxErrors
  rcases except_map_eq (ofTokens_renumber tokens i 0) with ⟨errors, hi, hzero⟩ | ⟨p, p', hi, hzero, -⟩
  · rw [hi, hzero]
    exact .inr rfl
  · rw [hi, hzero]
    exact .inl ⟨p, rfl, rfl⟩

/-- A text that is no program has its lexical errors, followed by the errors of its tokens. -/
theorem ofSource_error {source : String} {i : NodeId} {errors : List SyntaxError}
    (h : (Program.ofSource source i).program = .error errors) :
    errors = (scan source).2 ++ Program.syntaxErrors (scan source).1 := by
  unfold Program.ofSource at h
  dsimp only at h
  rcases ofTokens_cases (scan source).1 i with ⟨p, hp, hnone⟩ | herror
  · rw [hnone, List.append_nil]
    cases hlexical : (scan source).2 with
    | nil =>
      rw [hlexical, hp] at h
      cases h
    | cons e es =>
      rw [hlexical, hp] at h
      cases h
      rfl
  · cases hlexical : (scan source).2 with
    | nil =>
      rw [hlexical] at h
      cases herror.symm.trans h
      rfl
    | cons e es =>
      rw [hlexical, herror] at h
      cases h
      rfl

theorem ofSource_renumber (source : String) (i j : NodeId) :
    (Program.ofSource source i).program.map Program.eraseIds =
      (Program.ofSource source j).program.map Program.eraseIds := by
  have hsame := ofTokens_renumber (scan source).1 i j
  unfold Program.ofSource
  dsimp only
  cases (scan source).2 with
  | nil => exact hsame
  | cons e es =>
    rcases except_map_eq hsame with ⟨errors, hi, hj⟩ | ⟨p, p', hi, hj, -⟩
    · rw [hi, hj]
    · rw [hi, hj]

end Grammar
end Lox
