import Lox.Proofs.Grammar.Numbering

/-!
# Reading goes by kinds

What a reading does depends on the kinds of tokens, and on whether a number or string token carries a
constant, but on nothing else about them. Lexemes, lines and constants are passed on, into trees and into
errors. This holds of any tokens, those included whose kind, lexeme and constant do not go together.

**Outlines.** What a list of tokens is read as, up to the data in the tokens, is an `Outline`: a program in
which a label stands for each constant that a token carried, or the positions and causes of complaints. For
any change of tokens that keeps kinds, the changed list is read as the same outline with the changed data
filled in.

**Labels.** A tree does not keep the token of a constant. To find out which one it was, tokens are read with
labels for their constants, a string of length `i` for the token at position `i`, next to the reading with the
constants themselves. The readings go in tandem, and all trees come from the one with labels.

**Results.** `read_fill` for readings, and `reading_goes_by_kinds`.
-/
namespace Lox

open List (Forall₂)

/-! ## Trees with other tokens and constants -/

mutual

/-- Changes each token by `g` and each constant by `c`. -/
def Expr.fill (g : Token → Token) (c : Literal → Literal) : Expr → Expr
  | .literal id value => .literal id (c value)
  | .var id name => .var id (g name)
  | .assign id name value => .assign id (g name) (value.fill g c)
  | .unary id op operand => .unary id (g op) (operand.fill g c)
  | .binary id left op right => .binary id (left.fill g c) (g op) (right.fill g c)
  | .logical id left op right => .logical id (left.fill g c) (g op) (right.fill g c)
  | .grouping id inner => .grouping id (inner.fill g c)
  | .call id callee paren args => .call id (callee.fill g c) (g paren) (Expr.fillAll g c args)

def Expr.fillAll (g : Token → Token) (c : Literal → Literal) : List Expr → List Expr
  | [] => []
  | e :: es => e.fill g c :: Expr.fillAll g c es

end

mutual

@[inherit_doc Expr.fill]
def Stmt.fill (g : Token → Token) (c : Literal → Literal) : Stmt → Stmt
  | .expression id value => .expression id (value.fill g c)
  | .print id value => .print id (value.fill g c)
  | .varDecl id name init => .varDecl id (g name) (init.map (·.fill g c))
  | .block id body => .block id (Stmt.fillAll g c body)
  | .ifThen id condition yes => .ifThen id (condition.fill g c) (yes.fill g c)
  | .ifElse id condition yes no => .ifElse id (condition.fill g c) (yes.fill g c) (no.fill g c)
  | .whileLoop id condition body => .whileLoop id (condition.fill g c) (body.fill g c)
  | .funDecl id name params body => .funDecl id (g name) (params.map g) (Stmt.fillAll g c body)
  | .ret id keyword value => .ret id (g keyword) (value.map (·.fill g c))

def Stmt.fillAll (g : Token → Token) (c : Literal → Literal) : List Stmt → List Stmt
  | [] => []
  | s :: ss => s.fill g c :: Stmt.fillAll g c ss

end

section
variable (g g' : Token → Token) (c c' : Literal → Literal)

theorem Expr.fillAll_eq_map (es : List Expr) : Expr.fillAll g c es = es.map (Expr.fill g c) := by
  induction es with
  | nil => rfl
  | cons e es ih => rw [Expr.fillAll, ih, List.map_cons]

theorem Stmt.fillAll_eq_map (ss : List Stmt) : Stmt.fillAll g c ss = ss.map (Stmt.fill g c) := by
  induction ss with
  | nil => rfl
  | cons s ss ih => rw [Stmt.fillAll, ih, List.map_cons]

variable {g c} in
theorem Expr.fill_eq_var {e : Expr} {i : NodeId} {u : Token} (h : e.fill g c = .var i u) : ∃ t, e = .var i t := by
  cases e with
  | var id name =>
    cases h
    exact ⟨name, rfl⟩
  | _ => simp [Expr.fill] at h

theorem Expr.fill_fill (e : Expr) : (e.fill g c).fill g' c' = e.fill (g' ∘ g) (c' ∘ c) := by
  induction e with
  | call id callee paren args ihc iha =>
    simp only [Expr.fill, Expr.fillAll_eq_map, List.map_map, ihc]
    exact congrArg (Expr.call id _ _) (List.map_congr_left iha)
  | _ => simp_all [Expr.fill]

theorem Stmt.fill_fill (s : Stmt) : (s.fill g c).fill g' c' = s.fill (g' ∘ g) (c' ∘ c) := by
  have hoption (o : Option Expr) :
      (o.map (·.fill g c)).map (·.fill g' c') = o.map (·.fill (g' ∘ g) (c' ∘ c)) := by
    cases o with
    | none => rfl
    | some e => exact congrArg some (e.fill_fill g g' c c')
  have hbody {ss : List Stmt} (ih : ∀ s ∈ ss, (s.fill g c).fill g' c' = s.fill (g' ∘ g) (c' ∘ c)) :
      Stmt.fillAll g' c' (Stmt.fillAll g c ss) = Stmt.fillAll (g' ∘ g) (c' ∘ c) ss := by
    rw [Stmt.fillAll_eq_map, Stmt.fillAll_eq_map, Stmt.fillAll_eq_map, List.map_map]
    exact List.map_congr_left ih
  induction s with
  | block id body ih => exact congrArg (Stmt.block id) (hbody ih)
  | funDecl id name params body ih => simp only [Stmt.fill, List.map_map, hbody ih, Function.comp_apply]
  | varDecl id name init => simp only [Stmt.fill, hoption, Function.comp_apply]
  | ret id keyword value => simp only [Stmt.fill, hoption, Function.comp_apply]
  | _ => simp_all [Stmt.fill, Expr.fill_fill]

end

/-! ## Outlines -/

/-- The cause, with another token quoted where it quotes one. -/
def SyntaxError.Cause.quoting (lexeme : String) : SyntaxError.Cause → SyntaxError.Cause
  | unsupported _ => unsupported lexeme
  | cause => cause

/-- What tokens are read as, up to the data in them. -/
structure Outline where
  /-- The program, with labels for constants. -/
  body : Program
  /-- The token that carried the constant that a label stands for. What is no label stands for itself. -/
  origin : Literal → Option Token
  /-- The positions that are complained about, and why. -/
  complaints : List (Nat × SyntaxError.Cause)
  nextId : NodeId

namespace Outline

/-- The constant that a label stands for, if each token `t` is `g t`. -/
def constant (origin : Literal → Option Token) (g : Token → Token) (label : Literal) : Literal :=
  match origin label with
  | some t => (g t).literal.getD label
  | none => label

/-- The error at a position of the tokens, or at their end. -/
def error (tokens : List Token) (position : Nat) (cause : SyntaxError.Cause) : SyntaxError :=
  match (Grammar.splitEnd tokens).1[position]? with
  | some t => ⟨t.line, .token t.lexeme, cause.quoting t.lexeme⟩
  | none => ⟨(Grammar.splitEnd tokens).2, .inputEnd, cause⟩

/-- The outline of `tokens`, filled in with `g t` for each of these tokens `t`. -/
def fill (o : Outline) (tokens : List Token) (g : Token → Token) : Parsed where
  program :=
    if o.complaints.isEmpty then .ok (o.body.map (·.fill g (constant o.origin g)))
    else .error (o.complaints.map fun c => error (tokens.map g) c.1 c.2)
  nextId := o.nextId

end Outline

/-- The change keeps the kind of a token, and whether it carries a constant. -/
def Token.SameKind (t u : Token) : Prop := u.kind = t.kind ∧ u.literal.isSome = t.literal.isSome

namespace Grammar

/-! ## Labels -/

/-- The label of the token at a position. -/
def label (i : Nat) : Literal := .string (String.ofList (List.replicate i ' '))

/-- The token at the position that a label says. -/
def origin (front : List Token) : Literal → Option Token
  | .string s => front[s.length]?
  | _ => none

/-- The token with its label in place of its constant. -/
def labelled (i : Nat) (t : Token) : Token := { t with literal := t.literal.map fun _ => label i }

/-- The token that was labelled. -/
def unlabelled (front : List Token) (t : Token) : Token := (t.literal.bind (origin front)).getD t

section
variable {front : List Token} {i : Nat} {t : Token}

theorem origin_label (front : List Token) (i : Nat) : origin front (label i) = front[i]? := by
  simp [origin, label]

theorem unlabelled_labelled (h : front[i]? = some t) : unlabelled front (labelled i t) = t := by
  obtain ⟨kind, lexeme, literal, line⟩ := t
  cases literal with
  | none => rfl
  | some v => simp [unlabelled, labelled, origin_label, h]

end

/-! ## Reading with labels and without -/

section
variable (front : List Token) (g : Token → Token)

/-- The tree for `g`, from the one with labels. -/
abbrev fillExpr (e : Expr) : Expr := e.fill (g ∘ unlabelled front) (Outline.constant (origin front) g)

@[inherit_doc fillExpr]
abbrev fillStmt (s : Stmt) : Stmt := s.fill (g ∘ unlabelled front) (Outline.constant (origin front) g)

/-- A token with its label, and what has become of the token itself. -/
def Labels (t u : Token) : Prop := ∃ i x, front[i]? = some x ∧ t = labelled i x ∧ u = g x

variable {front g}

theorem Labels.eq {t u : Token} (h : Labels front g t u) : u = g (unlabelled front t) := by
  obtain ⟨i, x, hx, rfl, rfl⟩ := h
  rw [unlabelled_labelled hx]

theorem Labels.constant_eq {t u : Token} (h : Labels front g t u) {v w : Literal} (hv : t.literal = some v)
    (hw : u.literal = some w) : w = Outline.constant (origin front) g v := by
  obtain ⟨i, x, hx, rfl, rfl⟩ := h
  obtain ⟨_, -, rfl⟩ := Option.map_eq_some_iff.1 hv
  rw [Outline.constant, origin_label, hx]
  simp [hw]

theorem eq_map_of_forall₂ {α : Type} {R : α → α → Prop} {f : α → α} {as bs : List α} (h : Forall₂ R as bs)
    (hR : ∀ a b, R a b → b = f a) : bs = as.map f := by
  induction h with
  | nil => rfl
  | cons h _ ih => rw [List.map_cons, ← ih, hR _ _ h]

theorem eq_map_of_rel {α : Type} {R : α → α → Prop} {f : α → α} {o o' : Option α} (h : Option.Rel R o o')
    (hR : ∀ a b, R a b → b = f a) : o' = o.map f := by
  cases h with
  | none => rfl
  | some h => exact congrArg some (hR _ _ h)

theorem Labels.sameKind {t u : Token} (h : Labels front g t u) (hg : ∀ t ∈ front, t.SameKind (g t)) :
    t.SameKind u := by
  obtain ⟨i, x, hx, rfl, rfl⟩ := h
  have hsame := hg x (List.mem_of_getElem? hx)
  exact ⟨hsame.1, hsame.2.trans Option.isSome_map.symm⟩

end

/-- An expression with labels and the one for `g`. If the first is a variable, it has a token of the list. -/
structure Fills (front : List Token) (g : Token → Token) (e e' : Expr) : Prop where
  eq : e' = fillExpr front g e
  token {i : NodeId} {t : Token} : e = .var i t → Labels front g t (g (unlabelled front t))

/-- Trees from tokens with labels, and from the tokens that `g` gives. -/
def filling (front : List Token) (g : Token → Token) (hg : ∀ t ∈ front, t.SameKind (g t)) : Trees where
  Tokens := Labels front g
  Ids := (· = ·)
  Exprs := Fills front g
  Stmts s s' := s' = fillStmt front g s
  kind_eq h := (h.sameKind hg).1.symm
  carries h := (h.sameKind hg).2.symm
  boolean hi b := ⟨by rw [hi]; rfl, nofun⟩
  nil hi := ⟨by rw [hi]; rfl, nofun⟩
  literal hi _ _ ht _ _ hv hw := ⟨by rw [hi, ht.constant_eq hv hw]; rfl, nofun⟩
  var hi t u ht := by
    refine ⟨by rw [hi, ht.eq]; rfl, ?_⟩
    rintro _ _ ⟨⟩
    rw [← ht.eq]
    exact ht
  assign hi _ _ ht _ _ he := ⟨by rw [hi, ht.eq, he.eq]; rfl, nofun⟩
  unary hi _ _ ht _ _ he := ⟨by rw [hi, ht.eq, he.eq]; rfl, nofun⟩
  binary hi _ _ _ _ hl _ _ ht hr := ⟨by rw [hi, ht.eq, hl.eq, hr.eq]; rfl, nofun⟩
  logical hi _ _ _ _ hl _ _ ht hr := ⟨by rw [hi, ht.eq, hl.eq, hr.eq]; rfl, nofun⟩
  grouping hi _ _ he := ⟨by rw [hi, he.eq]; rfl, nofun⟩
  call hi _ _ he _ _ ht _ _ ha := by
    refine ⟨?_, nofun⟩
    rw [hi, ht.eq, he.eq, eq_map_of_forall₂ ha fun _ _ h => h.eq]
    exact congrArg (Expr.call _ _ _) (Expr.fillAll_eq_map _ _ _).symm
  target {e e'} h := by
    obtain ⟨rfl, htoken⟩ := h
    by_cases hvar : ∃ i t, e = .var i t
    · obtain ⟨i, t, rfl⟩ := hvar
      exact .inl ⟨i, i, t, _, rfl, rfl, htoken rfl⟩
    · refine .inr ⟨fun i t he => hvar ⟨i, t, he⟩, fun i u he => ?_⟩
      obtain ⟨t, ht⟩ := Expr.fill_eq_var he
      exact hvar ⟨i, t, ht⟩
  expression hi _ _ he := by rw [hi, he.eq]; rfl
  print hi _ _ he := by rw [hi, he.eq]; rfl
  varDecl hi _ _ ht _ _ ho := by
    rw [hi, ht.eq, eq_map_of_rel ho fun _ _ h => h.eq]
    rfl
  block hi _ _ hs := by
    rw [hi, eq_map_of_forall₂ hs fun _ _ h => h]
    exact congrArg (Stmt.block _) (Stmt.fillAll_eq_map _ _ _).symm
  ifThen hi _ _ he _ _ hs := by rw [hi, he.eq, hs]; rfl
  ifElse hi _ _ he _ _ hs _ _ hn := by rw [hi, he.eq, hs, hn]; rfl
  whileLoop hi _ _ he _ _ hs := by rw [hi, he.eq, hs]; rfl
  funDecl hi _ _ ht _ _ hp _ _ hs := by
    rw [hi, ht.eq, eq_map_of_forall₂ hp fun _ _ h => h.eq, eq_map_of_forall₂ hs fun _ _ h => h]
    exact congrArg (Stmt.funDecl _ _ _) (Stmt.fillAll_eq_map _ _ _).symm
  ret hi _ _ ht _ _ ho := by
    rw [hi, ht.eq, eq_map_of_rel ho fun _ _ h => h.eq]
    rfl

/-- The same complaint about what is at its position in other tokens. -/
def Blame.onto (tokens : List Token) (b : Blame) : Blame where
  position := b.position
  token := tokens[b.position]?
  cause := match tokens[b.position]? with
    | some t => b.cause.quoting t.lexeme
    | none => b.cause

/-- A reading of tokens with labels and one of the tokens that `g` gives, at one position. -/
structure State.Fills (front : List Token) (g : Token → Token) (s s' : State) : Prop where
  rest_eq : s.rest = (front.mapIdx labelled).drop s.position
  rest_eq' : s'.rest = (front.map g).drop s.position
  position_eq : s'.position = s.position
  nextId_eq : s.nextId = s'.nextId
  blames_eq : s'.blames = s.blames.map (Blame.onto (front.map g))

theorem drop_of_getElem? {α : Type} {as : List α} {i : Nat} {a : α} (h : as[i]? = some a) :
    as.drop i = a :: as.drop (i + 1) := by
  obtain ⟨hi, rfl⟩ := List.getElem?_eq_some_iff.1 h
  exact List.drop_eq_getElem_cons hi

theorem quoting_of_isPlain {c : SyntaxError.Cause} (hc : isPlain c = true) (lexeme : String) :
    c.quoting lexeme = c := by
  cases c with
  | unsupported => cases hc
  | _ => rfl

section
variable {front : List Token} {g : Token → Token} (hg : ∀ t ∈ front, t.SameKind (g t))

theorem State.Fills.heads {s s' : State} (h : State.Fills front g s s') :
    Heads (filling front g hg) (State.Fills front g) (fun b b' => b' = b.onto (front.map g)) (fun _ => false) s
      s' := by
  cases hx : front[s.position]? with
  | none =>
    have hlength : front.length ≤ s.position := List.getElem?_eq_none_iff.1 hx
    have hrest : s.rest = [] := by simp [h.rest_eq, hlength]
    have hrest' : s'.rest = [] := by simp [h.rest_eq', hlength]
    refine .border ?_ ?_ fun c _ => ?_
    · rw [hrest]
      trivial
    · rw [hrest']
      trivial
    · simp [State.blame, Blame.onto, h.position_eq, hx, hrest']
  | some x =>
    have hlabelled : (front.mapIdx labelled)[s.position]? = some (labelled s.position x) := by simp [hx]
    have hmap : (front.map g)[s.position]? = some (g x) := by simp [hx]
    refine .token (h.rest_eq.trans (drop_of_getElem? hlabelled)) (h.rest_eq'.trans (drop_of_getElem? hmap))
      ⟨s.position, x, hx, rfl, rfl⟩ ⟨rfl, rfl, congrArg (· + 1) h.position_eq, h.nextId_eq, h.blames_eq⟩
      (fun c hc => ?_) ?_
    · simp [Blame.onto, h.position_eq, hx, quoting_of_isPlain hc]
    · simp [Blame.onto, h.position_eq, hx, SyntaxError.Cause.quoting]

/-- Both readings end at once. -/
def filled : Parallel (filling front g hg) where
  States := State.Fills front g
  Blames b b' := b' = b.onto (front.map g)
  ends _ := false
  heads := State.Fills.heads hg
  ids h := h.nextId_eq
  numbered h := { h with nextId_eq := congrArg (· + 1) h.nextId_eq }
  complained h hb := { h with blames_eq := by rw [hb, h.blames_eq, Array.map_push] }

include hg

/-- All readings come from the one with labels. -/
theorem read_fill (i : NodeId) :
    (read (front.map g) i).body = (read (front.mapIdx labelled) i).body.map (fillStmt front g) ∧
      (read (front.map g) i).blames = (read (front.mapIdx labelled) i).blames.map (Blame.onto (front.map g)) ∧
      (read (front.map g) i).nextId = (read (front.mapIdx labelled) i).nextId := by
  have hstart : State.Fills front g (.start (front.mapIdx labelled) i) (.start (front.map g) i) :=
    ⟨rfl, rfl, rfl, rfl, Array.map_empty.symm⟩
  have hdeclaration := ((filled hg).rel_statement_declaration (fun _ => rfl) (2 * front.length + 2)).2
  have hends := (filled hg).rel_declarations (fun _ => rfl) hdeclaration (fun _ => false) (2 * front.length + 2)
    #[] #[] .nil _ _ hstart
  unfold read
  rw [List.length_map, List.length_mapIdx]
  dsimp only
  generalize (declarations (fun _ => false) (declaration (2 * front.length + 2)) (2 * front.length + 2)
    #[]).run (.start (front.mapIdx labelled) i) = r at hends ⊢
  generalize (declarations (fun _ => false) (declaration (2 * front.length + 2)) (2 * front.length + 2)
    #[]).run (.start (front.map g) i) = r' at hends ⊢
  cases hends with
  | ok hbody hs =>
    refine ⟨eq_map_of_forall₂ hbody fun _ _ h => h, ?_, hs.nextId_eq.symm⟩
    dsimp only
    rw [hs.blames_eq, Array.toList_map]
  | error hb hs =>
    refine ⟨rfl, ?_, hs.nextId_eq.symm⟩
    dsimp only
    rw [hb, hs.blames_eq, ← Array.map_push, Array.toList_map]

end

/-! ## Programs -/

theorem splitEnd_map {tokens : List Token} {g : Token → Token} (hg : ∀ t ∈ tokens, t.SameKind (g t)) :
    (splitEnd (tokens.map g)).1 = (splitEnd tokens).1.map g := by
  unfold splitEnd
  induction tokens with
  | nil => rfl
  | cons t tokens ih =>
    rw [List.forall_mem_cons] at hg
    simp only [List.map_cons, List.takeWhile_cons, hg.1.1]
    split
    · exact congrArg (g t :: ·) (ih hg.2)
    · rfl

/-- The outline of tokens, from their reading with labels. -/
def outline (tokens : List Token) (firstId : NodeId) : Outline :=
  let front := (splitEnd tokens).1
  let reading := read (front.mapIdx labelled) firstId
  ⟨reading.body.map (·.fill (unlabelled front) id), origin front,
    reading.blames.map fun b => (b.position, b.cause), reading.nextId⟩

theorem toError_onto (tokens : List Token) (b : Blame) :
    (b.onto (splitEnd tokens).1).toError (splitEnd tokens).2 = Outline.error tokens b.position b.cause := by
  unfold Blame.onto Blame.toError Outline.error
  dsimp only
  cases (splitEnd tokens).1[b.position]? <;> rfl

theorem ofTokens_map {tokens : List Token} {g : Token → Token} (hg : ∀ t ∈ tokens, t.SameKind (g t))
    (firstId : NodeId) : Program.ofTokens (tokens.map g) firstId = (outline tokens firstId).fill tokens g := by
  have hfront : ∀ t ∈ (splitEnd tokens).1, t.SameKind (g t) := fun t ht =>
    hg t ((List.takeWhile_sublist _).mem ht)
  obtain ⟨hbody, hblames, hnextId⟩ := read_fill hfront firstId
  rw [← splitEnd_map hg] at hbody hblames hnextId
  unfold Program.ofTokens Outline.fill outline
  dsimp only
  rw [hbody, hblames, hnextId, List.isEmpty_map, List.isEmpty_map]
  split
  · rw [List.map_map]
    simp only [Function.comp_def, Stmt.fill_fill]
    rfl
  · rw [List.map_map, List.map_map]
    refine congrArg (fun es => Parsed.mk (.error es) _) (List.map_congr_left fun b _ => ?_)
    exact toError_onto (tokens.map g) b

end Grammar

/-- Reading goes by the kinds of tokens. There is one outline for all changes of the tokens that keep their
kinds and whether they carry constants: if each token `t` is `g t`, they are read as this outline with `g t`
for `t`, that is as the same tree with other tokens and constants, or with the same complaints about the same
positions. -/
theorem reading_goes_by_kinds (tokens : List Token) (firstId : NodeId) :
    ∃ o : Outline, Program.ofTokens tokens firstId = o.fill tokens id ∧
      ∀ g : Token → Token, (∀ t ∈ tokens, t.SameKind (g t)) →
        Program.ofTokens (tokens.map g) firstId = o.fill tokens g := by
  refine ⟨Grammar.outline tokens firstId, ?_, fun g hg => Grammar.ofTokens_map hg firstId⟩
  have hsame : ∀ t ∈ tokens, t.SameKind (id t) := fun t _ => ⟨rfl, rfl⟩
  rw [← Grammar.ofTokens_map hsame firstId, List.map_id]

namespace Altered

/-! `print 1 + "a"; class`, and the same with tokens that belong nowhere. -/

def tokens : List Token :=
  [⟨.kwPrint, "print", none, 1⟩, ⟨.number, "1", some (.number 1), 1⟩, ⟨.plus, "+", none, 1⟩,
    ⟨.string, "\"a\"", some (.string "a"), 1⟩, ⟨.semicolon, ";", none, 1⟩, ⟨.kwClass, "class", none, 2⟩]

def alter (t : Token) : Token := ⟨t.kind, t.lexeme ++ "?", t.literal.map fun _ => .boolean true, t.line + 10⟩

theorem sameKind : ∀ t ∈ tokens, t.SameKind (alter t) := fun _ _ => ⟨rfl, Option.isSome_map⟩

end Altered

theorem reading_goes_by_kinds_altered :
    (∀ t ∈ Altered.tokens, t.SameKind (Altered.alter t)) ∧
      (∃ o : Outline, Program.ofTokens Altered.tokens 0 = o.fill Altered.tokens id ∧
        Program.ofTokens (Altered.tokens.map Altered.alter) 0 = o.fill Altered.tokens Altered.alter) ∧
      Program.syntaxErrors Altered.tokens = [⟨2, .token "class", .unsupported "class"⟩] ∧
      Program.syntaxErrors (Altered.tokens.map Altered.alter) =
        [⟨12, .token "class?", .unsupported "class?"⟩] := by
  obtain ⟨o, hread, halter⟩ := reading_goes_by_kinds Altered.tokens 0
  refine ⟨Altered.sameKind, ⟨o, hread, halter Altered.alter Altered.sameKind⟩, ?_, ?_⟩
  · decide +kernel
  · decide +kernel

end Lox
