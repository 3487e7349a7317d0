import Lox.Proofs.Grammar.Numbering
import Lox.Proofs.Grammar.Progress
import Lox.Proofs.Grammar.RoundTrip

/-!
# Complaints stay in their statements

A simple statement has one semicolon, at its end, and no other place where reading could go on after a failure. So
whether it can be read or not, reading comes behind that semicolon, and it has not looked any further. What it
complains about does not depend on what stands before or behind the statement.

**Two readings.** `Setting` has a simple statement on its own on the one side. On the other side there are tokens and
complaints before it, and tokens behind it. The readings are in tandem up to the semicolon (`Setting.parallel`), and
what a reader of statements does with the semicolon is gone through here: it takes the semicolon and is done, or it
fails in front of it and skipping takes the semicolon.

**The loop.** `PassesOver` says what the loop over declarations does with some tokens: which complaints it adds, and
that it comes behind them. Segments that it passes over can be put one behind the other.

**Results.**
* `Setting.tandem_declaration`: a declaration passes over a simple statement, on its own as well as among others.
* `passesOver_flatten`: so does the loop with segments, one after the other.
* `syntax_errors_are_isolated`.
-/
namespace Lox.Grammar

open Token (Kind)

variable {α β : Type}

/-- The complaint with its position moved by `k` tokens. -/
def Blame.shift (k : Nat) (b : Blame) : Blame := { b with position := b.position + k }

theorem accept_none_run {wanted : Kind → Bool} {s : State} (h : ¬ Starts wanted s.rest) :
    (accept wanted).run s = .ok none s :=
  reads_accept_none h s.position s.blames

theorem expect_none_run {kind : Kind} {s : State} (h : ¬ Starts (· == kind) s.rest) {what : SyntaxError.Expected} :
    (expect kind what).run s = .error (s.blame (.expected what)) s := by
  cases hs : s.rest with
  | nil => simp [expect, hs]
  | cons t rest =>
    rw [expect_run hs, if_neg fun heq => h ⟨t, rest, hs, beq_iff_eq.2 heq⟩]

/-! ## A statement on its own and among others -/

/-- Kinds of tokens in the middle of a simple statement. -/
def isInner : Kind → Bool
  | .semicolon | .leftBrace | .rightBrace => false
  | k => !startsStatement k

/-- A simple statement up to its semicolon, on its own and among others: with `offset` tokens and the complaints
`earlier` before it, and the tokens `tail` behind it. -/
structure Setting where
  semicolon : Token
  tail : List Token
  offset : Nat
  earlier : List Blame
  isSemicolon : semicolon.kind = .semicolon
  noElse : ¬ Starts (· == .kwElse) tail

namespace Setting

variable (c : Setting)

/-- The second complaint is the first one, among others. It is not about the end of the input. -/
def Blames (b b' : Blame) : Prop := b' = b.shift c.offset ∧ b.token.isSome

/-- Where the statement is on its own, `left` is left of it, and among others `left'` is. -/
structure Beside (left left' : List Token) (s s' : State) : Prop where
  rest_eq : s.rest = left
  rest_eq' : s'.rest = left'
  position_eq : s'.position = s.position + c.offset
  blames_eq : s'.blames.toList = c.earlier ++ s.blames.toList.map (.shift c.offset)
  located : ∀ b ∈ s.blames.toList, b.token.isSome

/-- In front of the semicolon, with the tokens `front` between. -/
abbrev Before (front : List Token) : State → State → Prop :=
  c.Beside (front ++ [c.semicolon]) (front ++ c.semicolon :: c.tail)

/-- Behind the semicolon. -/
abbrev After : State → State → Prop := c.Beside [] c.tail

/-- In the middle of the statement. -/
def Inside (s s' : State) : Prop := ∃ front, (∀ t ∈ front, isInner t.kind = true) ∧ c.Before front s s'

/-- At a token with which the statement starts. -/
def Opening (t : Token) (s s' : State) : Prop :=
  ∃ front, (∀ t ∈ front, isInner t.kind = true) ∧ c.Before (t :: front) s s'

/-- Where nothing but the semicolon stops the skipping. -/
def Stuck (s s' : State) : Prop :=
  ∃ front, (∀ t ∈ front, t.kind ≠ .semicolon) ∧ (∀ t ∈ front.tail, startsStatement t.kind = false) ∧
    c.Before front s s'

variable {c} {left left' : List Token} {s s' : State}

theorem Beside.behind {t : Token} (h : c.Beside (t :: left) (t :: left') s s') :
    c.Beside left left' (s.behind left) (s'.behind left') where
  rest_eq := rfl
  rest_eq' := rfl
  position_eq := by
    show s'.position + 1 = s.position + 1 + c.offset
    rw [h.position_eq]
    omega
  blames_eq := h.blames_eq
  located := h.located

theorem Beside.blames {t : Token} (h : c.Beside (t :: left) (t :: left') s s') (cause : SyntaxError.Cause) :
    c.Blames ⟨s.position, some t, cause⟩ ⟨s'.position, some t, cause⟩ := by
  rw [h.position_eq]
  exact ⟨rfl, rfl⟩

theorem Beside.blame {t : Token} (h : c.Beside (t :: left) (t :: left') s s') (cause : SyntaxError.Cause) :
    c.Blames (s.blame cause) (s'.blame cause) := by
  rw [State.blame, State.blame, h.rest_eq, h.rest_eq']
  exact h.blames cause

theorem Beside.numbered (h : c.Beside left left' s s') :
    c.Beside left left' { s with nextId := s.nextId + 1 } { s' with nextId := s'.nextId + 1 } :=
  ⟨h.rest_eq, h.rest_eq', h.position_eq, h.blames_eq, h.located⟩

theorem Beside.complained {b b' : Blame} (h : c.Beside left left' s s') (hb : c.Blames b b') :
    c.Beside left left' { s with blames := s.blames.push b } { s' with blames := s'.blames.push b' } := by
  obtain ⟨rfl, hsome⟩ := hb
  refine ⟨h.rest_eq, h.rest_eq', h.position_eq, ?_, fun x hx => ?_⟩
  · simp [h.blames_eq]
  · simp only [Array.toList_push, List.mem_append, List.mem_singleton] at hx
    rcases hx with hx | rfl
    · exact h.located x hx
    · exact hsome

/-- The semicolon or a token before it is next on both sides. -/
theorem Inside.next (h : c.Inside s s') :
    (∃ t front, isInner t.kind = true ∧ (∀ t ∈ front, isInner t.kind = true) ∧ c.Before (t :: front) s s') ∨
      c.Before [] s s' := by
  obtain ⟨front, hinner, h⟩ := h
  cases front with
  | nil => exact .inr h
  | cons t front =>
    exact .inl ⟨t, front, hinner t List.mem_cons_self, fun u hu => hinner u (List.mem_cons_of_mem t hu), h⟩

theorem inner_ne_semicolon {k : Kind} (h : isInner k = true) : k ≠ .semicolon := by
  rintro rfl
  cases h

theorem inner_not_starts {k : Kind} (h : isInner k = true) : startsStatement k = false := by
  cases k with
  | kwClass | kwFun | kwVar | kwFor | kwIf | kwWhile | kwPrint | kwReturn => cases h
  | _ => rfl

theorem Inside.not_starts (h : c.Inside s s') {wanted : Kind → Bool} (hsemicolon : wanted .semicolon = false)
    (hinner : ∀ k, isInner k = true → wanted k = false) : ¬ Starts wanted s.rest ∧ ¬ Starts wanted s'.rest := by
  rcases h.next with ⟨t, front, ht, -, h⟩ | h
  · rw [h.rest_eq, h.rest_eq']
    exact ⟨not_starts_cons (hinner _ ht), not_starts_cons (hinner _ ht)⟩
  · have hc : wanted c.semicolon.kind = false := by
      rw [c.isSemicolon]
      exact hsemicolon
    rw [h.rest_eq, h.rest_eq']
    exact ⟨not_starts_cons hc, not_starts_cons hc⟩

theorem Inside.stuck (h : c.Inside s s') : c.Stuck s s' := by
  obtain ⟨front, hinner, h⟩ := h
  exact ⟨front, fun t ht => inner_ne_semicolon (hinner t ht),
    fun t ht => inner_not_starts (hinner t (List.mem_of_mem_tail ht)), h⟩

theorem Opening.stuck {t : Token} (ht : t.kind ≠ .semicolon) (h : c.Opening t s s') : c.Stuck s s' := by
  obtain ⟨front, hinner, h⟩ := h
  refine ⟨t :: front, fun u hu => ?_, fun u hu => inner_not_starts (hinner u hu), h⟩
  rcases List.mem_cons.1 hu with rfl | hu
  · exact ht
  · exact inner_ne_semicolon (hinner u hu)

variable (c)

/-- Up to the semicolon both readings see the same tokens. -/
def parallel : Parallel upToIds where
  States := c.Inside
  Blames := c.Blames
  ends := (· == .semicolon)
  heads {s s'} h := by
    rcases h.next with ⟨t, front, -, hinner, h⟩ | h
    · exact .token h.rest_eq h.rest_eq' rfl ⟨front, hinner, h.behind⟩ (fun c _ => h.blames c) (h.blames _)
    · refine .border ?_ ?_ fun c _ => h.blame c
      · rw [h.rest_eq]
        exact beq_iff_eq.2 c.isSemicolon
      · rw [h.rest_eq']
        exact beq_iff_eq.2 c.isSemicolon
  ids _ := trivial
  numbered h := by
    obtain ⟨front, hinner, h⟩ := h
    exact ⟨front, hinner, h.numbered⟩
  complained h hb := by
    obtain ⟨front, hinner, h⟩ := h
    exact ⟨front, hinner, h.complained hb⟩

/-! ## Statements up to their semicolon -/

/-- Nothing that ends an expression is a part of one. -/
theorem ends_expression (k : Kind) (h : c.parallel.ends k = true) : endsExpression k = true := by
  have hk : k = .semicolon := beq_iff_eq.1 h
  rw [hk]
  rfl

/-- A reader from the middle of the statement to its end. -/
abbrev Finishes (Q : α → β → Prop) (x : Reader α) (y : Reader β) : Prop :=
  Tandem c.Inside c.After c.Inside c.Blames Q x y

variable {Q : α → β → Prop}

/-- Once the semicolon is taken, a node is built and no more. -/
theorem tandem_node {f : NodeId → α} {g : NodeId → β} {K : State → State → Prop} (h : ∀ i j, Q (f i) (g j)) :
    Tandem c.After c.After K c.Blames Q (node f) (node g) :=
  .of fun _ _ hs => .ok (h _ _) hs.numbered

/-- The semicolon is taken, or the token before it is blamed. -/
theorem finishes_semicolon (what : SyntaxError.Expected) {f : Token → Reader α} {g : Token → Reader β}
    (h : ∀ t, Tandem c.After c.After c.Inside c.Blames Q (f t) (g t)) :
    c.Finishes Q (expect .semicolon what >>= f) (expect .semicolon what >>= g) := by
  intro s s' hs
  rw [Deep.run_bind, Deep.run_bind]
  rcases hs.next with ⟨t, front, ht, -, hbefore⟩ | hbefore
  · rw [expect_run hbefore.rest_eq, expect_run hbefore.rest_eq', if_neg (inner_ne_semicolon ht),
      if_neg (inner_ne_semicolon ht)]
    exact .error (hbefore.blame _) hs
  · rw [expect_run hbefore.rest_eq, expect_run hbefore.rest_eq', if_pos c.isSemicolon, if_pos c.isSemicolon]
    exact h _ _ _ hbefore.behind

/-- Both readings see the next token, be it the semicolon. -/
theorem finishes_nextKind {f : Kind → Reader α} {g : Kind → Reader β}
    (h : ∀ k, k = .semicolon ∨ isInner k = true → c.Finishes Q (f k) (g k)) :
    c.Finishes Q (nextKind >>= f) (nextKind >>= g) := by
  intro s s' hs
  rw [Deep.run_bind, Deep.run_bind]
  rcases hs.next with ⟨t, front, ht, -, hbefore⟩ | hbefore
  · rw [nextKind_run hbefore.rest_eq, nextKind_run hbefore.rest_eq']
    exact h _ (.inr ht) s s' hs
  · rw [nextKind_run hbefore.rest_eq, nextKind_run hbefore.rest_eq']
    exact h _ (.inl c.isSemicolon) s s' hs

theorem rel_expression (b : Nat) : c.parallel.Rel upToIds.Exprs (expression b) (expression b) :=
  c.parallel.rel_expression c.ends_expression b

theorem rel_demand {kind : Kind} (hk : endsExpression kind = false) (what : SyntaxError.Expected) :
    c.parallel.Rel upToIds.Tokens (expect kind what) (expect kind what) :=
  c.parallel.rel_demand c.ends_expression hk what

theorem finishes_expressionStatement (b : Nat) :
    c.Finishes upToIds.Stmts (expressionStatement b) (expressionStatement b) :=
  (c.rel_expression b).bind fun _ _ he => c.finishes_semicolon _ fun _ =>
    c.tandem_node fun _ _ => upToIds.expression trivial he

theorem finishes_printStatement (b : Nat) :
    c.Finishes upToIds.Stmts (printStatement b) (printStatement b) :=
  (c.rel_expression b).bind fun _ _ he => c.finishes_semicolon _ fun _ =>
    c.tandem_node fun _ _ => upToIds.print trivial he

theorem finishes_returnStatement (t : Token) (b : Nat) :
    c.Finishes upToIds.Stmts (returnStatement t b) (returnStatement t b) := by
  have hend {o o' : Option Expr} (ho : Option.Rel upToIds.Exprs o o') :
      c.Finishes upToIds.Stmts (do
        let _ ← expect .semicolon .semicolonAfterReturnValue
        node (.ret · t o)) (do
        let _ ← expect .semicolon .semicolonAfterReturnValue
        node (.ret · t o')) :=
    c.finishes_semicolon _ fun _ => c.tandem_node fun _ _ => upToIds.ret trivial rfl ho
  rw [returnStatement, optionalExpression, bind_assoc]
  refine c.finishes_nextKind fun k _ => ?_
  split
  · exact hend .none
  · rw [bind_assoc]
    exact (c.rel_expression b).bind fun _ _ he => hend (.some he)

theorem finishes_variableDeclaration (b : Nat) :
    c.Finishes upToIds.Stmts (variableDeclaration b) (variableDeclaration b) := by
  have hend (t : Token) {o o' : Option Expr} (ho : Option.Rel upToIds.Exprs o o') :
      c.Finishes upToIds.Stmts (do
        let _ ← expect .semicolon .semicolonAfterDeclaration
        node (.varDecl · t o)) (do
        let _ ← expect .semicolon .semicolonAfterDeclaration
        node (.varDecl · t o')) :=
    c.finishes_semicolon _ fun _ => c.tandem_node fun _ _ => upToIds.varDecl trivial rfl ho
  refine (c.rel_demand rfl _).bind fun t _ ht => ?_
  cases ht
  refine c.parallel.rel_take c.ends_expression (by intro k; cases k <;> decide) ?_ fun t u _ _ => ?_
  · exact hend _ .none
  · exact Parallel.Rel.behind (((c.rel_expression b).map fun _ _ => .some).bind fun _ _ ho => hend _ ho) t u

/-- There is no brace, so a function is never read. -/
theorem finishes_functionDeclaration (declaration : Reader (Option Stmt)) (b : Nat) :
    c.Finishes upToIds.Stmts (functionDeclaration declaration b) (functionDeclaration declaration b) := by
  refine (c.rel_demand rfl _).bind fun _ _ _ => (c.rel_demand rfl _).bind fun _ _ _ => ?_
  refine (c.parallel.rel_parenthesized c.ends_expression (c.rel_demand rfl _) b).bind fun _ _ _ => ?_
  refine (c.rel_demand rfl _).bind fun _ _ _ s s' hs => ?_
  -- the brace in front of the body is missed here at the latest
  have hinner (k : Kind) : isInner k = true → (k == .leftBrace) = false := by cases k <;> decide
  obtain ⟨hnone, hnone'⟩ := hs.not_starts rfl hinner
  rw [Deep.run_bind, Deep.run_bind, expect_none_run hnone, expect_none_run hnone']
  exact .error (c.parallel.blames_next hs rfl) hs

theorem finishes_whileStatement {statement : Reader Stmt} (hs : c.Finishes upToIds.Stmts statement statement)
    (b : Nat) : c.Finishes upToIds.Stmts (whileStatement statement b) (whileStatement statement b) :=
  (c.rel_demand rfl _).bind fun _ _ _ => (c.rel_expression b).bind fun _ _ he =>
    (c.rel_demand rfl _).bind fun _ _ _ => hs.bind fun _ _ hbody =>
      c.tandem_node fun _ _ => upToIds.whileLoop trivial he hbody

/-- Behind the semicolon there is no `else` on either side. -/
theorem finishes_ifStatement {statement : Reader Stmt} (hs : c.Finishes upToIds.Stmts statement statement)
    (b : Nat) : c.Finishes upToIds.Stmts (ifStatement statement b) (ifStatement statement b) := by
  refine (c.rel_demand rfl _).bind fun _ _ _ => (c.rel_expression b).bind fun e e' he => ?_
  refine (c.rel_demand rfl _).bind fun _ _ _ => hs.bind fun yes yes' hyes => ?_
  intro s s' hafter
  have hnone : ¬ Starts (· == .kwElse) s.rest := by
    rw [hafter.rest_eq]
    exact not_starts_nil
  have hnone' : ¬ Starts (· == .kwElse) s'.rest := by
    rw [hafter.rest_eq']
    exact c.noElse
  rw [Deep.run_bind, Deep.run_bind, accept_none_run hnone, accept_none_run hnone']
  exact c.tandem_node (fun _ _ => upToIds.ifThen trivial he hyes) s s' hafter

/-- A statement nested in the statement starts with no keyword, so it is an expression. -/
theorem finishes_statement (b : Nat) : c.Finishes upToIds.Stmts (statement b) (statement b) := by
  cases b with
  | zero =>
    rw [statement]
    exact c.parallel.rel_fail rfl
  | succ b =>
    rw [statement]
    refine .later fun s s' hs => ?_
    have hinner (k : Kind) : isInner k = true → startsKeywordStatement k = false := by cases k <;> decide
    obtain ⟨hnone, hnone'⟩ := hs.not_starts rfl hinner
    rw [statementForm, Deep.run_bind, Deep.run_bind, accept_none_run hnone, accept_none_run hnone']
    exact c.finishes_expressionStatement b s s' hs

/-! ## Declarations -/

/-- A declaration that starts in the middle of the statement is an expression. -/
theorem finishes_declarationForm (declaration : Reader (Option Stmt)) (b : Nat) :
    c.Finishes upToIds.Stmts (declarationForm declaration (statement b) b)
      (declarationForm declaration (statement b) b) := by
  refine c.finishes_nextKind fun k hk => ?_
  split
  · exact absurd hk (by decide)
  · exact absurd hk (by decide)
  · exact absurd hk (by decide)
  · exact c.finishes_statement b

theorem tandem_nextKind {t : Token} {J K : State → State → Prop} {f : Kind → Reader α} {g : Kind → Reader β}
    (h : Tandem (c.Opening t) J K c.Blames Q (f t.kind) (g t.kind)) :
    Tandem (c.Opening t) J K c.Blames Q (nextKind >>= f) (nextKind >>= g) := by
  intro s s' hs
  obtain ⟨front, hinner, hbefore⟩ := hs
  rw [Deep.run_bind, Deep.run_bind, nextKind_run hbefore.rest_eq, nextKind_run hbefore.rest_eq']
  exact h s s' ⟨front, hinner, hbefore⟩

variable {c} in
/-- The statement goes on in its middle behind the token that it starts with. -/
theorem tandem_accept {t : Token} {J K : State → State → Prop} {wanted : Kind → Bool} (hw : wanted t.kind = true)
    {f : Option Token → Reader α} {g : Option Token → Reader β}
    (h : Tandem c.Inside J K c.Blames Q (f (some t)) (g (some t))) :
    Tandem (c.Opening t) J K c.Blames Q (accept wanted >>= f) (accept wanted >>= g) := by
  intro s s' hs
  obtain ⟨front, hinner, hbefore⟩ := hs
  rw [Deep.run_bind, Deep.run_bind, accept_run hbefore.rest_eq, accept_run hbefore.rest_eq', if_pos hw, if_pos hw]
  exact h _ _ ⟨front, hinner, hbefore.behind⟩

/-- A keyword is followed by what it takes, up to the semicolon. -/
theorem tandem_statement {t : Token} (ht : startsKeywordStatement t.kind = true) (hfor : t.kind ≠ .kwFor)
    (hbrace : t.kind ≠ .leftBrace) (b : Nat) :
    Tandem (c.Opening t) c.After c.Stuck c.Blames upToIds.Stmts (statement b) (statement b) := by
  have hne : t.kind ≠ .semicolon := by
    intro heq
    rw [heq] at ht
    cases ht
  cases b with
  | zero =>
    intro s s' hs
    obtain ⟨front, hinner, hbefore⟩ := hs
    rw [statement, fail, Deep.run_of, Deep.run_of]
    exact .error (hbefore.blame _) (Opening.stuck hne ⟨front, hinner, hbefore⟩)
  | succ b =>
    rw [statement]
    refine .later (tandem_accept ht (Tandem.failing ?_ fun _ _ => Inside.stuck))
    have hs := c.finishes_statement b
    dsimp only
    cases hk : t.kind with
    | kwIf => exact c.finishes_ifStatement hs b
    | kwPrint => exact c.finishes_printStatement b
    | kwReturn => exact c.finishes_returnStatement t b
    | kwWhile => exact c.finishes_whileStatement hs b
    | kwFor => exact absurd hk hfor
    | leftBrace => exact absurd hk hbrace
    | _ => rw [hk] at ht; cases ht

theorem tandem_noExpression {t : Token} (ht : t.kind = .kwClass) :
    Tandem (c.Opening t) c.After c.Stuck c.Blames Q noExpression noExpression := by
  have hrun {γ : Type} {s : State} {rest : List Token} (hs : s.rest = t :: rest) :
      (noExpression : Reader γ).run s = .error (s.blame (.unsupported t.lexeme)) s := by
    have hreserved : t.kind.isReserved = true := by rw [ht]; rfl
    simp [noExpression, next?, fail, hs, Ending.fold, hreserved]
  intro s s' hs
  obtain ⟨front, hinner, hbefore⟩ := hs
  rw [hrun hbefore.rest_eq, hrun hbefore.rest_eq']
  exact .error (hbefore.blame _) (Opening.stuck (by rw [ht]; decide) ⟨front, hinner, hbefore⟩)

/-- A keyword that is no `for` is followed by what it takes, up to the semicolon. Classes are given up at once. -/
theorem tandem_declarationForm {t : Token} (ht : startsStatement t.kind = true) (hfor : t.kind ≠ .kwFor)
    (declaration : Reader (Option Stmt)) (b : Nat) :
    Tandem (c.Opening t) c.After c.Stuck c.Blames upToIds.Stmts (declarationForm declaration (statement b) b)
      (declarationForm declaration (statement b) b) := by
  have hstatement (hkeyword : startsKeywordStatement t.kind = true) :=
    c.tandem_statement hkeyword hfor (fun heq => by rw [heq] at ht; cases ht) b
  refine c.tandem_nextKind ?_
  cases hk : t.kind with
  | kwFun =>
    refine tandem_accept (by rw [hk]; rfl) (Tandem.failing ?_ fun _ _ => Inside.stuck)
    exact c.finishes_functionDeclaration declaration b
  | kwVar =>
    refine tandem_accept (by rw [hk]; rfl) (Tandem.failing ?_ fun _ _ => Inside.stuck)
    exact c.finishes_variableDeclaration b
  | kwClass => exact c.tandem_noExpression hk
  | kwIf | kwWhile | kwPrint | kwReturn => exact hstatement (by rw [hk]; rfl)
  | kwFor => exact absurd hk hfor
  | _ => rw [hk] at ht; cases ht

/-! ## Recovery -/

/-- Skipping stops behind the first semicolon, if no keyword stops it. -/
theorem skipStatement_semicolon {front : List Token} {semicolon : Token}
    (hfront : ∀ t ∈ front, t.kind ≠ .semicolon) (htail : ∀ t ∈ front.tail, startsStatement t.kind = false)
    (hs : semicolon.kind = .semicolon) (rest : List Token) (n : Nat) :
    skipStatement n (front ++ semicolon :: rest) = (rest, n + front.length + 1) := by
  induction front generalizing n with
  | nil =>
    cases rest with
    | nil => rfl
    | cons u us => simp [skipStatement, hs]
  | cons t front ih =>
    have ht : t.kind ≠ .semicolon := hfront t List.mem_cons_self
    have hnext : skipStatement n (t :: (front ++ semicolon :: rest)) =
        skipStatement (n + 1) (front ++ semicolon :: rest) := by
      cases front with
      | nil => simp [skipStatement, ht, hs, startsStatement]
      | cons u us => simp [skipStatement, ht, htail u List.mem_cons_self]
    rw [List.cons_append, hnext, ih (fun u hu => hfront u (List.mem_cons_of_mem t hu))
      fun u hu => htail u (List.mem_of_mem_tail hu), List.length_cons]
    simp only [Nat.add_assoc, Nat.add_comm 1]

theorem tandem_resume {K : State → State → Prop} :
    Tandem c.Stuck c.After K c.Blames (fun _ _ => True) resume resume := by
  refine .of fun s s' hs => ?_
  obtain ⟨front, hfront, htail, hbefore⟩ := hs
  rw [hbefore.rest_eq, hbefore.rest_eq', skipStatement_semicolon hfront htail c.isSemicolon,
    skipStatement_semicolon hfront htail c.isSemicolon]
  refine .ok trivial ⟨rfl, rfl, ?_, hbefore.blames_eq, hbefore.located⟩
  show s'.position + _ = s.position + _ + c.offset
  rw [hbefore.position_eq]
  omega

/-- A failure is reported, and reading goes on behind the semicolon. -/
theorem tandem_recovering {I K : State → State → Prop} {x y : Reader Stmt}
    (h : Tandem I c.After c.Stuck c.Blames upToIds.Stmts x y) :
    Tandem I c.After K c.Blames (Option.Rel upToIds.Stmts) (recovering x) (recovering y) := by
  refine (h.map fun _ _ => .some).tryCatch fun b b' hb => ?_
  have hcomplain : Tandem c.Stuck c.Stuck K c.Blames (fun _ _ => True) (complain b) (complain b') := by
    refine .of fun s s' hs => ?_
    obtain ⟨front, hfront, htail, hbefore⟩ := hs
    exact .ok trivial ⟨front, hfront, htail, hbefore.complained hb⟩
  exact hcomplain.bind fun _ _ _ => c.tandem_resume.bind fun _ _ _ => .pure .none

end Setting

/-! ## Simple statements -/

/-- One semicolon, at the end, no braces, and no keyword at which a statement starts behind the first token. The
first token is neither `for` nor `else`. Nothing is said about whether a statement can be read from the tokens. -/
structure IsSimple (ts : List Token) : Prop where
  semicolons : ts.countP (·.kind == .semicolon) = 1
  last : ts.getLast?.map (·.kind) = some .semicolon
  noBrace : ∀ t ∈ ts, t.kind ≠ .leftBrace ∧ t.kind ≠ .rightBrace
  first : ∀ t ∈ ts.head?, t.kind ≠ .kwFor ∧ t.kind ≠ .kwElse
  noKeyword : ∀ t ∈ ts.tail, startsStatement t.kind = false

namespace IsSimple

variable {ts : List Token}

instance (ts : List Token) : Decidable (IsSimple ts) :=
  decidable_of_iff (ts.countP (·.kind == .semicolon) = 1 ∧ ts.getLast?.map (·.kind) = some .semicolon ∧
      (∀ t ∈ ts, t.kind ≠ .leftBrace ∧ t.kind ≠ .rightBrace) ∧
      (∀ t ∈ ts.head?, t.kind ≠ .kwFor ∧ t.kind ≠ .kwElse) ∧ ∀ t ∈ ts.tail, startsStatement t.kind = false)
    ⟨fun h => ⟨h.1, h.2.1, h.2.2.1, h.2.2.2.1, h.2.2.2.2⟩,
      fun h => ⟨h.semicolons, h.last, h.noBrace, h.first, h.noKeyword⟩⟩

theorem split (h : IsSimple ts) : ∃ front semicolon, ts = front ++ [semicolon] ∧ semicolon.kind = .semicolon := by
  obtain ⟨semicolon, hlast, hkind⟩ := Option.map_eq_some_iff.1 h.last
  obtain ⟨front, rfl⟩ := List.getLast?_eq_some_iff.1 hlast
  exact ⟨front, semicolon, rfl, hkind⟩

theorem not_semicolon {front : List Token} {semicolon : Token} (h : IsSimple (front ++ [semicolon]))
    (hs : semicolon.kind = .semicolon) : ∀ t ∈ front, t.kind ≠ .semicolon := by
  have hcount := h.semicolons
  simp only [List.countP_append, List.countP_singleton, hs, beq_self_eq_true, if_true] at hcount
  have hnone : front.countP (·.kind == .semicolon) = 0 := by omega
  simpa [List.countP_eq_zero] using hnone

theorem not_else (h : IsSimple ts) (rest : List Token) : ¬ Starts (· == .kwElse) (ts ++ rest) := by
  obtain ⟨front, semicolon, rfl, hkind⟩ := h.split
  cases front with
  | nil => exact not_starts_cons (by rw [hkind]; rfl)
  | cons t front => exact not_starts_cons (beq_eq_false_iff_ne.2 (h.first t rfl).2)

end IsSimple

theorem isInner_of {k : Kind} (hs : k ≠ .semicolon) (hb : k ≠ .leftBrace ∧ k ≠ .rightBrace)
    (hk : startsStatement k = false) : isInner k = true := by
  unfold isInner
  split
  · exact absurd rfl hs
  · exact absurd rfl hb.1
  · exact absurd rfl hb.2
  · rw [hk]
    rfl

/-- A declaration comes behind the semicolon, whatever it comes to. -/
theorem Setting.tandem_declaration (c : Setting) {front : List Token} (h : IsSimple (front ++ [c.semicolon]))
    (b : Nat) : Tandem (c.Before front) c.After (fun _ _ => False) c.Blames (Option.Rel upToIds.Stmts)
      (declaration (b + 1)) (declaration (b + 1)) := by
  have hsemicolon := h.not_semicolon c.isSemicolon
  have hbrace (t : Token) (ht : t ∈ front) := h.noBrace t (List.mem_append_left _ ht)
  rw [declaration]
  refine .later ?_
  have hinside := c.tandem_recovering (K := fun _ _ => False)
    ((c.finishes_declarationForm (declaration b) b).failing fun _ _ => Inside.stuck)
  cases front with
  | nil => exact hinside.under fun _ _ hs => ⟨[], fun t ht => absurd ht List.not_mem_nil, hs⟩
  | cons t front =>
    have hinner (u : Token) (hu : u ∈ front) : isInner u.kind = true :=
      isInner_of (hsemicolon u (List.mem_cons_of_mem t hu)) (hbrace u (List.mem_cons_of_mem t hu))
        (h.noKeyword u (List.mem_append_left _ hu))
    -- a keyword is taken on its own, any other first token is like those behind it
    by_cases ht : startsStatement t.kind = true
    · have hform := c.tandem_declarationForm ht (h.first t rfl).1 (declaration b) b
      exact (c.tandem_recovering hform).under fun _ _ hs => ⟨front, hinner, hs⟩
    · refine hinside.under fun _ _ hs => ⟨t :: front, fun u hu => ?_, hs⟩
      rcases List.mem_cons.1 hu with rfl | hu
      · exact isInner_of (hsemicolon u List.mem_cons_self) (hbrace u List.mem_cons_self) (eq_false_of_ne_true ht)
      · exact hinner u hu

/-- What a declaration complains about where the tokens are on their own. -/
def ownBlames (b : Nat) (ts : List Token) : List Blame :=
  (endState ((declaration b).run (.start ts 0))).blames.toList

/-- Behind a simple statement there are its own complaints more. -/
theorem declaration_simple {ts rest : List Token} (h : IsSimple ts) (helse : ¬ Starts (· == .kwElse) rest) (b : Nat)
    {s : State} (hs : s.rest = ts ++ rest) :
    (∃ o s', (declaration (b + 1)).run s = .ok o s' ∧ s'.rest = rest ∧ s'.position = s.position + ts.length ∧
      s'.blames.toList = s.blames.toList ++ (ownBlames (b + 1) ts).map (.shift s.position)) ∧
    ∀ x ∈ ownBlames (b + 1) ts, x.token.isSome := by
  obtain ⟨front, semicolon, rfl, hsemicolon⟩ := h.split
  let c : Setting := ⟨semicolon, rest, s.position, s.blames.toList, hsemicolon, helse⟩
  have hbefore : c.Before front (.start (front ++ [semicolon]) 0) s :=
    ⟨rfl, by simp [hs, c], (Nat.zero_add _).symm, (List.append_nil _).symm, fun x hx => absurd hx List.not_mem_nil⟩
  have hends := c.tandem_declaration h b _ _ hbefore
  obtain ⟨l, hpasses⟩ := (traced_statement_declaration (b + 1)).2 s
  have hposition := hpasses.advances.2.position_add
  unfold ownBlames
  generalize (declaration (b + 1)).run (.start (front ++ [semicolon]) 0) = r at hends ⊢
  generalize (declaration (b + 1)).run s = r' at hends hposition ⊢
  cases hends with
  | error _ hfalse => exact hfalse.elim
  | @ok o o' s₁ s₁' _ hafter =>
    refine ⟨⟨o', s₁', rfl, hafter.rest_eq', ?_, hafter.blames_eq⟩, hafter.located⟩
    simp only [endState, Ending.fold, hafter.rest_eq', hs, List.length_append] at hposition
    show s₁'.position = s.position + (front ++ [semicolon]).length
    rw [List.length_append]
    have : c.tail.length = rest.length := rfl
    omega

/-- Enough is enough: the bound does not matter beyond twice the number of tokens. -/
theorem ownBlames_eq {b : Nat} {ts : List Token} (hb : 2 * ts.length + 2 ≤ b) :
    ownBlames b ts = ownBlames (2 * ts.length + 2) ts := by
  have halike := (alike_statement_declaration b).2.1 ts.length (2 * ts.length + 2) (.inr ⟨by omega, by omega⟩)
  unfold ownBlames
  rw [(halike (.start ts 0) (Nat.le_refl _)).run_eq]

/-! ## The loop -/

/-- From `ts` in front of `rest` the loop comes behind `ts`, in as many rounds as there are tokens or fewer, and the
complaints are more by `blames`, which have positions from the start of `ts` on. Where it comes to does not depend on
the rounds that are left, so that what passes over `ts` and then over `us` passes over both. -/
def PassesOver (b : Nat) (ts rest : List Token) (blames : List Blame) : Prop :=
  ∀ s : State, s.rest = ts ++ rest → ∃ s' : State, ∃ k ≤ ts.length,
    s'.rest = rest ∧ s'.position = s.position + ts.length ∧
    s'.blames.toList = s.blames.toList ++ blames.map (.shift s.position) ∧
    ∀ n done, ∃ done', (declarations (fun _ => false) (declaration b) (n + k) done).run s =
      (declarations (fun _ => false) (declaration b) n done').run s'

theorem Blame.shift_shift (j k : Nat) (b : Blame) : (b.shift j).shift k = b.shift (j + k) := by
  simp [shift, Nat.add_assoc]

namespace PassesOver

variable {b : Nat} {ts us rest : List Token} {blames blames' : List Blame}

theorem nil : PassesOver b [] rest [] :=
  fun s hs => ⟨s, 0, Nat.le_refl _, hs, rfl, (List.append_nil _).symm, fun _ done => ⟨done, rfl⟩⟩

theorem append (h : PassesOver b ts (us ++ rest) blames) (h' : PassesOver b us rest blames') :
    PassesOver b (ts ++ us) rest (blames ++ blames'.map (.shift ts.length)) := by
  intro s hs
  rw [List.append_assoc] at hs
  obtain ⟨s₁, k, hk, hrest, hposition, hblames, hloop⟩ := h s hs
  obtain ⟨s₂, k', hk', hrest', hposition', hblames', hloop'⟩ := h' s₁ hrest
  refine ⟨s₂, k' + k, ?_, hrest', ?_, ?_, fun n done => ?_⟩
  · rw [List.length_append]
    omega
  · rw [hposition', hposition, List.length_append, Nat.add_assoc]
  · rw [hblames', hblames, hposition, List.map_append, List.map_map, List.append_assoc]
    simp only [Function.comp_def, Blame.shift_shift, Nat.add_comm]
  · obtain ⟨done₁, hfirst⟩ := hloop (n + k') done
    obtain ⟨done₂, hsecond⟩ := hloop' n done₁
    exact ⟨done₂, by rw [← Nat.add_assoc, hfirst, hsecond]⟩

/-- One declaration is one round. -/
theorem of_declaration (hne : ts ≠ [])
    (h : ∀ s : State, s.rest = ts ++ rest → ∃ o s', (declaration b).run s = .ok o s' ∧ s'.rest = rest ∧
      s'.position = s.position + ts.length ∧
      s'.blames.toList = s.blames.toList ++ blames.map (.shift s.position)) : PassesOver b ts rest blames := by
  intro s hs
  obtain ⟨o, s', hrun, hrest, hposition, hblames⟩ := h s hs
  refine ⟨s', 1, List.length_pos_iff.2 hne, hrest, hposition, hblames, fun n done => ?_⟩
  obtain ⟨t, front, rfl⟩ := List.exists_cons_of_ne_nil hne
  cases o with
  | none => exact ⟨done, by simp [declarations, next?, hs, hrun, Ending.fold]⟩
  | some stmt => exact ⟨done.push stmt, by simp [declarations, next?, hs, hrun, Ending.fold]⟩

/-- The complaints of a reading, if the loop comes to the end of the tokens. -/
theorem read_blames (h : PassesOver (2 * ts.length + 2) ts [] blames) (i : NodeId) :
    (read ts i).blames = blames := by
  obtain ⟨s', k, hk, hrest, -, hblames, hloop⟩ := h (.start ts i) (List.append_nil _).symm
  obtain ⟨done', hrun⟩ := hloop (2 * ts.length + 2 - k) #[]
  obtain ⟨n, hn⟩ : ∃ n, 2 * ts.length + 2 - k = n + 1 := ⟨2 * ts.length + 1 - k, by omega⟩
  have hbound : 2 * ts.length + 2 - k + k = 2 * ts.length + 2 := by omega
  have hend : (declarations (fun _ => false) (declaration (2 * ts.length + 2)) (n + 1) done').run s' =
      .ok done'.toList s' := by
    simp [declarations, next?, hrest, Ending.fold]
  rw [hbound, hn, hend] at hrun
  have hzero : Blame.shift 0 = id := rfl
  unfold read
  dsimp only
  rw [hrun]
  show s'.blames.toList = blames
  rw [hblames]
  show [] ++ blames.map (.shift 0) = blames
  rw [hzero, List.map_id, List.nil_append]

end PassesOver

section
variable {b : Nat} {ts rest : List Token} (helse : ¬ Starts (· == .kwElse) rest) (hb : 2 * ts.length + 2 ≤ b)
include helse hb

/-- Nothing is complained about in a program. -/
theorem passesOver_of_spells (h : ∀ i, ∃ ss j, Spells (.body ss) i ts j) : PassesOver b ts rest [] := by
  intro s hs
  obtain ⟨ss, j, hspells⟩ := h s.nextId
  have hd := (reads_statement_declaration b).2
  refine ⟨⟨rest, s.position + ts.length, j, s.blames⟩, ss.length, body_length_le hspells, rfl, rfl,
    (List.append_nil _).symm, fun n done => ⟨(done.toList ++ ss).toArray, ?_⟩⟩
  have hleads := leads_declarations hd (fun _ _ => rfl) helse hspells hb n done s.position s.blames
  rw [← hs] at hleads
  exact hleads

/-- A simple statement has the complaints that it has on its own, and none of them is about the end of the input. -/
theorem passesOver_simple (h : IsSimple ts) :
    PassesOver b ts rest (read ts 0).blames ∧ ∀ x ∈ (read ts 0).blames, x.token.isSome := by
  have hne : ts ≠ [] := by
    obtain ⟨front, semicolon, rfl, -⟩ := h.split
    simp
  have hread : (read ts 0).blames = ownBlames (2 * ts.length + 2) ts :=
    (PassesOver.of_declaration hne fun s hs => (declaration_simple h not_starts_nil _ hs).1).read_blames 0
  have hlocated := (declaration_simple h not_starts_nil (2 * ts.length + 1) (s := .start ts 0)
    (List.append_nil _).symm).2
  obtain ⟨d, rfl⟩ : ∃ d, b = d + 1 := ⟨b - 1, by omega⟩
  -- on its own the statement is read with a smaller bound
  rw [hread]
  refine ⟨?_, hlocated⟩
  rw [← ownBlames_eq hb]
  exact .of_declaration hne fun s hs => (declaration_simple h helse d hs).1

end

/-! ## Segments -/

/-- Tokens that are a program on their own, or a simple statement. -/
structure IsSegment (ts : List Token) : Prop where
  noEnd : ∀ t ∈ ts, t.kind ≠ .eof
  readable_or_simple :
    (∃ line, (Program.ofTokens (ts ++ [.endOfInput line]) 0).program.isOk = true) ∨ IsSimple ts

/-- The complaints of segments, one after the other, each with the positions that it has on its own moved by the
tokens before it. -/
def blamesInTurn : List (List Token) → List Blame
  | [] => []
  | ts :: rest => (read ts 0).blames ++ (blamesInTurn rest).map (.shift ts.length)

/-- The errors of tokens are the complaints about those in front of the end. -/
theorem syntaxErrors_splitEnd (tokens : List Token) : Program.syntaxErrors tokens =
    (read (splitEnd tokens).1 0).blames.map (·.toError (splitEnd tokens).2) := by
  unfold Program.syntaxErrors Program.ofTokens
  by_cases hnone : (read (splitEnd tokens).1 0).blames.isEmpty = true
  · simp [List.isEmpty_iff.1 hnone]
  · simp [hnone]

theorem syntaxErrors_eq {ts : List Token} (h : ∀ t ∈ ts, t.kind ≠ .eof) (line : Nat) :
    Program.syntaxErrors (ts ++ [.endOfInput line]) = (read ts 0).blames.map (·.toError line) := by
  have hsplit : splitEnd (ts ++ [.endOfInput line]) = (ts, line) := by
    unfold splitEnd
    rw [takeWhile_ne_eof h rfl, List.dropWhile_append_of_pos (by simpa using h)]
    rfl
  rw [syntaxErrors_splitEnd, hsplit]

namespace IsSegment

variable {ts : List Token}

/-- A segment is spelled, whatever the numbers of its nodes, or it is simple. -/
theorem spells_or_simple (h : IsSegment ts) : (∀ i, ∃ ss j, Spells (.body ss) i ts j) ∨ IsSimple ts := by
  rcases h.readable_or_simple with ⟨line, hok⟩ | hsimple
  · refine .inl fun i => ?_
    rw [ofTokens_isOk _ 0 i] at hok
    cases hp : (Program.ofTokens (ts ++ [.endOfInput line]) i).program with
    | ok p =>
      obtain ⟨j, hspells⟩ := ofTokens_eq_ok_iff.1 hp
      rw [takeWhile_ne_eof h.noEnd rfl] at hspells
      exact ⟨p, j, hspells⟩
    | error errors =>
      rw [hp] at hok
      cases hok
  · exact .inr hsimple

/-- No segment goes on with the statement before it. -/
theorem not_else (h : IsSegment ts) {rest : List Token} (helse : ¬ Starts (· == .kwElse) rest) :
    ¬ Starts (· == .kwElse) (ts ++ rest) := by
  rcases h.spells_or_simple with hspells | hsimple
  · obtain ⟨ss, j, hspells⟩ := hspells 0
    rcases body_first hspells with rfl | hfirst
    · exact helse
    · exact hfirst.not_append (fun k hk => by cases k <;> first | rfl | cases hk) rest
  · exact hsimple.not_else rest

theorem passesOver (h : IsSegment ts) {b : Nat} {rest : List Token} (helse : ¬ Starts (· == .kwElse) rest)
    (hb : 2 * ts.length + 2 ≤ b) :
    PassesOver b ts rest (read ts 0).blames ∧ ∀ x ∈ (read ts 0).blames, x.token.isSome := by
  rcases h.spells_or_simple with hspells | hsimple
  · obtain ⟨ss, j, hzero⟩ := hspells 0
    rw [read_of_spells hzero]
    exact ⟨passesOver_of_spells helse hb hspells, fun x hx => absurd hx List.not_mem_nil⟩
  · exact passesOver_simple helse hb hsimple

end IsSegment

theorem not_else_flatten {segments : List (List Token)} (h : ∀ ts ∈ segments, IsSegment ts) :
    ¬ Starts (· == .kwElse) segments.flatten := by
  induction segments with
  | nil => exact not_starts_nil
  | cons ts rest ih =>
    rw [List.forall_mem_cons] at h
    exact h.1.not_else (ih h.2)

/-- The loop passes over the segments one after the other. -/
theorem passesOver_flatten {segments : List (List Token)} (h : ∀ ts ∈ segments, IsSegment ts) {b : Nat}
    (hb : 2 * segments.flatten.length + 2 ≤ b) : PassesOver b segments.flatten [] (blamesInTurn segments) := by
  induction segments with
  | nil => exact .nil
  | cons ts rest ih =>
    rw [List.forall_mem_cons] at h
    rw [List.flatten_cons, List.length_append] at hb
    have hfirst := (h.1.passesOver (not_else_flatten h.2) (b := b) (by omega)).1
    rw [← List.append_nil rest.flatten] at hfirst
    exact hfirst.append (ih h.2 (by omega))

/-- The token that is complained about says where the error is, so the end of the input does not matter. -/
theorem toError_of_located {x : Blame} (h : x.token.isSome) (line line' : Nat) :
    x.toError line = x.toError line' := by
  obtain ⟨t, ht⟩ := Option.isSome_iff_exists.1 h
  simp [Blame.toError, ht]

theorem errors_blamesInTurn {segments : List (List Token)} (h : ∀ ts ∈ segments, IsSegment ts) (line : Nat)
    (ownLine : List Token → Nat) :
    (blamesInTurn segments).map (·.toError line) =
      segments.flatMap fun ts => Program.syntaxErrors (ts ++ [.endOfInput (ownLine ts)]) := by
  induction segments with
  | nil => rfl
  | cons ts rest ih =>
    rw [List.forall_mem_cons] at h
    have hlocated := (h.1.passesOver not_starts_nil (Nat.le_refl _)).2
    have hfirst : (read ts 0).blames.map (·.toError line) =
        Program.syntaxErrors (ts ++ [.endOfInput (ownLine ts)]) := by
      rw [syntaxErrors_eq h.1.noEnd]
      exact List.map_congr_left fun x hx => toError_of_located (hlocated x hx) _ _
    rw [blamesInTurn, List.map_append, List.map_map, List.flatMap_cons, hfirst, ← ih h.2]
    rfl

/-- Tokens that are made of programs and simple statements, however many of them and in whatever order, have the errors
that these have on their own, one after the other. So nothing is lost, nothing comes of an earlier error, and the same
tokens are blamed. A simple statement may or may not have errors. -/
theorem syntax_errors_are_isolated (segments : List (List Token)) (h : ∀ ts ∈ segments, IsSegment ts) (i : NodeId)
    (line : Nat) (ownLine : List Token → Nat) :
    (read segments.flatten i).blames = blamesInTurn segments ∧
    Program.syntaxErrors (segments.flatten ++ [.endOfInput line]) =
      segments.flatMap fun ts => Program.syntaxErrors (ts ++ [.endOfInput (ownLine ts)]) := by
  have hblames (i : NodeId) : (read segments.flatten i).blames = blamesInTurn segments :=
    (passesOver_flatten h (Nat.le_refl _)).read_blames i
  have hnoEnd : ∀ t ∈ segments.flatten, t.kind ≠ .eof := by
    intro t ht
    obtain ⟨ts, hts, ht⟩ := List.mem_flatten.1 ht
    exact (h ts hts).noEnd t ht
  refine ⟨hblames i, ?_⟩
  rw [syntaxErrors_eq hnoEnd, hblames 0]
  exact errors_blamesInTurn h line ownLine

namespace Mixed

/-- Statements with errors between statements without. The fourth one has two, and the fifth one is empty. -/
def texts : List String :=
  ["print (2;", "var a = 1;", "class A;", "(1 = 2) 3;", "", "fun f() \x7b if (a) print a; \x7d", "if (a) );"]

def segments : List (List Token) := texts.map fun text => (scan text).1.dropLast

end Mixed

open Mixed in
/-- Each of these statements keeps its errors, with the tokens before it counted in. -/
theorem syntax_errors_are_isolated_mixed :
    (segments.map (read · 0 |>.blames.map (·.position)) = [[3], [], [0], [2, 5], [], [], [4]] ∧
      (read segments.flatten 0).blames.map (·.position) = [3, 9, 14, 17, 36]) ∧
    (read segments.flatten 0).blames = blamesInTurn segments ∧
    Program.syntaxErrors (segments.flatten ++ [.endOfInput 9]) =
      segments.flatMap fun ts => Program.syntaxErrors (ts ++ [.endOfInput 1]) := by
  have hcheck : ∀ ts ∈ segments, (∀ t ∈ ts, t.kind ≠ .eof) ∧
      ((Program.ofTokens (ts ++ [.endOfInput 1]) 0).program.isOk = true ∨ IsSimple ts) := by
    decide +kernel
  have hsegments : ∀ ts ∈ segments, IsSegment ts :=
    fun ts hts => ⟨(hcheck ts hts).1, (hcheck ts hts).2.imp_left fun hok => ⟨1, hok⟩⟩
  refine ⟨⟨by decide +kernel, by decide +kernel⟩, ?_⟩
  exact syntax_errors_are_isolated segments hsegments 0 9 fun _ => 1

end Lox.Grammar
