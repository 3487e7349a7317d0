import Lox.Proofs.Grammar.Delivery

/-!
# What is read is spelled by what was taken

One lemma for each reader of expressions and statements: if it ends without a complaint, the tokens
it took spell the tree it made. Bounds play no part here, because a reader that reaches its bound
gives up.

**Results.**
* `delivers_expression`, `delivers_statement_declaration`.
* `spells_of_read`: if reading a whole list of tokens gives no complaint, the list spells the body.
-/
namespace Lox.Grammar

open Token (Kind)

/-! ## Expressions -/

/-- An expression of at least the given level, spelled by the tokens taken. -/
def ExprFrom (level : Nat) : Promise Expr := fun e i ts j _ => Spells (.expr e) i ts j ∧ level ≤ e.level

/-- A reader of expressions that goes on from `left`, which has been read before. -/
def ExprAfter (level : Nat) (left : Expr) : Promise Expr := fun e j us k _ =>
  ∀ i ts, Spells (.expr left) i ts j → level ≤ left.level →
    Spells (.expr e) i (ts ++ us) k ∧ level ≤ e.level

theorem delivers_noExpression {α : Type} {Q : Promise α} : Delivers noExpression Q := by
  rw [noExpression]
  refine delivers_next?.bind fun o => ?_
  split
  · exact delivers_fail
  · split <;> exact delivers_fail

theorem delivers_literalOf (t : Token) :
    Delivers (literalOf t) fun e i ts j _ => ∃ v, t.literal = some v ∧ e = .literal i v ∧ ts = [] ∧
      j = i + 1 := by
  rw [literalOf]
  split
  · rename_i v hv
    refine delivers_node.mono ?_
    intro e i ts j rest h
    obtain ⟨rfl, rfl, rfl⟩ := h
    exact ⟨v, hv, rfl, rfl, rfl⟩
  · exact delivers_blameTaken.bind fun b => delivers_throw

section
variable {nested : Reader Expr} (hn : Delivers nested (ExprFrom 0))
include hn

theorem delivers_primary : Delivers (primary nested) (ExprFrom Level.primary) := by
  rw [primary]
  refine delivers_accept.bind fun o => ?_
  cases o with
  | none => exact delivers_noExpression
  | some t =>
    dsimp only
    split
    case h_1 hk | h_2 hk | h_3 hk =>
      refine delivers_node.mono ?_
      rintro e i ts j rest ⟨rfl, rfl, rfl⟩ i₁ ts₁ ⟨rfl, rfl, -⟩
      exact ⟨.literal (by rw [Token.constant?, hk]), Nat.le_refl _⟩
    case h_4 hk =>
      refine delivers_node.mono ?_
      rintro e i ts j rest ⟨rfl, rfl, rfl⟩ i₁ ts₁ ⟨rfl, rfl, -⟩
      exact ⟨.var hk, Nat.le_refl _⟩
    case h_5 hk =>
      refine hn.bind fun inner => ?_
      refine delivers_expect.bind fun r => ?_
      refine delivers_node.mono ?_
      rintro e i ts j rest ⟨rfl, rfl, rfl⟩ i₁ ts₁ ⟨rfl, rfl, hr⟩ i₂ ts₂ ⟨hi, -⟩ i₃ ts₃ ⟨rfl, rfl, -⟩
      exact ⟨by simpa using Spells.grouping hk hi hr, Nat.le_refl _⟩
    case h_6 h₁ h₂ h₃ h₄ h₅ =>
      refine (delivers_literalOf t).mono ?_
      rintro e i ts j rest ⟨v, hv, rfl, rfl, rfl⟩ i₁ ts₁ ⟨rfl, rfl, ht⟩
      refine ⟨.literal ?_, Nat.le_refl _⟩
      -- of the kinds that start a primary expression, only numbers and strings are left
      unfold Token.constant?
      cases hk : t.kind <;> simp_all [startsPrimary]

theorem delivers_args (bound : Nat) :
    Delivers (parenthesized nested bound) fun es i ts j _ => Spells (.args es) i ts j := by
  refine (delivers_parenthesized (P := fun e i ts j => Spells (.expr e) i ts j)
    (hn.mono fun _ _ _ _ _ h => h.1) bound).mono ?_
  intro es i ts j rest h
  rcases h with ⟨rfl, rfl, rfl⟩ | hs
  · exact .argsNil
  · induction hs with
    | one h => exact .argsOne h
    | cons h hc _ ih => exact .argsCons h hc ih

theorem delivers_calls : ∀ bound callee,
    Delivers (calls nested bound callee) (ExprAfter Level.call callee)
  | 0, _ => delivers_fail
  | bound + 1, callee => by
    rw [calls]
    refine delivers_accept.bind fun o => ?_
    cases o with
    | none =>
      refine delivers_pure ?_
      rintro i rest i₁ ts₁ ⟨rfl, rfl, -⟩ i₂ ts₂ hc hl
      exact ⟨by simpa using hc, hl⟩
    | some l =>
      refine (delivers_args hn bound).bind fun args => ?_
      refine delivers_expect.bind fun r => ?_
      refine delivers_node.bind fun called => ?_
      refine delivers_pause.bind fun _ => ?_
      refine (delivers_calls bound called).mono ?_
      rintro e i ts j rest hcalls i₀ ts₀ ⟨rfl, rfl⟩ i₁ ts₁ ⟨rfl, rfl, rfl⟩ i₂ ts₂ ⟨rfl, rfl, hr⟩
        i₃ ts₃ ha i₄ ts₄ ⟨rfl, rfl, hl⟩ i₅ ts₅ hc hlevel
      have hcall := Spells.call hlevel hc (eq_of_beq hl) ha hr
      simpa using hcalls _ _ hcall (Nat.le_refl _)

theorem delivers_call (bound : Nat) : Delivers (call nested bound) (ExprFrom Level.call) := by
  rw [call]
  refine (delivers_primary hn).bind fun callee => ?_
  refine (delivers_calls hn bound callee).mono ?_
  intro e i ts j rest h i₁ ts₁ h
  obtain ⟨hc, hl⟩ := h
  exact h _ _ hc (Nat.le_of_succ_le hl)

omit hn

theorem unaryOps_eq (taken rest : List Token) (ht : ∀ op ∈ taken, isUnaryOp op.kind = true) :
    taken.reverse ++ rest = (unaryOps taken rest).1.reverse ++ (unaryOps taken rest).2 ∧
      ∀ op ∈ (unaryOps taken rest).1, isUnaryOp op.kind = true := by
  induction rest generalizing taken with
  | nil => exact ⟨rfl, ht⟩
  | cons t rest ih =>
    rw [unaryOps]
    split
    · rename_i hop
      obtain ⟨h₁, h₂⟩ := ih (t :: taken) (by simpa [hop] using ht)
      exact ⟨by simpa using h₁, h₂⟩
    · exact ⟨rfl, ht⟩

theorem delivers_takeUnaryOps : Delivers takeUnaryOps fun ops i ts j _ =>
    ts = ops.reverse ∧ j = i ∧ ∀ op ∈ ops, isUnaryOp op.kind = true := by
  intro s
  rw [takeUnaryOps, Deep.run_of]
  obtain ⟨h₁, h₂⟩ := unaryOps_eq [] s.rest (by simp)
  exact .inr ⟨rfl, _, h₁, rfl, rfl, h₂⟩

theorem delivers_wrapUnary : ∀ ops e, Delivers (wrapUnary ops e) fun e' j us k _ =>
    us = [] ∧ ∀ i ts, Spells (.expr e) i ts j → Level.unary ≤ e.level →
      (∀ op ∈ ops, isUnaryOp op.kind = true) →
      Spells (.expr e') i (ops.reverse ++ ts) k ∧ Level.unary ≤ e'.level
  | [], e => by
    rw [wrapUnary]
    exact delivers_pure fun i rest => ⟨rfl, fun i₁ ts h hl _ => ⟨h, hl⟩⟩
  | op :: ops, e => by
    rw [wrapUnary]
    refine delivers_node.bind fun e' => ?_
    refine delivers_pause.bind fun _ => ?_
    refine (delivers_wrapUnary ops e').mono ?_
    rintro e'' i ts j rest ⟨rfl, h⟩ i₁ ts₁ ⟨rfl, rfl⟩ i₂ ts₂ ⟨rfl, rfl, rfl⟩
    refine ⟨rfl, fun i₃ ts₃ he hl hops => ?_⟩
    have hop := Spells.unary (hops op (by simp)) hl he
    simpa using h _ _ hop (Nat.le_refl _) fun o ho => hops o (by simp [ho])

include hn

theorem delivers_unary (bound : Nat) : Delivers (unary nested bound) (ExprFrom Level.unary) := by
  rw [unary]
  refine delivers_takeUnaryOps.bind fun ops => ?_
  refine (delivers_call hn bound).bind fun operand => ?_
  refine (delivers_wrapUnary ops operand).mono ?_
  rintro e i ts j rest ⟨rfl, h⟩ i₁ ts₁ ⟨ho, hl⟩ i₂ ts₂ ⟨rfl, rfl, hops⟩
  rw [List.append_nil]
  exact h _ _ ho (Nat.le_of_succ_le hl) hops

omit hn

section
variable {isOp : Kind → Bool} {build : NodeId → Expr → Token → Expr → Expr} {m : Nat}
  (hb : BindsAt isOp build m) {operand : Reader Expr} (ho : Delivers operand (ExprFrom (m + 1)))
include hb ho

theorem delivers_chain : ∀ bound left,
    Delivers (chain isOp build operand bound left) (ExprAfter m left)
  | 0, _ => delivers_fail
  | bound + 1, left => by
    rw [chain]
    refine delivers_accept.bind fun o => ?_
    cases o with
    | none =>
      refine delivers_pure ?_
      rintro i rest i₁ ts₁ ⟨rfl, rfl, -⟩ i₂ ts₂ hl hlevel
      exact ⟨by simpa using hl, hlevel⟩
    | some op =>
      refine ho.bind fun right => ?_
      refine delivers_node.bind fun whole => ?_
      refine delivers_pause.bind fun _ => ?_
      refine (delivers_chain bound whole).mono ?_
      rintro e i ts j rest h i₀ ts₀ ⟨rfl, rfl⟩ i₁ ts₁ ⟨rfl, rfl, rfl⟩ i₂ ts₂ ⟨hr, hlr⟩
        i₃ ts₃ ⟨rfl, rfl, hop⟩ i₄ ts₄ hl hll
      have hw := hb.spells hop hll hlr hl hr
      simpa using h _ _ hw (Nat.le_of_eq (hb.level_build hop _ _ _).symm)

theorem delivers_level (bound : Nat) : Delivers (level isOp build operand bound) (ExprFrom m) := by
  rw [level]
  refine ho.bind fun left => ?_
  refine (delivers_chain hb ho bound left).mono ?_
  intro e i ts j rest h i₁ ts₁ h
  obtain ⟨hl, hll⟩ := h
  exact h _ _ hl (Nat.le_of_succ_le hll)

end

include hn

theorem delivers_disjunction (bound : Nat) :
    Delivers (disjunction nested bound) (ExprFrom Level.disjunction) := by
  have hfactor := delivers_level bindsAt_factor (delivers_unary hn bound) bound
  have hterm := delivers_level bindsAt_term hfactor bound
  have hcomparison := delivers_level bindsAt_comparison hterm bound
  have hequality := delivers_level bindsAt_equality hcomparison bound
  have hconjunction := delivers_level bindsAt_conjunction hequality bound
  exact delivers_level bindsAt_disjunction hconjunction bound

theorem delivers_assignment (bound : Nat) : Delivers (assignment nested bound) (ExprFrom 0) := by
  rw [assignment]
  refine (delivers_disjunction hn bound).bind fun target => ?_
  refine delivers_accept.bind fun o => ?_
  cases o with
  | none =>
    refine delivers_pure ?_
    rintro i rest i₁ ts₁ ⟨rfl, rfl, -⟩ i₂ ts₂ ⟨ht, -⟩
    exact ⟨by simpa using ht, Nat.zero_le _⟩
  | some sign =>
    refine delivers_blameTaken.bind fun b => ?_
    refine hn.bind fun value => ?_
    split
    · refine delivers_node.mono ?_
      rintro e i ts j rest ⟨rfl, rfl, rfl⟩ i₁ ts₁ ⟨hv, -⟩ i₂ ts₂ ⟨rfl, rfl⟩ i₃ ts₃ ⟨rfl, rfl, hs⟩
        i₄ ts₄ ⟨ht, -⟩
      cases ht with
      | var hn => exact ⟨by simpa using Spells.assign hn (eq_of_beq hs) hv, Nat.zero_le _⟩
    · exact delivers_complain.bind fun _ => delivers_pure fun _ _ _ _ h => h.elim

end

theorem delivers_expression : ∀ bound, Delivers (expression bound) (ExprFrom 0)
  | 0 => delivers_fail
  | bound + 1 => (delivers_assignment (delivers_expression bound) bound).later

/-! ## Statements -/

/-- A statement spelled by the tokens taken. If it is open, no `else` comes behind it. -/
def StmtFrom : Promise Stmt := fun s i ts j rest =>
  ∃ b, Spells (.stmt b s) i ts j ∧ (b = true → ¬ Starts (· == .kwElse) rest)

/-- A statement spelled by a keyword, taken before, and the tokens taken. -/
def StmtBehind (k : Kind) : Promise Stmt := fun s i ts j rest =>
  ∀ t : Token, t.kind = k → StmtFrom s i (t :: ts) j rest

def DeclFrom : Promise (Option Stmt) := fun o i ts j _ => ∃ s, o = some s ∧ Spells (.decl s) i ts j

theorem stmtFrom_closed {s : Stmt} {i j : NodeId} {ts rest : List Token}
    (h : Spells (.stmt false s) i ts j) : StmtFrom s i ts j rest :=
  ⟨false, h, fun h => nomatch h⟩

/-- A failure of the reader is turned into a complaint. -/
theorem delivers_recovering {reader : Reader Stmt} {Q : Promise Stmt} (hr : Delivers reader Q) :
    Delivers (recovering reader) fun o i ts j rest => ∃ s, o = some s ∧ Q s i ts j rest := by
  have hmap : Delivers (some <$> reader) fun o i ts j rest => ∃ s, o = some s ∧ Q s i ts j rest :=
    Delivers.map (hr.mono fun s _ _ _ _ hs => ⟨s, rfl, hs⟩)
  intro s
  have hs := hmap s
  rw [recovering, Deep.run_tryCatch]
  revert hs
  cases (some <$> reader).run s with
  | ok a s' => exact id
  | error e s' =>
    intro hle
    refine .inl (Nat.lt_of_le_of_lt hle ?_)
    simp

theorem delivers_optionalExpression (absent : Kind) (bound : Nat) :
    Delivers (optionalExpression absent bound) fun o i ts j _ => Spells (.maybe o) i ts j := by
  rw [optionalExpression]
  refine delivers_nextKind.bind fun k => ?_
  split
  · refine delivers_pure ?_
    intro i rest i₁ ts₁ h
    obtain ⟨rfl, rfl, -⟩ := h
    exact .absent
  · refine (delivers_expression bound).bind fun e => delivers_pure ?_
    rintro i rest i₁ ts₁ ⟨he, -⟩ i₂ ts₂ ⟨rfl, rfl, -⟩
    simpa using Spells.present he

theorem delivers_variableDeclaration (bound : Nat) :
    Delivers (variableDeclaration bound) fun s i ts j _ =>
      ∀ v : Token, v.kind = .kwVar → Spells (.varDecl s) i (v :: ts) j := by
  rw [variableDeclaration]
  refine delivers_expect.bind fun name => ?_
  refine delivers_accept.bind fun o => ?_
  cases o with
  | none =>
    refine (delivers_pure (Q := fun o i ts j _ => o = none ∧ ts = [] ∧ j = i)
      fun _ _ => ⟨rfl, rfl, rfl⟩).bind fun init => ?_
    refine delivers_expect.bind fun c => ?_
    refine delivers_node.mono ?_
    rintro s i ts j rest ⟨rfl, rfl, rfl⟩ i₁ ts₁ ⟨rfl, rfl, hc⟩ i₂ ts₂ ⟨rfl, rfl, rfl⟩
      i₃ ts₃ ⟨rfl, rfl, -⟩ i₄ ts₄ ⟨rfl, rfl, hn⟩ v hv
    exact .varBare hv hn hc
  | some sign =>
    refine (Delivers.map (Q := fun o i ts j _ => ∃ e, o = some e ∧ Spells (.expr e) i ts j)
      ((delivers_expression bound).mono fun e _ _ _ _ h => ⟨e, rfl, h.1⟩)).bind fun init => ?_
    refine delivers_expect.bind fun c => ?_
    refine delivers_node.mono ?_
    rintro s i ts j rest ⟨rfl, rfl, rfl⟩ i₁ ts₁ ⟨rfl, rfl, hc⟩ i₂ ts₂ ⟨e, rfl, he⟩
      i₃ ts₃ ⟨rfl, rfl, hs⟩ i₄ ts₄ ⟨rfl, rfl, hn⟩ v hv
    simpa using Spells.varInit hv hn (eq_of_beq hs) he hc

theorem delivers_expressionStatement (bound : Nat) :
    Delivers (expressionStatement bound) fun s i ts j _ => Spells (.exprStmt s) i ts j := by
  rw [expressionStatement]
  refine (delivers_expression bound).bind fun value => ?_
  refine delivers_expect.bind fun c => ?_
  refine delivers_node.mono ?_
  rintro s i ts j rest ⟨rfl, rfl, rfl⟩ i₁ ts₁ ⟨rfl, rfl, hc⟩ i₂ ts₂ ⟨he, -⟩
  simpa using Spells.exprStmt he hc

theorem delivers_printStatement (bound : Nat) :
    Delivers (printStatement bound) (StmtBehind .kwPrint) := by
  rw [printStatement]
  refine (delivers_expression bound).bind fun value => ?_
  refine delivers_expect.bind fun c => ?_
  refine delivers_node.mono ?_
  rintro s i ts j rest ⟨rfl, rfl, rfl⟩ i₁ ts₁ ⟨rfl, rfl, hc⟩ i₂ ts₂ ⟨he, -⟩ p hp
  exact stmtFrom_closed (by simpa using Spells.print hp he hc)

theorem delivers_returnStatement (keyword : Token) (bound : Nat) :
    Delivers (returnStatement keyword bound) fun s i ts j rest =>
      keyword.kind = .kwReturn → StmtFrom s i (keyword :: ts) j rest := by
  rw [returnStatement]
  refine (delivers_optionalExpression .semicolon bound).bind fun value => ?_
  refine delivers_expect.bind fun c => ?_
  refine delivers_node.mono ?_
  rintro s i ts j rest ⟨rfl, rfl, rfl⟩ i₁ ts₁ ⟨rfl, rfl, hc⟩ i₂ ts₂ ho hk
  exact stmtFrom_closed (by simpa using Spells.ret hk ho hc)

theorem delivers_forInitializer (bound : Nat) :
    Delivers (forInitializer bound) fun o i ts j _ => Spells (.start o) i ts j := by
  rw [forInitializer]
  refine delivers_nextKind.bind fun k => ?_
  split
  · refine (delivers_accept_next (by decide)).bind fun o => delivers_pure ?_
    rintro i rest i₁ ts₁ ⟨rfl, htake⟩ i₂ ts₂ ⟨rfl, rfl, hk⟩
    obtain ⟨c, rfl, hc⟩ := htake (by simpa using hk)
    exact .startNone hc
  · refine (delivers_accept_next (by decide)).bind fun o => ?_
    refine (delivers_variableDeclaration bound).bind fun s => delivers_pure ?_
    rintro i rest i₁ ts₁ hs i₂ ts₂ ⟨rfl, htake⟩ i₃ ts₃ ⟨rfl, rfl, hk⟩
    obtain ⟨v, rfl, hv⟩ := htake (by simpa using hk)
    exact .startVar (by simpa using hs v hv)
  · refine (delivers_expressionStatement bound).bind fun s => delivers_pure ?_
    intro i rest i₁ ts₁ hs i₂ ts₂ h
    obtain ⟨rfl, rfl, -⟩ := h
    exact .startExpr (by simpa using hs)

theorem delivers_desugarFor (init : Option Stmt) (condition increment : Option Expr) (body : Stmt) :
    Delivers (desugarFor init condition increment body) fun s i ts j _ => ts = [] ∧
      s = (forTree init condition increment body i).1 ∧
      j = (forTree init condition increment body i).2 := by
  intro s
  rw [run_desugarFor]
  exact .inr ⟨rfl, [], rfl, rfl, rfl, rfl⟩

section
variable {statement : Reader Stmt} (hst : Delivers statement StmtFrom)
include hst

theorem delivers_whileStatement (bound : Nat) :
    Delivers (whileStatement statement bound) (StmtBehind .kwWhile) := by
  rw [whileStatement]
  refine delivers_expect.bind fun l => ?_
  refine (delivers_expression bound).bind fun condition => ?_
  refine delivers_expect.bind fun r => ?_
  refine hst.bind fun body => ?_
  refine delivers_node.mono ?_
  rintro s i ts j rest ⟨rfl, rfl, rfl⟩ i₁ ts₁ ⟨b, hs, ho⟩ i₂ ts₂ ⟨rfl, rfl, hr⟩ i₃ ts₃ ⟨hc, -⟩
    i₄ ts₄ ⟨rfl, rfl, hl⟩ w hw
  exact ⟨b, by simpa using Spells.whileLoop hw hl hc hr hs, ho⟩

theorem delivers_ifStatement (bound : Nat) :
    Delivers (ifStatement statement bound) (StmtBehind .kwIf) := by
  rw [ifStatement]
  refine delivers_expect.bind fun l => ?_
  refine (delivers_expression bound).bind fun condition => ?_
  refine delivers_expect.bind fun r => ?_
  refine hst.bind fun yes => ?_
  refine delivers_accept.bind fun o => ?_
  cases o with
  | none =>
    refine delivers_node.mono ?_
    rintro s i ts j rest ⟨rfl, rfl, rfl⟩ i₁ ts₁ ⟨rfl, rfl, helse⟩ i₂ ts₂ ⟨b, hs, -⟩
      i₃ ts₃ ⟨rfl, rfl, hr⟩ i₄ ts₄ ⟨hc, -⟩ i₅ ts₅ ⟨rfl, rfl, hl⟩ f hf
    exact ⟨true, by simpa using Spells.ifThen hf hl hc hr hs, fun _ => helse⟩
  | some x =>
    refine hst.bind fun no => ?_
    refine delivers_node.mono ?_
    rintro s i ts j rest ⟨rfl, rfl, rfl⟩ i₁ ts₁ ⟨b', hs', ho'⟩ i₂ ts₂ ⟨rfl, rfl, hx⟩ i₃ ts₃ ⟨b, hs, ho⟩
      i₄ ts₄ ⟨rfl, rfl, hr⟩ i₅ ts₅ ⟨hc, -⟩ i₆ ts₆ ⟨rfl, rfl, hl⟩ f hf
    -- the branch was followed by an `else`, so it cannot be open
    have hb : b = false := by
      cases b with
      | false => rfl
      | true => exact absurd ⟨x, _, rfl, hx⟩ (ho rfl)
    subst hb
    exact ⟨b', by simpa using Spells.ifElse hf hl hc hr hs (eq_of_beq hx) hs', ho'⟩

theorem delivers_forStatement (bound : Nat) :
    Delivers (forStatement statement bound) (StmtBehind .kwFor) := by
  rw [forStatement]
  refine delivers_expect.bind fun l => ?_
  refine (delivers_forInitializer bound).bind fun init => ?_
  refine (delivers_optionalExpression .semicolon bound).bind fun condition => ?_
  refine delivers_expect.bind fun d => ?_
  refine (delivers_optionalExpression .rightParen bound).bind fun increment => ?_
  refine delivers_expect.bind fun r => ?_
  refine hst.bind fun body => ?_
  refine (delivers_desugarFor init condition increment body).mono ?_
  rintro s i ts j rest ⟨rfl, rfl, rfl⟩ i₁ ts₁ ⟨b, hs, ho⟩ i₂ ts₂ ⟨rfl, rfl, hr⟩ i₃ ts₃ hx
    i₄ ts₄ ⟨rfl, rfl, hd⟩ i₅ ts₅ hc i₆ ts₆ hi i₇ ts₇ ⟨rfl, rfl, hl⟩ f hf
  exact ⟨b, by simpa using Spells.forLoop hf hl hi hc hd hx hr hs, ho⟩

end

theorem delivers_params (bound : Nat) :
    Delivers (parenthesized (expect .identifier .parameterName) bound) fun ps i ts j _ =>
      j = i ∧ Spells (.params ps) i ts i := by
  refine (delivers_parenthesized (P := fun p i ts j => ts = [p] ∧ j = i ∧ p.kind = .identifier)
    delivers_expect bound).mono ?_
  intro ps i ts j rest h
  rcases h with ⟨rfl, rfl, rfl⟩ | hs
  · exact ⟨rfl, .paramsNil⟩
  · induction hs with
    | one h =>
      obtain ⟨rfl, rfl, hp⟩ := h
      exact ⟨rfl, .paramsOne hp⟩
    | cons h hc _ ih =>
      obtain ⟨rfl, rfl, hp⟩ := h
      obtain ⟨rfl, hps⟩ := ih
      exact ⟨rfl, .paramsCons hp hc hps⟩

section
variable {declaration : Reader (Option Stmt)} (hd : Delivers declaration DeclFrom)
include hd

theorem delivers_declarations (closing : Kind → Bool) : ∀ bound (done : Array Stmt),
    Delivers (declarations closing declaration bound done) fun l i ts j rest =>
      ∃ ss, l = done.toList ++ ss ∧ Spells (.body ss) i ts j ∧ (rest = [] ∨ Starts closing rest)
  | 0, _ => delivers_fail
  | bound + 1, done => by
    rw [declarations]
    refine delivers_next?.bind fun o => ?_
    cases o with
    | none =>
      refine delivers_pure ?_
      intro i rest i₁ ts₁ h
      obtain ⟨rfl, rfl, hrest⟩ := h
      exact ⟨[], by simp, .bodyNil, .inl (List.head?_eq_none_iff.1 hrest.symm)⟩
    | some t =>
      dsimp only
      split
      · rename_i hc
        refine delivers_pure ?_
        intro i rest i₁ ts₁ h
        obtain ⟨rfl, rfl, hrest⟩ := h
        obtain ⟨us, rfl⟩ := List.head?_eq_some_iff.1 hrest.symm
        exact ⟨[], by simp, .bodyNil, .inr ⟨t, us, rfl, hc⟩⟩
      · refine hd.bind fun o => ?_
        cases o with
        | none =>
          refine (delivers_declarations closing bound done).mono ?_
          intro l i ts j rest _ i₁ ts₁ h
          obtain ⟨s, hs, -⟩ := h
          cases hs
        | some stmt =>
          refine (delivers_declarations closing bound (done.push stmt)).mono ?_
          rintro l i ts j rest ⟨ss, rfl, hss, hrest⟩ i₁ ts₁ ⟨s, hs, hspell⟩ i₂ ts₂ ⟨rfl, rfl, -⟩
          cases hs
          exact ⟨stmt :: ss, by simp, by simpa using Spells.bodyCons hspell hss, hrest⟩

theorem delivers_blockBody (bound : Nat) :
    Delivers (blockBody declaration bound) fun ss i ts j _ =>
      ∃ us r, ts = us ++ [r] ∧ Spells (.body ss) i us j ∧ r.kind = .rightBrace := by
  rw [blockBody]
  refine (delivers_declarations hd _ bound #[]).bind fun body => ?_
  refine delivers_expect.bind fun r => delivers_pure ?_
  rintro i rest i₁ ts₁ ⟨rfl, rfl, hr⟩ i₂ ts₂ ⟨ss, rfl, hss, -⟩
  exact ⟨ts₂, r, by simp, by simpa using hss, hr⟩

theorem delivers_functionDeclaration (bound : Nat) :
    Delivers (functionDeclaration declaration bound) fun s i ts j _ =>
      ∀ f : Token, f.kind = .kwFun → Spells (.decl s) i (f :: ts) j := by
  rw [functionDeclaration]
  refine delivers_expect.bind fun name => ?_
  refine delivers_expect.bind fun l => ?_
  refine (delivers_params bound).bind fun params => ?_
  refine delivers_expect.bind fun r => ?_
  refine delivers_expect.bind fun lb => ?_
  refine (delivers_blockBody hd bound).bind fun body => ?_
  refine delivers_node.mono ?_
  rintro s i ts j rest ⟨rfl, rfl, rfl⟩ i₁ ts₁ ⟨us, rb, rfl, hs, hrb⟩ i₂ ts₂ ⟨rfl, rfl, hlb⟩
    i₃ ts₃ ⟨rfl, rfl, hr⟩ i₄ ts₄ ⟨rfl, hp⟩ i₅ ts₅ ⟨rfl, rfl, hl⟩ i₆ ts₆ ⟨rfl, rfl, hn⟩ f hf
  simpa using Spells.function hf hn hl hp hr hlb hs hrb

variable {statement : Reader Stmt} (hst : Delivers statement StmtFrom)
include hst

theorem delivers_statementForm (bound : Nat) :
    Delivers (statementForm declaration statement bound) StmtFrom := by
  rw [statementForm]
  refine delivers_accept.bind fun o => ?_
  cases o with
  | none =>
    refine (delivers_expressionStatement bound).mono ?_
    intro s i ts j rest hs i₁ ts₁ h
    obtain ⟨rfl, rfl, -⟩ := h
    exact stmtFrom_closed (.expression hs)
  | some t =>
    dsimp only
    split
    case h_1 hk =>
      refine (delivers_forStatement hst bound).mono ?_
      intro s i ts j rest hs i₁ ts₁ h
      obtain ⟨rfl, rfl, -⟩ := h
      exact hs t hk
    case h_2 hk =>
      refine (delivers_ifStatement hst bound).mono ?_
      intro s i ts j rest hs i₁ ts₁ h
      obtain ⟨rfl, rfl, -⟩ := h
      exact hs t hk
    case h_3 hk =>
      refine (delivers_printStatement bound).mono ?_
      intro s i ts j rest hs i₁ ts₁ h
      obtain ⟨rfl, rfl, -⟩ := h
      exact hs t hk
    case h_4 hk =>
      refine (delivers_returnStatement t bound).mono ?_
      intro s i ts j rest hs i₁ ts₁ h
      obtain ⟨rfl, rfl, -⟩ := h
      exact hs hk
    case h_5 hk =>
      refine (delivers_whileStatement hst bound).mono ?_
      intro s i ts j rest hs i₁ ts₁ h
      obtain ⟨rfl, rfl, -⟩ := h
      exact hs t hk
    case h_6 h₁ h₂ h₃ h₄ h₅ =>
      refine (delivers_blockBody hd bound).bind fun body => ?_
      refine delivers_node.mono ?_
      rintro s i ts j rest ⟨rfl, rfl, rfl⟩ i₁ ts₁ ⟨us, r, rfl, hs, hr⟩ i₂ ts₂ ⟨rfl, rfl, ht⟩
      have hl : t.kind = .leftBrace := by
        cases hk : t.kind <;> simp_all [startsKeywordStatement]
      exact stmtFrom_closed (by simpa using Spells.block hl hs hr)

theorem delivers_declarationForm (bound : Nat) :
    Delivers (declarationForm declaration statement bound) fun s i ts j _ =>
      Spells (.decl s) i ts j := by
  rw [declarationForm]
  refine delivers_nextKind.bind fun k => ?_
  split
  · refine (delivers_accept_next (by decide)).bind fun o => ?_
    refine (delivers_functionDeclaration hd bound).mono ?_
    rintro s i ts j rest hs i₁ ts₁ ⟨rfl, htake⟩ i₂ ts₂ ⟨rfl, rfl, hk⟩
    obtain ⟨f, rfl, hf⟩ := htake (by simpa using hk)
    exact hs f hf
  · refine (delivers_accept_next (by decide)).bind fun o => ?_
    refine (delivers_variableDeclaration bound).mono ?_
    rintro s i ts j rest hs i₁ ts₁ ⟨rfl, htake⟩ i₂ ts₂ ⟨rfl, rfl, hk⟩
    obtain ⟨v, rfl, hv⟩ := htake (by simpa using hk)
    exact .variable (hs v hv)
  · exact delivers_noExpression
  · refine hst.mono ?_
    rintro s i ts j rest ⟨b, hs, -⟩ i₁ ts₁ ⟨rfl, rfl, -⟩
    exact .statement hs

end

/-- The levels of statements and declarations are tied together by the bound. -/
theorem delivers_statement_declaration : ∀ bound,
    Delivers (statement bound) StmtFrom ∧ Delivers (declaration bound) DeclFrom
  | 0 => by
    rw [statement, declaration]
    exact ⟨delivers_fail, delivers_fail⟩
  | bound + 1 => by
    obtain ⟨hs, hd⟩ := delivers_statement_declaration bound
    rw [statement, declaration]
    exact ⟨(delivers_statementForm hd hs bound).later,
      (delivers_recovering (delivers_declarationForm hd hs bound)).later⟩

theorem delivers_declaration (bound : Nat) : Delivers (declaration bound) DeclFrom :=
  (delivers_statement_declaration bound).2

/-! ## Programs -/

/-- If nothing is amiss in a list of tokens, the list spells what was read from it. -/
theorem spells_of_read {tokens : List Token} {firstId : NodeId}
    (h : (read tokens firstId).blames = []) :
    Spells (.body (read tokens firstId).body) firstId tokens (read tokens firstId).nextId := by
  have hall := delivers_declarations (delivers_declaration (2 * tokens.length + 2)) (fun _ => false)
    (2 * tokens.length + 2) #[] (.start tokens firstId)
  unfold read at h ⊢
  revert hall h
  dsimp only
  cases (declarations (fun _ => false) (declaration (2 * tokens.length + 2))
    (2 * tokens.length + 2) #[]).run (.start tokens firstId) with
  | error e s => simp
  | ok body s =>
    intro h hall
    rcases hall with hlt | ⟨-, ts, hts, ss, rfl, hss, hrest⟩
    · have hempty : s.blames = #[] := by simpa using h
      simp [hempty] at hlt
    · have hend : s.rest = [] := by
        rcases hrest with hrest | ⟨t, us, -, ht⟩
        · exact hrest
        · cases ht
      rw [hend, List.append_nil] at hts
      rw [← hts] at hss
      simpa [State.start] using hss

end Lox.Grammar
