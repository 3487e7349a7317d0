import Lox.Proofs.Grammar.Completeness
import Lox.Proofs.Grammar.Rules

/-!
# Reading accepts exactly the grammar

Tokens are read without complaint if and only if their kinds can be derived from the grammar. Both
directions go through `Spells`: what is spelled can be derived, and what can be derived spells a tree
as soon as every number and string token carries a constant.

**Levels.** The nonterminals of expressions are numbered by level (`ofLevel`). Those of the levels of
operators have rules of one shape (`rule_ofLevel`), so each argument about them is made once.

**Else.** The grammar lets an `else` belong to any open `if`, and reading gives it to the nearest.
`spells_attach_else` finds that place, so the choice costs no derivation.

**Results.**
* `matches_of_spells`: what is spelled can be derived.
* `spelled_of_rule`: what the rule of a nonterminal allows is spelled, if its parts are.
* `ofTokens_ok_iff_derives`: reading accepts exactly the grammar.
-/
namespace Lox.Grammar

open Token (Kind)
open Rule (many)

/-! ## Levels of the grammar -/

/-- The nonterminal from which the expressions of a level and of the tighter ones are derived. -/
def Nonterminal.ofLevel : Nat → Nonterminal
  | 0 => .assignment
  | 1 => .logicOr
  | 2 => .logicAnd
  | 3 => .equality
  | 4 => .comparison
  | 5 => .term
  | 6 => .factor
  | 7 => .unary
  | 8 => .call
  | _ => .primary

open Nonterminal (ofLevel)

open Token.Kind in
/-- The operators of a level. -/
def operators : Nat → Rule
  | 1 => kwOr
  | 2 => kwAnd
  | 3 => (bangEqual : Rule) ||| equalEqual
  | 4 => (greater : Rule) ||| greaterEqual ||| less ||| lessEqual
  | 5 => (minus : Rule) ||| plus
  | _ => (slash : Rule) ||| star

/-- Operands of the next level with operators between them. -/
theorem rule_ofLevel {m : Nat} (hpos : 0 < m) (hle : m ≤ Level.factor) :
    (ofLevel m).rule = .seq (ofLevel (m + 1)) (many (.seq (operators m) (ofLevel (m + 1)))) := by
  match m with
  | 1 | 2 | 3 | 4 | 5 | 6 => rfl

theorem matches_operators {m : Nat} (hpos : 0 < m) (hle : m ≤ Level.factor) {ts : List Token} :
    Matches (operators m) ts ↔ ∃ t, ts = [t] ∧ Level.ofOperator t.kind = m := by
  match m with
  | 1 | 2 | 3 | 4 | 5 | 6 =>
    simp only [operators, matches_alt, matches_token, ← exists_or, ← and_or_left]
    refine exists_congr fun t => and_congr_right fun _ => ?_
    cases t.kind <;> decide

/-- A tighter expression may stand where a looser one is asked for. -/
theorem matches_ofLevel_mono {m n : Nat} {ts : List Token} (hmn : m ≤ n) (hn : n ≤ Level.primary)
    (h : Matches (ofLevel n) ts) : Matches (ofLevel m) ts := by
  induction hmn with
  | refl => exact h
  | @step n hmn ih =>
    refine ih (Nat.le_of_succ_le hn) (matches_rule.2 ?_)
    by_cases hop : 0 < n ∧ n ≤ Level.factor
    · rw [rule_ofLevel hop.1 hop.2]
      exact h.alone
    · match n with
      | 0 | 7 => exact h.right
      | 8 => exact h.alone
      | 1 | 2 | 3 | 4 | 5 | 6 => exact absurd hop (by decide)

theorem matches_primary {ts : List Token} : Matches Nonterminal.primary ts ↔
    (∃ t, ts = [t] ∧ startsPrimary t.kind = true ∧ t.kind ≠ .leftParen) ∨
      ∃ l us r, ts = l :: (us ++ [r]) ∧ l.kind = .leftParen ∧
        Matches Nonterminal.expression us ∧ r.kind = .rightParen := by
  rw [matches_rule, Nonterminal.rule]
  simp only [matches_alt, matches_token]
  constructor
  · have single {k : Kind} (h : ∃ t, ts = [t] ∧ t.kind = k)
        (hk : startsPrimary k = true ∧ k ≠ .leftParen) :
        ∃ t, ts = [t] ∧ startsPrimary t.kind = true ∧ t.kind ≠ .leftParen := by
      obtain ⟨t, rfl, rfl⟩ := h
      exact ⟨t, rfl, hk⟩
    intro h
    rcases h with (((((h | h) | h) | h) | h) | h) | h
    · exact .inl (single h (by decide))
    · exact .inl (single h (by decide))
    · exact .inl (single h (by decide))
    · exact .inl (single h (by decide))
    · exact .inl (single h (by decide))
    · obtain ⟨l, _, rfl, hl, h⟩ := matches_token_seq.1 h
      obtain ⟨us, _, rfl, he, h⟩ := matches_seq.1 h
      obtain ⟨r, rfl, hr⟩ := matches_token.1 h
      exact .inr ⟨l, us, r, rfl, hl, he, hr⟩
    · exact .inl (single h (by decide))
  · intro h
    rcases h with ⟨t, rfl, ht, hne⟩ | ⟨l, us, r, rfl, hl, he, hr⟩
    · cases hk : t.kind <;> simp_all [startsPrimary]
    · exact .inl (.inr (.cons hl (he.seq (.one hr))))

/-! ## What is spelled can be derived -/

/-- The rule for a part of a tree. -/
def Form.rule : Form → Rule
  | .expr e => ofLevel e.level
  | .args [] => .maybe Nonterminal.arguments
  | .args (_ :: _) => Nonterminal.arguments
  | .params [] => .maybe Nonterminal.parameters
  | .params (_ :: _) => Nonterminal.parameters
  | .maybe _ => .maybe Nonterminal.expression
  | .varDecl _ => Nonterminal.varDecl
  | .exprStmt _ => Nonterminal.exprStmt
  | .start _ => (Nonterminal.varDecl : Rule) ||| Nonterminal.exprStmt ||| Kind.semicolon
  | .stmt _ _ => Nonterminal.statement
  | .decl _ => Nonterminal.declaration
  | .body _ => many Nonterminal.declaration

theorem matches_expression {e : Expr} {ts : List Token} (h : Matches (Form.expr e).rule ts) :
    Matches Nonterminal.expression ts :=
  matches_rule.2 (matches_ofLevel_mono (Nat.zero_le _) e.level_le_primary h)

theorem matches_args {es : List Expr} {ts : List Token} (h : Matches (Form.args es).rule ts) :
    Matches (.maybe Nonterminal.arguments) ts := by
  cases es with
  | nil => exact h
  | cons => exact matches_maybe.2 (.inr h)

theorem matches_params {ps : List Token} {ts : List Token} (h : Matches (Form.params ps).rule ts) :
    Matches (.maybe Nonterminal.parameters) ts := by
  cases ps with
  | nil => exact h
  | cons => exact matches_maybe.2 (.inr h)

theorem matches_binary {m : Nat} {us vs : List Token} {l r : Expr} {op : Token}
    (hm : Level.ofOperator op.kind = m) (hpos : 0 < m) (hll : m ≤ l.level) (hlr : m < r.level)
    (hl : Matches (Form.expr l).rule us) (hr : Matches (Form.expr r).rule vs) :
    Matches (ofLevel m) (us ++ op :: vs) := by
  have hle : m ≤ Level.factor := hm ▸ Level.ofOperator_le_factor _
  have hus := matches_rule.1 (matches_ofLevel_mono hll l.level_le_primary hl)
  rw [rule_ofLevel hpos hle] at hus
  obtain ⟨first, others, rfl, hfirst, hothers⟩ := matches_seq.1 hus
  have hop := (matches_operators hpos hle).2 ⟨op, rfl, hm⟩
  have hvs := matches_ofLevel_mono hlr r.level_le_primary hr
  rw [matches_rule, rule_ofLevel hpos hle, List.append_assoc]
  exact hfirst.seq (matches_many_snoc hothers (hop.seq hvs))

theorem matches_of_spells {f : Form} {i j : NodeId} {ts : List Token} (h : Spells f i ts j) :
    Matches f.rule ts := by
  induction h with
  | @literal _ _ t h =>
    refine matches_primary.2 (.inl ⟨t, rfl, ?_⟩)
    unfold Token.constant? at h
    split at h <;> simp_all [startsPrimary]
  | var h => exact matches_primary.2 (.inl ⟨_, rfl, by rw [h]; decide⟩)
  | grouping hl _ hr ih =>
    exact matches_primary.2 (.inr ⟨_, _, _, rfl, hl, matches_expression ih, hr⟩)
  | @call _ _ _ callee _ _ _ _ _ hcallee _ hl _ hr ih iha =>
    have hf := matches_ofLevel_mono hcallee callee.level_le_primary ih
    obtain ⟨first, others, rfl, hfirst, hothers⟩ := matches_seq.1 (matches_rule.1 hf)
    have hcall := matches_many_snoc hothers (.cons hl ((matches_args iha).seq (.one hr)))
    rw [List.append_assoc]
    exact matches_rule.2 (hfirst.seq hcall)
  | @unary _ _ e _ op hop hl _ ih =>
    have he := matches_ofLevel_mono hl e.level_le_primary ih
    have hsign : Matches ((Kind.bang : Rule) ||| Kind.minus) [op] := by
      cases hk : op.kind <;> simp_all [isUnaryOp, matches_alt, matches_token]
    exact matches_rule.2 (hsign.seq he).left
  | binary hm hll hlr _ _ ihl ihr =>
    exact matches_binary rfl (Nat.lt_of_lt_of_le (by decide) hm) hll hlr ihl ihr
  | logical hp _ hll hlr _ _ ihl ihr => exact matches_binary rfl hp hll hlr ihl ihr
  | assign hn hs _ ih =>
    exact matches_rule.2 (.left (.cons hn (.cons hs (matches_rule.1 (matches_expression ih)))))
  | argsNil | paramsNil | absent => exact matches_maybe.2 (.inl rfl)
  | argsOne _ ih => exact matches_rule.2 (matches_expression ih).alone
  | argsCons _ hc _ ih ihs =>
    obtain ⟨first, others, rfl, hfirst, hothers⟩ := matches_seq.1 (matches_rule.1 ihs)
    refine matches_rule.2 ((matches_expression ih).seq ?_)
    exact matches_many.2 (.inr ⟨_, _, rfl, .cons hc hfirst, hothers⟩)
  | paramsOne hp => exact matches_rule.2 (.cons hp matches_many_nil)
  | paramsCons hp hc _ ih =>
    obtain ⟨p', others, rfl, hp', hothers⟩ := matches_token_seq.1 (matches_rule.1 ih)
    refine matches_rule.2 (.cons hp ?_)
    exact matches_many.2 (.inr ⟨[_, p'], others, rfl, .cons hc (.one hp'), hothers⟩)
  | present _ ih => exact matches_maybe.2 (.inr (matches_expression ih))
  | varBare hv hn hc =>
    exact matches_rule.2 (.cons hv (.cons hn (.seq (matches_maybe.2 (.inl rfl)) (.one hc))))
  | varInit hv hn hs _ hc ih =>
    have hinit := matches_maybe.2 (.inr (.cons hs (matches_expression ih)))
    exact matches_rule.2 (.cons hv (.cons hn (hinit.seq (.one hc))))
  | exprStmt _ hc ih => exact matches_rule.2 ((matches_expression ih).seq (.one hc))
  | startNone hc => exact .right (.one hc)
  | startVar _ ih => exact .left (.left ih)
  | startExpr _ ih => exact .left (.right ih)
  | expression _ ih => exact matches_statement.2 (.inl ih)
  | print hp _ hc ih =>
    refine matches_statement.2 (.inr (.inr (.inr (.inl (matches_rule.2 ?_)))))
    exact .cons hp ((matches_expression ih).seq (.one hc))
  | ret ht _ hc ih =>
    refine matches_statement.2 (.inr (.inr (.inr (.inr (.inl (matches_rule.2 ?_))))))
    exact .cons ht (ih.seq (.one hc))
  | block hl _ hr ih =>
    refine matches_statement.2 (.inr (.inr (.inr (.inr (.inr (.inr (matches_rule.2 ?_)))))))
    exact .cons hl (ih.seq (.one hr))
  | whileLoop hw hl _ hr _ ihc ihs =>
    refine matches_statement.2 (.inr (.inr (.inr (.inr (.inr (.inl (matches_rule.2 ?_)))))))
    exact .cons hw (.cons hl ((matches_expression ihc).seq (.cons hr ihs)))
  | ifThen hf hl _ hr _ ihc ihs =>
    refine matches_statement.2 (.inr (.inr (.inl (matches_rule.2 ?_))))
    refine .cons hf (.cons hl ((matches_expression ihc).seq (.cons hr ?_)))
    exact matches_seq.2 ⟨_, [], by simp, ihs, matches_maybe.2 (.inl rfl)⟩
  | ifElse hf hl _ hr _ hx _ ihc ihs ihs' =>
    refine matches_statement.2 (.inr (.inr (.inl (matches_rule.2 ?_))))
    refine .cons hf (.cons hl ((matches_expression ihc).seq (.cons hr ?_)))
    exact ihs.seq (matches_maybe.2 (.inr (.cons hx ihs')))
  | forLoop hf hl _ _ hd _ hr _ iho ihc ihx ihs =>
    refine matches_statement.2 (.inr (.inl (matches_rule.2 ?_)))
    exact .cons hf (.cons hl (iho.seq (ihc.seq (.cons hd (ihx.seq (.cons hr ihs))))))
  | «variable» _ ih => exact matches_declaration.2 (.inr (.inl ih))
  | statement _ ih => exact matches_declaration.2 (.inr (.inr ih))
  | function hf hn hl _ hr hlb _ hrb ihp ihs =>
    refine matches_declaration.2 (.inl (matches_rule.2 ?_))
    have hblock : Matches Nonterminal.block _ := matches_rule.2 (.cons hlb (ihs.seq (.one hrb)))
    exact .cons hf (.cons hn (.cons hl ((matches_params ihp).seq (.cons hr hblock))))
  | bodyNil => exact matches_many_nil
  | bodyCons _ _ ih ihs => exact matches_many.2 (.inr ⟨_, _, rfl, ih, ihs⟩)

/-! ## What can be derived is spelled -/

/-- From every number on, the tokens spell an expression of level `m` or higher. -/
def SpellsExpr (m : Nat) (ts : List Token) : Prop :=
  ∀ i, ∃ e j, Spells (.expr e) i ts j ∧ m ≤ e.level

def SpellsStmt (ts : List Token) : Prop := ∀ i, ∃ b s j, Spells (.stmt b s) i ts j

def SpellsDecl (ts : List Token) : Prop := ∀ i, ∃ s j, Spells (.decl s) i ts j

def SpellsBody (ts : List Token) : Prop := ∀ i, ∃ ss j, Spells (.body ss) i ts j

/-- What the tokens of a nonterminal spell. -/
def Nonterminal.Spelled : Nonterminal → List Token → Prop
  | .program, ts => ∃ us t, ts = us ++ [t] ∧ SpellsBody us
  | .declaration, ts | .funDecl, ts => SpellsDecl ts
  | .parameters, ts => ∃ p ps, ∀ i, Spells (.params (p :: ps)) i ts i
  | .varDecl, ts => ∀ i, ∃ s j, Spells (.varDecl s) i ts j
  | .exprStmt, ts => ∀ i, ∃ s j, Spells (.exprStmt s) i ts j
  | .statement, ts | .forStmt, ts | .ifStmt, ts | .printStmt, ts | .returnStmt, ts
  | .whileStmt, ts => SpellsStmt ts
  | .block, ts => ∃ l us r, ts = l :: (us ++ [r]) ∧ l.kind = .leftBrace ∧ r.kind = .rightBrace ∧
      SpellsBody us
  | .expression, ts | .assignment, ts => SpellsExpr Level.assignment ts
  | .logicOr, ts => SpellsExpr Level.disjunction ts
  | .logicAnd, ts => SpellsExpr Level.conjunction ts
  | .equality, ts => SpellsExpr Level.equality ts
  | .comparison, ts => SpellsExpr Level.comparison ts
  | .term, ts => SpellsExpr Level.term ts
  | .factor, ts => SpellsExpr Level.factor ts
  | .unary, ts => SpellsExpr Level.unary ts
  | .call, ts => SpellsExpr Level.call ts
  | .arguments, ts => ∀ i, ∃ e es j, Spells (.args (e :: es)) i ts j
  | .primary, ts => SpellsExpr Level.primary ts

/-- Tokens that the rule allows, if its nonterminals are spelled. -/
abbrev Rule.Spelled : Rule → List Token → Prop := Rule.Holds Token.CarriesLiteral Nonterminal.Spelled

theorem spelled_ofLevel {m : Nat} (hm : m ≤ Level.primary) {ts : List Token} :
    (ofLevel m).Spelled ts ↔ SpellsExpr m ts := by
  match m with
  | 0 | 1 | 2 | 3 | 4 | 5 | 6 | 7 | 8 | 9 => rfl

theorem spelled_operators {m : Nat} (hpos : 0 < m) (hle : m ≤ Level.factor) {ts : List Token}
    (h : (operators m).Spelled ts) : ∃ t, ts = [t] ∧ Level.ofOperator t.kind = m := by
  unfold operators at h
  split at h
  case h_1 | h_2 =>
    obtain ⟨t, rfl, hk, -⟩ := h
    exact ⟨t, rfl, by rw [hk]; rfl⟩
  case h_3 | h_5 =>
    rcases h with ⟨t, rfl, hk, -⟩ | ⟨t, rfl, hk, -⟩ <;> exact ⟨t, rfl, by rw [hk]; rfl⟩
  case h_4 =>
    rcases h with ((⟨t, rfl, hk, -⟩ | ⟨t, rfl, hk, -⟩) | ⟨t, rfl, hk, -⟩) | ⟨t, rfl, hk, -⟩ <;>
      exact ⟨t, rfl, by rw [hk]; rfl⟩
  case h_6 =>
    obtain rfl : m = 6 := by grind
    rcases h with ⟨t, rfl, hk, -⟩ | ⟨t, rfl, hk, -⟩ <;> exact ⟨t, rfl, by rw [hk]; rfl⟩

theorem SpellsExpr.mono {m n : Nat} {ts : List Token} (h : SpellsExpr n ts) (hmn : m ≤ n) :
    SpellsExpr m ts := by
  intro i
  obtain ⟨e, j, he, hl⟩ := h i
  exact ⟨e, j, he, Nat.le_trans hmn hl⟩

/-- What each part keeps up, a repetition keeps up. -/
theorem SpellsExpr.append_flatten {m : Nat} {first : List Token} {parts : List (List Token)}
    (hstep : ∀ p ∈ parts, ∀ ts, SpellsExpr m ts → SpellsExpr m (ts ++ p))
    (h : SpellsExpr m first) : SpellsExpr m (first ++ parts.flatten) := by
  induction parts generalizing first with
  | nil => rwa [List.flatten_nil, List.append_nil]
  | cons p parts ih =>
    rw [List.forall_mem_cons] at hstep
    rw [List.flatten_cons, ← List.append_assoc]
    exact ih hstep.2 (hstep.1 first h)

theorem SpellsExpr.binary {m : Nat} {us vs : List Token} {op : Token} (hpos : 0 < m)
    (hm : Level.ofOperator op.kind = m) (hl : SpellsExpr m us) (hr : SpellsExpr (m + 1) vs) :
    SpellsExpr m (us ++ op :: vs) := by
  intro i
  subst hm
  obtain ⟨l, j, hl, hll⟩ := hl i
  obtain ⟨r, k, hr, hlr⟩ := hr j
  rcases Nat.lt_or_ge (Level.ofOperator op.kind) Level.equality with hlt | hge
  · exact ⟨_, _, .logical hpos hlt hll hlr hl hr, Nat.le_refl _⟩
  · exact ⟨_, _, .binary hge hll hlr hl hr, Nat.le_refl _⟩

theorem spelled_level {m : Nat} (hpos : 0 < m) (hle : m ≤ Level.factor) {ts : List Token}
    (h : (ofLevel m).rule.Spelled ts) : SpellsExpr m ts := by
  have hm : m + 1 ≤ Level.primary := Nat.le_trans (Nat.succ_le_succ hle) (by decide)
  rw [rule_ofLevel hpos hle] at h
  obtain ⟨first, _, rfl, hfirst, parts, rfl, hparts⟩ := h
  refine SpellsExpr.append_flatten (fun p hp us hus => ?_)
    (((spelled_ofLevel hm).1 hfirst).mono (Nat.le_succ m))
  obtain ⟨_, vs, rfl, hop, hvs⟩ := hparts p hp
  obtain ⟨op, rfl, hk⟩ := spelled_operators hpos hle hop
  exact hus.binary hpos hk ((spelled_ofLevel hm).1 hvs)

section
variable {ts : List Token}

theorem spelled_primary (h : Nonterminal.primary.rule.Spelled ts) : SpellsExpr Level.primary ts := by
  have constant {t : Token} {v : Literal} (hv : t.constant? = some v) :
      SpellsExpr Level.primary [t] := fun i => ⟨_, _, .literal hv, Nat.le_refl _⟩
  have carried {t : Token} (hk : t.kind = .number ∨ t.kind = .string) (ht : t.CarriesLiteral) :
      SpellsExpr Level.primary [t] := by
    obtain ⟨v, hv⟩ := Option.isSome_iff_exists.1 (ht hk)
    refine constant (v := v) ?_
    rcases hk with hk | hk <;> simp [Token.constant?, hk, hv]
  rcases h with (((((⟨t, rfl, hk, ht⟩ | ⟨t, rfl, hk, ht⟩) | ⟨t, rfl, hk, -⟩) | ⟨t, rfl, hk, -⟩) |
    ⟨t, rfl, hk, -⟩) | h) | ⟨t, rfl, hk, -⟩
  · exact carried (.inl hk) ht
  · exact carried (.inr hk) ht
  · exact constant (v := .boolean true) (by simp [Token.constant?, hk])
  · exact constant (v := .boolean false) (by simp [Token.constant?, hk])
  · exact constant (v := .nil) (by simp [Token.constant?, hk])
  · obtain ⟨_, _, rfl, ⟨l, rfl, hl, -⟩, us, _, rfl, hus, r, rfl, hr, -⟩ := h
    intro i
    obtain ⟨e, j, he, -⟩ := hus i
    exact ⟨_, _, .grouping hl he hr, Nat.le_refl _⟩
  · exact fun i => ⟨_, _, .var hk, Nat.le_refl _⟩

theorem spelled_arguments (h : Nonterminal.arguments.rule.Spelled ts) :
    ∀ i, ∃ e es j, Spells (.args (e :: es)) i ts j := by
  obtain ⟨first, _, rfl, hfirst, parts, rfl, hparts⟩ := h
  induction parts generalizing first with
  | nil =>
    intro i
    obtain ⟨e, j, he, -⟩ := hfirst i
    rw [List.flatten_nil, List.append_nil]
    exact ⟨e, [], j, .argsOne he⟩
  | cons p parts ih =>
    rw [List.forall_mem_cons] at hparts
    obtain ⟨⟨_, us, rfl, ⟨c, rfl, hc, -⟩, hus⟩, hparts⟩ := hparts
    intro i
    obtain ⟨e, j, he, -⟩ := hfirst i
    obtain ⟨e', es, k, hes⟩ := ih us hus hparts j
    refine ⟨e, e' :: es, k, ?_⟩
    rw [List.flatten_cons, List.append_assoc]
    exact .argsCons he hc hes

theorem spelled_parameters (h : Nonterminal.parameters.rule.Spelled ts) :
    ∃ p ps, ∀ i, Spells (.params (p :: ps)) i ts i := by
  obtain ⟨_, _, rfl, ⟨p, rfl, hp, -⟩, parts, rfl, hparts⟩ := h
  induction parts generalizing p with
  | nil => exact ⟨p, [], fun i => .paramsOne hp⟩
  | cons q parts ih =>
    rw [List.forall_mem_cons] at hparts
    obtain ⟨⟨_, _, rfl, ⟨c, rfl, hc, -⟩, p', rfl, hp', -⟩, hparts⟩ := hparts
    obtain ⟨_, ps, hps⟩ := ih p' hp' hparts
    exact ⟨p, _, fun i => .paramsCons hp hc (hps i)⟩

theorem spelled_call (h : Nonterminal.call.rule.Spelled ts) : SpellsExpr Level.call ts := by
  obtain ⟨first, _, rfl, hfirst, parts, rfl, hparts⟩ := h
  have hfirst : SpellsExpr Level.primary first := hfirst
  refine SpellsExpr.append_flatten (fun p hp us hus => ?_) (hfirst.mono (by decide))
  obtain ⟨_, _, rfl, ⟨l, rfl, hl, -⟩, vs, _, rfl, hvs, r, rfl, hr, -⟩ := hparts p hp
  intro i
  obtain ⟨callee, j, hcallee, hlc⟩ := hus i
  obtain ⟨es, k, hes⟩ : ∃ es k, Spells (.args es) j vs k := by
    rcases hvs with rfl | hvs
    · exact ⟨[], j, .argsNil⟩
    · obtain ⟨e, es, k, hes⟩ := hvs j
      exact ⟨e :: es, k, hes⟩
  exact ⟨_, _, .call hlc hcallee hl hes hr, Nat.le_refl _⟩

theorem spelled_unary (h : Nonterminal.unary.rule.Spelled ts) : SpellsExpr Level.unary ts := by
  rcases h with ⟨_, us, rfl, hop, hus⟩ | h
  · have hus : SpellsExpr Level.unary us := hus
    intro i
    obtain ⟨e, j, he, hl⟩ := hus i
    rcases hop with ⟨op, rfl, hk, -⟩ | ⟨op, rfl, hk, -⟩ <;>
      exact ⟨_, _, .unary (by rw [hk]; rfl) hl he, Nat.le_refl _⟩
  · exact SpellsExpr.mono h (by decide)

theorem spelled_assignment (h : Nonterminal.assignment.rule.Spelled ts) :
    SpellsExpr Level.assignment ts := by
  rcases h with ⟨_, _, rfl, ⟨name, rfl, hn, -⟩, _, us, rfl, ⟨sign, rfl, hs, -⟩, hus⟩ | h
  · intro i
    obtain ⟨e, j, he, -⟩ := hus (i + 1)
    exact ⟨_, _, .assign hn hs he, Nat.le_refl _⟩
  · exact SpellsExpr.mono h (by decide)

theorem spells_maybe (h : (Rule.maybe Nonterminal.expression).Spelled ts) (i : NodeId) :
    ∃ o j, Spells (.maybe o) i ts j := by
  rcases h with rfl | h
  · exact ⟨none, i, .absent⟩
  · obtain ⟨e, j, he, -⟩ := h i
    exact ⟨some e, j, .present he⟩

theorem spelled_varDecl (h : Nonterminal.varDecl.rule.Spelled ts) (i : NodeId) :
    ∃ s j, Spells (.varDecl s) i ts j := by
  obtain ⟨_, _, rfl, ⟨v, rfl, hv, -⟩, _, _, rfl, ⟨name, rfl, hn, -⟩, _, _, rfl, hinit, c, rfl, hc,
    -⟩ := h
  rcases hinit with rfl | ⟨_, us, rfl, ⟨sign, rfl, hs, -⟩, hus⟩
  · exact ⟨_, _, .varBare hv hn hc⟩
  · obtain ⟨e, j, he, -⟩ := hus i
    exact ⟨_, _, .varInit hv hn hs he hc⟩

theorem spells_start
    (h : ((Nonterminal.varDecl : Rule) ||| Nonterminal.exprStmt ||| Kind.semicolon).Spelled ts)
    (i : NodeId) : ∃ o j, Spells (.start o) i ts j := by
  rcases h with (h | h) | ⟨c, rfl, hc, -⟩
  · obtain ⟨s, j, hs⟩ := h i
    exact ⟨some s, j, .startVar hs⟩
  · obtain ⟨s, j, hs⟩ := h i
    exact ⟨some s, j, .startExpr hs⟩
  · exact ⟨none, i, .startNone hc⟩

theorem spelled_forStmt (h : Nonterminal.forStmt.rule.Spelled ts) : SpellsStmt ts := by
  obtain ⟨_, _, rfl, ⟨f, rfl, hf, -⟩, _, _, rfl, ⟨l, rfl, hl, -⟩, us, _, rfl, hus, cs, _, rfl, hcs,
    _, _, rfl, ⟨d, rfl, hd, -⟩, xs, _, rfl, hxs, _, bs, rfl, ⟨r, rfl, hr, -⟩, hbs⟩ := h
  intro i
  obtain ⟨o, j, ho⟩ := spells_start hus i
  obtain ⟨c, k, hc⟩ := spells_maybe hcs j
  obtain ⟨x, m, hx⟩ := spells_maybe hxs k
  obtain ⟨b, s, n, hs⟩ := hbs m
  exact ⟨b, _, _, .forLoop hf hl ho hc hd hx hr hs⟩

theorem spelled_ifStmt (h : Nonterminal.ifStmt.rule.Spelled ts) : SpellsStmt ts := by
  obtain ⟨_, _, rfl, ⟨f, rfl, hf, -⟩, _, _, rfl, ⟨l, rfl, hl, -⟩, cs, _, rfl, hcs, _, _, rfl,
    ⟨r, rfl, hr, -⟩, us, _, rfl, hus, helse⟩ := h
  intro i
  obtain ⟨c, j, hc, -⟩ := hcs i
  obtain ⟨b, s, k, hs⟩ := hus j
  rcases helse with rfl | ⟨_, vs, rfl, ⟨x, rfl, hx, -⟩, hvs⟩
  · rw [List.append_nil]
    exact ⟨true, _, _, .ifThen hf hl hc hr hs⟩
  · cases b with
    | false =>
      obtain ⟨b, s', m, hs'⟩ := hvs k
      exact ⟨b, _, _, .ifElse hf hl hc hr hs hx hs'⟩
    | true =>
      -- the derivation gives the `else` to this `if`, but a nearer one is open
      obtain ⟨b, s', m, hs'⟩ := spells_attach_else hs hx hvs
      exact ⟨true, _, _, .ifThen hf hl hc hr hs'⟩

theorem spelled_printStmt (h : Nonterminal.printStmt.rule.Spelled ts) : SpellsStmt ts := by
  obtain ⟨_, _, rfl, ⟨p, rfl, hp, -⟩, us, _, rfl, hus, c, rfl, hc, -⟩ := h
  intro i
  obtain ⟨e, j, he, -⟩ := hus i
  exact ⟨false, _, _, .print hp he hc⟩

theorem spelled_returnStmt (h : Nonterminal.returnStmt.rule.Spelled ts) : SpellsStmt ts := by
  obtain ⟨_, _, rfl, ⟨t, rfl, ht, -⟩, us, _, rfl, hus, c, rfl, hc, -⟩ := h
  intro i
  obtain ⟨o, j, ho⟩ := spells_maybe hus i
  exact ⟨false, _, _, .ret ht ho hc⟩

theorem spelled_whileStmt (h : Nonterminal.whileStmt.rule.Spelled ts) : SpellsStmt ts := by
  obtain ⟨_, _, rfl, ⟨w, rfl, hw, -⟩, _, _, rfl, ⟨l, rfl, hl, -⟩, cs, _, rfl, hcs, _, us, rfl,
    ⟨r, rfl, hr, -⟩, hus⟩ := h
  intro i
  obtain ⟨c, j, hc, -⟩ := hcs i
  obtain ⟨b, s, k, hs⟩ := hus j
  exact ⟨b, _, _, .whileLoop hw hl hc hr hs⟩

theorem spelled_statement (h : Nonterminal.statement.rule.Spelled ts) : SpellsStmt ts := by
  rcases h with (((((h | h) | h) | h) | h) | h) | h
  · intro i
    obtain ⟨s, j, hs⟩ := h i
    exact ⟨false, s, j, .expression hs⟩
  · exact h
  · exact h
  · exact h
  · exact h
  · exact h
  · obtain ⟨l, us, r, rfl, hl, hr, hus⟩ := h
    intro i
    obtain ⟨ss, j, hss⟩ := hus i
    exact ⟨false, _, _, .block hl hss hr⟩

theorem spelled_body (h : (Rule.many Nonterminal.declaration).Spelled ts) : SpellsBody ts := by
  obtain ⟨parts, rfl, hparts⟩ := h
  induction parts with
  | nil => exact fun i => ⟨[], i, .bodyNil⟩
  | cons p parts ih =>
    rw [List.forall_mem_cons] at hparts
    intro i
    obtain ⟨s, j, hs⟩ := hparts.1 i
    obtain ⟨ss, k, hss⟩ := ih hparts.2 j
    exact ⟨s :: ss, k, .bodyCons hs hss⟩

theorem spelled_funDecl (h : Nonterminal.funDecl.rule.Spelled ts) : SpellsDecl ts := by
  obtain ⟨_, _, rfl, ⟨f, rfl, hf, -⟩, _, _, rfl, ⟨name, rfl, hn, -⟩, _, _, rfl, ⟨l, rfl, hl, -⟩, us,
    _, rfl, hus, _, _, rfl, ⟨r, rfl, hr, -⟩, lb, vs, rb, rfl, hlb, hrb, hvs⟩ := h
  intro i
  obtain ⟨ps, hps⟩ : ∃ ps, Spells (.params ps) i us i := by
    rcases hus with rfl | ⟨p, ps, hps⟩
    · exact ⟨[], .paramsNil⟩
    · exact ⟨p :: ps, hps i⟩
  obtain ⟨ss, j, hss⟩ := hvs i
  exact ⟨_, _, .function hf hn hl hps hr hlb hss hrb⟩

theorem spelled_declaration (h : Nonterminal.declaration.rule.Spelled ts) : SpellsDecl ts := by
  rcases h with (h | h) | h
  · exact h
  · intro i
    obtain ⟨s, j, hs⟩ := h i
    exact ⟨s, j, .variable hs⟩
  · intro i
    obtain ⟨b, s, j, hs⟩ := h i
    exact ⟨s, j, .statement hs⟩

end

theorem spelled_of_rule (n : Nonterminal) (ts : List Token) (h : n.rule.Spelled ts) :
    n.Spelled ts := by
  cases n with
  | program =>
    obtain ⟨us, _, rfl, hus, t, rfl, -⟩ := h
    exact ⟨us, t, rfl, spelled_body hus⟩
  | declaration => exact spelled_declaration h
  | funDecl => exact spelled_funDecl h
  | parameters => exact spelled_parameters h
  | varDecl => exact spelled_varDecl h
  | statement => exact spelled_statement h
  | exprStmt =>
    obtain ⟨us, _, rfl, hus, c, rfl, hc, -⟩ := h
    intro i
    obtain ⟨e, j, he, -⟩ := hus i
    exact ⟨_, _, .exprStmt he hc⟩
  | forStmt => exact spelled_forStmt h
  | ifStmt => exact spelled_ifStmt h
  | printStmt => exact spelled_printStmt h
  | returnStmt => exact spelled_returnStmt h
  | whileStmt => exact spelled_whileStmt h
  | block =>
    obtain ⟨_, _, rfl, ⟨l, rfl, hl, -⟩, us, _, rfl, hus, r, rfl, hr, -⟩ := h
    exact ⟨l, us, r, rfl, hl, hr, spelled_body hus⟩
  | expression => exact h
  | assignment => exact spelled_assignment h
  | logicOr | logicAnd | equality | comparison | term | factor =>
    exact spelled_level (by decide) (by decide) h
  | unary => exact spelled_unary h
  | call => exact spelled_call h
  | arguments => exact spelled_arguments h
  | primary => exact spelled_primary h

/-! ## Acceptance -/

/-- A program is read from tokens if and only if the kinds of those in front of the end, and the end,
can be derived from the grammar. -/
theorem ofTokens_ok_iff_derives (tokens : List Token) (firstId : NodeId)
    (hcarry : ∀ t ∈ tokens, t.CarriesLiteral) :
    (∃ p, (Program.ofTokens tokens firstId).program = .ok p) ↔
      Derives Nonterminal.program ((tokens.takeWhile (·.kind != .eof)).map (·.kind) ++ [.eof]) := by
  let front := tokens.takeWhile (·.kind != .eof)
  let last : Token := ⟨.eof, "", none, 1⟩
  have hfront : ∀ t ∈ front, t.CarriesLiteral :=
    fun t ht => hcarry t ((List.takeWhile_sublist _).subset ht)
  have hprogram : Derives Nonterminal.program (front.map (·.kind) ++ [.eof]) ↔
      Matches Nonterminal.program (front ++ [last]) := by
    rw [Matches, List.map_append]
    rfl
  refine Iff.trans ?_ hprogram.symm
  simp only [ofTokens_eq_ok_iff]
  constructor
  · intro h
    obtain ⟨p, j, h⟩ := h
    exact matches_rule.2 ((matches_of_spells h).seq (.one rfl))
  · intro h
    have hall : ∀ t ∈ front ++ [last], t.CarriesLiteral := by
      rw [List.forall_mem_append]
      exact ⟨hfront, by simp [last, Token.CarriesLiteral]⟩
    obtain ⟨us, t, hus, hbody⟩ : Nonterminal.program.Spelled (front ++ [last]) :=
      h.holds spelled_of_rule hall
    obtain ⟨rfl, -⟩ := List.append_inj' hus rfl
    obtain ⟨p, j, hp⟩ := hbody firstId
    exact ⟨p, j, hp⟩

/-- `if (x) if (x) "s"; else x = 1;` is read, so it can be derived. -/
theorem derives_dangling_else :
    Derives Nonterminal.program [.kwIf, .leftParen, .identifier, .rightParen, .kwIf, .leftParen,
      .identifier, .rightParen, .string, .semicolon, .kwElse, .identifier, .equal, .number,
      .semicolon, .eof] := by
  let tokens : List Token := [.kwIf, .leftParen, .identifier, .rightParen, .kwIf, .leftParen,
    .identifier, .rightParen, .string, .semicolon, .kwElse, .identifier, .equal, .number,
    .semicolon].map fun k => ⟨k, "x", some (.string "s"), 1⟩
  have hcarry : ∀ t ∈ tokens, t.CarriesLiteral := by simp [tokens, Token.CarriesLiteral]
  exact (ofTokens_ok_iff_derives tokens 0 hcarry).1 ⟨_, rfl⟩

end Lox.Grammar
