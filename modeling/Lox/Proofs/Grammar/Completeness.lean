import Lox.Proofs.Grammar.Soundness

/-!
# What is spelled is read

The converse of `Soundness`: tokens that spell a tree are read as that tree, whatever comes behind
them, as long as it does not go on with the tree. `Reads x i ts rest a j` says that `x` takes exactly
`ts` in front of `rest`, numbers nodes from `i` to `j`, gives `a` and complains about nothing.

**What goes on.** A reader of level `m` goes on at an opening parenthesis and at operators of level
`m` or higher (`continues`). `Stops m rest` says that `rest` starts with neither.

**Bounds.** A bound is large enough if it exceeds the number of tokens spelled (twice that number for
statements), because each level of nesting and each round of a loop comes with a token.

**Loops.** A reader with a loop is described while the loop is under way: on the tokens of a tree it
leads to the loop with that tree in hand (`Leads`). The induction goes down the left side of the
tree, where the loop's earlier rounds are.

**Results.**
* `reads_expression`, `reads_statement_declaration`.
* `read_of_spells`: tokens that spell a body are read as that body, without complaint.
* `ofTokens_eq_ok_iff`: with `Soundness`, a program is read if and only if it is spelled.
-/
namespace Lox.Grammar

open Token (Kind)

variable {α β : Type}

/-- On the tokens `ts` in front of `rest`, the reader `x` amounts to the reader `y` behind them. -/
def Leads (x : Reader α) (i : NodeId) (ts rest : List Token) (y : Reader α) (j : NodeId) : Prop :=
  ∀ p bs, x.run ⟨ts ++ rest, p, i, bs⟩ = y.run ⟨rest, p + ts.length, j, bs⟩

/-- The reader takes `ts`, with nodes numbered from `i` to `j`, and gives `a`. -/
abbrev Reads (x : Reader α) (i : NodeId) (ts rest : List Token) (a : α) (j : NodeId) : Prop :=
  Leads x i ts rest (pure a) j

/-! ## Composing readings -/

section
variable {x : Reader α} {f : α → Reader β} {z : Reader β} {i j k : NodeId} {ts us rest : List Token}
  {a : α}

theorem Leads.refl (x : Reader α) (i : NodeId) (rest : List Token) : Leads x i [] rest x i :=
  fun _ _ => rfl

theorem Leads.trans {y z : Reader α} (hx : Leads x i ts (us ++ rest) y j)
    (hy : Leads y j us rest z k) : Leads x i (ts ++ us) rest z k := by
  intro p bs
  rw [List.append_assoc, hx, hy, List.length_append, Nat.add_assoc]

theorem Reads.bind (hx : Reads x i ts (us ++ rest) a j) (hf : Leads (f a) j us rest z k) :
    Leads (x >>= f) i (ts ++ us) rest z k := by
  intro p bs
  rw [Deep.run_bind, List.append_assoc, hx, List.length_append, ← Nat.add_assoc]
  exact hf _ _

theorem Reads.leads (hx : Reads x i ts rest a j) : Leads (x >>= f) i ts rest (f a) j := by
  intro p bs
  rw [Deep.run_bind, hx]
  rfl

/-- `Leads.trans` for a reader that takes all the tokens. -/
theorem Leads.last {y z : Reader α} (hx : Leads x i ts rest y j) (hy : Leads y j [] rest z k) :
    Leads x i ts rest z k :=
  fun p bs => (hx p bs).trans (hy _ bs)

/-- `Reads.bind` for a reader that takes all the tokens. -/
theorem Reads.last (hx : Reads x i ts rest a j) (hf : Leads (f a) j [] rest z k) :
    Leads (x >>= f) i ts rest z k :=
  Leads.last hx.leads hf

/-- `Reads.bind` for a reader that takes one token. -/
theorem Reads.cons {t : Token} (hx : Reads x i [t] (us ++ rest) a j)
    (hf : Leads (f a) j us rest z k) : Leads (x >>= f) i (t :: us) rest z k :=
  hx.bind hf

/-- `Reads.bind` for a reader that takes nothing. -/
theorem Reads.still (hx : Reads x i [] (us ++ rest) a j) (hf : Leads (f a) j us rest z k) :
    Leads (x >>= f) i us rest z k :=
  hx.bind hf

theorem Reads.later {x : Unit → Reader α} (h : Reads (x ()) i ts rest a j) :
    Reads (.later x) i ts rest a j := by
  intro p bs
  rw [Deep.run_later, h]

theorem Reads.map {g : α → β} (h : Reads x i ts rest a j) : Reads (g <$> x) i ts rest (g a) j := by
  intro p bs
  rw [map_eq_pure_bind, Deep.run_bind, h]
  rfl

end

section
variable {i : NodeId} {rest : List Token}

theorem reads_pause : Reads (Deep.pause : Reader Unit) i [] rest () i := fun _ _ => rfl

theorem reads_node {build : NodeId → α} : Reads (node build) i [] rest (build i) (i + 1) := by
  intro p bs
  rw [node, Deep.run_of]
  rfl

theorem reads_next? : Reads next? i [] rest rest.head? i := by
  intro p bs
  rw [next?, Deep.run_of]
  rfl

theorem reads_nextKind : Reads nextKind i [] rest (headKind rest) i := by
  intro p bs
  rw [nextKind, Deep.run_of]
  cases rest <;> rfl

theorem reads_expect {k : Kind} {what : SyntaxError.Expected} {t : Token} (h : t.kind = k) :
    Reads (expect k what) i [t] rest t i := by
  intro p bs
  rw [expect, Deep.run_of]
  exact if_pos h

theorem reads_accept {wanted : Kind → Bool} {t : Token} (h : wanted t.kind = true) :
    Reads (accept wanted) i [t] rest (some t) i := by
  intro p bs
  rw [accept, Deep.run_of]
  exact if_pos h

theorem reads_accept_none {wanted : Kind → Bool} (h : ¬ Starts wanted rest) :
    Reads (accept wanted) i [] rest none i := by
  intro p bs
  rw [accept, Deep.run_of]
  cases rest with
  | nil => rfl
  | cons t rest => exact if_neg fun ht => h ⟨t, rest, rfl, ht⟩

theorem leads_blameTaken {t : Token} {cause : SyntaxError.Cause} {f : Blame → Reader α}
    {z : Reader α} {ts : List Token} {j : NodeId} (h : ∀ b, Leads (f b) i ts rest z j) :
    Leads (blameTaken t cause >>= f) i ts rest z j := by
  intro p bs
  rw [Deep.run_bind, blameTaken, Deep.run_of]
  exact h _ _ _

end

/-! ## Where an expression ends -/

/-- A reader of level `m` goes on at a token of this kind. -/
def continues (m : Nat) (k : Kind) : Bool :=
  k == .leftParen || decide (0 < Level.ofOperator k ∧ m ≤ Level.ofOperator k) ||
    (m == 0 && k == .equal)

/-- The tokens do not start with one at which a reader of level `m` goes on. -/
def Stops (m : Nat) (rest : List Token) : Prop := ¬ Starts (continues m) rest

theorem Stops.mono {m n : Nat} {rest : List Token} (h : Stops m rest) (hmn : m ≤ n) :
    Stops n rest := by
  intro h
  obtain ⟨t, us, rfl, ht⟩ := h
  refine h ⟨t, us, rfl, ?_⟩
  unfold continues at ht ⊢
  simp only [Bool.or_eq_true, Bool.and_eq_true, decide_eq_true_eq, beq_iff_eq] at ht ⊢
  rcases ht with (ht | ⟨hp, hn⟩) | ⟨rfl, ht⟩
  · exact .inl (.inl ht)
  · exact .inl (.inr ⟨hp, Nat.le_trans hmn hn⟩)
  · exact .inr ⟨Nat.le_zero.1 hmn, ht⟩

/-- An operator of one level does not go on with the next. -/
theorem continues_operator {m : Nat} {k : Kind} (hpos : 0 < m) (hk : Level.ofOperator k = m) :
    continues (m + 1) k = false := by
  have hparen : k ≠ .leftParen := by
    intro h
    rw [h] at hk
    exact absurd hpos (hk ▸ Nat.lt_irrefl 0)
  have hnext : ¬ m + 1 ≤ m := Nat.not_succ_le_self m
  simp [continues, hparen, hk, hnext]

theorem stops_cons {m : Nat} {t : Token} {us : List Token} (h : continues m t.kind = false) :
    Stops m (t :: us) :=
  not_starts_cons h

theorem Stops.not_starts {m : Nat} {rest : List Token} (h : Stops m rest) {wanted : Kind → Bool}
    (hw : ∀ k, wanted k = true → continues m k = true) : ¬ Starts wanted rest :=
  fun hs => h (hs.imp hw)

theorem Starts.not_append {p q : Kind → Bool} {ts : List Token} (h : Starts p ts)
    (hpq : ∀ k, p k = true → q k = false) (rest : List Token) : ¬ Starts q (ts ++ rest) := by
  obtain ⟨t, us, rfl, ht⟩ := h
  exact not_starts_cons (hpq _ ht)

/-! ## Expressions -/

theorem spells_length_pos {e : Expr} {i j : NodeId} {ts : List Token} (h : Spells (.expr e) i ts j) :
    0 < ts.length :=
  (spells_first h : Starts startsExpression ts).length_pos

/-- From calls on, an expression does not start with an operator. -/
theorem starts_primary_of_spells {e : Expr} {i j : NodeId} {ts : List Token}
    (h : Spells (.expr e) i ts j) (hl : Level.call ≤ e.level) : Starts startsPrimary ts := by
  generalize hf : Form.expr e = f at h
  induction h generalizing e with
  | @literal _ _ t h =>
    refine ⟨t, _, rfl, ?_⟩
    unfold Token.constant? at h
    split at h <;> simp_all [startsPrimary]
  | var h => exact ⟨_, _, rfl, by rw [h]; rfl⟩
  | grouping h => exact ⟨_, _, rfl, by rw [h]; rfl⟩
  | call hcallee _ _ _ _ ih => exact (ih hcallee rfl).append _
  | unary | assign => cases hf; exact absurd hl (by rw [Expr.level]; decide)
  | binary | logical =>
    cases hf
    exact absurd (Nat.le_trans hl (Level.ofOperator_le_factor _)) (by decide)
  | _ => cases hf

theorem separated_length {P : α → NodeId → List Token → NodeId → Prop} {as : List α} {i j : NodeId}
    {ts : List Token} (hs : Separated P as i ts j) (hp : ∀ {a i ts j}, P a i ts j → 0 < ts.length) :
    as.length ≤ ts.length := by
  induction hs with
  | one h => exact hp h
  | cons h _ _ ih =>
    have := hp h
    simp only [List.length_append, List.length_cons] at ih ⊢
    omega

/-- What ends an item of a list in parentheses. -/
def endsItem (k : Kind) : Bool := k == .comma || k == .rightParen

section
variable {item : Reader α} {P : α → NodeId → List Token → NodeId → Prop} {n : Nat} {as : List α}
  {i j : NodeId} {ts rest : List Token} {r : Token} (hr : r.kind = .rightParen)
  (hi : ∀ {a i ts j us}, P a i ts j → ts.length ≤ n → Starts endsItem us → Reads item i ts us a j)
include hr hi

theorem reads_commaSeparated (hs : Separated P as i ts j) (hn : ts.length ≤ n) :
    ∀ bound (done : Array α), as.length ≤ bound →
      Reads (commaSeparated item bound done) i ts (r :: rest) (done.toList ++ as) j := by
  induction hs with
  | @one a i ts j h =>
    rintro (_ | bound) done hb
    · exact absurd hb (by simp)
    · rw [commaSeparated]
      refine (hi h hn ⟨r, rest, rfl, by rw [hr]; rfl⟩).last ?_
      refine (reads_accept_none ?_).still (by simpa using Leads.refl _ _ _)
      intro h
      obtain ⟨t, us, hcons, ht⟩ := h
      cases hcons
      rw [hr] at ht
      cases ht
  | @cons a b as i ts j c us k h hc hs ih =>
    rintro (_ | bound) done hb
    · exact absurd hb (by simp)
    · rw [commaSeparated]
      simp only [List.length_append, List.length_cons] at hn hb
      refine (hi h (by omega) ⟨c, us ++ r :: rest, rfl, by rw [hc]; rfl⟩).bind ?_
      refine (reads_accept (by simp [hc])).cons ?_
      refine reads_pause.still ?_
      simpa using ih (by omega) bound (done.push a) (by simpa using hb)

theorem reads_parenthesized (hp : ∀ {a i ts j}, P a i ts j → Starts (· != .rightParen) ts)
    (hs : as = [] ∧ ts = [] ∧ j = i ∨ Separated P as i ts j) (hn : ts.length ≤ n) (bound : Nat)
    (hb : ts.length ≤ bound) : Reads (parenthesized item bound) i ts (r :: rest) as j := by
  rw [parenthesized]
  rcases hs with ⟨rfl, rfl, rfl⟩ | hs
  · refine reads_nextKind.still ?_
    simp only [List.nil_append, headKind, hr]
    exact Leads.refl _ _ _
  · have hfirst : Starts (· != .rightParen) ts := by
      cases hs with
      | one h => exact hp h
      | cons h => exact (hp h).append _
    refine reads_nextKind.still ?_
    split
    · rename_i hk
      obtain ⟨t, us, rfl, ht⟩ := hfirst
      exact absurd hk (bne_iff_ne.1 ht)
    · have hlen := separated_length hs fun h => (hp h).length_pos
      simpa using reads_commaSeparated hr hi hs hn bound #[] (Nat.le_trans hlen hb)

end

theorem separated_of_args {es : List Expr} {i j : NodeId} {ts : List Token}
    (h : Spells (.args es) i ts j) : es = [] ∧ ts = [] ∧ j = i ∨
      Separated (fun e i ts j => Spells (.expr e) i ts j) es i ts j := by
  generalize hf : Form.args es = f at h
  induction h generalizing es with
  | argsNil => cases hf; exact .inl ⟨rfl, rfl, rfl⟩
  | argsOne he => cases hf; exact .inr (.one he)
  | argsCons he hc _ _ ih =>
    cases hf
    rcases ih rfl with ⟨hnil, -⟩ | hs
    · cases hnil
    · exact .inr (.cons he hc hs)
  | _ => cases hf

/-- Expressions of level `m` or higher, spelled by fewer than `n` tokens, are read by `x`. -/
def ReadsLevel (m : Nat) (x : Reader Expr) (n : Nat) : Prop :=
  ∀ ⦃e i ts j rest⦄, Spells (.expr e) i ts j → m ≤ e.level → ts.length < n → Stops m rest →
    Reads x i ts rest e j

section
variable {nested : Reader Expr} {bound : Nat} (hn : ReadsLevel 0 nested bound) {i j : NodeId}
  {ts rest : List Token}
include hn

theorem reads_args {es : List Expr} {r : Token} {b : Nat} (h : Spells (.args es) i ts j)
    (hlt : ts.length < bound) (hb : ts.length ≤ b) (hr : r.kind = .rightParen) :
    Reads (parenthesized nested b) i ts (r :: rest) es j := by
  refine reads_parenthesized hr ?_ ?_ (separated_of_args h) (Nat.le_refl _) b hb
  · intro e i ts' j us he hle h
    obtain ⟨t, us, rfl, ht⟩ := h
    refine hn he (Nat.zero_le _) (Nat.lt_of_le_of_lt hle hlt) (stops_cons ?_)
    unfold endsItem at ht
    cases hk : t.kind <;> simp_all [continues, Level.ofOperator]
  · intro e i ts j he
    have hfirst : Starts startsExpression ts := spells_first he
    exact hfirst.imp fun k hk => by cases k <;> first | rfl | cases hk

theorem reads_primary {e : Expr} (h : Spells (.expr e) i ts j) (hl : Level.primary ≤ e.level)
    (hlt : ts.length ≤ bound) : Reads (primary nested) i ts rest e j := by
  rw [primary]
  cases h with
  | @literal _ _ t h =>
    unfold Token.constant? at h
    split at h
    case h_1 hk | h_2 hk | h_3 hk =>
      cases h
      refine (reads_accept (by rw [hk]; rfl)).cons ?_
      simp only [hk]
      exact reads_node
    case h_4 hk | h_5 hk =>
      refine (reads_accept (by rw [hk]; rfl)).cons ?_
      simp only [hk, literalOf, h]
      exact reads_node
    · cases h
  | var hk =>
    refine (reads_accept (by rw [hk]; rfl)).cons ?_
    simp only [hk]
    exact reads_node
  | grouping hp he hr =>
    refine (reads_accept (by rw [hp]; rfl)).cons ?_
    simp only [hp]
    simp only [List.length_cons, List.length_append] at hlt
    refine (hn he (Nat.zero_le _) (by omega) (stops_cons (by rw [hr]; rfl))).bind ?_
    exact (reads_expect hr).cons reads_node
  | call | unary | assign => exact absurd hl (by rw [Expr.level]; decide)
  | binary | logical => exact absurd (Nat.le_trans hl (Level.ofOperator_le_factor _)) (by decide)

/-- On a callee, the reader of calls gets to the loop over what may follow it. -/
theorem leads_call {e : Expr} (h : Spells (.expr e) i ts j) (hl : Level.call ≤ e.level)
    (hlt : ts.length ≤ bound) :
    ∃ b, bound < b + ts.length ∧ Leads (call nested bound) i ts rest (calls nested b e) j := by
  -- The rounds of the loop stand on the left of the tree.
  induction e generalizing i j ts rest with
  | literal | var | grouping =>
    have hpos := spells_length_pos h
    exact ⟨bound, by omega, (reads_primary hn h (Nat.le_refl _) hlt).leads⟩
  | unary | assign => exact absurd hl (by rw [Expr.level]; decide)
  | binary | logical => exact absurd (Nat.le_trans hl (Level.ofOperator_le_factor _)) (by decide)
  | call _ callee paren args ih _ =>
    cases h with
    | call hcallee hc hlp ha hr =>
      simp only [List.length_append, List.length_cons] at hlt ⊢
      obtain ⟨b, hb, hled⟩ := ih hc hcallee (by omega)
      obtain ⟨b, rfl⟩ : ∃ c, b = c + 1 := ⟨b - 1, by omega⟩
      refine ⟨b, by omega, hled.trans ?_⟩
      rw [calls]
      refine (reads_accept (by simp [hlp])).cons ?_
      refine (reads_args hn ha (by omega) (by omega) hr).bind ?_
      refine (reads_expect hr).cons ?_
      exact reads_node.still (reads_pause.still (Leads.refl _ _ _))

theorem reads_call {e : Expr} (h : Spells (.expr e) i ts j) (hl : Level.call ≤ e.level)
    (hlt : ts.length ≤ bound) (hrest : Stops Level.unary rest) :
    Reads (call nested bound) i ts rest e j := by
  obtain ⟨b, hb, hled⟩ := leads_call hn h hl hlt
  obtain ⟨b, rfl⟩ : ∃ c, b = c + 1 := ⟨b - 1, by omega⟩
  refine hled.last ?_
  rw [calls]
  refine (reads_accept_none (hrest.not_starts ?_)).still (Leads.refl _ _ _)
  intro k hk
  rw [eq_of_beq hk]
  rfl

end

theorem unaryOps_append {ops rest : List Token} (hops : ∀ t ∈ ops, isUnaryOp t.kind = true)
    (hrest : ¬ Starts isUnaryOp rest) (taken : List Token) :
    unaryOps taken (ops ++ rest) = (ops.reverse ++ taken, rest) := by
  induction ops generalizing taken with
  | nil =>
    cases rest with
    | nil => rfl
    | cons t rest => exact if_neg fun ht => hrest ⟨t, rest, rfl, ht⟩
  | cons op ops ih =>
    rw [List.forall_mem_cons] at hops
    rw [List.cons_append, unaryOps, if_pos hops.1, ih hops.2, List.reverse_cons, List.append_assoc]
    rfl

theorem reads_takeUnaryOps {ops rest : List Token} {i : NodeId}
    (hops : ∀ t ∈ ops, isUnaryOp t.kind = true) (hrest : ¬ Starts isUnaryOp rest) :
    Reads takeUnaryOps i ops rest ops.reverse i := by
  intro p bs
  rw [takeUnaryOps, Deep.run_of]
  simp only [unaryOps_append hops hrest, List.append_nil, List.length_reverse]
  rfl

/-- An expression of unary level or tighter is an operand from calls on, wrapped in operators. -/
theorem unary_of_spells {e : Expr} {i j : NodeId} {ts : List Token} (h : Spells (.expr e) i ts j)
    (hl : Level.unary ≤ e.level) : ∃ ops us operand k, ts = ops ++ us ∧
      (∀ t ∈ ops, isUnaryOp t.kind = true) ∧ Spells (.expr operand) i us k ∧
      Level.call ≤ operand.level ∧ ∀ more rest,
        Leads (wrapUnary (ops.reverse ++ more) operand) k [] rest (wrapUnary more e) j := by
  induction e generalizing i j ts with
  | literal | var | grouping | call =>
    exact ⟨[], ts, _, j, rfl, List.forall_mem_nil _, h, by rewrite [Expr.level]; decide,
      fun _ _ => Leads.refl _ _ _⟩
  | assign => exact absurd hl (by rw [Expr.level]; decide)
  | binary | logical => exact absurd (Nat.le_trans hl (Level.ofOperator_le_factor _)) (by decide)
  | unary _ op e ih =>
    cases h with
    | unary hop hle he =>
      obtain ⟨ops, us, operand, k, rfl, hops, hs, hlo, hled⟩ := ih he hle
      refine ⟨op :: ops, us, operand, k, rfl, by simpa using ⟨hop, hops⟩, hs, hlo, fun more rest => ?_⟩
      rw [List.reverse_cons, List.append_assoc, List.singleton_append]
      refine (hled (op :: more) rest).last ?_
      rw [wrapUnary]
      exact reads_node.still (reads_pause.still (Leads.refl _ _ _))

theorem readsLevel_unary {nested : Reader Expr} {bound : Nat} (hn : ReadsLevel 0 nested bound) :
    ReadsLevel Level.unary (unary nested bound) (bound + 1) := by
  intro e i ts j rest h hl hlt hrest
  obtain ⟨ops, us, operand, k, rfl, hops, hs, hlo, hled⟩ := unary_of_spells h hl
  have hfirst : ¬ Starts isUnaryOp (us ++ rest) :=
    (starts_primary_of_spells hs hlo).not_append (fun k hk => by cases k <;> first | rfl | cases hk) _
  rw [List.length_append] at hlt
  rw [unary]
  refine (reads_takeUnaryOps hops hfirst).bind ?_
  refine (reads_call hn hs hlo (by omega) hrest).last ?_
  have hwrapped := hled [] rest
  rw [List.append_nil] at hwrapped
  exact hwrapped

/-! ### Operators between operands -/

theorem BindsAt.inv {isOp : Kind → Bool} {build : NodeId → Expr → Token → Expr → Expr} {m : Nat}
    (hb : BindsAt isOp build m) {e : Expr} {i k : NodeId} {ts : List Token}
    (h : Spells (.expr e) i ts k) (hl : e.level = m) : ∃ l op r us vs j j',
      e = build j' l op r ∧ k = j' + 1 ∧ ts = us ++ op :: vs ∧ isOp op.kind = true ∧ m ≤ l.level ∧
      m < r.level ∧ Spells (.expr l) i us j ∧ Spells (.expr r) j vs j' := by
  have hpos := hb.pos
  have hle := hb.le_factor
  subst hl
  cases h with
  | literal | var | grouping | call | unary => exact absurd hle (by rw [Expr.level]; decide)
  | assign => cases hpos
  | binary hm hll hlr hs hs' =>
    refine ⟨_, _, _, _, _, _, _, ?_, rfl, rfl, (hb.isOp_iff _).2 rfl, hll, hlr, hs, hs'⟩
    rcases hb.build_eq with ⟨hlt, -⟩ | ⟨-, rfl⟩
    · exact absurd hlt (Nat.not_lt.2 hm)
    · rfl
  | logical hp hm hll hlr hs hs' =>
    refine ⟨_, _, _, _, _, _, _, ?_, rfl, rfl, (hb.isOp_iff _).2 rfl, hll, hlr, hs, hs'⟩
    rcases hb.build_eq with ⟨-, rfl⟩ | ⟨hlt, -⟩
    · rfl
    · exact absurd hm (Nat.not_lt.2 hlt)

section
variable {isOp : Kind → Bool} {build : NodeId → Expr → Token → Expr → Expr} {m bound : Nat}
  {operand : Reader Expr} (hb : BindsAt isOp build m) (ho : ReadsLevel (m + 1) operand (bound + 1))
include hb ho

/-- On an expression of level `m` or higher, the reader of level `m` gets to the loop over the
operators that may follow it. -/
theorem leads_level {e : Expr} {i j : NodeId} {ts rest : List Token} (h : Spells (.expr e) i ts j)
    (hl : m ≤ e.level) (hlt : ts.length ≤ bound) (hrest : Stops (m + 1) rest) :
    ∃ b, bound < b + ts.length ∧
      Leads (level isOp build operand bound) i ts rest (chain isOp build operand b e) j := by
  rcases Nat.lt_or_eq_of_le hl with hl | hl
  · have hpos := spells_length_pos h
    exact ⟨bound, by omega, (ho h hl (by omega) hrest).leads⟩
  · obtain ⟨l, op, r, us, vs, j', k, rfl, rfl, hts, hop, hll, hlr, hs, hs'⟩ := hb.inv h hl.symm
    have hlen : ts.length = us.length + (vs.length + 1) := by rw [hts]; simp
    have hstop : Stops (m + 1) (op :: (vs ++ rest)) :=
      stops_cons (continues_operator hb.pos ((hb.isOp_iff _).1 hop))
    obtain ⟨b, hbb, hled⟩ := leads_level hs hll (by omega) hstop
    obtain ⟨b, rfl⟩ : ∃ c, b = c + 1 := ⟨b - 1, by omega⟩
    refine ⟨b, by omega, ?_⟩
    rw [hts]
    refine hled.trans ?_
    rw [chain]
    refine (reads_accept hop).cons ?_
    refine (ho hs' hlr (by omega) hrest).last ?_
    exact reads_node.still (reads_pause.still (Leads.refl _ _ _))
termination_by ts.length
decreasing_by omega

theorem readsLevel_level : ReadsLevel m (level isOp build operand bound) (bound + 1) := by
  intro e i ts j rest h hl hlt hrest
  obtain ⟨b, hbb, hled⟩ :=
    leads_level hb ho h hl (Nat.lt_succ_iff.1 hlt) (hrest.mono (Nat.le_succ m))
  obtain ⟨b, rfl⟩ : ∃ c, b = c + 1 := ⟨b - 1, by omega⟩
  refine hled.last ?_
  rw [chain]
  refine (reads_accept_none (hrest.not_starts fun k hk => ?_)).still (Leads.refl _ _ _)
  have hm := (hb.isOp_iff k).1 hk
  have hpos := hb.pos
  simp only [continues, hm, hpos, Nat.le_refl, and_self, decide_true, Bool.or_true, Bool.true_or]

end

section
variable {nested : Reader Expr} {bound : Nat} (hn : ReadsLevel 0 nested bound)
include hn

theorem readsLevel_disjunction :
    ReadsLevel Level.disjunction (disjunction nested bound) (bound + 1) := by
  have hfactor := readsLevel_level bindsAt_factor (readsLevel_unary hn)
  have hterm := readsLevel_level bindsAt_term hfactor
  have hcomparison := readsLevel_level bindsAt_comparison hterm
  have hequality := readsLevel_level bindsAt_equality hcomparison
  have hconjunction := readsLevel_level bindsAt_conjunction hequality
  exact readsLevel_level bindsAt_disjunction hconjunction

theorem readsLevel_assignment : ReadsLevel 0 (assignment nested bound) (bound + 1) := by
  intro e i ts j rest h _ hlt hrest
  rw [assignment]
  have hd := readsLevel_disjunction hn
  rcases Nat.eq_zero_or_pos e.level with hl | hl
  · cases h with
    | literal | var | grouping | call | unary => cases hl
    | binary hm => exact absurd (Nat.le_trans hm (Nat.le_of_eq hl)) (by decide)
    | logical hp => exact absurd hl (Nat.ne_of_gt hp)
    | assign hname hsign he =>
      simp only [List.length_cons] at hlt
      refine (hd (.var hname) (by rw [Expr.level]; decide) ?_ (stops_cons ?_)).cons ?_
      · rw [List.length_singleton]; omega
      · rw [hsign]; rfl
      refine (reads_accept (by simp [hsign])).cons ?_
      refine leads_blameTaken fun b => ?_
      exact (hn he (Nat.zero_le _) (by omega) hrest).last reads_node
  · refine (hd h hl hlt (hrest.mono (Nat.zero_le _))).last ?_
    refine (reads_accept_none (hrest.not_starts fun k hk => ?_)).still (Leads.refl _ _ _)
    rw [eq_of_beq hk]
    rfl

end

theorem readsLevel_expression : ∀ bound, ReadsLevel 0 (expression bound) bound
  | 0 => fun _ _ _ _ _ _ _ hlt => absurd hlt (Nat.not_lt_zero _)
  | bound + 1 => fun _ _ _ _ _ h hl hlt hrest =>
    (readsLevel_assignment (readsLevel_expression bound) h hl hlt hrest).later

/-- An expression is read up to a token that does not go on with it. -/
theorem reads_expression {e : Expr} {i j : NodeId} {ts rest : List Token} {t : Token} {bound : Nat}
    (h : Spells (.expr e) i ts j) (hlt : ts.length < bound) (ht : continues 0 t.kind = false) :
    Reads (expression bound) i ts (t :: rest) e j :=
  readsLevel_expression bound h (Nat.zero_le _) hlt (stops_cons ht)

/-! ## Parts of statements -/

section
variable {i j : NodeId} {ts rest : List Token} {bound : Nat}

theorem reads_optionalExpression {o : Option Expr} {absent : Kind} {t : Token}
    (h : Spells (.maybe o) i ts j) (hlt : ts.length < bound) (ht : t.kind = absent)
    (hc : continues 0 absent = false) (hs : startsExpression absent = false) :
    Reads (optionalExpression absent bound) i ts (t :: rest) o j := by
  rw [optionalExpression]
  refine reads_nextKind.still ?_
  have hfirst := spells_first h
  cases h with
  | absent =>
    rw [if_pos (by simp [headKind, ht])]
    exact Leads.refl _ _ _
  | present he =>
    obtain ⟨u, us, rfl, hu⟩ : Starts startsExpression ts := hfirst
    rw [if_neg fun hk => ?_]
    · exact (reads_expression he hlt (ht ▸ hc)).last (Leads.refl _ _ _)
    · have hua : u.kind = absent := by simpa [headKind] using hk
      rw [hua, hs] at hu
      cases hu

theorem reads_expressionStatement {s : Stmt} (h : Spells (.exprStmt s) i ts j)
    (hlt : ts.length ≤ bound) : Reads (expressionStatement bound) i ts rest s j := by
  rw [expressionStatement]
  cases h with
  | exprStmt he hc =>
    rw [List.length_append, List.length_singleton] at hlt
    refine (reads_expression he (by omega) (by rw [hc]; rfl)).bind ?_
    exact (reads_expect hc).cons reads_node

theorem reads_variableDeclaration {s : Stmt} (h : Spells (.varDecl s) i ts j)
    (hlt : ts.length ≤ bound) (rest : List Token) : ∃ v us, ts = v :: us ∧ v.kind = .kwVar ∧
      Reads (variableDeclaration bound) i us rest s j := by
  simp only [variableDeclaration]
  cases h with
  | varBare hv hn hc =>
    refine ⟨_, _, rfl, hv, (reads_expect hn).cons ?_⟩
    refine (reads_accept_none ?_).still ?_
    · intro h
      obtain ⟨t, us, hcons, ht⟩ := h
      cases hcons
      rw [hc] at ht
      cases ht
    · exact Reads.still (Leads.refl (pure none) _ _) ((reads_expect hc).cons reads_node)
  | varInit hv hn hsign he hc =>
    simp only [List.length_append, List.length_cons] at hlt
    refine ⟨_, _, rfl, hv, (reads_expect hn).cons ?_⟩
    refine (reads_accept (by simp [hsign])).cons ?_
    refine (reads_expression he (by omega) (by rw [hc]; rfl)).map.bind ?_
    exact (reads_expect hc).cons reads_node

theorem reads_forInitializer {o : Option Stmt} (h : Spells (.start o) i ts j)
    (hlt : ts.length ≤ bound) : Reads (forInitializer bound) i ts rest o j := by
  rw [forInitializer]
  refine reads_nextKind.still ?_
  cases h with
  | startNone hc =>
    simp only [List.cons_append, headKind, hc]
    exact (reads_accept (by simp [hc])).cons (Leads.refl _ _ _)
  | startVar hs =>
    obtain ⟨v, us, rfl, hv, hread⟩ := reads_variableDeclaration hs hlt rest
    simp only [List.cons_append, headKind, hv]
    exact (reads_accept (by simp [hv])).cons (hread.last (Leads.refl _ _ _))
  | startExpr hs =>
    obtain ⟨t, us, rfl, ht⟩ : Starts startsExpression ts := spells_first hs
    split
    case h_1 hk | h_2 hk =>
      have hkind : t.kind = _ := hk
      rw [hkind] at ht
      cases ht
    · exact (reads_expressionStatement hs hlt).last (Leads.refl _ _ _)

theorem reads_desugarFor {init : Option Stmt} {condition increment : Option Expr} {body : Stmt} :
    Reads (desugarFor init condition increment body) i [] rest
      (forTree init condition increment body i).1 (forTree init condition increment body i).2 :=
  fun _ _ => run_desugarFor ..

end

/-! ## Statements -/

/-- Statements are read by `x`, if the bound `n` is large enough for their tokens. -/
def ReadsStmt (x : Reader Stmt) (n : Nat) : Prop :=
  ∀ ⦃b s i ts j rest⦄, Spells (.stmt b s) i ts j → 2 * ts.length + 1 ≤ n →
    (b = true → ¬ Starts (· == .kwElse) rest) → Reads x i ts rest s j

/-- Declarations are read by `x`, if the bound `n` is large enough for their tokens. -/
def ReadsDecl (x : Reader (Option Stmt)) (n : Nat) : Prop :=
  ∀ ⦃s i ts j rest⦄, Spells (.decl s) i ts j → 2 * ts.length + 2 ≤ n →
    ¬ Starts (· == .kwElse) rest → Reads x i ts rest (some s) j

theorem body_first {ss : List Stmt} {i j : NodeId} {ts : List Token} (h : Spells (.body ss) i ts j) :
    ts = [] ∨ Starts startsDeclaration ts := by
  cases h with
  | bodyNil => exact .inl rfl
  | bodyCons hs => exact .inr ((spells_first hs : Starts startsDeclaration _).append _)

theorem body_length_le {ss : List Stmt} {i j : NodeId} {ts : List Token}
    (h : Spells (.body ss) i ts j) : ss.length ≤ ts.length := by
  induction ss generalizing i ts with
  | nil => exact Nat.zero_le _
  | cons s ss ih =>
    cases h with
    | bodyCons hs hss =>
      have hpos := (spells_first hs : Starts startsDeclaration _).length_pos
      have := ih hss
      rw [List.length_cons, List.length_append]
      omega

/-- The loop comes behind the tokens of a body, whatever stands there. -/
theorem leads_declarations {declaration : Reader (Option Stmt)} {closing : Kind → Bool} {rest : List Token}
    {bound : Nat} (hd : ReadsDecl declaration bound)
    (hclosing : ∀ k, startsDeclaration k = true → closing k = false)
    (helse : ¬ Starts (· == .kwElse) rest) {ss : List Stmt} {i j : NodeId} {ts : List Token}
    (h : Spells (.body ss) i ts j) (hlen : 2 * ts.length + 2 ≤ bound) (n : Nat) (done : Array Stmt) :
    Leads (declarations closing declaration (n + ss.length) done) i ts rest
      (declarations closing declaration n (done.toList ++ ss).toArray) j := by
  induction ss generalizing i ts done with
  | nil =>
    cases h
    simpa using Leads.refl _ _ _
  | cons s ss ih =>
    cases h with
    | @bodyCons _ k _ _ _ ts us hs hss =>
      rw [List.length_append] at hlen
      have helse' : ¬ Starts (· == .kwElse) (us ++ rest) := by
        rcases body_first hss with rfl | hus
        · exact helse
        · exact hus.not_append (fun k hk => by cases k <;> first | rfl | cases hk) rest
      have hread := hd hs (by omega) helse'
      obtain ⟨t, ts, rfl, ht⟩ : Starts startsDeclaration ts := spells_first hs
      rw [List.length_cons, ← Nat.add_assoc, declarations]
      refine reads_next?.still ?_
      simp only [List.cons_append, List.head?_cons, hclosing _ ht]
      refine hread.bind ?_
      simpa using ih hss (by omega) (done.push s)

theorem reads_declarations {declaration : Reader (Option Stmt)} {closing : Kind → Bool}
    {rest : List Token} {bound : Nat} (hd : ReadsDecl declaration bound)
    (hclosing : ∀ k, closing k = true → k = .rightBrace) (hrest : rest = [] ∨ Starts closing rest)
    {ss : List Stmt} {i j : NodeId} {ts : List Token} (h : Spells (.body ss) i ts j)
    (hlen : 2 * ts.length + 2 ≤ bound) (n : Nat) (done : Array Stmt) (hn : ss.length < n) :
    Reads (declarations closing declaration n done) i ts rest (done.toList ++ ss) j := by
  have hnotClosing : ∀ k, startsDeclaration k = true → closing k = false := by
    intro k hk
    rw [Bool.eq_false_iff]
    intro hc
    rw [hclosing k hc] at hk
    cases hk
  have helse : ¬ Starts (· == .kwElse) rest := by
    intro h
    obtain ⟨t, vs, rfl, ht⟩ := h
    rcases hrest with hnil | ⟨u, ws, hcons, hu⟩
    · cases hnil
    · cases hcons
      rw [hclosing _ hu] at ht
      cases ht
  obtain ⟨m, rfl⟩ : ∃ m, n = m + 1 + ss.length := ⟨n - ss.length - 1, by omega⟩
  refine (leads_declarations hd hnotClosing helse h hlen (m + 1) done).last ?_
  rw [declarations]
  refine reads_next?.still ?_
  rcases hrest with rfl | ⟨t, us, rfl, ht⟩
  · simpa using Leads.refl _ _ _
  · simpa [ht] using Leads.refl _ _ _

theorem separated_of_params {ps : List Token} {i : NodeId} {ts : List Token}
    (h : Spells (.params ps) i ts i) : ps = [] ∧ ts = [] ∧ i = i ∨
      Separated (fun p i ts j => ts = [p] ∧ j = i ∧ p.kind = .identifier) ps i ts i := by
  induction ps generalizing ts with
  | nil => cases h; exact .inl ⟨rfl, rfl, rfl⟩
  | cons p ps ih =>
    cases h with
    | paramsOne hp => exact .inr (.one ⟨rfl, rfl, hp⟩)
    | paramsCons hp hc hs =>
      rcases ih hs with ⟨hnil, -⟩ | hps
      · cases hnil
      · exact .inr (.cons ⟨rfl, rfl, hp⟩ hc hps)

theorem reads_params {ps : List Token} {i : NodeId} {ts rest : List Token} {r : Token} {bound : Nat}
    (h : Spells (.params ps) i ts i) (hle : ts.length ≤ bound) (hr : r.kind = .rightParen) :
    Reads (parenthesized (expect .identifier .parameterName) bound) i ts (r :: rest) ps i := by
  refine reads_parenthesized hr ?_ ?_ (separated_of_params h) (Nat.le_refl _) bound hle
  · rintro p i _ _ us ⟨rfl, rfl, hp⟩ _ _
    exact reads_expect hp
  · intro p i _ _ h
    obtain ⟨rfl, rfl, hp⟩ := h
    exact ⟨p, [], rfl, by rw [hp]; rfl⟩

section
variable {declaration : Reader (Option Stmt)} {statement : Reader Stmt} {bound : Nat}

theorem reads_blockBody (hd : ReadsDecl declaration bound) {ss : List Stmt} {i j : NodeId}
    {ts rest : List Token} {r : Token} (h : Spells (.body ss) i ts j)
    (hlen : 2 * ts.length + 2 ≤ bound) (hr : r.kind = .rightBrace) :
    Reads (blockBody declaration bound) i (ts ++ [r]) rest ss j := by
  have hss := body_length_le h
  have hrest : Starts (· == .rightBrace) (r :: rest) := ⟨r, rest, rfl, by simp [hr]⟩
  have hread := reads_declarations hd (by simp) (.inr hrest) h hlen bound #[] (by omega)
  rw [blockBody]
  refine hread.bind ?_
  exact (reads_expect hr).cons (by simpa using Leads.refl _ _ _)

variable (hs : ReadsStmt statement bound) (hd : ReadsDecl declaration bound)
include hs hd

theorem readsStmt_statementForm :
    ReadsStmt (statementForm declaration statement bound) (bound + 1) := by
  intro b s i ts j rest h hlen hrest
  rw [statementForm]
  cases h with
  | expression he =>
    have hfirst : Starts startsExpression ts := spells_first he
    refine (reads_accept_none (hfirst.not_append ?_ rest)).still ?_
    · intro k hk
      cases k <;> first | rfl | cases hk
    · exact reads_expressionStatement he (by omega)
  | print hp he hc =>
    simp only [List.length_cons, List.length_append] at hlen
    refine (reads_accept (by rw [hp]; rfl)).cons ?_
    simp only [hp, printStatement]
    refine (reads_expression he (by omega) (by rw [hc]; rfl)).bind ?_
    exact (reads_expect hc).cons reads_node
  | ret ht ho hc =>
    simp only [List.length_cons, List.length_append] at hlen
    refine (reads_accept (by rw [ht]; rfl)).cons ?_
    simp only [ht, returnStatement]
    refine (reads_optionalExpression ho (by omega) hc rfl rfl).bind ?_
    exact (reads_expect hc).cons reads_node
  | block hl hss hr =>
    simp only [List.length_cons, List.length_append] at hlen
    refine (reads_accept (by rw [hl]; rfl)).cons ?_
    simp only [hl]
    exact (reads_blockBody hd hss (by omega) hr).last reads_node
  | whileLoop hw hl hc hr hbody =>
    simp only [List.length_cons, List.length_append] at hlen
    refine (reads_accept (by rw [hw]; rfl)).cons ?_
    simp only [hw, whileStatement]
    refine (reads_expect hl).cons ?_
    refine (reads_expression hc (by omega) (by rw [hr]; rfl)).bind ?_
    refine (reads_expect hr).cons ?_
    exact (hs hbody (by omega) hrest).last reads_node
  | ifThen hf hl hc hr hyes =>
    simp only [List.length_cons, List.length_append] at hlen
    refine (reads_accept (by rw [hf]; rfl)).cons ?_
    simp only [hf, ifStatement]
    refine (reads_expect hl).cons ?_
    refine (reads_expression hc (by omega) (by rw [hr]; rfl)).bind ?_
    refine (reads_expect hr).cons ?_
    refine (hs hyes (by omega) fun _ => hrest rfl).last ?_
    refine (reads_accept_none (hrest rfl)).still ?_
    exact reads_node
  | ifElse hf hl hc hr hyes hx hno =>
    simp only [List.length_cons, List.length_append] at hlen
    refine (reads_accept (by rw [hf]; rfl)).cons ?_
    simp only [hf, ifStatement]
    refine (reads_expect hl).cons ?_
    refine (reads_expression hc (by omega) (by rw [hr]; rfl)).bind ?_
    refine (reads_expect hr).cons ?_
    refine (hs hyes (by omega) fun h => by cases h).bind ?_
    refine (reads_accept (by simp [hx])).cons ?_
    exact (hs hno (by omega) hrest).last reads_node
  | forLoop hf hl ho hc hsemi hx hr hbody =>
    simp only [List.length_cons, List.length_append] at hlen
    refine (reads_accept (by rw [hf]; rfl)).cons ?_
    simp only [hf, forStatement]
    refine (reads_expect hl).cons ?_
    refine (reads_forInitializer ho (by omega)).bind ?_
    refine (reads_optionalExpression hc (by omega) hsemi rfl rfl).bind ?_
    refine (reads_expect hsemi).cons ?_
    refine (reads_optionalExpression hx (by omega) hr rfl rfl).bind ?_
    refine (reads_expect hr).cons ?_
    exact (hs hbody (by omega) hrest).last reads_desugarFor

theorem reads_declarationForm {s : Stmt} {i j : NodeId} {ts rest : List Token}
    (h : Spells (.decl s) i ts j) (hlen : 2 * ts.length + 1 ≤ bound)
    (hrest : ¬ Starts (· == .kwElse) rest) :
    Reads (declarationForm declaration statement bound) i ts rest s j := by
  rw [declarationForm]
  refine reads_nextKind.still ?_
  cases h with
  | «variable» hv =>
    have hlt : ts.length ≤ bound := by omega
    obtain ⟨v, us, rfl, hk, hread⟩ := reads_variableDeclaration hv hlt rest
    simp only [List.cons_append, headKind, hk]
    exact (reads_accept (by simp [hk])).cons hread
  | function hf hn hl hp hr hlb hss hrb =>
    simp only [List.length_cons, List.length_append] at hlen
    simp only [List.cons_append, headKind, hf, functionDeclaration]
    refine (reads_accept (by simp [hf])).cons ?_
    refine (reads_expect hn).cons ?_
    refine (reads_expect hl).cons ?_
    refine (reads_params hp (by omega) hr).bind ?_
    refine (reads_expect hr).cons ?_
    refine (reads_expect hlb).cons ?_
    exact (reads_blockBody hd hss (by omega) hrb).last reads_node
  | statement hstmt =>
    have hread := hs hstmt hlen fun _ => hrest
    obtain ⟨t, us, rfl, ht⟩ : Starts startsPlainStatement ts := spells_first hstmt
    split
    case h_1 hk | h_2 hk | h_3 hk =>
      have hkind : t.kind = _ := hk
      rw [hkind] at ht
      cases ht
    · exact hread

end

theorem Reads.recovering {x : Reader Stmt} {i j : NodeId} {ts rest : List Token} {s : Stmt}
    (h : Reads x i ts rest s j) : Reads (recovering x) i ts rest (some s) j := by
  intro p bs
  rw [Grammar.recovering, Deep.run_tryCatch, h.map]
  rfl

theorem reads_statement_declaration (bound : Nat) :
    ReadsStmt (statement bound) bound ∧ ReadsDecl (declaration bound) bound := by
  induction bound with
  | zero =>
    refine ⟨?_, ?_⟩
    · intro b s i ts j rest _ hlen
      exact absurd hlen (by omega)
    · intro s i ts j rest _ hlen
      exact absurd hlen (by omega)
  | succ bound ih =>
    obtain ⟨hs, hd⟩ := ih
    refine ⟨?_, ?_⟩
    · intro b s i ts j rest h hlen hrest
      rw [statement]
      exact (readsStmt_statementForm hs hd h hlen hrest).later
    · intro s i ts j rest h hlen hrest
      rw [declaration]
      exact (reads_declarationForm hs hd h (by omega) hrest).recovering.later

/-- Tokens that spell a body are read as that body, without complaint. -/
theorem read_of_spells {tokens : List Token} {ss : List Stmt} {i j : NodeId}
    (h : Spells (.body ss) i tokens j) : read tokens i = ⟨ss, [], j⟩ := by
  have hss := body_length_le h
  let bound := 2 * tokens.length + 2
  obtain ⟨-, hd⟩ := reads_statement_declaration bound
  have hread : Reads (declarations (fun _ => false) (declaration bound) bound #[]) i tokens [] ss j :=
    reads_declarations hd (by simp) (.inl rfl) h (Nat.le_refl _) bound #[] (by omega)
  have hrun := hread 0 #[]
  rw [List.append_nil] at hrun
  rw [read, State.start, hrun]
  rfl

/-- A program is read from tokens if and only if those in front of the end spell it. -/
theorem ofTokens_eq_ok_iff {tokens : List Token} {i : NodeId} {p : Program} :
    (Program.ofTokens tokens i).program = .ok p ↔
      ∃ j, Spells (.body p) i (tokens.takeWhile (·.kind != .eof)) j := by
  obtain ⟨line, hsplit⟩ : ∃ line, splitEnd tokens = (tokens.takeWhile (·.kind != .eof), line) :=
    ⟨_, rfl⟩
  simp only [Program.ofTokens, hsplit]
  constructor
  · intro h
    by_cases hnone : (read (tokens.takeWhile (·.kind != .eof)) i).blames.isEmpty = true
    · rw [if_pos hnone] at h
      cases h
      exact ⟨_, spells_of_read (List.isEmpty_iff.1 hnone)⟩
    · rw [if_neg hnone] at h
      cases h
  · intro h
    obtain ⟨j, h⟩ := h
    rw [read_of_spells h]
    rfl

end Lox.Grammar
