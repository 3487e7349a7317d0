import Lox.Proofs.Grammar.Passage

/-!
# Reading goes on and ends

Tokens may come in any order, with end-of-input tokens among them or without one. Reading them never goes
past the first end-of-input token, it takes at least one token with every declaration, whether that can be
read or not, and so it comes to an end.

**Bounds.** Readers have a bound on nesting and repetition, and give up when it is used up. That this does
not happen is what makes them end without a bound. `Alike n k x y` says that `x` and `y` do the same
wherever at most `n` tokens are left, and that they take at least `k` of them if they give something. Two
readers that differ in their bounds only are alike if both bounds are large enough for `n`; with equal
bounds this is what is known of one reader. A nested expression, a nested statement and each round of a
loop come behind a token, so with a token less there is one less to go.

**Results.**
* `alike_expression`, `alike_statement_declaration`: bounds that are large enough.
* `declaration_takes`: a declaration takes a token, if there is one.
* `declarations_end`: the loops over declarations come to their exits.
* `reading_stops_at_first_end`.
-/
namespace Lox.Grammar

open Token (Kind)

variable {α β : Type} {n m j k : Nat} {s : State}

/-- At `s` the two readers do the same, and they take `k` tokens or more if they give a value. -/
structure AlikeAt (s : State) (k : Nat) (x y : Reader α) : Prop where
  run_eq : x.run s = y.run s
  takes (a : α) (s' : State) : x.run s = .ok a s' → s'.rest.length + k ≤ s.rest.length

/-- What comes behind the first reader starts where that one leaves off. -/
theorem AlikeAt.bind {x y : Reader α} {f g : α → Reader β} (hx : AlikeAt s k x y)
    (hf : ∀ a s', x.run s = .ok a s' → AlikeAt s' j (f a) (g a)) :
    AlikeAt s (j + k) (x >>= f) (y >>= g) := by
  obtain ⟨heq, htakes⟩ := hx
  cases hrun : x.run s with
  | error b s₁ =>
    refine ⟨?_, fun c s' hc => ?_⟩
    · rw [Deep.run_bind, Deep.run_bind, ← heq, hrun]
      rfl
    · rw [Deep.run_bind, hrun] at hc
      cases hc
  | ok a s₁ =>
    obtain ⟨heq', htakes'⟩ := hf a s₁ hrun
    refine ⟨?_, fun c s' hc => ?_⟩
    · rw [Deep.run_bind, Deep.run_bind, ← heq, hrun]
      exact heq'
    · rw [Deep.run_bind, hrun] at hc
      have hfirst := htakes a s₁ hrun
      have hsecond := htakes' c s' hc
      omega

/-- The readers are alike wherever at most `n` tokens are left. -/
def Alike (n k : Nat) (x y : Reader α) : Prop := ∀ s, s.rest.length ≤ n → AlikeAt s k x y

namespace Alike

variable {x y : Reader α} {f g : α → Reader β}

theorem less (h : Alike n k x y) (hm : m ≤ n) : Alike m k x y := fun s hs => h s (Nat.le_trans hs hm)

theorem fewer (h : Alike n k x y) (hj : j ≤ k) : Alike n j x y := by
  intro s hs
  refine ⟨(h s hs).run_eq, fun a s' hrun => ?_⟩
  have htakes := (h s hs).takes a s' hrun
  omega

/-- A reader that never gives a value. -/
theorem fails (h : ∀ s a s', x.run s ≠ .ok a s') : Alike n k x x :=
  fun s _ => ⟨rfl, fun a s' hrun => absurd hrun (h s a s')⟩

/-- A reader that never goes back. -/
theorem traced (h : Traced x) : Alike n 0 x x := by
  intro s _
  refine ⟨rfl, fun a s' hrun => ?_⟩
  obtain ⟨l, hl⟩ := h s
  have hadvances := hl.advances.2
  rw [hrun] at hadvances
  exact hadvances.length_le

theorem pure (a : α) : Alike n 0 (pure a : Reader α) (pure a) := .traced (.pure a)

theorem pause : Alike n 0 (Deep.pause : Reader Unit) Deep.pause := .traced .pause

/-- What comes behind `k` tokens has so many less in front of it. -/
theorem andThen (hx : Alike n k x y) (hf : ∀ a m, m + k ≤ n → Alike m j (f a) (g a)) :
    Alike n (j + k) (x >>= f) (y >>= g) := by
  intro s hs
  refine (hx s hs).bind fun a s' hrun => ?_
  have htakes := (hx s hs).takes a s' hrun
  exact hf a s'.rest.length (Nat.le_trans htakes hs) s' (Nat.le_refl _)

/-- The tokens that are taken first need not be counted. -/
theorem bind (hx : Alike n k x y) (hf : ∀ a, Alike n j (f a) (g a)) : Alike n j (x >>= f) (y >>= g) :=
  (hx.andThen fun a m hm => (hf a).less (by omega)).fewer (Nat.le_add_right j k)

/-- Nor need those that are taken behind a first one. -/
theorem bindTaking (hx : Alike n 1 x y) (hf : ∀ a m, m < n → Alike m 0 (f a) (g a)) :
    Alike n 1 (x >>= f) (y >>= g) :=
  (hx.andThen hf).fewer (Nat.le_refl 1)

theorem map {h : α → β} (hx : Alike n k x y) : Alike n k (h <$> x) (h <$> y) := by
  rw [map_eq_pure_bind, map_eq_pure_bind]
  exact (hx.andThen fun a _ _ => .pure (h a)).fewer (Nat.le_add_left k 0)

theorem later {x y : Unit → Reader α} (h : Alike n k (x ()) (y ())) : Alike n k (.later x) (.later y) := by
  intro s hs
  refine ⟨?_, fun a s' hrun => ?_⟩
  · rw [Deep.run_later, Deep.run_later]
    exact (h s hs).run_eq
  · rw [Deep.run_later] at hrun
    exact (h s hs).takes a s' hrun

end Alike

theorem alike_fail (cause : SyntaxError.Cause) : Alike n k (fail cause : Reader α) (fail cause) := by
  refine .fails fun s a s' hrun => ?_
  rw [fail, Deep.run_of] at hrun
  cases hrun

theorem alike_noExpression : Alike n k (noExpression : Reader α) noExpression := by
  refine Alike.bind (.traced (.step .peek)) fun o => ?_
  cases o with
  | none => exact alike_fail _
  | some t =>
    dsimp only
    split <;> exact alike_fail _

theorem alike_node (build : NodeId → α) : Alike n 0 (node build) (node build) := .traced (traced_node build)

theorem alike_expect (kind : Kind) (what : SyntaxError.Expected) :
    Alike n 1 (expect kind what) (expect kind what) := by
  intro s _
  refine ⟨rfl, fun a s' hrun => ?_⟩
  rw [expect, Deep.run_of] at hrun
  split at hrun
  · cases hrun
  · next t rest hrest =>
    split at hrun <;> cases hrun
    rw [hrest]
    exact Nat.le_refl _

theorem alike_take (wanted : Kind → Bool) : Alike n 0 (accept wanted) (accept wanted) :=
  .traced (.step (.take wanted))

theorem accept_cases (wanted : Kind → Bool) (s : State) :
    (accept wanted).run s = .ok none s ∨
      ∃ t rest, s.rest = t :: rest ∧ (accept wanted).run s = .ok (some t) (s.behind rest) := by
  rw [accept, Deep.run_of]
  split
  · exact .inl rfl
  · next t rest hrest =>
    split
    · exact .inr ⟨t, rest, hrest, rfl⟩
    · exact .inl rfl

/-- What comes behind a token that was taken, or in its place. -/
theorem alike_accept {wanted : Kind → Bool} {f g : Option Token → Reader α} (hj : j ≤ 1)
    (hnone : Alike n j (f none) (g none)) (hsome : ∀ t m, m < n → Alike m 0 (f (some t)) (g (some t))) :
    Alike n j (accept wanted >>= f) (accept wanted >>= g) := by
  intro s hs
  rcases accept_cases wanted s with hrun | ⟨t, rest, hrest, hrun⟩
  · have hstay : AlikeAt s 0 (accept wanted) (accept wanted) :=
      ⟨rfl, fun a s' h => by rw [hrun] at h; cases h; exact Nat.le_refl _⟩
    refine hstay.bind fun a s' h => ?_
    rw [hrun] at h
    cases h
    exact hnone s hs
  · have hlength : rest.length + 1 = s.rest.length := by rw [hrest, List.length_cons]
    have htake : AlikeAt s 1 (accept wanted) (accept wanted) :=
      ⟨rfl, fun a s' h => by rw [hrun] at h; cases h; exact Nat.le_of_eq hlength⟩
    have hall : AlikeAt s (0 + 1) (accept wanted >>= f) (accept wanted >>= g) := by
      refine htake.bind fun a s' h => ?_
      rw [hrun] at h
      cases h
      exact hsome t rest.length (by omega) _ (Nat.le_refl _)
    refine ⟨hall.run_eq, fun a s' h => ?_⟩
    have htakes := hall.takes a s' h
    omega

/-! ## Bounds of expressions -/

/-- Two bounds above `n`, unless they are the same. -/
abbrev Above (n b b' : Nat) : Prop := b = b' ∨ (n < b ∧ n < b')

theorem alike_commaSeparated {item item' : Reader α} {b b' : Nat} (hb : Above n b b')
    (hi : Alike n k item item') (done : Array α) :
    Alike n 0 (commaSeparated item b done) (commaSeparated item' b' done) := by
  induction b generalizing b' n done with
  | zero =>
    obtain rfl : 0 = b' := by omega
    exact alike_fail _
  | succ b ih =>
    obtain ⟨c, rfl⟩ : ∃ c, b' = c + 1 := ⟨b' - 1, by omega⟩
    refine hi.bind fun a => alike_accept (Nat.zero_le 1) (.pure _) fun _ m hm => ?_
    exact Alike.pause.bind fun _ => ih (by omega) (hi.less (Nat.le_of_lt hm)) _

theorem alike_parenthesized {item item' : Reader α} {b b' : Nat} (hb : Above n b b')
    (hi : Alike n k item item') : Alike n 0 (parenthesized item b) (parenthesized item' b') := by
  refine Alike.bind (.traced (.step .peekKind)) fun kind => ?_
  split
  · exact .pure _
  · exact alike_commaSeparated hb hi _

section
variable {nested nested' : Reader Expr} {b b' : Nat}

theorem alike_calls (hb : Above n b b') (hn : Alike n k nested nested') (callee : Expr) :
    Alike n 0 (calls nested b callee) (calls nested' b' callee) := by
  induction b generalizing b' n callee with
  | zero =>
    obtain rfl : 0 = b' := by omega
    exact alike_fail _
  | succ b ih =>
    obtain ⟨c, rfl⟩ : ∃ c, b' = c + 1 := ⟨b' - 1, by omega⟩
    refine alike_accept (Nat.zero_le 1) (.pure _) fun _ m hm => ?_
    have hb' : Above m b c := by omega
    have hn' := hn.less (Nat.le_of_lt hm)
    refine (alike_parenthesized hb' hn').bind fun _ => (alike_expect _ _).bind fun _ => ?_
    exact (alike_node _).bind fun _ => Alike.pause.bind fun _ => ih hb' hn' _

theorem alike_chain (hb : Above n b b') (ho : Alike n k nested nested') (isOp : Kind → Bool)
    (build : NodeId → Expr → Token → Expr → Expr) (left : Expr) :
    Alike n 0 (chain isOp build nested b left) (chain isOp build nested' b' left) := by
  induction b generalizing b' n left with
  | zero =>
    obtain rfl : 0 = b' := by omega
    exact alike_fail _
  | succ b ih =>
    obtain ⟨c, rfl⟩ : ∃ c, b' = c + 1 := ⟨b' - 1, by omega⟩
    refine alike_accept (Nat.zero_le 1) (.pure _) fun _ m hm => ?_
    have ho' := ho.less (Nat.le_of_lt hm)
    refine ho'.bind fun _ => (alike_node _).bind fun _ => Alike.pause.bind fun _ => ?_
    exact ih (by omega) ho' _

-- The loops of an expression start behind its first operand.
variable (hb : ∀ m, m < n → Above m b b')

include hb in
theorem alike_level (ho : Alike n 1 nested nested') (isOp : Kind → Bool)
    (build : NodeId → Expr → Token → Expr → Expr) :
    Alike n 1 (level isOp build nested b) (level isOp build nested' b') :=
  ho.bindTaking fun left m hm => alike_chain (hb m hm) (ho.less (Nat.le_of_lt hm)) isOp build left

variable (hn : ∀ m, m < n → Alike m 1 nested nested')

include hn in
theorem alike_primary : Alike n 1 (primary nested) (primary nested') := by
  refine alike_accept (Nat.le_refl 1) alike_noExpression fun t m hm => ?_
  dsimp only
  split
  · exact alike_node _
  · exact alike_node _
  · exact alike_node _
  · exact alike_node _
  · exact (hn m hm).bind fun _ => (alike_expect _ _).bind fun _ => alike_node _
  · unfold literalOf
    split
    · exact alike_node _
    · exact .traced (Traced.bind (.step (.blame t _)) fun blame => .throw blame)

include hb hn

theorem alike_unary : Alike n 1 (unary nested b) (unary nested' b') := by
  have hcall : Alike n 1 (call nested b) (call nested' b') :=
    (alike_primary hn).bindTaking fun callee m hm => alike_calls (hb m hm) (hn m hm) callee
  refine Alike.bind (.traced (.step .takeOps)) fun ops => hcall.bindTaking fun operand m hm => ?_
  exact .traced (traced_wrapUnary ops operand)

theorem alike_assignment : Alike n 1 (assignment nested b) (assignment nested' b') := by
  have hdisjunction : Alike n 1 (disjunction nested b) (disjunction nested' b') :=
    alike_level hb (alike_level hb (alike_level hb (alike_level hb (alike_level hb (alike_level hb
      (alike_unary hb hn) _ _) _ _) _ _) _ _) _ _) _ _
  refine hdisjunction.bindTaking fun target m hm => ?_
  refine alike_accept (Nat.zero_le 1) (.pure _) fun sign m' hm' => ?_
  refine Alike.bind (.traced (.step (.blame sign _))) fun blame => ?_
  refine (hn m' (Nat.lt_trans hm' hm)).bind fun value => ?_
  split
  · exact alike_node _
  · exact Alike.bind (.traced (.step (.report blame))) fun _ => .pure _

end

/-- Where an expression should start, there is none. -/
def Missing (s : State) (x : Reader α) : Prop := x.run s = .error (s.blame (.expected .expression)) s

theorem missing_fail (s : State) : Missing s (fail (.expected .expression) : Reader α) := by
  rw [Missing, fail, Deep.run_of]

theorem Missing.bind {x : Reader α} {f : α → Reader β} (h : Missing s x) : Missing s (x >>= f) := by
  rw [Missing, Deep.run_bind, h]
  rfl

/-- The next token, if there is one, is none that an expression starts with, nor a reserved word. -/
def Barred (s : State) : Prop :=
  ∀ t ∈ s.rest.head?, startsPrimary t.kind = false ∧ isUnaryOp t.kind = false ∧ t.kind.isReserved = false

theorem barred_nil (hs : s.rest = []) : Barred s := by
  intro t ht
  rw [hs] at ht
  cases ht

theorem missing_assignment (hs : Barred s) (nested : Reader Expr) (b : Nat) : Missing s (assignment nested b) := by
  obtain ⟨rest, p, i, bs⟩ := s
  have hprimary : Missing ⟨rest, p, i, bs⟩ (primary nested) := by
    cases rest with
    | nil => simp [Missing, primary, noExpression, accept, next?, fail, Ending.fold]
    | cons t rest =>
      obtain ⟨hstarts, -, hreserved⟩ := hs t rfl
      simp [Missing, primary, noExpression, accept, next?, fail, Ending.fold, hstarts, hreserved]
  have htake : takeUnaryOps.run ⟨rest, p, i, bs⟩ = .ok [] ⟨rest, p, i, bs⟩ := by
    cases rest with
    | nil => simp [takeUnaryOps, unaryOps]
    | cons t rest => simp [takeUnaryOps, unaryOps, (hs t rfl).2.1]
  have hunary : Missing ⟨rest, p, i, bs⟩ (unary nested b) := by
    rw [Missing, unary, Deep.run_bind, htake]
    exact hprimary.bind.bind
  exact hunary.bind.bind.bind.bind.bind.bind.bind

theorem missing_expression (hs : Barred s) (b : Nat) : Missing s (expression b) := by
  cases b with
  | zero => exact missing_fail s
  | succ b =>
    rw [Missing, expression, Deep.run_later]
    exact missing_assignment hs _ b

/-- At the end of the input every bound has the same effect. -/
theorem missing_statement (hs : s.rest = []) (b : Nat) : Missing s (statement b) := by
  cases b with
  | zero =>
    rw [statement]
    exact missing_fail s
  | succ b =>
    have hnone : (accept startsKeywordStatement).run s = .ok none s := by rw [accept, Deep.run_of, hs]
    rw [Missing, statement, Deep.run_later, statementForm, Deep.run_bind, hnone]
    exact (missing_expression (barred_nil hs) b).bind

theorem alike_of_missing {x y : Reader α} (hx : ∀ s, s.rest = [] → Missing s x)
    (hy : ∀ s, s.rest = [] → Missing s y) : Alike 0 k x y := by
  intro s hs
  have hnil := List.eq_nil_of_length_eq_zero (Nat.le_zero.1 hs)
  refine ⟨(hx s hnil).trans (hy s hnil).symm, fun a s' hrun => ?_⟩
  rw [hx s hnil] at hrun
  cases hrun

/-- Bounds that are large enough for expressions in front of `n` tokens. -/
abbrev Room (n b b' : Nat) : Prop := n = 0 ∨ Above n b b'

theorem alike_expression {b b' : Nat} (hb : Room n b b') : Alike n 1 (expression b) (expression b') := by
  induction b generalizing b' n with
  | zero =>
    by_cases hn : n = 0
    · rw [hn]
      exact alike_of_missing (fun _ hs => missing_expression (barred_nil hs) 0) fun _ hs =>
        missing_expression (barred_nil hs) b'
    · obtain rfl : 0 = b' := by omega
      exact alike_fail _
  | succ b ih =>
    cases b' with
    | zero =>
      obtain rfl : n = 0 := by omega
      exact alike_of_missing (fun _ hs => missing_expression (barred_nil hs) _) fun _ hs =>
        missing_expression (barred_nil hs) 0
    | succ b' => exact .later (alike_assignment (fun m hm => by omega) fun m hm => ih (by omega))

/-! ## Bounds of statements -/

section
variable {b b' : Nat} (hb : Room n b b')
include hb

theorem alike_optionalExpression (absent : Kind) :
    Alike n 0 (optionalExpression absent b) (optionalExpression absent b') := by
  refine Alike.bind (.traced (.step .peekKind)) fun kind => ?_
  split
  · exact .pure _
  · exact (alike_expression hb).bind fun _ => .pure _

theorem alike_variableDeclaration : Alike n 1 (variableDeclaration b) (variableDeclaration b') := by
  have hend (m : Nat) (name : Token) (init : Option Expr) : Alike m 0 (do
      let _ ← expect .semicolon .semicolonAfterDeclaration
      node (Stmt.varDecl · name init)) (do
      let _ ← expect .semicolon .semicolonAfterDeclaration
      node (Stmt.varDecl · name init)) := (alike_expect _ _).bind fun _ => alike_node _
  refine (alike_expect _ _).bindTaking fun name m hm => ?_
  refine alike_accept (Nat.zero_le 1) ?_ fun _ m' hm' => ?_
  · exact Alike.bind (.pure none) fun init => hend m name init
  · have hb' : Room m' b b' := by omega
    exact Alike.bind (alike_expression hb').map fun init => hend m' name init

theorem alike_expressionStatement : Alike n 1 (expressionStatement b) (expressionStatement b') :=
  (alike_expression hb).bindTaking fun _ _ _ => (alike_expect _ _).bind fun _ => alike_node _

theorem alike_forInitializer : Alike n 0 (forInitializer b) (forInitializer b') := by
  refine Alike.bind (.traced (.step .peekKind)) fun kind => ?_
  split
  · exact (alike_take _).bind fun _ => .pure _
  · exact (alike_take _).bind fun _ => (alike_variableDeclaration hb).bind fun _ => .pure _
  · exact (alike_expressionStatement hb).bind fun _ => .pure _

section
variable {statement statement' : Reader Stmt} (hs : Alike n 1 statement statement')
include hs

theorem alike_whileStatement : Alike n 0 (whileStatement statement b) (whileStatement statement' b') :=
  (alike_expect _ _).bind fun _ => (alike_expression hb).bind fun _ =>
    (alike_expect _ _).bind fun _ => hs.bind fun _ => alike_node _

theorem alike_ifStatement : Alike n 0 (ifStatement statement b) (ifStatement statement' b') := by
  refine (alike_expect _ _).bind fun _ => (alike_expression hb).bind fun _ => ?_
  refine (alike_expect _ _).bind fun _ => hs.bind fun yes => ?_
  refine alike_accept (Nat.zero_le 1) (alike_node _) fun _ m hm => ?_
  exact (hs.less (Nat.le_of_lt hm)).bind fun _ => alike_node _

theorem alike_forStatement : Alike n 0 (forStatement statement b) (forStatement statement' b') := by
  refine (alike_expect _ _).bind fun _ => (alike_forInitializer hb).bind fun _ => ?_
  refine (alike_optionalExpression hb _).bind fun _ => (alike_expect _ _).bind fun _ => ?_
  refine (alike_optionalExpression hb _).bind fun _ => (alike_expect _ _).bind fun _ => ?_
  exact hs.bind fun body => .traced (traced_desugarFor _ _ _ body)

end

end

/-- The reader takes a token if there is one. -/
def Forward (x : Reader α) : Prop :=
  ∀ s a s', s.rest ≠ [] → x.run s = .ok a s' → s'.rest.length < s.rest.length

section
variable {declaration declaration' : Reader (Option Stmt)} {b b' : Nat}

/-- Every round takes a token, so there are no more rounds than tokens. -/
theorem alike_declarations (hb : Above n b b') (hd : Alike n 0 declaration declaration')
    (hf : Forward declaration) (closing : Kind → Bool) (done : Array Stmt) :
    Alike n 0 (declarations closing declaration b done) (declarations closing declaration' b' done) := by
  induction b generalizing b' n done with
  | zero =>
    obtain rfl : 0 = b' := by omega
    exact alike_fail _
  | succ b ih =>
    obtain ⟨c, rfl⟩ : ∃ c, b' = c + 1 := ⟨b' - 1, by omega⟩
    intro s hs
    have hpeek : AlikeAt s 0 next? next? := Alike.traced (.step .peek) s hs
    refine hpeek.bind fun o s' hrun => ?_
    rw [next?, Deep.run_of] at hrun
    cases hrun
    cases hrest : s.rest with
    | nil => exact Alike.pure _ s hs
    | cons t rest =>
      dsimp only [List.head?_cons]
      split
      · exact Alike.pure _ s hs
      · have hne : s.rest ≠ [] := by rw [hrest]; exact List.cons_ne_nil t rest
        refine (hd s hs).bind fun o s' hrun => ?_
        have htaken := hf s o s' hne hrun
        have hrounds (done : Array Stmt) :
            AlikeAt s' 0 (declarations closing declaration b done)
              (declarations closing declaration' c done) :=
          ih (n := s'.rest.length) (by omega) (hd.less (by omega)) done s' (Nat.le_refl _)
        cases o with
        | none => exact hrounds done
        | some stmt => exact hrounds (done.push stmt)

variable (hb : Room n b b') (hd : ∀ m, m < n → Alike m 0 declaration declaration') (hf : Forward declaration)
include hb hd hf

theorem alike_blockBody (hm : m < n) : Alike m 0 (blockBody declaration b) (blockBody declaration' b') := by
  have hb' : Above m b b' := by omega
  refine (alike_declarations hb' (hd m hm) hf _ _).bind fun _ => ?_
  exact (alike_expect _ _).bind fun _ => .pure _

theorem alike_functionDeclaration :
    Alike n 1 (functionDeclaration declaration b) (functionDeclaration declaration' b') := by
  refine (alike_expect _ _).bindTaking fun name m hm => (alike_expect _ _).bind fun _ => ?_
  have hb' : Above m b b' := by omega
  refine (alike_parenthesized hb' (alike_expect _ _)).bind fun _ => (alike_expect _ _).bind fun _ => ?_
  exact (alike_expect _ _).bind fun _ => (alike_blockBody hb hd hf hm).bind fun _ => alike_node _

variable {statement statement' : Reader Stmt}

theorem alike_statementForm (hs : ∀ m, m < n → Alike m 1 statement statement') :
    Alike n 1 (statementForm declaration statement b) (statementForm declaration' statement' b') := by
  refine alike_accept (Nat.le_refl 1) (alike_expressionStatement hb) fun t m hm => ?_
  have hb' : Room m b b' := by omega
  dsimp only
  split
  · exact alike_forStatement hb' (hs m hm)
  · exact alike_ifStatement hb' (hs m hm)
  · exact (alike_expression hb').bind fun _ => (alike_expect _ _).bind fun _ => alike_node _
  · exact (alike_optionalExpression hb' _).bind fun _ => (alike_expect _ _).bind fun _ => alike_node _
  · exact alike_whileStatement hb' (hs m hm)
  · exact (alike_blockBody hb hd hf hm).bind fun _ => alike_node _

theorem alike_declarationForm (hs : Alike n 1 statement statement') :
    Alike n 1 (declarationForm declaration statement b) (declarationForm declaration' statement' b') := by
  refine Alike.bind (.traced (.step .peekKind)) fun kind => ?_
  split
  · exact (alike_take _).bind fun _ => alike_functionDeclaration hb hd hf
  · exact (alike_take _).bind fun _ => alike_variableDeclaration hb
  · exact alike_noExpression
  · exact hs

end

/-! ## Declarations that cannot be read -/

/-- Skipping takes a token if there is one. -/
theorem resume_run (s : State) :
    ∃ s', resume.run s = .ok () s' ∧ s'.rest.length ≤ s.rest.length - 1 := by
  obtain ⟨passed, hrest, -, hpassed⟩ := skipStatement_split 0 s.rest
  refine ⟨_, by rw [resume, Deep.run_of], ?_⟩
  have hlength := congrArg List.length hrest
  rw [List.length_append] at hlength
  by_cases hnil : s.rest = []
  · rw [hnil]
    exact Nat.le_refl _
  · have hpos := List.length_pos_iff.2 (hpassed hnil)
    show (skipStatement 0 s.rest).1.length ≤ s.rest.length - 1
    omega

/-- A declaration that cannot be read is left out, and reading goes on behind a token at least. It is the
skipping that takes one where the failure did not. -/
theorem recovering_run {x : Reader Stmt} (ht : Traced x) (hx : AlikeAt s 1 x x) :
    ∃ o s', (recovering x).run s = .ok o s' ∧ s'.rest.length ≤ s.rest.length - 1 := by
  rw [recovering, Deep.run_tryCatch, map_eq_pure_bind, Deep.run_bind]
  cases hrun : x.run s with
  | ok stmt s₁ =>
    have htaken := hx.takes stmt s₁ hrun
    exact ⟨some stmt, s₁, rfl, by omega⟩
  | error blame s₁ =>
    obtain ⟨l, hl⟩ := ht s
    rw [hrun] at hl
    have hle : s₁.rest.length ≤ s.rest.length := hl.advances.2.length_le
    obtain ⟨s', hresume, hless⟩ := resume_run { s₁ with blames := s₁.blames.push blame }
    refine ⟨none, s', ?_, ?_⟩
    · simp only [Ending.fold, Deep.run_bind, complain, Deep.run_of, hresume, Deep.run_pure]
    · have hless' : s'.rest.length ≤ s₁.rest.length - 1 := hless
      omega

theorem alike_recovering {x y : Reader Stmt} (ht : Traced x) (h : Alike n 1 x y) :
    Alike n 0 (recovering x) (recovering y) := by
  intro s hs
  refine ⟨?_, fun o s' hrun => ?_⟩
  · rw [recovering, recovering, Deep.run_tryCatch, Deep.run_tryCatch, ((h.map) s hs).run_eq]
  · have hx : AlikeAt s 1 x x := ⟨rfl, (h s hs).takes⟩
    obtain ⟨o', s₁, hrun', hle⟩ := recovering_run ht hx
    rw [hrun] at hrun'
    cases hrun'
    omega

theorem traced_form (b : Nat) : Traced (declarationForm (declaration b) (statement b) b) :=
  traced_declarationForm (traced_statement_declaration b).2 (traced_statement_declaration b).1 b

/-- A declaration is always got over with, and takes a token if there is one. -/
theorem declaration_succ_run {b : Nat} (hs : ∀ n, Alike n 1 (statement b) (statement b))
    (hd : ∀ n, Alike n 0 (declaration b) (declaration b)) (hf : Forward (declaration b)) (s : State) :
    ∃ o s', (declaration (b + 1)).run s = .ok o s' ∧ s'.rest.length ≤ s.rest.length - 1 := by
  have hform : Alike s.rest.length 1 (declarationForm (declaration b) (statement b) b)
      (declarationForm (declaration b) (statement b) b) :=
    alike_declarationForm (.inr (.inl rfl)) (fun m _ => hd m) hf (hs _)
  rw [declaration, Deep.run_later]
  exact recovering_run (traced_form b) (hform s (Nat.le_refl _))

/-- A declaration and the statement in its place use up two levels with each token. -/
theorem alike_statement_declaration (b : Nat) :
    (∀ n b', n = 0 ∨ Above (2 * n) b b' → Alike n 1 (statement b) (statement b')) ∧
      (∀ n b', Above (2 * n + 1) b b' → Alike n 0 (declaration b) (declaration b')) ∧
      Forward (declaration b) := by
  induction b with
  | zero =>
    have hfail : declaration 0 = fail (.expected .expression) := by rw [declaration]
    refine ⟨fun n b' hb => ?_, fun n b' hb => ?_, fun s a s' _ hrun => ?_⟩
    · by_cases hn : n = 0
      · rw [hn]
        exact alike_of_missing (fun _ hs => missing_statement hs 0) fun _ hs => missing_statement hs b'
      · obtain rfl : 0 = b' := by omega
        rw [statement]
        exact alike_fail _
    · obtain rfl : 0 = b' := by omega
      rw [hfail]
      exact alike_fail _
    · rw [hfail, fail, Deep.run_of] at hrun
      cases hrun
  | succ b ih =>
    obtain ⟨ihs, ihd, ihf⟩ := ih
    refine ⟨fun n b' hb => ?_, fun n b' hb => ?_, fun s a s' hne hrun => ?_⟩
    · cases b' with
      | zero =>
        obtain rfl : n = 0 := by omega
        exact alike_of_missing (fun _ hs => missing_statement hs _) fun _ hs => missing_statement hs 0
      | succ b' =>
        rw [statement, statement]
        refine .later (alike_statementForm (by omega) (fun m hm => ihd m b' (by omega)) ihf ?_)
        exact fun m hm => ihs m b' (by omega)
    · obtain ⟨c, rfl⟩ : ∃ c, b' = c + 1 := ⟨b' - 1, by omega⟩
      rw [declaration, declaration]
      refine .later (alike_recovering (traced_form b) (alike_declarationForm (by omega) ?_ ihf ?_))
      · exact fun m hm => ihd m c (by omega)
      · exact ihs n c (by omega)
    · obtain ⟨o, s₁, hrun', hless⟩ := declaration_succ_run (fun n => ihs n b (.inr (.inl rfl)))
        (fun n => ihd n b (.inl rfl)) ihf s
      rw [hrun'] at hrun
      cases hrun
      have hpos := List.length_pos_iff.2 hne
      omega

theorem declaration_run (b : Nat) (s : State) :
    ∃ o s', (declaration (b + 1)).run s = .ok o s' ∧ s'.rest.length ≤ s.rest.length - 1 := by
  obtain ⟨hs, hd, hf⟩ := alike_statement_declaration b
  exact declaration_succ_run (fun n => hs n b (.inr (.inl rfl))) (fun n => hd n b (.inl rfl)) hf s

theorem declaration_takes (b : Nat) (hne : s.rest ≠ []) :
    s.position < (endState ((declaration (b + 1)).run s)).position := by
  obtain ⟨o, s', hrun, hless⟩ := declaration_run b s
  obtain ⟨l, hl⟩ := (traced_statement_declaration (b + 1)).2 s
  have hadvances := hl.advances.2.position_add
  have hpos := List.length_pos_iff.2 hne
  rw [hrun] at hadvances ⊢
  simp only [endState, Ending.fold] at hadvances ⊢
  omega

/-- The loop over declarations comes to its exit: the end of the input or a closing token. -/
theorem declarations_end {declaration : Reader (Option Stmt)}
    (hrun : ∀ s, ∃ o s', declaration.run s = .ok o s' ∧ s'.rest.length ≤ s.rest.length - 1)
    (closing : Kind → Bool) (b : Nat) (s : State) (done : Array Stmt) (hb : s.rest.length < b) :
    ∃ body s', (declarations closing declaration b done).run s = .ok body s' ∧
      ∀ t ∈ s'.rest.head?, closing t.kind = true := by
  induction b generalizing s done with
  | zero => exact absurd hb (Nat.not_lt_zero _)
  | succ b ih =>
    rw [declarations, Deep.run_bind, next?, Deep.run_of]
    cases hrest : s.rest with
    | nil =>
      refine ⟨done.toList, s, rfl, fun t ht => ?_⟩
      rw [hrest] at ht
      cases ht
    | cons t rest =>
      simp only [Ending.fold, List.head?_cons]
      split
      · next hclosing =>
        refine ⟨done.toList, s, rfl, fun t' ht' => ?_⟩
        rw [hrest, List.head?_cons] at ht'
        cases ht'
        exact hclosing
      · obtain ⟨o, s₁, hd, hless⟩ := hrun s
        have hlength : s.rest.length = rest.length + 1 := by rw [hrest, List.length_cons]
        rw [Deep.run_bind, hd]
        cases o with
        | none => exact ih s₁ done (by omega)
        | some stmt => exact ih s₁ (done.push stmt) (by omega)

/-! ## The end of the input -/

/-- The tokens with an end-of-input token at their end. One is put there if there is none, on the line of
the last token. -/
def withEnd (tokens : List Token) : List Token :=
  if tokens.getLast?.map (·.kind) = some .eof then tokens
  else tokens ++ [.endOfInput ((tokens.getLast?.map (·.line)).getD 1)]

/-- Where the first end-of-input token is. -/
def firstEnd (tokens : List Token) : Nat := (withEnd tokens).findIdx (·.kind == .eof)

/-- The tokens up to the first end-of-input token, and that one. -/
def upToEnd (tokens : List Token) : List Token := (withEnd tokens).take (firstEnd tokens + 1)

theorem withEnd_split (tokens : List Token) :
    ∃ e back, withEnd tokens = (splitEnd tokens).1 ++ e :: back ∧ e.kind = .eof ∧
      e.line = (splitEnd tokens).2 := by
  have hsplit : tokens = tokens.takeWhile (·.kind != .eof) ++ tokens.dropWhile (·.kind != .eof) :=
    (List.takeWhile_append_dropWhile ..).symm
  simp only [splitEnd]
  cases hback : tokens.dropWhile (·.kind != .eof) with
  | cons e back =>
    have hkind : e.kind = .eof := by
      have hhead := List.head?_dropWhile_not (fun t : Token => t.kind != .eof) tokens
      rw [hback] at hhead
      simpa using hhead
    rw [hback] at hsplit
    rw [withEnd]
    split
    · exact ⟨e, back, hsplit, hkind, rfl⟩
    · have hmore (l : List Token) :
          tokens ++ l = tokens.takeWhile (·.kind != .eof) ++ e :: (back ++ l) := by
        rw [← List.cons_append, ← List.append_assoc, ← hsplit]
      exact ⟨e, _, hmore _, hkind, rfl⟩
  | nil =>
    rw [hback, List.append_nil] at hsplit
    have hlast : tokens.getLast?.map (·.kind) ≠ some .eof := by
      intro hlast
      obtain ⟨t, ht, hkind⟩ := Option.map_eq_some_iff.1 hlast
      have hmem : t ∈ tokens.takeWhile (·.kind != .eof) := hsplit ▸ List.mem_of_getLast? ht
      have hall := List.all_eq_true.1 (List.all_takeWhile (p := fun t : Token => t.kind != .eof)) t hmem
      simp [hkind] at hall
    rw [withEnd, if_neg hlast, ← hsplit]
    exact ⟨_, [], rfl, rfl, rfl⟩

theorem firstEnd_eq (tokens : List Token) : firstEnd tokens = (splitEnd tokens).1.length := by
  obtain ⟨e, back, hsplit, hkind, -⟩ := withEnd_split tokens
  have hnone : ¬ ∃ t ∈ (splitEnd tokens).1, (t.kind == .eof) = true := by
    intro ⟨t, ht, heof⟩
    have hall := List.all_eq_true.1 (List.all_takeWhile (p := fun t : Token => t.kind != .eof)) t ht
    rw [bne, heof] at hall
    cases hall
  rw [firstEnd, hsplit, List.findIdx_append, if_neg (mt List.findIdx_lt_length.1 hnone),
    List.findIdx_cons, hkind]
  exact Nat.zero_add _

theorem take_firstEnd (tokens : List Token) :
    (withEnd tokens).take (firstEnd tokens) = (splitEnd tokens).1 := by
  obtain ⟨e, back, hsplit, -, -⟩ := withEnd_split tokens
  rw [firstEnd_eq, hsplit, List.take_left]

theorem firstEnd_lt (tokens : List Token) : firstEnd tokens < (withEnd tokens).length := by
  obtain ⟨e, back, hsplit, -, -⟩ := withEnd_split tokens
  rw [firstEnd_eq, hsplit, List.length_append, List.length_cons]
  omega

/-- Nothing behind the first end-of-input token counts. -/
theorem splitEnd_congr {tokens others : List Token} (h : upToEnd tokens = upToEnd others) :
    splitEnd tokens = splitEnd others := by
  have hupTo (ts : List Token) : ∃ e, upToEnd ts = (splitEnd ts).1 ++ [e] ∧ e.line = (splitEnd ts).2 := by
    obtain ⟨e, back, hsplit, -, hline⟩ := withEnd_split ts
    refine ⟨e, ?_, hline⟩
    rw [upToEnd, firstEnd_eq, hsplit, List.take_length_add_append]
    rfl
  obtain ⟨e, he, hline⟩ := hupTo tokens
  obtain ⟨e', he', hline'⟩ := hupTo others
  rw [he, he'] at h
  obtain ⟨hfront, hlast⟩ := List.append_inj' h rfl
  cases hlast
  exact Prod.ext hfront (hline.symm.trans hline')

/-- `s` is a state in front of the first end-of-input token or at it: the token there and the one before
it are in the list, and those still to be read are the ones in between. -/
structure InRange (tokens : List Token) (s : State) : Prop where
  position_le : s.position ≤ firstEnd tokens
  next : ∃ t, (withEnd tokens)[s.position]? = some t
  previous : ∃ t, (withEnd tokens)[s.position - 1]? = some t
  rest_eq : s.rest = ((withEnd tokens).take (firstEnd tokens)).drop s.position

theorem inRange_of_advances {tokens : List Token} {firstId : NodeId}
    (h : (State.start (splitEnd tokens).1 firstId).Advances s) : InRange tokens s := by
  obtain ⟨taken, hrest, hposition⟩ := h
  have hfront : (splitEnd tokens).1 = taken ++ s.rest := hrest
  have hposition' : s.position = taken.length := hposition.trans (Nat.zero_add _)
  have hend := firstEnd_eq tokens
  have hlt := firstEnd_lt tokens
  rw [hfront, List.length_append] at hend
  have hin (i : Nat) (hi : i ≤ s.position) : ∃ t, (withEnd tokens)[i]? = some t :=
    ⟨_, List.getElem?_eq_getElem (by omega)⟩
  refine ⟨by omega, hin _ (Nat.le_refl _), hin _ (Nat.sub_le _ 1), ?_⟩
  rw [take_firstEnd, hfront, hposition', List.drop_left]

/-- The reader of declarations to the end of the input. -/
abbrev toEnd (bound : Nat) : Reader (List Stmt) :=
  declarations (fun _ => false) (declaration bound) bound #[]

theorem reading_stops_at_first_end (tokens : List Token) (firstId : NodeId) :
    let start := State.start (splitEnd tokens).1 firstId
    -- There is a way from the start, and all states on the way are in range.
    (∀ bound, ∃ l, Passes (toEnd bound) start (start :: l) ((toEnd bound).run start)) ∧
    (∀ bound l r, Passes (toEnd bound) start l r →
      (toEnd bound).run start = r ∧ (∀ s ∈ l, InRange tokens s) ∧ InRange tokens (endState r)) ∧
    -- A declaration takes a token, if there is one, whether it can be read or not.
    (∀ bound (s : State), s.rest ≠ [] →
      s.position < (endState ((declaration (bound + 1)).run s)).position) ∧
    -- The loops over declarations come to their exits, and no bound is ever reached.
    (∀ closing done bound (s : State), 2 * s.rest.length + 2 ≤ bound →
      (∃ body s', (declarations closing (declaration bound) bound done).run s = .ok body s' ∧
        ∀ t ∈ s'.rest.head?, closing t.kind = true) ∧
      ∀ bound', 2 * s.rest.length + 2 ≤ bound' →
        (declarations closing (declaration bound) bound done).run s =
          (declarations closing (declaration bound') bound' done).run s) ∧
    -- What is behind the first end does not matter.
    ∀ others, upToEnd tokens = upToEnd others →
      Program.ofTokens tokens firstId = Program.ofTokens others firstId := by
  intro start
  refine ⟨fun bound => ?_, fun bound l r h => ?_, fun bound s => declaration_takes bound, ?_, ?_⟩
  · exact passes_declarations (traced_statement_declaration bound).2 _ bound _ start
  · obtain ⟨hpassed, hend⟩ := h.advances
    exact ⟨h.run_eq, fun s hs => inRange_of_advances (hpassed s hs), inRange_of_advances hend⟩
  · intro closing done bound s hb
    obtain ⟨-, hd, hf⟩ := alike_statement_declaration bound
    refine ⟨?_, fun bound' hb' => ?_⟩
    · obtain ⟨c, rfl⟩ : ∃ c, bound = c + 1 := ⟨bound - 1, by omega⟩
      exact declarations_end (declaration_run c) closing (c + 1) s done (by omega)
    · exact (alike_declarations (by omega) (hd s.rest.length bound' (by omega)) hf closing done s
        (Nat.le_refl _)).run_eq
  · intro others h
    simp only [Program.ofTokens, splitEnd_congr h]

/-- A closing parenthesis that belongs to nothing. -/
def strayParen : Token := ⟨.rightParen, ")", none, 1⟩

/-- An end-of-input token with more behind it, where nothing can be read in front of it either. -/
theorem reading_stops_at_first_end_stray_paren :
    let tokens := [strayParen, .endOfInput 1, strayParen]
    let start := State.start [strayParen] 0
    (∃ l, Passes (toEnd 4) start (start :: l) ((toEnd 4).run start) ∧ InRange tokens start) ∧
    0 < (endState ((declaration 1).run start)).position ∧
    (toEnd 4).run start = (toEnd 9).run start ∧
    upToEnd tokens = upToEnd [strayParen] ∧
    Program.ofTokens tokens 0 = Program.ofTokens [strayParen] 0 := by
  intro tokens start
  obtain ⟨hway, hrange, htakes, hends, hbehind⟩ := reading_stops_at_first_end tokens 0
  obtain ⟨l, hl⟩ := hway 4
  refine ⟨⟨l, hl, (hrange 4 _ _ hl).2.1 start List.mem_cons_self⟩, htakes 0 start (List.cons_ne_nil _ _), ?_⟩
  exact ⟨(hends _ #[] 4 start (by decide)).2 9 (by decide), rfl, hbehind [strayParen] rfl⟩

end Lox.Grammar
