import Lox.Grammar.Program
import Lox.Proofs.Tree
import Mathlib.Data.List.Forall2

/-!
# Two readings side by side

Two readings may start from different tokens, positions or identifiers and still go the same way. `Tandem`
relates two readers by how they end: both with values or both with complaints, and in states that are related
again. What is related is a parameter, one lemma takes such a statement through each way of building a reader,
and what is to be checked for a relation are a few laws about single tokens.

**Laws.** `Trees` says which tokens and trees belong together in the two readings, with a law for each kind of
node. `Parallel` says which states and complaints do. From two states that belong together either both readings
have a token in front of them, and these tokens belong together, or both are at a border, where at least one of
them has something else to come. A border is the end of the input or a token of one of the kinds `ends`, at
which expressions leave off.

**Results.**
* `Parallel.rel_expression`: expressions, if `ends` has only kinds that no expression has.
* `Parallel.rel_statement_declaration` and `Parallel.rel_declarations`: statements, if both readings end at once.
-/
namespace Lox.Grammar

open Token (Kind)
open List (Forall₂)

variable {α β γ δ : Type}

/-! ## Readers in tandem -/

/-- Two endings of one kind with related contents. States are related by `J` beside values and by `K` beside
complaints. -/
inductive Endings (J K : State → State → Prop) (E : Blame → Blame → Prop) (Q : α → β → Prop) :
    Ending Blame State α → Ending Blame State β → Prop where
  | ok {a b s s'} (hq : Q a b) (hj : J s s') : Endings J K E Q (.ok a s) (.ok b s')
  | error {b b' s s'} (he : E b b') (hk : K s s') : Endings J K E Q (.error b s) (.error b' s')

/-- From states related by `I` the two readers end alike. -/
def Tandem (I J K : State → State → Prop) (E : Blame → Blame → Prop) (Q : α → β → Prop) (x : Reader α)
    (y : Reader β) : Prop :=
  ∀ s s', I s s' → Endings J K E Q (x.run s) (y.run s')

namespace Tandem

variable {I I' J K L : State → State → Prop} {E : Blame → Blame → Prop} {Q : α → β → Prop}
  {R : γ → δ → Prop} {x : Reader α} {y : Reader β}

theorem pure {a : α} {b : β} (h : Q a b) : Tandem I I K E Q (pure a) (pure b) := fun _ _ hi => .ok h hi

theorem throw {b b' : Blame} (h : E b b') : Tandem I J I E Q (throw b) (throw b') := fun _ _ hi => .error h hi

theorem pause : Tandem I I K E (fun _ _ => True) (Deep.pause : Reader Unit) Deep.pause :=
  fun _ _ hi => .ok trivial hi

theorem of {f : State → Ending Blame State α} {g : State → Ending Blame State β}
    (h : ∀ s s', I s s' → Endings J K E Q (f s) (g s')) : Tandem I J K E Q (.of f) (.of g) := by
  intro s s' hi
  rw [Deep.run_of, Deep.run_of]
  exact h s s' hi

theorem under (h : Tandem I J K E Q x y) (hi : ∀ s s', I' s s' → I s s') : Tandem I' J K E Q x y :=
  fun s s' hi' => h s s' (hi s s' hi')

theorem failing (h : Tandem I J K E Q x y) (hk : ∀ s s', K s s' → L s s') : Tandem I J L E Q x y := by
  intro s s' hi
  have hends := h s s' hi
  generalize x.run s = r at hends ⊢
  generalize y.run s' = r' at hends ⊢
  cases hends with
  | ok hq hj => exact .ok hq hj
  | error he hs => exact .error he (hk _ _ hs)

theorem bind {f : α → Reader γ} {g : β → Reader δ} (hx : Tandem I J K E Q x y)
    (hf : ∀ a b, Q a b → Tandem J L K E R (f a) (g b)) : Tandem I L K E R (x >>= f) (y >>= g) := by
  intro s s' hi
  have hends := hx s s' hi
  rw [Deep.run_bind, Deep.run_bind]
  generalize x.run s = r at hends ⊢
  generalize y.run s' = r' at hends ⊢
  cases hends with
  | ok hq hj => exact hf _ _ hq _ _ hj
  | error he hk => exact .error he hk

theorem map {f : α → γ} {g : β → δ} (hx : Tandem I J K E Q x y) (hfg : ∀ a b, Q a b → R (f a) (g b)) :
    Tandem I J K E R (f <$> x) (g <$> y) := by
  rw [map_eq_pure_bind, map_eq_pure_bind]
  exact hx.bind fun a b hab => .pure (hfg a b hab)

theorem later {x : Unit → Reader α} {y : Unit → Reader β} (h : Tandem I J K E Q (x ()) (y ())) :
    Tandem I J K E Q (.later x) (.later y) := by
  intro s s' hi
  rw [Deep.run_later, Deep.run_later]
  exact h s s' hi

/-- Complaints are dealt with where the first readers left off. -/
theorem tryCatch {f : Blame → Reader α} {g : Blame → Reader β} (hx : Tandem I J K E Q x y)
    (hf : ∀ b b', E b b' → Tandem K J L E Q (f b) (g b')) :
    Tandem I J L E Q (tryCatch x f) (tryCatch y g) := by
  intro s s' hi
  have hends := hx s s' hi
  rw [Deep.run_tryCatch, Deep.run_tryCatch]
  generalize x.run s = r at hends ⊢
  generalize y.run s' = r' at hends ⊢
  cases hends with
  | ok hq hj => exact .ok hq hj
  | error he hk => exact hf _ _ he _ _ hk

end Tandem

/-! ## The laws -/

/-- Tokens and trees that belong together in two readings. -/
structure Trees where
  Tokens : Token → Token → Prop
  Ids : NodeId → NodeId → Prop
  Exprs : Expr → Expr → Prop
  Stmts : Stmt → Stmt → Prop
  kind_eq {t u : Token} : Tokens t u → t.kind = u.kind
  carries {t u : Token} : Tokens t u → t.literal.isSome = u.literal.isSome
  boolean {i j : NodeId} (hi : Ids i j) (b : Bool) : Exprs (.literal i (.boolean b)) (.literal j (.boolean b))
  nil {i j : NodeId} (hi : Ids i j) : Exprs (.literal i .nil) (.literal j .nil)
  literal {i j : NodeId} (hi : Ids i j) {t u : Token} (ht : Tokens t u) {v w : Literal} :
    t.literal = some v → u.literal = some w → Exprs (.literal i v) (.literal j w)
  var {i j : NodeId} (hi : Ids i j) {t u : Token} (ht : Tokens t u) : Exprs (.var i t) (.var j u)
  assign {i j : NodeId} (hi : Ids i j) {t u : Token} (ht : Tokens t u) {e e' : Expr} (he : Exprs e e') :
    Exprs (.assign i t e) (.assign j u e')
  unary {i j : NodeId} (hi : Ids i j) {t u : Token} (ht : Tokens t u) {e e' : Expr} (he : Exprs e e') :
    Exprs (.unary i t e) (.unary j u e')
  binary {i j : NodeId} (hi : Ids i j) {l l' r r' : Expr} (hl : Exprs l l') {t u : Token} (ht : Tokens t u)
    (hr : Exprs r r') : Exprs (.binary i l t r) (.binary j l' u r')
  logical {i j : NodeId} (hi : Ids i j) {l l' r r' : Expr} (hl : Exprs l l') {t u : Token} (ht : Tokens t u)
    (hr : Exprs r r') : Exprs (.logical i l t r) (.logical j l' u r')
  grouping {i j : NodeId} (hi : Ids i j) {e e' : Expr} (he : Exprs e e') :
    Exprs (.grouping i e) (.grouping j e')
  call {i j : NodeId} (hi : Ids i j) {e e' : Expr} (he : Exprs e e') {t u : Token} (ht : Tokens t u)
    {as as' : List Expr} (ha : Forall₂ Exprs as as') : Exprs (.call i e t as) (.call j e' u as')
  /-- Variables belong together with variables only. -/
  target {e e' : Expr} : Exprs e e' →
    (∃ i j t u, e = .var i t ∧ e' = .var j u ∧ Tokens t u) ∨
      (∀ i t, e ≠ .var i t) ∧ ∀ i t, e' ≠ .var i t
  expression {i j : NodeId} (hi : Ids i j) {e e' : Expr} (he : Exprs e e') :
    Stmts (.expression i e) (.expression j e')
  print {i j : NodeId} (hi : Ids i j) {e e' : Expr} (he : Exprs e e') : Stmts (.print i e) (.print j e')
  varDecl {i j : NodeId} (hi : Ids i j) {t u : Token} (ht : Tokens t u) {o o' : Option Expr}
    (ho : Option.Rel Exprs o o') : Stmts (.varDecl i t o) (.varDecl j u o')
  block {i j : NodeId} (hi : Ids i j) {ss ss' : List Stmt} (hs : Forall₂ Stmts ss ss') :
    Stmts (.block i ss) (.block j ss')
  ifThen {i j : NodeId} (hi : Ids i j) {e e' : Expr} (he : Exprs e e') {s s' : Stmt} (hs : Stmts s s') :
    Stmts (.ifThen i e s) (.ifThen j e' s')
  ifElse {i j : NodeId} (hi : Ids i j) {e e' : Expr} (he : Exprs e e') {s s' : Stmt} (hs : Stmts s s')
    {n n' : Stmt} (hn : Stmts n n') : Stmts (.ifElse i e s n) (.ifElse j e' s' n')
  whileLoop {i j : NodeId} (hi : Ids i j) {e e' : Expr} (he : Exprs e e') {s s' : Stmt} (hs : Stmts s s') :
    Stmts (.whileLoop i e s) (.whileLoop j e' s')
  funDecl {i j : NodeId} (hi : Ids i j) {t u : Token} (ht : Tokens t u) {ps ps' : List Token}
    (hp : Forall₂ Tokens ps ps') {ss ss' : List Stmt} (hs : Forall₂ Stmts ss ss') :
    Stmts (.funDecl i t ps ss) (.funDecl j u ps' ss')
  ret {i j : NodeId} (hi : Ids i j) {t u : Token} (ht : Tokens t u) {o o' : Option Expr}
    (ho : Option.Rel Exprs o o') : Stmts (.ret i t o) (.ret j u o')

namespace Trees

variable (T : Trees)

/-- Nodes of an operator belong together if their parts do. -/
def Builds (build : NodeId → Expr → Token → Expr → Expr) : Prop :=
  ∀ i j l l' t u r r', T.Ids i j → T.Exprs l l' → T.Tokens t u → T.Exprs r r' →
    T.Exprs (build i l t r) (build j l' u r')

theorem builds_binary : T.Builds .binary := fun _ _ _ _ _ _ _ _ hi hl ht hr => T.binary hi hl ht hr

theorem builds_logical : T.Builds .logical := fun _ _ _ _ _ _ _ _ hi hl ht hr => T.logical hi hl ht hr

end Trees

/-- The end of the input, or a token of one of the kinds. -/
def AtBorder (ends : Kind → Bool) : List Token → Prop
  | [] => True
  | t :: _ => ends t.kind = true

namespace AtBorder

variable {ends wanted : Kind → Bool} {s : State}

theorem accept (h : AtBorder ends s.rest) (hw : ∀ k, ends k = true → wanted k = false) :
    (accept wanted).run s = .ok none s := by
  rw [Grammar.accept, Deep.run_of]
  cases hs : s.rest with
  | nil => rfl
  | cons t r =>
    rw [hs] at h
    simp [hw t.kind h]

theorem expect (h : AtBorder ends s.rest) {kind : Kind} (hk : ends kind = false)
    (what : SyntaxError.Expected) : (expect kind what).run s = .error (s.blame (.expected what)) s := by
  rw [Grammar.expect, Deep.run_of]
  cases hs : s.rest with
  | nil => rfl
  | cons t r =>
    rw [hs] at h
    have hne : t.kind ≠ kind := fun heq => by rw [← heq, h] at hk; cases hk
    simp [hne]

theorem nextKind (h : AtBorder ends s.rest) : ∃ k, nextKind.run s = .ok k s ∧ (k = .eof ∨ ends k = true) := by
  rw [Grammar.nextKind, Deep.run_of]
  cases hs : s.rest with
  | nil => exact ⟨.eof, rfl, .inl rfl⟩
  | cons t r =>
    rw [hs] at h
    exact ⟨t.kind, rfl, .inr h⟩

end AtBorder

theorem accept_run {t : Token} {r : List Token} {s : State} (hs : s.rest = t :: r) (wanted : Kind → Bool) :
    (accept wanted).run s = if wanted t.kind then .ok (some t) (s.behind r) else .ok none s := by
  rw [accept, Deep.run_of, hs]

theorem expect_run {t : Token} {r : List Token} {s : State} (hs : s.rest = t :: r) (kind : Kind)
    (what : SyntaxError.Expected) : (expect kind what).run s =
      if t.kind = kind then .ok t (s.behind r) else .error (s.blame (.expected what)) s := by
  rw [expect, Deep.run_of, hs]

theorem nextKind_run {t : Token} {r : List Token} {s : State} (hs : s.rest = t :: r) :
    nextKind.run s = .ok t.kind s := by
  rw [nextKind, Deep.run_of, hs]

/-- The message quotes no token. -/
def isPlain : SyntaxError.Cause → Bool
  | .unsupported _ => false
  | _ => true

/-- What two states that belong together have in front of them. -/
inductive Heads (T : Trees) (States : State → State → Prop) (Blames : Blame → Blame → Prop)
    (ends : Kind → Bool) (s s' : State) : Prop where
  | token {t u : Token} {r r' : List Token} (hs : s.rest = t :: r) (hs' : s'.rest = u :: r')
    (ht : T.Tokens t u) (hbehind : States (s.behind r) (s'.behind r'))
    (hblame : ∀ c, isPlain c = true → Blames ⟨s.position, some t, c⟩ ⟨s'.position, some u, c⟩)
    (hreserved : Blames ⟨s.position, some t, .unsupported t.lexeme⟩
      ⟨s'.position, some u, .unsupported u.lexeme⟩)
  | border (hs : AtBorder ends s.rest) (hs' : AtBorder ends s'.rest)
    (hblame : ∀ c, isPlain c = true → Blames (s.blame c) (s'.blame c))

/-- States and complaints that belong together in two readings. -/
structure Parallel (T : Trees) where
  States : State → State → Prop
  Blames : Blame → Blame → Prop
  /-- Kinds of tokens at a border. -/
  ends : Kind → Bool
  heads {s s' : State} : States s s' → Heads T States Blames ends s s'
  ids {s s' : State} : States s s' → T.Ids s.nextId s'.nextId
  numbered {s s' : State} : States s s' →
    States { s with nextId := s.nextId + 1 } { s' with nextId := s'.nextId + 1 }
  complained {s s' : State} {b b' : Blame} : States s s' → Blames b b' →
    States { s with blames := s.blames.push b } { s' with blames := s'.blames.push b' }

namespace Parallel

variable {T : Trees} (P : Parallel T)

/-- The two readers end alike from states that belong together, and in such states. -/
abbrev Rel (Q : α → β → Prop) (x : Reader α) (y : Reader β) : Prop :=
  Tandem P.States P.States P.States P.Blames Q x y

/-- The states behind two tokens, which can still be complained about. -/
def Behind (t u : Token) (s s' : State) : Prop :=
  P.States s s' ∧ ∀ c, isPlain c = true → P.Blames ⟨s.position - 1, some t, c⟩ ⟨s'.position - 1, some u, c⟩

variable {P}

theorem Rel.behind {J : State → State → Prop} {Q : α → β → Prop} {x : Reader α} {y : Reader β}
    (h : Tandem P.States J P.States P.Blames Q x y) (t u : Token) :
    Tandem (P.Behind t u) J P.States P.Blames Q x y :=
  h.under fun _ _ hs => hs.1

variable (P)

/-! ## Operations on the state -/

/-- A complaint about what is next, whatever that is. -/
theorem blames_next {s s' : State} (h : P.States s s') {c : SyntaxError.Cause} (hc : isPlain c = true) :
    P.Blames (s.blame c) (s'.blame c) := by
  cases P.heads h with
  | token hs hs' _ _ hblame _ =>
    rw [State.blame, State.blame, hs, hs']
    exact hblame c hc
  | border _ _ hblame => exact hblame c hc

theorem rel_fail {J : State → State → Prop} {Q : α → β → Prop} {c : SyntaxError.Cause} (hc : isPlain c = true) :
    Tandem P.States J P.States P.Blames Q (fail c) (fail c) :=
  .of fun _ _ h => .error (P.blames_next h hc) h

theorem rel_node {Q : α → β → Prop} {f : NodeId → α} {g : NodeId → β}
    (h : ∀ i j, T.Ids i j → Q (f i) (g j)) : P.Rel Q (node f) (node g) :=
  .of fun _ _ hs => .ok (h _ _ (P.ids hs)) (P.numbered hs)

theorem rel_complain {b b' : Blame} (h : P.Blames b b') :
    P.Rel (fun _ _ => True) (complain b) (complain b') :=
  .of fun _ _ hs => .ok trivial (P.complained hs h)

theorem rel_blameTaken {t u : Token} {c : SyntaxError.Cause} (hc : isPlain c = true) :
    Tandem (P.Behind t u) P.States P.States P.Blames P.Blames (blameTaken t c) (blameTaken u c) :=
  .of fun _ _ hs => .ok (hs.2 c hc) hs.1

/-- A token is taken in both readings or in none. -/
theorem rel_accept {wanted : Kind → Bool} (hw : ∀ k, P.ends k = true → wanted k = false)
    {J : State → State → Prop} {Q : α → β → Prop} {f : Option Token → Reader α} {g : Option Token → Reader β}
    (hnone : Tandem P.States J P.States P.Blames Q (f none) (g none))
    (hsome : ∀ t u, T.Tokens t u → wanted t.kind = true →
      Tandem (P.Behind t u) J P.States P.Blames Q (f (some t)) (g (some u))) :
    Tandem P.States J P.States P.Blames Q (accept wanted >>= f) (accept wanted >>= g) := by
  intro s s' h
  rw [Deep.run_bind, Deep.run_bind]
  cases P.heads h with
  | border hs hs' _ =>
    rw [hs.accept hw, hs'.accept hw]
    exact hnone s s' h
  | @token t u r r' hs hs' ht hbehind hblame _ =>
    rw [accept_run hs, accept_run hs', ← T.kind_eq ht]
    cases hk : wanted t.kind with
    | false => exact hnone s s' h
    | true => exact hsome t u ht hk _ _ ⟨hbehind, hblame⟩

theorem rel_expect {kind : Kind} (hk : P.ends kind = false) (what : SyntaxError.Expected) :
    P.Rel T.Tokens (expect kind what) (expect kind what) := by
  intro s s' h
  cases P.heads h with
  | border hs hs' _ =>
    rw [hs.expect hk, hs'.expect hk]
    exact .error (P.blames_next h rfl) h
  | @token t u r r' hs hs' ht hbehind _ _ =>
    rw [expect_run hs, expect_run hs', ← T.kind_eq ht]
    split
    · exact .ok ht hbehind
    · exact .error (P.blames_next h rfl) h

/-- Both readings see a token of the same kind, or neither sees a token that counts. -/
theorem rel_nextKind {Q : α → β → Prop} {f : Kind → Reader α} {g : Kind → Reader β}
    (hsame : ∀ k, P.Rel Q (f k) (g k))
    (hborder : ∀ k k', k = .eof ∨ P.ends k = true → k' = .eof ∨ P.ends k' = true → P.Rel Q (f k) (g k')) :
    P.Rel Q (nextKind >>= f) (nextKind >>= g) := by
  intro s s' h
  rw [Deep.run_bind, Deep.run_bind]
  cases P.heads h with
  | border hs hs' _ =>
    obtain ⟨k, hrun, hk⟩ := hs.nextKind
    obtain ⟨k', hrun', hk'⟩ := hs'.nextKind
    rw [hrun, hrun']
    exact hborder k k' hk hk' s s' h
  | token hs hs' ht _ _ _ =>
    rw [nextKind_run hs, nextKind_run hs', ← T.kind_eq ht]
    exact hsame _ s s' h

end Parallel

/-! ## Expressions -/

/-- Kinds of tokens that no expression has. -/
def endsExpression : Kind → Bool
  | .semicolon | .leftBrace | .rightBrace | .kwFun | .kwVar | .kwFor | .kwIf | .kwElse | .kwWhile | .kwPrint
  | .kwReturn => true
  | _ => false

theorem endsExpression.not_reserved {k : Kind} (h : endsExpression k = true) : k.isReserved = false := by
  cases k with
  | kwClass | kwSuper | kwThis => cases h
  | _ => rfl

theorem endsExpression.not_unaryOp {k : Kind} (h : endsExpression k = true) : isUnaryOp k = false := by
  cases k with
  | bang | minus => cases h
  | _ => rfl

theorem AtBorder.noExpression {s : State} (h : AtBorder endsExpression s.rest) :
    (noExpression : Reader α).run s = .error (s.blame (.expected .expression)) s := by
  rw [Grammar.noExpression, Deep.run_bind, next?, Deep.run_of]
  cases hs : s.rest with
  | nil => rfl
  | cons t r =>
    rw [hs] at h
    simp [Ending.fold, endsExpression.not_reserved h, fail]

theorem AtBorder.unaryOps {ts : List Token} (h : AtBorder endsExpression ts) (taken : List Token) :
    unaryOps taken ts = (taken, ts) := by
  cases ts with
  | nil => rfl
  | cons t r =>
    have hk : isUnaryOp t.kind = false := endsExpression.not_unaryOp h
    simp [Grammar.unaryOps, hk]

namespace Parallel

variable {T : Trees} (P : Parallel T) (hP : ∀ k, P.ends k = true → endsExpression k = true)

section
include hP

theorem border_mono {ts : List Token} (h : AtBorder P.ends ts) : AtBorder endsExpression ts := by
  cases ts with
  | nil => trivial
  | cons t r => exact hP t.kind h

theorem rel_noExpression {Q : α → β → Prop} : P.Rel Q noExpression noExpression := by
  intro s s' h
  cases P.heads h with
  | border hs hs' _ =>
    rw [(P.border_mono hP hs).noExpression, (P.border_mono hP hs').noExpression]
    exact .error (P.blames_next h rfl) h
  | @token t u r r' hs hs' ht _ _ hreserved =>
    rw [noExpression, noExpression, Deep.run_bind, Deep.run_bind, next?, Deep.run_of, Deep.run_of, hs, hs']
    simp only [Ending.fold, List.head?_cons, ← T.kind_eq ht]
    split
    · rw [fail, fail, Deep.run_of, Deep.run_of, State.blame, State.blame, hs, hs']
      exact .error hreserved h
    · exact P.rel_fail rfl s s' h

/-- Takes a token that an expression can have. -/
theorem rel_take {wanted : Kind → Bool} (hw : ∀ k, endsExpression k = true → wanted k = false)
    {J : State → State → Prop} {Q : α → β → Prop} {f : Option Token → Reader α} {g : Option Token → Reader β}
    (hnone : Tandem P.States J P.States P.Blames Q (f none) (g none))
    (hsome : ∀ t u, T.Tokens t u → wanted t.kind = true →
      Tandem (P.Behind t u) J P.States P.Blames Q (f (some t)) (g (some u))) :
    Tandem P.States J P.States P.Blames Q (accept wanted >>= f) (accept wanted >>= g) :=
  P.rel_accept (fun k hk => hw k (hP k hk)) hnone hsome

theorem rel_demand {kind : Kind} (hk : endsExpression kind = false) (what : SyntaxError.Expected) :
    P.Rel T.Tokens (expect kind what) (expect kind what) := by
  apply P.rel_expect
  apply eq_false_of_ne_true
  intro hends
  rw [hP kind hends] at hk
  cases hk

theorem rel_commaSeparated {item : Reader α} {item' : Reader β} {Q : α → β → Prop} (hi : P.Rel Q item item')
    (b : Nat) (done : Array α) (done' : Array β) (hdone : Forall₂ Q done.toList done'.toList) :
    P.Rel (Forall₂ Q) (commaSeparated item b done) (commaSeparated item' b done') := by
  induction b generalizing done done' with
  | zero => exact P.rel_fail rfl
  | succ b ih =>
    rw [commaSeparated, commaSeparated]
    refine hi.bind fun a a' ha => ?_
    have hmore : Forall₂ Q (done.push a).toList (done'.push a').toList := by
      rw [Array.toList_push, Array.toList_push]
      exact List.rel_append hdone (.cons ha .nil)
    refine P.rel_take hP (by intro k; cases k <;> decide) (.pure hmore) fun _ _ _ _ => ?_
    exact Rel.behind (Tandem.pause.bind fun _ _ _ => ih _ _ hmore) _ _

theorem rel_parenthesized {item : Reader α} {item' : Reader β} {Q : α → β → Prop} (hi : P.Rel Q item item')
    (b : Nat) : P.Rel (Forall₂ Q) (parenthesized item b) (parenthesized item' b) := by
  have hsome := P.rel_commaSeparated hP hi b #[] #[] .nil
  have hother (k : Kind) (hk : k = .eof ∨ P.ends k = true) : k ≠ .rightParen := by
    rintro rfl
    rcases hk with hk | hk
    · cases hk
    · cases hP _ hk
  rw [parenthesized, parenthesized]
  refine P.rel_nextKind (fun k => ?_) fun k k' hk hk' => ?_
  · split
    · exact .pure .nil
    · exact hsome
  · split
    · exact absurd rfl (hother _ hk)
    · split
      · exact absurd rfl (hother _ hk')
      · exact hsome

/-- Both readings have the same number of unary operators in front of them. -/
theorem states_unaryOps {s s' : State} (h : P.States s s') (taken taken' : List Token) :
    ∃ ops ops', (unaryOps taken s.rest).1 = ops ++ taken ∧ (unaryOps taken' s'.rest).1 = ops' ++ taken' ∧
      Forall₂ T.Tokens ops ops' ∧
      P.States { s with rest := (unaryOps taken s.rest).2, position := s.position + ops.length }
        { s' with rest := (unaryOps taken' s'.rest).2, position := s'.position + ops'.length } := by
  obtain ⟨n, hn⟩ : ∃ n, s.rest.length = n := ⟨_, rfl⟩
  induction n using Nat.strongRecOn generalizing s s' taken taken' with
  | ind n ih =>
    cases P.heads h with
    | border hs hs' _ =>
      rw [(P.border_mono hP hs).unaryOps, (P.border_mono hP hs').unaryOps]
      exact ⟨[], [], rfl, rfl, .nil, h⟩
    | @token t u r r' hs hs' ht hbehind _ _ =>
      have hless : r.length < n := by
        rw [← hn, hs]
        exact Nat.lt_succ_self _
      rw [hs, hs', unaryOps, unaryOps, ← T.kind_eq ht]
      split
      · obtain ⟨ops, ops', hops, hops', htokens, hstates⟩ :=
          ih r.length hless hbehind (t :: taken) (u :: taken') rfl
        refine ⟨ops ++ [t], ops' ++ [u], ?_, ?_, List.rel_append htokens (.cons ht .nil), ?_⟩
        · rw [List.append_assoc]
          exact hops
        · rw [List.append_assoc]
          exact hops'
        · simpa [State.behind, Nat.add_assoc, Nat.add_comm 1] using hstates
      · refine ⟨[], [], rfl, rfl, .nil, ?_⟩
        rw [← hs, ← hs']
        exact h

theorem rel_takeUnaryOps : P.Rel (Forall₂ T.Tokens) takeUnaryOps takeUnaryOps := by
  refine .of fun s s' h => ?_
  obtain ⟨ops, ops', hops, hops', htokens, hstates⟩ := P.states_unaryOps hP h [] []
  rw [List.append_nil] at hops hops'
  dsimp only
  rw [hops, hops']
  exact .ok htokens hstates

end

theorem rel_wrapUnary {ops ops' : List Token} (hops : Forall₂ T.Tokens ops ops') {e e' : Expr}
    (he : T.Exprs e e') : P.Rel T.Exprs (wrapUnary ops e) (wrapUnary ops' e') := by
  induction hops generalizing e e' with
  | nil => exact .pure he
  | cons ht _ ih =>
    rw [wrapUnary, wrapUnary]
    refine (P.rel_node fun i j hi => T.unary hi ht he).bind fun e e' he => ?_
    exact Tandem.pause.bind fun _ _ _ => ih he

theorem rel_literalOf {t u : Token} (ht : T.Tokens t u) :
    Tandem (P.Behind t u) P.States P.States P.Blames T.Exprs (literalOf t) (literalOf u) := by
  have hcarries := T.carries ht
  unfold literalOf
  cases hv : t.literal with
  | none =>
    rw [hv] at hcarries
    rw [Option.isSome_eq_false_iff.1 hcarries.symm |> Option.isNone_iff_eq_none.1]
    exact (P.rel_blameTaken rfl).bind fun b b' hb => .throw hb
  | some v =>
    rw [hv] at hcarries
    obtain ⟨w, hw⟩ := Option.isSome_iff_exists.1 hcarries.symm
    rw [hw]
    exact Rel.behind (P.rel_node fun i j hi => T.literal hi ht hv hw) t u

section
variable {nested nested' : Reader Expr} (hn : P.Rel T.Exprs nested nested')
include hP hn

theorem rel_primary : P.Rel T.Exprs (primary nested) (primary nested') := by
  refine P.rel_take hP (by intro k; cases k <;> decide) (P.rel_noExpression hP) fun t u ht _ => ?_
  dsimp only
  rw [← T.kind_eq ht]
  split
  · exact Rel.behind (P.rel_node fun i j hi => T.boolean hi _) t u
  · exact Rel.behind (P.rel_node fun i j hi => T.boolean hi _) t u
  · exact Rel.behind (P.rel_node fun i j hi => T.nil hi) t u
  · exact Rel.behind (P.rel_node fun i j hi => T.var hi ht) t u
  · refine Rel.behind (hn.bind fun e e' he => (P.rel_demand hP rfl _).bind fun _ _ _ => ?_) t u
    exact P.rel_node fun i j hi => T.grouping hi he
  · exact P.rel_literalOf ht

theorem rel_calls (b : Nat) {e e' : Expr} (he : T.Exprs e e') :
    P.Rel T.Exprs (calls nested b e) (calls nested' b e') := by
  induction b generalizing e e' with
  | zero => exact P.rel_fail rfl
  | succ b ih =>
    rw [calls, calls]
    refine P.rel_take hP (by intro k; cases k <;> decide) (.pure he) fun t u _ _ => Rel.behind ?_ t u
    refine (P.rel_parenthesized hP hn b).bind fun as as' ha => (P.rel_demand hP rfl _).bind fun t u ht => ?_
    refine (P.rel_node fun i j hi => T.call hi he ht ha).bind fun e e' he => ?_
    exact Tandem.pause.bind fun _ _ _ => ih he

theorem rel_call (b : Nat) : P.Rel T.Exprs (call nested b) (call nested' b) :=
  (P.rel_primary hP hn).bind fun _ _ he => P.rel_calls hP hn b he

theorem rel_unary (b : Nat) : P.Rel T.Exprs (unary nested b) (unary nested' b) :=
  (P.rel_takeUnaryOps hP).bind fun _ _ hops => (P.rel_call hP hn b).bind fun _ _ he => P.rel_wrapUnary hops he

end

section
include hP

theorem rel_chain {isOp : Kind → Bool} (hop : ∀ k, endsExpression k = true → isOp k = false)
    {build : NodeId → Expr → Token → Expr → Expr} (hbuild : T.Builds build)
    {operand operand' : Reader Expr} (ho : P.Rel T.Exprs operand operand') (b : Nat) {l l' : Expr}
    (hl : T.Exprs l l') : P.Rel T.Exprs (chain isOp build operand b l) (chain isOp build operand' b l') := by
  induction b generalizing l l' with
  | zero => exact P.rel_fail rfl
  | succ b ih =>
    rw [chain, chain]
    refine P.rel_take hP hop (.pure hl) fun t u ht _ => Rel.behind ?_ t u
    refine ho.bind fun r r' hr => ?_
    refine (P.rel_node fun i j hi => hbuild i j l l' t u r r' hi hl ht hr).bind fun e e' he => ?_
    exact Tandem.pause.bind fun _ _ _ => ih he

theorem rel_level {isOp : Kind → Bool} (hop : ∀ k, endsExpression k = true → isOp k = false)
    {build : NodeId → Expr → Token → Expr → Expr} (hbuild : T.Builds build)
    {operand operand' : Reader Expr} (ho : P.Rel T.Exprs operand operand') (b : Nat) :
    P.Rel T.Exprs (level isOp build operand b) (level isOp build operand' b) :=
  ho.bind fun _ _ hl => P.rel_chain hP hop hbuild ho b hl

theorem rel_disjunction {nested nested' : Reader Expr} (hn : P.Rel T.Exprs nested nested') (b : Nat) :
    P.Rel T.Exprs (disjunction nested b) (disjunction nested' b) := by
  unfold disjunction conjunction equality comparison term factor
  refine P.rel_level hP (by intro k; cases k <;> decide) T.builds_logical ?_ b
  refine P.rel_level hP (by intro k; cases k <;> decide) T.builds_logical ?_ b
  refine P.rel_level hP (by intro k; cases k <;> decide) T.builds_binary ?_ b
  refine P.rel_level hP (by intro k; cases k <;> decide) T.builds_binary ?_ b
  refine P.rel_level hP (by intro k; cases k <;> decide) T.builds_binary ?_ b
  refine P.rel_level hP (by intro k; cases k <;> decide) T.builds_binary ?_ b
  exact P.rel_unary hP hn b

theorem rel_assignment {nested nested' : Reader Expr} (hn : P.Rel T.Exprs nested nested') (b : Nat) :
    P.Rel T.Exprs (assignment nested b) (assignment nested' b) := by
  rw [assignment, assignment]
  refine (P.rel_disjunction hP hn b).bind fun e e' he => ?_
  refine P.rel_take hP (by intro k; cases k <;> decide) (.pure he) fun t u ht _ => ?_
  refine (P.rel_blameTaken rfl).bind fun c c' hc => hn.bind fun v v' hv => ?_
  rcases T.target he with ⟨i, j, x, y, rfl, rfl, hxy⟩ | ⟨hne, hne'⟩
  · exact P.rel_node fun i j hi => T.assign hi hxy hv
  · split
    · exact absurd rfl (hne _ _)
    · exact (P.rel_complain hc).bind fun _ _ _ => .pure he

/-- Expressions leave off at a border at the latest, so they are read alike. -/
theorem rel_expression (b : Nat) : P.Rel T.Exprs (expression b) (expression b) := by
  induction b with
  | zero => exact P.rel_fail rfl
  | succ b ih =>
    rw [expression]
    exact .later (P.rel_assignment hP ih b)

end
end Parallel

/-! ## Statements -/

namespace Parallel

variable {T : Trees} (P : Parallel T) (hends : ∀ k, P.ends k = false)

section
include hends

theorem rest_eq_nil {ts : List Token} (h : AtBorder P.ends ts) : ts = [] := by
  cases ts with
  | nil => rfl
  | cons t r =>
    have hk : P.ends t.kind = true := h
    rw [hends] at hk
    cases hk

theorem rel_takeAny {wanted : Kind → Bool} {Q : α → β → Prop} {f : Option Token → Reader α}
    {g : Option Token → Reader β} (hnone : P.Rel Q (f none) (g none))
    (hsome : ∀ t u, T.Tokens t u → wanted t.kind = true → P.Rel Q (f (some t)) (g (some u))) :
    P.Rel Q (accept wanted >>= f) (accept wanted >>= g) := by
  refine P.rel_accept (fun k hk => ?_) hnone fun t u ht hw => Rel.behind (hsome t u ht hw) t u
  rw [hends] at hk
  cases hk

theorem rel_peekKind {Q : α → β → Prop} {f : Kind → Reader α} {g : Kind → Reader β}
    (h : ∀ k, P.Rel Q (f k) (g k)) : P.Rel Q (nextKind >>= f) (nextKind >>= g) := by
  have heof (k : Kind) (hk : k = .eof ∨ P.ends k = true) : k = .eof := by
    rw [hends] at hk
    simpa using hk
  refine P.rel_nextKind h fun k k' hk hk' => ?_
  rw [heof k hk, heof k' hk']
  exact h .eof

theorem rel_peek {Q : α → β → Prop} {f : Option Token → Reader α} {g : Option Token → Reader β}
    (hnone : P.Rel Q (f none) (g none))
    (hsome : ∀ t u, T.Tokens t u → P.Rel Q (f (some t)) (g (some u))) :
    P.Rel Q (next? >>= f) (next? >>= g) := by
  intro s s' h
  rw [Deep.run_bind, Deep.run_bind, next?, Deep.run_of, Deep.run_of]
  cases P.heads h with
  | border hs hs' _ =>
    rw [P.rest_eq_nil hends hs, P.rest_eq_nil hends hs']
    exact hnone s s' h
  | token hs hs' ht _ _ _ =>
    rw [hs, hs']
    exact hsome _ _ ht s s' h

theorem rel_anyExpression (b : Nat) : P.Rel T.Exprs (expression b) (expression b) :=
  P.rel_expression (fun k hk => by rw [hends] at hk; cases hk) b

/-- Skipping takes the same number of tokens in both readings. -/
theorem states_skipStatement {s s' : State} (h : P.States s s') (n : Nat) :
    ∃ k, (skipStatement n s.rest).2 = n + k ∧ (skipStatement n s'.rest).2 = n + k ∧
      P.States { s with rest := (skipStatement n s.rest).1, position := s.position + k }
        { s' with rest := (skipStatement n s'.rest).1, position := s'.position + k } := by
  obtain ⟨l, hl⟩ : ∃ l, s.rest.length = l := ⟨_, rfl⟩
  induction l using Nat.strongRecOn generalizing s s' n with
  | ind l ih =>
    cases P.heads h with
    | border hs hs' _ =>
      have hnil := P.rest_eq_nil hends hs
      have hnil' := P.rest_eq_nil hends hs'
      cases s
      cases s'
      cases hnil
      cases hnil'
      exact ⟨0, rfl, rfl, h⟩
    | @token t u r r' hs hs' ht hbehind _ _ =>
      have hless : r.length < l := by
        rw [← hl, hs]
        exact Nat.lt_succ_self _
      cases P.heads hbehind with
      | border hr hr' _ =>
        have hnil : r = [] := P.rest_eq_nil hends hr
        have hnil' : r' = [] := P.rest_eq_nil hends hr'
        subst hnil hnil'
        rw [hs, hs']
        exact ⟨1, rfl, rfl, hbehind⟩
      | @token v w q q' hr hr' hv _ _ _ =>
        obtain rfl : r = v :: q := hr
        obtain rfl : r' = w :: q' := hr'
        rw [hs, hs', skipStatement, skipStatement, ← T.kind_eq ht, ← T.kind_eq hv]
        split
        · exact ⟨1, rfl, rfl, hbehind⟩
        · obtain ⟨k, hk, hk', hstates⟩ := ih _ hless hbehind (n + 1) rfl
          refine ⟨k + 1, ?_, ?_, ?_⟩
          · exact hk.trans (by omega)
          · exact hk'.trans (by omega)
          · simpa [State.behind, Nat.add_assoc, Nat.add_comm 1] using hstates

theorem rel_resume : P.Rel (fun _ _ => True) resume resume := by
  refine .of fun s s' h => ?_
  obtain ⟨k, hk, hk', hstates⟩ := P.states_skipStatement hends h 0
  rw [Nat.zero_add] at hk hk'
  dsimp only
  rw [hk, hk']
  exact .ok trivial hstates

theorem rel_recovering {x y : Reader Stmt} (h : P.Rel T.Stmts x y) :
    P.Rel (Option.Rel T.Stmts) (recovering x) (recovering y) := by
  refine (h.map fun _ _ => .some).tryCatch fun b b' hb => ?_
  exact (P.rel_complain hb).bind fun _ _ _ => (P.rel_resume hends).bind fun _ _ _ => .pure .none

theorem rel_optionalExpression (absent : Kind) (b : Nat) :
    P.Rel (Option.Rel T.Exprs) (optionalExpression absent b) (optionalExpression absent b) := by
  refine P.rel_peekKind hends fun k => ?_
  split
  · exact .pure .none
  · exact (P.rel_anyExpression hends b).bind fun _ _ he => .pure (.some he)

theorem rel_variableDeclaration (b : Nat) :
    P.Rel T.Stmts (variableDeclaration b) (variableDeclaration b) := by
  have hend {t u : Token} (ht : T.Tokens t u) {o o' : Option Expr} (ho : Option.Rel T.Exprs o o') :
      P.Rel T.Stmts (do
        let _ ← expect .semicolon .semicolonAfterDeclaration
        node (Stmt.varDecl · t o)) (do
        let _ ← expect .semicolon .semicolonAfterDeclaration
        node (Stmt.varDecl · u o')) :=
    (P.rel_expect (hends _) _).bind fun _ _ _ => P.rel_node fun i j hi => T.varDecl hi ht ho
  refine (P.rel_expect (hends _) _).bind fun t u ht => P.rel_takeAny hends ?_ fun _ _ _ _ => ?_
  · exact hend ht .none
  · exact ((P.rel_anyExpression hends b).map fun _ _ => .some).bind fun _ _ ho => hend ht ho

theorem rel_expressionStatement (b : Nat) :
    P.Rel T.Stmts (expressionStatement b) (expressionStatement b) :=
  (P.rel_anyExpression hends b).bind fun _ _ he => (P.rel_expect (hends _) _).bind fun _ _ _ =>
    P.rel_node fun _ _ hi => T.expression hi he

theorem rel_printStatement (b : Nat) : P.Rel T.Stmts (printStatement b) (printStatement b) :=
  (P.rel_anyExpression hends b).bind fun _ _ he => (P.rel_expect (hends _) _).bind fun _ _ _ =>
    P.rel_node fun _ _ hi => T.print hi he

theorem rel_returnStatement {t u : Token} (ht : T.Tokens t u) (b : Nat) :
    P.Rel T.Stmts (returnStatement t b) (returnStatement u b) :=
  (P.rel_optionalExpression hends _ b).bind fun _ _ ho => (P.rel_expect (hends _) _).bind fun _ _ _ =>
    P.rel_node fun _ _ hi => T.ret hi ht ho

theorem rel_forInitializer (b : Nat) :
    P.Rel (Option.Rel T.Stmts) (forInitializer b) (forInitializer b) := by
  refine P.rel_peekKind hends fun k => ?_
  split
  · exact P.rel_takeAny hends (.pure .none) fun _ _ _ _ => .pure .none
  · have hvar : P.Rel (Option.Rel T.Stmts) (do return some (← variableDeclaration b))
        (do return some (← variableDeclaration b)) :=
      (P.rel_variableDeclaration hends b).bind fun _ _ hs => .pure (.some hs)
    exact P.rel_takeAny hends hvar fun _ _ _ _ => hvar
  · exact (P.rel_expressionStatement hends b).bind fun _ _ hs => .pure (.some hs)

end

theorem rel_desugarFor {init init' : Option Stmt} (hinit : Option.Rel T.Stmts init init')
    {condition condition' : Option Expr} (hc : Option.Rel T.Exprs condition condition')
    {increment increment' : Option Expr} (hn : Option.Rel T.Exprs increment increment') {body body' : Stmt}
    (hb : T.Stmts body body') :
    P.Rel T.Stmts (desugarFor init condition increment body) (desugarFor init' condition' increment' body') := by
  have hloop {e e' : Expr} (he : T.Exprs e e') {s s' : Stmt} (hs : T.Stmts s s') :
      P.Rel T.Stmts (desugarFor init (some e) none s) (desugarFor init' (some e') none s') := by
    refine Tandem.bind (Q := T.Stmts) (.pure hs) fun s s' hs => ?_
    refine Tandem.bind (Q := T.Exprs) (.pure he) fun e e' he => ?_
    refine (P.rel_node fun i j hi => T.whileLoop hi he hs).bind fun l l' hl => ?_
    cases hinit with
    | none => exact .pure hl
    | some hinit => exact P.rel_node fun i j hi => T.block hi (.cons hinit (.cons hl .nil))
  have hcondition {s s' : Stmt} (hs : T.Stmts s s') :
      P.Rel T.Stmts (desugarFor init condition none s) (desugarFor init' condition' none s') := by
    cases hc with
    | none =>
      refine Tandem.bind (Q := T.Stmts) (.pure hs) fun s s' hs => ?_
      exact (P.rel_node fun i j hi => T.boolean hi _).bind fun e e' he => hloop he hs
    | some he => exact hloop he hs
  cases hn with
  | none => exact hcondition hb
  | some he =>
    refine (P.rel_node fun i j hi => T.expression hi he).bind fun l l' hl => ?_
    refine (P.rel_node fun i j hi => T.block hi (.cons hb (.cons hl .nil))).bind fun s s' hs => ?_
    exact hcondition hs

section
variable {statement statement' : Reader Stmt} (hs : P.Rel T.Stmts statement statement')
include hends hs

theorem rel_whileStatement (b : Nat) :
    P.Rel T.Stmts (whileStatement statement b) (whileStatement statement' b) := by
  refine (P.rel_expect (hends _) _).bind fun _ _ _ => (P.rel_anyExpression hends b).bind fun _ _ he => ?_
  refine (P.rel_expect (hends _) _).bind fun _ _ _ => hs.bind fun _ _ hbody => ?_
  exact P.rel_node fun i j hi => T.whileLoop hi he hbody

theorem rel_ifStatement (b : Nat) : P.Rel T.Stmts (ifStatement statement b) (ifStatement statement' b) := by
  refine (P.rel_expect (hends _) _).bind fun _ _ _ => (P.rel_anyExpression hends b).bind fun _ _ he => ?_
  refine (P.rel_expect (hends _) _).bind fun _ _ _ => hs.bind fun _ _ hyes => ?_
  refine P.rel_takeAny hends (P.rel_node fun i j hi => T.ifThen hi he hyes) fun _ _ _ _ => ?_
  exact hs.bind fun _ _ hno => P.rel_node fun i j hi => T.ifElse hi he hyes hno

theorem rel_forStatement (b : Nat) :
    P.Rel T.Stmts (forStatement statement b) (forStatement statement' b) := by
  refine (P.rel_expect (hends _) _).bind fun _ _ _ => (P.rel_forInitializer hends b).bind fun _ _ hinit => ?_
  refine (P.rel_optionalExpression hends _ b).bind fun _ _ hc => (P.rel_expect (hends _) _).bind fun _ _ _ => ?_
  refine (P.rel_optionalExpression hends _ b).bind fun _ _ hn => (P.rel_expect (hends _) _).bind fun _ _ _ => ?_
  exact hs.bind fun _ _ hbody => P.rel_desugarFor hinit hc hn hbody

end

section
variable {declaration declaration' : Reader (Option Stmt)}
  (hd : P.Rel (Option.Rel T.Stmts) declaration declaration')
include hends hd

theorem rel_declarations (closing : Kind → Bool) (b : Nat) (done done' : Array Stmt)
    (hdone : Forall₂ T.Stmts done.toList done'.toList) :
    P.Rel (Forall₂ T.Stmts) (declarations closing declaration b done)
      (declarations closing declaration' b done') := by
  induction b generalizing done done' with
  | zero => exact P.rel_fail rfl
  | succ b ih =>
    rw [declarations, declarations]
    refine P.rel_peek hends (.pure hdone) fun t u ht => ?_
    dsimp only
    rw [← T.kind_eq ht]
    split
    · exact .pure hdone
    · refine hd.bind fun o o' ho => ?_
      cases ho with
      | none => exact ih done done' hdone
      | some hs =>
        apply ih
        rw [Array.toList_push, Array.toList_push]
        exact List.rel_append hdone (.cons hs .nil)

theorem rel_blockBody (b : Nat) :
    P.Rel (Forall₂ T.Stmts) (blockBody declaration b) (blockBody declaration' b) :=
  (P.rel_declarations hends hd _ b #[] #[] .nil).bind fun _ _ hss =>
    (P.rel_expect (hends _) _).bind fun _ _ _ => .pure hss

theorem rel_functionDeclaration (b : Nat) :
    P.Rel T.Stmts (functionDeclaration declaration b) (functionDeclaration declaration' b) := by
  have hexpr (k : Kind) (hk : P.ends k = true) : endsExpression k = true := by rw [hends] at hk; cases hk
  refine (P.rel_expect (hends _) _).bind fun _ _ ht => (P.rel_expect (hends _) _).bind fun _ _ _ => ?_
  refine (P.rel_parenthesized hexpr (P.rel_expect (hends _) _) b).bind fun _ _ hps => ?_
  refine (P.rel_expect (hends _) _).bind fun _ _ _ => (P.rel_expect (hends _) _).bind fun _ _ _ => ?_
  exact (P.rel_blockBody hends hd b).bind fun _ _ hss => P.rel_node fun i j hi => T.funDecl hi ht hps hss

variable {statement statement' : Reader Stmt} (hs : P.Rel T.Stmts statement statement')
include hs

theorem rel_statementForm (b : Nat) :
    P.Rel T.Stmts (statementForm declaration statement b) (statementForm declaration' statement' b) := by
  refine P.rel_takeAny hends (P.rel_expressionStatement hends b) fun t u ht _ => ?_
  dsimp only
  rw [← T.kind_eq ht]
  split
  · exact P.rel_forStatement hends hs b
  · exact P.rel_ifStatement hends hs b
  · exact P.rel_printStatement hends b
  · exact P.rel_returnStatement hends ht b
  · exact P.rel_whileStatement hends hs b
  · exact (P.rel_blockBody hends hd b).bind fun _ _ hss => P.rel_node fun i j hi => T.block hi hss

theorem rel_declarationForm (b : Nat) :
    P.Rel T.Stmts (declarationForm declaration statement b) (declarationForm declaration' statement' b) := by
  refine P.rel_peekKind hends fun k => ?_
  split
  · have hfun := P.rel_functionDeclaration hends hd b
    exact P.rel_takeAny hends hfun fun _ _ _ _ => hfun
  · have hvar := P.rel_variableDeclaration hends b
    exact P.rel_takeAny hends hvar fun _ _ _ _ => hvar
  · exact P.rel_noExpression fun k hk => by rw [hends] at hk; cases hk
  · exact hs

end

/-- Statements and declarations are read alike if both readings come to their ends at once. -/
theorem rel_statement_declaration (hends : ∀ k, P.ends k = false) (b : Nat) :
    P.Rel T.Stmts (statement b) (statement b) ∧
      P.Rel (Option.Rel T.Stmts) (declaration b) (declaration b) := by
  induction b with
  | zero => exact ⟨P.rel_fail rfl, P.rel_fail rfl⟩
  | succ b ih =>
    refine ⟨.later (P.rel_statementForm hends ih.2 ih.1 b), .later ?_⟩
    exact P.rel_recovering hends (P.rel_declarationForm hends ih.2 ih.1 b)

end Parallel
end Lox.Grammar
