import Lox.Grammar.Program
import Lox.Proofs.Grammar.Canonical

/-!
# Which tokens spell which trees

`Spells f i ts j` relates a part `f` of a tree to the tokens `ts` that it is read from. Its nodes
are numbered in the order in which reading builds them, from `i` up to but not including `j`. There
is one constructor for each way of reading, so the relation is the grammar with trees attached; it
does not mention readers, bounds or complaints.

**Open statements.** A statement is spelled as open if an `else` behind it would belong to an `if`
in it. A statement in front of an `else` is not open, which takes the ambiguity out of the grammar.

**Results.**
* `spells_first`: what a declaration, a statement or an expression starts with.
* `spells_attach_else`: an `else` with a branch can be put behind every open statement.
-/
namespace Lox.Grammar

open Token (Kind)

/-- A part of a tree, by the place in the grammar where it stands. -/
inductive Form where
  | expr (e : Expr)
  /-- Arguments with commas between them. -/
  | args (es : List Expr)
  /-- Parameters with commas between them. -/
  | params (ps : List Token)
  /-- An expression that may be missing. -/
  | maybe (o : Option Expr)
  | varDecl (s : Stmt)
  | exprStmt (s : Stmt)
  /-- What a `for` loop starts with, up to its first semicolon. -/
  | start (o : Option Stmt)
  | stmt (isOpen : Bool) (s : Stmt)
  | decl (s : Stmt)
  /-- Declarations one after the other. -/
  | body (ss : List Stmt)

/-- The tree of a `for` loop whose parts have been read, with nodes numbered from `n` on, and the
number behind them. -/
def forTree (init : Option Stmt) (condition increment : Option Expr) (body : Stmt) (n : NodeId) :
    Stmt × NodeId :=
  let (body, n) := match increment with
    | none => (body, n)
    | some step => (.block (n + 1) [body, .expression n step], n + 2)
  let (condition, n) := match condition with
    | none => (.literal n (.boolean true), n + 1)
    | some c => (c, n)
  match init with
  | none => (.whileLoop n condition body, n + 1)
  | some init => (.block (n + 1) [init, .whileLoop n condition body], n + 2)

/-- `desugarFor` builds the tree of the loop. -/
theorem run_desugarFor (init : Option Stmt) (condition increment : Option Expr) (body : Stmt)
    (s : State) : (desugarFor init condition increment body).run s =
      .ok (forTree init condition increment body s.nextId).1
        { s with nextId := (forTree init condition increment body s.nextId).2 } := by
  cases init <;> cases condition <;> cases increment <;> rfl

/-- The tokens spell a part of a tree, whose nodes are numbered from the first number up to the
second. -/
inductive Spells : Form → NodeId → List Token → NodeId → Prop where
  | literal {i v t} (h : t.constant? = some v) : Spells (.expr (.literal i v)) i [t] (i + 1)
  | var {i t} (h : t.kind = .identifier) : Spells (.expr (.var i t)) i [t] (i + 1)
  | grouping {i j e ts l r} (hl : l.kind = .leftParen) (he : Spells (.expr e) i ts j)
      (hr : r.kind = .rightParen) :
      Spells (.expr (.grouping j e)) i (l :: (ts ++ [r])) (j + 1)
  | call {i j k f es ts us l r} (hf : Level.call ≤ f.level) (hc : Spells (.expr f) i ts j)
      (hl : l.kind = .leftParen) (ha : Spells (.args es) j us k) (hr : r.kind = .rightParen) :
      Spells (.expr (.call k f r es)) i (ts ++ l :: (us ++ [r])) (k + 1)
  | unary {i j e ts op} (hop : isUnaryOp op.kind = true) (hl : Level.unary ≤ e.level)
      (he : Spells (.expr e) i ts j) : Spells (.expr (.unary j op e)) i (op :: ts) (j + 1)
  | binary {i j k l r ts us op} (hm : Level.equality ≤ Level.ofOperator op.kind)
      (hll : Level.ofOperator op.kind ≤ l.level) (hlr : Level.ofOperator op.kind < r.level)
      (hl : Spells (.expr l) i ts j) (hr : Spells (.expr r) j us k) :
      Spells (.expr (.binary k l op r)) i (ts ++ op :: us) (k + 1)
  | logical {i j k l r ts us op} (hp : 0 < Level.ofOperator op.kind)
      (hm : Level.ofOperator op.kind < Level.equality)
      (hll : Level.ofOperator op.kind ≤ l.level) (hlr : Level.ofOperator op.kind < r.level)
      (hl : Spells (.expr l) i ts j) (hr : Spells (.expr r) j us k) :
      Spells (.expr (.logical k l op r)) i (ts ++ op :: us) (k + 1)
  | assign {i j name sign e ts} (hn : name.kind = .identifier) (hs : sign.kind = .equal)
      (he : Spells (.expr e) (i + 1) ts j) :
      Spells (.expr (.assign j name e)) i (name :: sign :: ts) (j + 1)
  | argsNil {i} : Spells (.args []) i [] i
  | argsOne {i j e ts} (he : Spells (.expr e) i ts j) : Spells (.args [e]) i ts j
  | argsCons {i j k e e' es ts us c} (he : Spells (.expr e) i ts j) (hc : c.kind = .comma)
      (hs : Spells (.args (e' :: es)) j us k) : Spells (.args (e :: e' :: es)) i (ts ++ c :: us) k
  | paramsNil {i} : Spells (.params []) i [] i
  | paramsOne {i p} (hp : p.kind = .identifier) : Spells (.params [p]) i [p] i
  | paramsCons {i p p' ps ts c} (hp : p.kind = .identifier) (hc : c.kind = .comma)
      (hs : Spells (.params (p' :: ps)) i ts i) : Spells (.params (p :: p' :: ps)) i (p :: c :: ts) i
  | absent {i} : Spells (.maybe none) i [] i
  | present {i j e ts} (he : Spells (.expr e) i ts j) : Spells (.maybe (some e)) i ts j
  | varBare {i v name c} (hv : v.kind = .kwVar) (hn : name.kind = .identifier)
      (hc : c.kind = .semicolon) :
      Spells (.varDecl (.varDecl i name none)) i [v, name, c] (i + 1)
  | varInit {i j v name sign e ts c} (hv : v.kind = .kwVar) (hn : name.kind = .identifier)
      (hs : sign.kind = .equal) (he : Spells (.expr e) i ts j) (hc : c.kind = .semicolon) :
      Spells (.varDecl (.varDecl j name (some e))) i (v :: name :: sign :: (ts ++ [c])) (j + 1)
  | exprStmt {i j e ts c} (he : Spells (.expr e) i ts j) (hc : c.kind = .semicolon) :
      Spells (.exprStmt (.expression j e)) i (ts ++ [c]) (j + 1)
  | startNone {i c} (hc : c.kind = .semicolon) : Spells (.start none) i [c] i
  | startVar {i j s ts} (hs : Spells (.varDecl s) i ts j) : Spells (.start (some s)) i ts j
  | startExpr {i j s ts} (hs : Spells (.exprStmt s) i ts j) : Spells (.start (some s)) i ts j
  | expression {i j s ts} (hs : Spells (.exprStmt s) i ts j) : Spells (.stmt false s) i ts j
  | print {i j p e ts c} (hp : p.kind = .kwPrint) (he : Spells (.expr e) i ts j)
      (hc : c.kind = .semicolon) :
      Spells (.stmt false (.print j e)) i (p :: (ts ++ [c])) (j + 1)
  | ret {i j t o ts c} (ht : t.kind = .kwReturn) (ho : Spells (.maybe o) i ts j)
      (hc : c.kind = .semicolon) : Spells (.stmt false (.ret j t o)) i (t :: (ts ++ [c])) (j + 1)
  | block {i j l ss ts r} (hl : l.kind = .leftBrace) (hs : Spells (.body ss) i ts j)
      (hr : r.kind = .rightBrace) :
      Spells (.stmt false (.block j ss)) i (l :: (ts ++ [r])) (j + 1)
  | whileLoop {i j k w l c ts r b s us} (hw : w.kind = .kwWhile) (hl : l.kind = .leftParen)
      (hc : Spells (.expr c) i ts j) (hr : r.kind = .rightParen) (hs : Spells (.stmt b s) j us k) :
      Spells (.stmt b (.whileLoop k c s)) i (w :: l :: (ts ++ r :: us)) (k + 1)
  | ifThen {i j k f l c ts r b s us} (hf : f.kind = .kwIf) (hl : l.kind = .leftParen)
      (hc : Spells (.expr c) i ts j) (hr : r.kind = .rightParen) (hs : Spells (.stmt b s) j us k) :
      Spells (.stmt true (.ifThen k c s)) i (f :: l :: (ts ++ r :: us)) (k + 1)
  | ifElse {i j k m f l c ts r s us x b s' vs} (hf : f.kind = .kwIf) (hl : l.kind = .leftParen)
      (hc : Spells (.expr c) i ts j) (hr : r.kind = .rightParen)
      (hs : Spells (.stmt false s) j us k) (hx : x.kind = .kwElse)
      (hs' : Spells (.stmt b s') k vs m) :
      Spells (.stmt b (.ifElse m c s s')) i (f :: l :: (ts ++ r :: (us ++ x :: vs))) (m + 1)
  | forLoop {i j k m n f l o ts c us d x vs r b s ws} (hf : f.kind = .kwFor)
      (hl : l.kind = .leftParen) (ho : Spells (.start o) i ts j) (hc : Spells (.maybe c) j us k)
      (hd : d.kind = .semicolon) (hx : Spells (.maybe x) k vs m) (hr : r.kind = .rightParen)
      (hs : Spells (.stmt b s) m ws n) :
      Spells (.stmt b (forTree o c x s n).1) i
        (f :: l :: (ts ++ (us ++ d :: (vs ++ r :: ws)))) (forTree o c x s n).2
  | variable {i j s ts} (hs : Spells (.varDecl s) i ts j) : Spells (.decl s) i ts j
  | statement {i j b s ts} (hs : Spells (.stmt b s) i ts j) : Spells (.decl s) i ts j
  | function {i j f name l ps us r lb ss ts rb} (hf : f.kind = .kwFun)
      (hn : name.kind = .identifier) (hl : l.kind = .leftParen) (hp : Spells (.params ps) i us i)
      (hr : r.kind = .rightParen) (hlb : lb.kind = .leftBrace) (hs : Spells (.body ss) i ts j)
      (hrb : rb.kind = .rightBrace) :
      Spells (.decl (.funDecl j name ps ss)) i
        (f :: name :: l :: (us ++ r :: lb :: (ts ++ [rb]))) (j + 1)
  | bodyNil {i} : Spells (.body []) i [] i
  | bodyCons {i j k s ss ts us} (hs : Spells (.decl s) i ts j) (hss : Spells (.body ss) j us k) :
      Spells (.body (s :: ss)) i (ts ++ us) k

/-! ## What a part starts with -/

/-- There is a first token, and its kind is as wanted. -/
def Starts (wanted : Kind → Bool) (ts : List Token) : Prop := ∃ t us, ts = t :: us ∧ wanted t.kind = true

theorem Starts.append {wanted : Kind → Bool} {ts : List Token} (h : Starts wanted ts)
    (us : List Token) : Starts wanted (ts ++ us) := by
  obtain ⟨t, vs, rfl, ht⟩ := h
  exact ⟨t, vs ++ us, rfl, ht⟩

theorem Starts.imp {p q : Kind → Bool} {ts : List Token} (h : Starts p ts)
    (hpq : ∀ k, p k = true → q k = true) : Starts q ts := by
  obtain ⟨t, us, rfl, ht⟩ := h
  exact ⟨t, us, rfl, hpq _ ht⟩

theorem Starts.length_pos {p : Kind → Bool} {ts : List Token} (h : Starts p ts) : 0 < ts.length := by
  obtain ⟨t, us, rfl, -⟩ := h
  exact Nat.succ_pos _

theorem not_starts_nil {p : Kind → Bool} : ¬ Starts p [] := by
  intro h
  obtain ⟨t, us, hcons, -⟩ := h
  cases hcons

theorem not_starts_cons {p : Kind → Bool} {t : Token} {us : List Token} (h : p t.kind = false) :
    ¬ Starts p (t :: us) := by
  intro hs
  obtain ⟨u, vs, hcons, hu⟩ := hs
  cases hcons
  rw [h] at hu
  cases hu

def startsExpression (k : Kind) : Bool := startsPrimary k || isUnaryOp k

def startsPlainStatement (k : Kind) : Bool := startsExpression k || startsKeywordStatement k

def startsDeclaration (k : Kind) : Bool := startsPlainStatement k || k == .kwFun || k == .kwVar

/-- The tokens start as the part does. Nothing is said of parts that may be empty. -/
def Form.Begins (ts : List Token) : Form → Prop
  | .expr _ | .exprStmt _ | .args (_ :: _) | .maybe (some _) => Starts startsExpression ts
  | .varDecl _ => Starts (· == .kwVar) ts
  | .stmt _ _ => Starts startsPlainStatement ts
  | .decl _ => Starts startsDeclaration ts
  | .args [] | .maybe none | .params _ | .start _ | .body _ => True

theorem startsExpression_of_constant {t : Token} {v : Literal} (h : t.constant? = some v) :
    startsExpression t.kind = true := by
  unfold Token.constant? at h
  split at h <;> simp_all [startsExpression, startsPrimary]

theorem spells_first {f : Form} {i j : NodeId} {ts : List Token} (h : Spells f i ts j) :
    f.Begins ts := by
  induction h with
  | literal h => exact ⟨_, _, rfl, startsExpression_of_constant h⟩
  | var h => exact ⟨_, _, rfl, by rw [h]; rfl⟩
  | grouping hl => exact ⟨_, _, rfl, by rw [hl]; rfl⟩
  | call _ _ _ _ _ ih => exact ih.append _
  | unary hop => exact ⟨_, _, rfl, by simp [startsExpression, hop]⟩
  | binary _ _ _ _ _ ih => exact ih.append _
  | logical _ _ _ _ _ _ ih => exact ih.append _
  | assign hn => exact ⟨_, _, rfl, by rw [hn]; rfl⟩
  | argsOne _ ih | present _ ih => exact ih
  | argsCons _ _ _ ih | exprStmt _ _ ih => exact ih.append _
  | varBare hv | varInit hv => exact ⟨_, _, rfl, by rw [hv]; rfl⟩
  | expression _ ih => exact ih.imp fun k hk => by simp [startsPlainStatement, hk]
  | print h | ret h | block h | whileLoop h | ifThen h | ifElse h | forLoop h =>
    exact ⟨_, _, rfl, by rw [h]; rfl⟩
  | «variable» _ ih =>
    have hv : Starts (· == .kwVar) _ := ih
    exact hv.imp fun k hk => by rw [eq_of_beq hk]; rfl
  | statement _ ih => exact ih.imp fun k hk => by simp [startsDeclaration, hk]
  | function hf => exact ⟨_, _, rfl, by rw [hf]; rfl⟩
  | argsNil | paramsNil | paramsOne | paramsCons | absent | startNone | startVar | startExpr
  | bodyNil | bodyCons => trivial

/-! ## Operators between operands -/

/-- `isOp` finds the operators of level `m`, and `build` makes their nodes. -/
structure BindsAt (isOp : Kind → Bool) (build : NodeId → Expr → Token → Expr → Expr) (m : Nat) :
    Prop where
  isOp_iff : ∀ k, isOp k = true ↔ Level.ofOperator k = m
  pos : 0 < m
  le_factor : m ≤ Level.factor
  build_eq : m < Level.equality ∧ build = .logical ∨ Level.equality ≤ m ∧ build = .binary

theorem bindsAt_disjunction : BindsAt (· == .kwOr) .logical Level.disjunction :=
  ⟨by intro k; cases k <;> decide, by decide, by decide, .inl ⟨by decide, rfl⟩⟩

theorem bindsAt_conjunction : BindsAt (· == .kwAnd) .logical Level.conjunction :=
  ⟨by intro k; cases k <;> decide, by decide, by decide, .inl ⟨by decide, rfl⟩⟩

theorem bindsAt_equality : BindsAt isEqualityOp .binary Level.equality :=
  ⟨by intro k; cases k <;> decide, by decide, by decide, .inr ⟨by decide, rfl⟩⟩

theorem bindsAt_comparison : BindsAt isComparisonOp .binary Level.comparison :=
  ⟨by intro k; cases k <;> decide, by decide, by decide, .inr ⟨by decide, rfl⟩⟩

theorem bindsAt_term : BindsAt isTermOp .binary Level.term :=
  ⟨by intro k; cases k <;> decide, by decide, by decide, .inr ⟨by decide, rfl⟩⟩

theorem bindsAt_factor : BindsAt isFactorOp .binary Level.factor :=
  ⟨by intro k; cases k <;> decide, by decide, by decide, .inr ⟨by decide, rfl⟩⟩

namespace BindsAt

variable {isOp : Kind → Bool} {build : NodeId → Expr → Token → Expr → Expr} {m : Nat}

theorem level_build (hb : BindsAt isOp build m) {op : Token} (hop : isOp op.kind = true) (k : NodeId)
    (l r : Expr) : (build k l op r).level = m := by
  rw [hb.isOp_iff] at hop
  rcases hb.build_eq with ⟨-, rfl⟩ | ⟨-, rfl⟩ <;> exact hop

theorem spells (hb : BindsAt isOp build m) {i j k : NodeId} {l r : Expr} {ts us : List Token}
    {op : Token} (hop : isOp op.kind = true) (hll : m ≤ l.level) (hlr : m < r.level)
    (hl : Spells (.expr l) i ts j) (hr : Spells (.expr r) j us k) :
    Spells (.expr (build k l op r)) i (ts ++ op :: us) (k + 1) := by
  have hpos := hb.pos
  have hbuild := hb.build_eq
  rw [hb.isOp_iff] at hop
  subst hop
  rcases hbuild with ⟨hm, rfl⟩ | ⟨hm, rfl⟩
  · exact .logical hpos hm hll hlr hl hr
  · exact .binary hm hll hlr hl hr

end BindsAt

/-! ## Open statements -/

/-- An `else` with a branch behind an open statement goes to the innermost `if` that is open. -/
theorem spells_attach_else {i j : NodeId} {s : Stmt} {ts vs : List Token} {x : Token}
    (h : Spells (.stmt true s) i ts j) (hx : x.kind = .kwElse)
    (hv : ∀ k, ∃ b s' m, Spells (.stmt b s') k vs m) :
    ∃ b s' m, Spells (.stmt b s') i (ts ++ x :: vs) m := by
  generalize hf : Form.stmt true s = f at h
  induction h generalizing s with
  | @ifThen _ _ k _ _ _ _ _ b _ _ hif hl hc hr hs _ ih =>
    cases b with
    | false =>
      obtain ⟨b, s', m, h'⟩ := hv k
      exact ⟨b, _, _, by simpa using Spells.ifElse hif hl hc hr hs hx h'⟩
    | true =>
      obtain ⟨b, s', m, h'⟩ := ih rfl
      exact ⟨true, _, _, by simpa using Spells.ifThen hif hl hc hr h'⟩
  | ifElse hif hl hc hr hs hy _ _ _ ih =>
    cases hf
    obtain ⟨b, s', m, h'⟩ := ih rfl
    exact ⟨b, _, _, by simpa using Spells.ifElse hif hl hc hr hs hy h'⟩
  | whileLoop hw hl hc hr _ _ ih =>
    cases hf
    obtain ⟨b, s', m, h'⟩ := ih rfl
    exact ⟨b, _, _, by simpa using Spells.whileLoop hw hl hc hr h'⟩
  | forLoop hfor hl ho hc hd hy hr _ _ _ _ ih =>
    cases hf
    obtain ⟨b, s', m, h'⟩ := ih rfl
    exact ⟨b, _, _, by simpa using Spells.forLoop hfor hl ho hc hd hy hr h'⟩
  | _ => cases hf

end Lox.Grammar
