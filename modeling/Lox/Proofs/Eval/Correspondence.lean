import Lox.Eval.Run
import Mathlib.Data.List.Forall2

/-!
# Evaluations that correspond

Two evaluations are compared here level by level. A `Correspondence` says what belongs together on the
two sides: frames, function bodies, tokens, and computations. It has one law for each way of building
a computation and one for each operation of a machine. What the laws give for a whole level of
evaluation is proved once: if the evaluators of the parts correspond, so do `exprStep` and `stmtStep`.

**Values** belong together if they are the same, or functions that differ at most in the frame they
see and in their bodies (`Value.Corr`). So no operator can tell them apart.

**Nodes** belong together if they are of one kind, their tokens belong together and so do their parts
(`Expr.Layer`, `Stmt.Layer`). Identifiers of nodes play no part.

**Depth.** Computations are related for a given number of calls under way, which is one more inside a
call. A relation may make use of it or not: `Counts` says what it knows about the number that a machine
has counted. A statement can return only if that number is positive, and only if it is zero is there a
fault for a `return`.

**Results.** `rel_exprStep` and `rel_stmtStep` for one level. What is known about the bodies of functions
depends on the relation and is left to the user of these lemmas. So are loops, since the two sides may
have fuel for different numbers of rounds. Where the fuel is equal and bodies are related statement by
statement, `rel_eval` and `rel_evalProgram` put the levels together.
-/
namespace Lox

open List (Forall₂)

/-! ## Values, flows and nodes -/

/-- Functions that differ at most in the frame they see and in their bodies. -/
structure Closure.Corr (F : FrameId → FrameId → Prop) (B : List Stmt → List Stmt → Prop)
    (c d : Closure) : Prop where
  identity_eq : c.identity = d.identity
  name_eq : c.name = d.name
  params_eq : c.params = d.params
  frame : F c.frame d.frame
  body : B c.body d.body

/-- The same value, or two functions related by `C`. -/
inductive Value.Corr (C : Closure → Closure → Prop) : Value → Value → Prop where
  | same {v} (h : ∀ c, v ≠ .function c) : Corr C v v
  | function {c d} (h : C c d) : Corr C (.function c) (.function d)

/-- Both statements ended normally, or both returned values related by `V`, which they may do if `R`. -/
inductive Flow.Corr (R : Prop) (V : Value → Value → Prop) : Flow → Flow → Prop where
  | normal : Corr R V .normal .normal
  | returned {v w} (hr : R) (h : V v w) : Corr R V (.returned v) (.returned w)

section
variable (T : Token → Token → Prop) (E : Expr → Expr → Prop) (S : Stmt → Stmt → Prop)
  (B : List Stmt → List Stmt → Prop)

/-- Expressions of one kind, with tokens related by `T` and parts related by `E`. -/
inductive Expr.Layer : Expr → Expr → Prop where
  | literal {i j value} : Layer (.literal i value) (.literal j value)
  | var {i j s t} (ht : T s t) : Layer (.var i s) (.var j t)
  | assign {i j s t e e'} (ht : T s t) (he : E e e') : Layer (.assign i s e) (.assign j t e')
  | unary {i j s t e e'} (ht : T s t) (he : E e e') : Layer (.unary i s e) (.unary j t e')
  | binary {i j s t l l' r r'} (hl : E l l') (ht : T s t) (hr : E r r') :
      Layer (.binary i l s r) (.binary j l' t r')
  | logical {i j s t l l' r r'} (hl : E l l') (ht : T s t) (hr : E r r') :
      Layer (.logical i l s r) (.logical j l' t r')
  | grouping {i j e e'} (he : E e e') : Layer (.grouping i e) (.grouping j e')
  | call {i j s t c c' as as'} (hc : E c c') (ht : T s t) (ha : Forall₂ E as as') :
      Layer (.call i c s as) (.call j c' t as')

/-- Statements of one kind, with tokens related by `T`, expressions by `E`, nested statements by `S` and
function bodies by `B`. -/
inductive Stmt.Layer : Stmt → Stmt → Prop where
  | expression {i j e e'} (he : E e e') : Layer (.expression i e) (.expression j e')
  | print {i j e e'} (he : E e e') : Layer (.print i e) (.print j e')
  | varDecl {i j s t o o'} (ht : T s t) (ho : Option.Rel E o o') :
      Layer (.varDecl i s o) (.varDecl j t o')
  | block {i j ss ss'} (hs : Forall₂ S ss ss') : Layer (.block i ss) (.block j ss')
  | ifThen {i j c c' s s'} (hc : E c c') (hs : S s s') : Layer (.ifThen i c s) (.ifThen j c' s')
  | ifElse {i j c c' s s' n n'} (hc : E c c') (hs : S s s') (hn : S n n') :
      Layer (.ifElse i c s n) (.ifElse j c' s' n')
  | whileLoop {i j c c' s s'} (hc : E c c') (hs : S s s') :
      Layer (.whileLoop i c s) (.whileLoop j c' s')
  | funDecl {i j s t ps qs ss ss'} (ht : T s t) (hp : Forall₂ T ps qs) (hs : B ss ss') :
      Layer (.funDecl i s ps ss) (.funDecl j t qs ss')
  | ret {i j s t o o'} (ht : T s t) (ho : Option.Rel E o o') : Layer (.ret i s o) (.ret j t o')

end

theorem Token.lexemes_eq {T : Token → Token → Prop} (hT : ∀ {s t}, T s t → s.lexeme = t.lexeme)
    {ps qs : List Token} (h : Forall₂ T ps qs) : ps.map (·.lexeme) = qs.map (·.lexeme) := by
  induction h with
  | nil => rfl
  | cons h _ ih => rw [List.map_cons, List.map_cons, hT h, ih]

/-- What belongs to itself in all its parts belongs to itself. -/
theorem Expr.Layer.refl {T : Token → Token → Prop} {E : Expr → Expr → Prop} (hT : ∀ t, T t t)
    (hE : ∀ e, E e e) (e : Expr) : Expr.Layer T E e e := by
  have hargs (es : List Expr) : Forall₂ E es es := List.forall₂_same.2 fun e _ => hE e
  cases e with
  | literal => exact .literal
  | var => exact .var (hT _)
  | assign => exact .assign (hT _) (hE _)
  | unary => exact .unary (hT _) (hE _)
  | binary => exact .binary (hE _) (hT _) (hE _)
  | logical => exact .logical (hE _) (hT _) (hE _)
  | grouping => exact .grouping (hE _)
  | call => exact .call (hE _) (hT _) (hargs _)

@[inherit_doc Expr.Layer.refl]
theorem Stmt.Layer.refl {T : Token → Token → Prop} {E : Expr → Expr → Prop} {S : Stmt → Stmt → Prop}
    {B : List Stmt → List Stmt → Prop} (hT : ∀ t, T t t) (hE : ∀ e, E e e) (hS : ∀ s, S s s)
    (hB : ∀ b, B b b) (s : Stmt) : Stmt.Layer T E S B s s := by
  have hbody (ss : List Stmt) : Forall₂ S ss ss := List.forall₂_same.2 fun s _ => hS s
  have hparams (ps : List Token) : Forall₂ T ps ps := List.forall₂_same.2 fun p _ => hT p
  have hoption (o : Option Expr) : Option.Rel E o o := by
    cases o with
    | none => exact .none
    | some e => exact .some (hE e)
  cases s with
  | expression => exact .expression (hE _)
  | print => exact .print (hE _)
  | varDecl => exact .varDecl (hT _) (hoption _)
  | block => exact .block (hbody _)
  | ifThen => exact .ifThen (hE _) (hS _)
  | ifElse => exact .ifElse (hE _) (hS _) (hS _)
  | whileLoop => exact .whileLoop (hE _) (hS _)
  | funDecl => exact .funDecl (hT _) (hparams _) (hB _)
  | ret => exact .ret (hT _) (hoption _)

namespace Value

variable {C : Closure → Closure → Prop} {l l' r r' v w : Value}

theorem Corr.isTruthy_eq (h : Corr C v w) : v.isTruthy = w.isTruthy := by
  cases h <;> rfl

theorem corr_ofLiteral (x : Literal) : Corr C (ofLiteral x) (ofLiteral x) := by
  apply Corr.same
  cases x <;> nofun

theorem corr_boolean (b : Bool) : Corr C (.boolean b) (.boolean b) := .same nofun

theorem corr_nil : Corr C .nil .nil := .same nofun

theorem corr_number (x : Float) : Corr C (.number x) (.number x) := .same nofun

/-- Where frames and bodies belong to themselves only, so do values. -/
theorem corr_eq : Corr (Closure.Corr (· = ·) (· = ·)) v w ↔ v = w := by
  constructor
  · intro h
    cases h with
    | same => rfl
    | @function c d h =>
      cases c
      cases d
      obtain ⟨rfl, rfl, rfl, rfl, rfl⟩ := h
      rfl
  · intro h
    subst h
    by_cases hv : ∃ c, v = .function c
    · obtain ⟨c, rfl⟩ := hv
      exact .function ⟨rfl, rfl, rfl, rfl, rfl⟩
    · exact .same fun c hc => hv ⟨c, hc⟩

section
variable (hC : ∀ c d, C c d → c.identity = d.identity ∧ c.name = d.name)
include hC

theorem Corr.text_eq (h : Corr C v w) : v.text = w.text := by
  cases h with
  | same => rfl
  | function h => rw [text, text, (hC _ _ h).2]

theorem Corr.equals_eq (hl : Corr C l l') (hr : Corr C r r') : l.equals r = l'.equals r' := by
  cases hl with
  | same hl =>
    cases hr with
    | same => rfl
    | function =>
      cases l with
      | function c => exact absurd rfl (hl c)
      | _ => rfl
  | function hl =>
    cases hr with
    | same hr =>
      cases r with
      | function c => exact absurd rfl (hr c)
      | _ => rfl
    | function hr => rw [equals, equals, (hC _ _ hl).1, (hC _ _ hr).1]

end
end Value

/-! ## Operators -/

namespace Operator

/-- Both operators gave values related by `Q`, or both faults for one reason, each on its own line. The
reason is not a `return`. -/
inductive Agree {α β : Type} (op op' : Token) (Q : α → β → Prop) :
    Except Fault α → Except Fault β → Prop where
  | ok {a b} (h : Q a b) : Agree op op' Q (.ok a) (.ok b)
  | fault {cause} (h : cause ≠ .returnOutsideFunction) : Agree op op' Q (fault op cause) (fault op' cause)

variable {C : Closure → Closure → Prop} {op op' : Token} {l l' r r' v w : Value}

theorem agree_add (hl : Value.Corr C l l') (hr : Value.Corr C r r') :
    Agree op op' (Value.Corr C) (add op l r) (add op' l' r') := by
  cases hl with
  | function => exact .fault nofun
  | same =>
    cases hr with
    | function => cases l <;> exact .fault nofun
    | same =>
      unfold add
      split
      · exact .ok (.same nofun)
      · exact .ok (.same nofun)
      · exact .fault nofun

theorem agree_onNumbers {f : Float → Float → Value} (hf : ∀ x y, Value.Corr C (f x y) (f x y))
    (hl : Value.Corr C l l') (hr : Value.Corr C r r') :
    Agree op op' (Value.Corr C) (onNumbers op f l r) (onNumbers op' f l' r') := by
  cases hl with
  | function => exact .fault nofun
  | same =>
    cases hr with
    | function => cases l <;> exact .fault nofun
    | same =>
      unfold onNumbers
      split
      · exact .ok (hf _ _)
      · exact .fault nofun

section
variable (hkind : op.kind = op'.kind) (hlexeme : op.lexeme = op'.lexeme)
include hkind hlexeme

theorem agree_unary (h : Value.Corr C v w) :
    Agree op op' (Value.Corr C) (unary op v) (unary op' w) := by
  unfold unary
  rw [← hkind, ← hlexeme]
  cases h with
  | same =>
    split
    · exact .ok (Value.corr_number _)
    · exact .fault nofun
    · exact .ok (Value.corr_boolean _)
    · exact .fault nofun
  | function =>
    cases op.kind with
    | bang => exact .ok (Value.corr_boolean _)
    | _ => exact .fault nofun

theorem agree_binary (hC : ∀ c d, C c d → c.identity = d.identity ∧ c.name = d.name)
    (hl : Value.Corr C l l') (hr : Value.Corr C r r') :
    Agree op op' (Value.Corr C) (binary op l r) (binary op' l' r') := by
  have hnumber (f : Float → Float → Float) : Agree op op' (Value.Corr C)
      (onNumbers op (fun x y => .number (f x y)) l r)
      (onNumbers op' (fun x y => .number (f x y)) l' r') :=
    agree_onNumbers (fun x y => Value.corr_number (f x y)) hl hr
  have htest (f : Float → Float → Bool) : Agree op op' (Value.Corr C)
      (onNumbers op (fun x y => .boolean (f x y)) l r)
      (onNumbers op' (fun x y => .boolean (f x y)) l' r') :=
    agree_onNumbers (fun x y => Value.corr_boolean (f x y)) hl hr
  unfold binary
  rw [← hkind, ← hlexeme, hl.equals_eq hC hr]
  split
  case h_1 => exact agree_add hl hr
  case h_2 | h_3 | h_4 => exact hnumber _
  case h_5 | h_6 | h_7 | h_8 => exact htest _
  case h_9 | h_10 => exact .ok (Value.corr_boolean _)
  case h_11 => exact .fault nofun

theorem agree_shortCut (h : Value.Corr C l l') :
    Agree op op' (Option.Rel (Value.Corr C)) (shortCut op l) (shortCut op' l') := by
  unfold shortCut
  rw [← hkind, ← hlexeme, ← h.isTruthy_eq]
  cases l.isTruthy with
  | false =>
    split
    · exact .ok .none
    · exact .ok (.some h)
    · exact .fault nofun
  | true =>
    split
    · exact .ok (.some h)
    · exact .ok .none
    · exact .fault nofun

end
end Operator

namespace Eval

open EvalM

/-- Statements in order, whichever way each of them ends. -/
def runEach (stmt : Stmt → EvalM Flow) : List Stmt → EvalM Unit
  | [] => return ()
  | s :: rest => do
    let _ ← stmt s
    runEach stmt rest

theorem evalProgram_eq (cfg : Config) (fuel : Nat) (p : Program) :
    evalProgram cfg fuel p = runEach (evalStmt cfg fuel Heap.globals) p := by
  induction p with
  | nil => rfl
  | cons s p ih => rw [evalProgram, runEach, ih]

/-! ## The laws -/

/-- What belongs together in two evaluations, one under `cfg₁` and one under `cfg₂`. -/
structure Correspondence (cfg₁ cfg₂ : Config) where
  /-- The computations belong together when `depth` calls are under way, with values related by `Q`. -/
  Rel {α β : Type} (depth : Nat) (Q : α → β → Prop) (x : EvalM α) (y : EvalM β) : Prop
  Frames : FrameId → FrameId → Prop
  Bodies : List Stmt → List Stmt → Prop
  Tokens : Token → Token → Prop
  /-- When `depth` calls are under way, another one may come to its body. -/
  Enters (depth : Nat) : Prop
  /-- When `depth` calls are under way, the machine may have counted `n`. -/
  Counts (depth n : Nat) : Prop
  kind_eq {s t : Token} (h : Tokens s t) : s.kind = t.kind
  lexeme_eq {s t : Token} (h : Tokens s t) : s.lexeme = t.lexeme
  rel_pure {α β : Type} {d : Nat} {Q : α → β → Prop} {a : α} {b : β} (h : Q a b) :
    Rel d Q (pure a) (pure b)
  rel_bind {α β γ δ : Type} {d : Nat} {Q : α → β → Prop} {R : γ → δ → Prop} {x : EvalM α}
    {y : EvalM β} {f : α → EvalM γ} {g : β → EvalM δ} (hx : Rel d Q x y)
    (hf : ∀ a b, Q a b → Rel d R (f a) (g b)) : Rel d R (x >>= f) (y >>= g)
  rel_later {α β : Type} {d : Nat} {Q : α → β → Prop} {x : Unit → EvalM α} {y : Unit → EvalM β}
    (h : Rel d Q (x ()) (y ())) : Rel d Q (.later x) (.later y)
  rel_fault {α β : Type} {d : Nat} {Q : α → β → Prop} {s t : Token} {cause : Fault.Cause}
    (ht : Tokens s t) (hc : cause = .returnOutsideFunction → Counts d 0) :
    Rel d Q (fault cause s.line) (fault cause t.line)
  rel_print {d : Nat} (line : String) : Rel d (fun _ _ => True) (print line) (print line)
  rel_readVar {d : Nat} {f g : FrameId} {s t : Token} (hf : Frames f g) (ht : Tokens s t) :
    Rel d (Value.Corr (Closure.Corr Frames Bodies)) (readVar f s) (readVar g t)
  rel_defineVar {d : Nat} {f g : FrameId} {v w : Value} (hf : Frames f g) (name : String)
    (hv : Value.Corr (Closure.Corr Frames Bodies) v w) :
    Rel d (fun _ _ => True) (defineVar f name v) (defineVar g name w)
  rel_assignVar {d : Nat} {f g : FrameId} {s t : Token} {v w : Value} (hf : Frames f g)
    (ht : Tokens s t) (hv : Value.Corr (Closure.Corr Frames Bodies) v w) :
    Rel d (fun _ _ => True) (assignVar f s v) (assignVar g t w)
  rel_newFrame {d : Nat} {f g : FrameId} (hf : Frames f g) : Rel d Frames (newFrame f) (newFrame g)
  rel_bindParams {d : Nat} {f g : FrameId} {vs ws : List Value} (hf : Frames f g)
    (params : List String) (hvs : Forall₂ (Value.Corr (Closure.Corr Frames Bodies)) vs ws) :
    Rel d (fun _ _ => True) (bindParams f params vs) (bindParams g params ws)
  rel_newFunction {d : Nat} {f g : FrameId} {s t : Token} {ps qs : List Token} {ss ss' : List Stmt}
    (hf : Frames f g) (ht : Tokens s t) (hp : Forall₂ Tokens ps qs) (hs : Bodies ss ss') :
    Rel d (Value.Corr (Closure.Corr Frames Bodies)) (newFunction f s ps ss) (newFunction g t qs ss')
  rel_readClock {d : Nat} :
    Rel d (Value.Corr (Closure.Corr Frames Bodies)) (readClock cfg₁) (readClock cfg₂)
  rel_callDepth {d : Nat} : Rel d (fun n k => n = k ∧ Counts d n) callDepth callDepth
  rel_counted {α β : Type} {d : Nat} {Q : α → β → Prop} {s t : Token} {x : EvalM α} {y : EvalM β}
    (ht : Tokens s t) (h : Enters d → Rel (d + 1) Q x y) :
    Rel d Q (counted cfg₁ s.line x) (counted cfg₂ t.line y)

namespace Correspondence

variable {cfg₁ cfg₂ : Config} (C : Correspondence cfg₁ cfg₂) {d : Nat}

/-- Functions that belong together. -/
abbrev Functions : Closure → Closure → Prop := Closure.Corr C.Frames C.Bodies

/-- Values that belong together. -/
abbrev Values : Value → Value → Prop := Value.Corr C.Functions

/-- Endings of statements that belong together when `depth` calls are under way. -/
abbrev Flows (depth : Nat) : Flow → Flow → Prop := Flow.Corr (∃ n, n ≠ 0 ∧ C.Counts depth n) C.Values

theorem functions_same : ∀ c d, C.Functions c d → c.identity = d.identity ∧ c.name = d.name :=
  fun _ _ h => ⟨h.identity_eq, h.name_eq⟩

/-! ## Building blocks -/

theorem rel_ofExcept {α β : Type} {Q : α → β → Prop} {s t : Token} {r : Except Fault α}
    {r' : Except Fault β} (ht : C.Tokens s t) (h : Operator.Agree s t Q r r') :
    C.Rel d Q (ofExcept r) (ofExcept r') := by
  cases h with
  | ok h => exact C.rel_pure h
  | fault hc => exact C.rel_fault ht fun h => absurd h hc

theorem rel_mapM {α β γ δ : Type} {Q : α → β → Prop} {f : γ → EvalM α} {g : δ → EvalM β}
    {cs : List γ} {ds : List δ} (h : Forall₂ (fun c d' => C.Rel d Q (f c) (g d')) cs ds) :
    C.Rel d (Forall₂ Q) (cs.mapM f) (ds.mapM g) := by
  induction h with
  | nil => exact C.rel_pure .nil
  | cons h _ ih =>
    rw [List.mapM_cons, List.mapM_cons]
    refine C.rel_bind h fun a b hab => ?_
    refine C.rel_bind ih fun as bs habs => ?_
    exact C.rel_pure (.cons hab habs)

/-- Values that belong together choose the same branch. -/
theorem rel_truthy {α β : Type} {Q : α → β → Prop} {v w : Value} {x x' : EvalM α} {y y' : EvalM β}
    (h : C.Values v w) (hx : C.Rel d Q x y) (hx' : C.Rel d Q x' y') :
    C.Rel d Q (if v.isTruthy then x else x') (if w.isTruthy then y else y') := by
  rw [h.isTruthy_eq]
  split
  · exact hx
  · exact hx'

theorem rel_runAll {stmt₁ stmt₂ : Stmt → EvalM Flow} {ss ss' : List Stmt}
    (h : Forall₂ (fun s s' => C.Rel d (C.Flows d) (stmt₁ s) (stmt₂ s')) ss ss') :
    C.Rel d (C.Flows d) (runAll stmt₁ ss) (runAll stmt₂ ss') := by
  induction h with
  | nil => exact C.rel_pure .normal
  | cons h _ ih =>
    rw [runAll, runAll]
    refine C.rel_bind h fun f g hfg => ?_
    cases hfg with
    | normal => exact ih
    | returned hr hv => exact C.rel_pure (.returned hr hv)

theorem rel_runEach {stmt₁ stmt₂ : Stmt → EvalM Flow} {p p' : Program}
    (h : Forall₂ (fun s s' => C.Rel d (C.Flows d) (stmt₁ s) (stmt₂ s')) p p') :
    C.Rel d (fun _ _ => True) (runEach stmt₁ p) (runEach stmt₂ p') := by
  induction h with
  | nil => exact C.rel_pure trivial
  | cons h _ ih =>
    rw [runEach, runEach]
    exact C.rel_bind h fun _ _ _ => ih

theorem rel_runWhile {test₁ test₂ : EvalM Value} {body₁ body₂ : EvalM Flow}
    (ht : C.Rel d C.Values test₁ test₂) (hb : C.Rel d (C.Flows d) body₁ body₂)
    (hout : C.Rel d (C.Flows d) outOfFuel outOfFuel) (fuel : Nat) :
    C.Rel d (C.Flows d) (runWhile test₁ body₁ fuel) (runWhile test₂ body₂ fuel) := by
  induction fuel with
  | zero => exact hout
  | succ fuel ih =>
    rw [runWhile, runWhile]
    refine C.rel_bind ht fun v w hvw => C.rel_truthy hvw ?_ (C.rel_pure .normal)
    refine C.rel_bind hb fun f g hfg => ?_
    cases hfg with
    | normal => exact ih
    | returned hr hv => exact C.rel_pure (.returned hr hv)

/-! ## Levels of evaluation -/

section
variable {expr₁ expr₂ : FrameId → Expr → EvalM Value} {stmt₁ stmt₂ : FrameId → Stmt → EvalM Flow}

/-- The body of a function is run in a new frame, which the call of the other side has as well. -/
theorem rel_callClosure {c c' : Closure} {args args' : List Value} (hc : C.Functions c c')
    (ha : Forall₂ C.Values args args')
    (hbody : ∀ b b', C.Bodies b b' → ∀ f g, C.Frames f g →
      C.Rel d (C.Flows d) (runAll (stmt₁ f) b) (runAll (stmt₂ g) b')) :
    C.Rel d C.Values (callClosure stmt₁ c args) (callClosure stmt₂ c' args') := by
  rw [callClosure, callClosure, hc.params_eq]
  refine C.rel_bind (C.rel_newFrame hc.frame) fun f g hfg => ?_
  refine C.rel_bind (C.rel_bindParams hfg _ ha) fun _ _ _ => ?_
  refine C.rel_bind (hbody _ _ hc.body f g hfg) fun flow flow' hflow => ?_
  cases hflow with
  | normal => exact C.rel_pure Value.corr_nil
  | returned _ hv => exact C.rel_pure hv

theorem rel_callValue {callee callee' : Value} {args args' : List Value} {s t : Token}
    (ht : C.Tokens s t) (hcallee : C.Values callee callee') (ha : Forall₂ C.Values args args')
    (hbody : C.Enters d → ∀ b b', C.Bodies b b' → ∀ f g, C.Frames f g →
      C.Rel (d + 1) (C.Flows (d + 1)) (runAll (stmt₁ f) b) (runAll (stmt₂ g) b')) :
    C.Rel d C.Values (callValue cfg₁ stmt₁ callee args s.line)
      (callValue cfg₂ stmt₂ callee' args' t.line) := by
  have harity (expected : Nat) : C.Rel d (fun _ _ => True) (checkArity expected args.length s.line)
      (checkArity expected args'.length t.line) := by
    rw [checkArity, checkArity, ha.length_eq]
    split
    · exact C.rel_pure trivial
    · exact C.rel_fault ht nofun
  cases hcallee with
  | @function c c' hc =>
    rw [callValue, callValue, hc.params_eq]
    refine C.rel_bind (harity _) fun _ _ _ => C.rel_counted ht fun hd => ?_
    exact C.rel_callClosure hc ha (hbody hd)
  | same hv =>
    cases callee with
    | native f =>
      exact C.rel_bind (harity _) fun _ _ _ => C.rel_counted ht fun _ => C.rel_readClock
    | function f => exact absurd rfl (hv f)
    | number | string | boolean | nil => exact C.rel_fault ht nofun

variable {E : Expr → Expr → Prop} {S : Stmt → Stmt → Prop} {f g : FrameId} (hf : C.Frames f g)
  (hexpr : ∀ e e', E e e' → C.Rel d C.Values (expr₁ f e) (expr₂ g e'))
include hexpr

theorem rel_optionalStep {o o' : Option Expr} (h : Option.Rel E o o') :
    C.Rel d C.Values (optionalStep (expr₁ f) o) (optionalStep (expr₂ g) o') := by
  cases h with
  | none => exact C.rel_pure Value.corr_nil
  | some he => exact hexpr _ _ he

include hf

theorem rel_exprStep
    (hbody : C.Enters d → ∀ b b', C.Bodies b b' → ∀ f g, C.Frames f g →
      C.Rel (d + 1) (C.Flows (d + 1)) (runAll (stmt₁ f) b) (runAll (stmt₂ g) b'))
    {e e' : Expr} (h : Expr.Layer C.Tokens E e e') :
    C.Rel d C.Values (exprStep cfg₁ expr₁ stmt₁ f e) (exprStep cfg₂ expr₂ stmt₂ g e') := by
  cases h with
  | literal => exact C.rel_pure (Value.corr_ofLiteral _)
  | var ht => exact C.rel_readVar hf ht
  | assign ht he =>
    refine C.rel_bind (hexpr _ _ he) fun v w hvw => ?_
    exact C.rel_bind (C.rel_assignVar hf ht hvw) fun _ _ _ => C.rel_pure hvw
  | unary ht he =>
    refine C.rel_bind (hexpr _ _ he) fun v w hvw => C.rel_ofExcept ht ?_
    exact Operator.agree_unary (C.kind_eq ht) (C.lexeme_eq ht) hvw
  | binary hl ht hr =>
    refine C.rel_bind (hexpr _ _ hl) fun l l' hl => ?_
    refine C.rel_bind (hexpr _ _ hr) fun r r' hr => C.rel_ofExcept ht ?_
    exact Operator.agree_binary (C.kind_eq ht) (C.lexeme_eq ht) C.functions_same hl hr
  | logical hl ht hr =>
    refine C.rel_bind (hexpr _ _ hl) fun l l' hl => ?_
    have hshort := Operator.agree_shortCut (C.kind_eq ht) (C.lexeme_eq ht) hl
    refine C.rel_bind (C.rel_ofExcept ht hshort) fun o o' ho => ?_
    cases ho with
    | none => exact hexpr _ _ hr
    | some hv => exact C.rel_pure hv
  | grouping he => exact hexpr _ _ he
  | call hc ht ha =>
    refine C.rel_bind (hexpr _ _ hc) fun v w hvw => ?_
    have hargs := C.rel_mapM (ha.imp fun a b hab => hexpr a b hab)
    refine C.rel_bind hargs fun vs ws hvs => ?_
    exact C.rel_callValue ht hvw hvs hbody

omit hexpr in
/-- The statements of a block are run in a new frame. -/
theorem rel_block {fuel₁ fuel₂ : Nat} {i j : NodeId} {ss ss' : List Stmt}
    (h : ∀ f g, C.Frames f g → C.Rel d (C.Flows d) (runAll (stmt₁ f) ss) (runAll (stmt₂ g) ss')) :
    C.Rel d (C.Flows d) (stmtStep fuel₁ expr₁ stmt₁ f (.block i ss))
      (stmtStep fuel₂ expr₂ stmt₂ g (.block j ss')) :=
  C.rel_bind (C.rel_newFrame hf) h

theorem rel_stmtStep {fuel₁ fuel₂ : Nat}
    (hstmt : ∀ f g, C.Frames f g → ∀ s s', S s s' → C.Rel d (C.Flows d) (stmt₁ f s) (stmt₂ g s'))
    {s s' : Stmt} (h : Stmt.Layer C.Tokens E S C.Bodies s s')
    (hloop : ∀ i c b, s = .whileLoop i c b → C.Rel d (C.Flows d) (stmtStep fuel₁ expr₁ stmt₁ f s)
      (stmtStep fuel₂ expr₂ stmt₂ g s')) :
    C.Rel d (C.Flows d) (stmtStep fuel₁ expr₁ stmt₁ f s) (stmtStep fuel₂ expr₂ stmt₂ g s') := by
  cases h with
  | expression he => exact C.rel_bind (hexpr _ _ he) fun _ _ _ => C.rel_pure .normal
  | print he =>
    refine C.rel_bind (hexpr _ _ he) fun v w hvw => ?_
    rw [hvw.text_eq C.functions_same]
    exact C.rel_bind (C.rel_print _) fun _ _ _ => C.rel_pure .normal
  | varDecl ht ho =>
    refine C.rel_bind (C.rel_optionalStep hexpr ho) fun v w hvw => ?_
    rw [C.lexeme_eq ht]
    exact C.rel_bind (C.rel_defineVar hf _ hvw) fun _ _ _ => C.rel_pure .normal
  | block hs =>
    refine C.rel_block hf fun f' g' hfg => ?_
    exact C.rel_runAll (hs.imp fun s s' hss => hstmt f' g' hfg s s' hss)
  | ifThen hc hs =>
    refine C.rel_bind (hexpr _ _ hc) fun v w hvw => ?_
    exact C.rel_truthy hvw (hstmt f g hf _ _ hs) (C.rel_pure .normal)
  | ifElse hc hs hn =>
    refine C.rel_bind (hexpr _ _ hc) fun v w hvw => ?_
    exact C.rel_truthy hvw (hstmt f g hf _ _ hs) (hstmt f g hf _ _ hn)
  | whileLoop => exact hloop _ _ _ rfl
  | funDecl ht hp hs =>
    refine C.rel_bind (C.rel_newFunction hf ht hp hs) fun v w hvw => ?_
    rw [C.lexeme_eq ht]
    exact C.rel_bind (C.rel_defineVar hf _ hvw) fun _ _ _ => C.rel_pure .normal
  | ret ht ho =>
    refine C.rel_bind C.rel_callDepth fun n _ hn => ?_
    obtain ⟨rfl, hcounts⟩ := hn
    split
    · next h => exact C.rel_fault ht fun _ => h ▸ hcounts
    · next h =>
      refine C.rel_bind (C.rel_optionalStep hexpr ho) fun v w hvw => ?_
      exact C.rel_pure (.returned ⟨n, h, hcounts⟩ hvw)

end

/-! ## All levels -/

section
variable {E : Expr → Expr → Prop} {S : Stmt → Stmt → Prop}
  (hE : ∀ {e e'}, E e e' → Expr.Layer C.Tokens E e e')
  (hS : ∀ {s s'}, S s s' → Stmt.Layer C.Tokens E S C.Bodies s s')
  (hB : ∀ {b b'}, C.Bodies b b' → Forall₂ S b b')
  (hout : ∀ {α β : Type} {d : Nat} {Q : α → β → Prop}, C.Rel d Q outOfFuel outOfFuel)
include hE hS hB hout

/-- Trees that belong together layer by layer have evaluations that belong together. -/
theorem rel_eval (fuel d : Nat) {f g : FrameId} (hf : C.Frames f g) :
    (∀ e e', E e e' → C.Rel d C.Values (evalExpr cfg₁ fuel f e) (evalExpr cfg₂ fuel g e')) ∧
      ∀ s s', S s s' → C.Rel d (C.Flows d) (evalStmt cfg₁ fuel f s) (evalStmt cfg₂ fuel g s') := by
  induction fuel generalizing d f g with
  | zero => exact ⟨fun _ _ _ => hout, fun _ _ _ => hout⟩
  | succ fuel ih =>
    have hexpr := (ih d hf).1
    have hstmt (d : Nat) (f g : FrameId) (hfg : C.Frames f g) := (ih d hfg).2
    refine ⟨fun e e' h => ?_, fun s s' h => ?_⟩
    · rw [evalExpr, evalExpr]
      refine C.rel_later (C.rel_exprStep hf hexpr ?_ (hE h))
      intro _ b b' hb f g hfg
      exact C.rel_runAll ((hB hb).imp fun s s' hs => hstmt (d + 1) f g hfg s s' hs)
    · rw [evalStmt, evalStmt]
      refine C.rel_later (C.rel_stmtStep hf hexpr (hstmt d) (hS h) ?_)
      rintro i c b rfl
      cases hS h with
      | whileLoop hc hb => exact C.rel_runWhile (hexpr _ _ hc) (hstmt d f g hf _ _ hb) hout fuel

theorem rel_evalProgram (hglobals : C.Frames Heap.globals Heap.globals) (fuel d : Nat) {p p' : Program}
    (h : Forall₂ S p p') : C.Rel d (fun _ _ => True) (evalProgram cfg₁ fuel p) (evalProgram cfg₂ fuel p') := by
  rw [evalProgram_eq, evalProgram_eq]
  exact C.rel_runEach (h.imp (C.rel_eval hE hS hB hout fuel d hglobals).2)

end
end Correspondence
end Eval
end Lox
