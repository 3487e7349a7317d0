import Lox.Proofs.Eval.Binding
import Lox.Proofs.Eval.Reachability

/-!
# Where faults come from

A run that fails does so at a node of a tree: a variable that is bound nowhere, an operator with operands
that it cannot take, a call that cannot be made, a `return` outside of functions. The node need not be in the
program that is run, since a function may have been declared by an earlier one. But trees get into a heap only
as bodies of functions that some program declares.

**Sets of nodes.** `Nodes` is a set of trees that has the parts of its members. If the functions of a heap have
their bodies in such a set, then they still do after evaluation of a member of it, and a fault is one that a
member of the set can raise by itself (`Expr.Raises`, `Stmt.Raises`).

**Results.**
* `Nodes.keeps_eval`: evaluation of a tree.
* `Nodes.failed_runPrograms`, `Nodes.failed_inTurn`: programs and texts one after the other in one session.
* `every_operator_is_supported`: trees that were read are canonical, and a canonical tree has no operator
  without a meaning.
-/
namespace Lox

/-! ## Parts of trees and their faults -/

/-- The expressions that an expression is made of. -/
def Expr.parts : Expr → List Expr
  | .literal .. | .var .. => []
  | .assign _ _ e | .unary _ _ e | .grouping _ e => [e]
  | .binary _ left _ right | .logical _ left _ right => [left, right]
  | .call _ callee _ args => callee :: args

/-- The expressions that a statement is made of. -/
def Stmt.exprs : Stmt → List Expr
  | .expression _ e | .print _ e => [e]
  | .varDecl _ _ init => init.toList
  | .ifThen _ condition _ | .ifElse _ condition _ _ | .whileLoop _ condition _ => [condition]
  | .ret _ _ value => value.toList
  | .block .. | .funDecl .. => []

/-- The statements that a statement is made of, function bodies included. -/
def Stmt.parts : Stmt → List Stmt
  | .block _ body | .funDecl _ _ _ body => body
  | .ifThen _ _ yes => [yes]
  | .ifElse _ _ yes no => [yes, no]
  | .whileLoop _ _ body => [body]
  | .expression .. | .print .. | .varDecl .. | .ret .. => []

/-- The cause lies in a call and not in what is evaluated for it. -/
def Fault.Cause.isOfCall : Fault.Cause → Bool
  | notCallable | wrongArity .. | stackOverflow => true
  | _ => false

/-- Faults that evaluation of an expression can come to apart from those of its parts and of functions that
it calls. -/
inductive Expr.Raises : Expr → Fault → Prop where
  | var {id name} : Raises (.var id name) ⟨.undefinedVariable name.lexeme, name.line⟩
  | assign {id name e} : Raises (.assign id name e) ⟨.undefinedVariable name.lexeme, name.line⟩
  | unary {id op e v f} (h : Operator.unary op v = .error f) : Raises (.unary id op e) f
  | binary {id left op right v w f} (h : Operator.binary op v w = .error f) :
    Raises (.binary id left op right) f
  | logical {id left op right v f} (h : Operator.shortCut op v = .error f) :
    Raises (.logical id left op right) f
  | call {id callee paren args cause} (h : Fault.Cause.isOfCall cause = true) :
    Raises (.call id callee paren args) ⟨cause, paren.line⟩

/-- The same for a statement. -/
inductive Stmt.Raises : Stmt → Fault → Prop where
  | ret {id keyword value} : Raises (.ret id keyword value) ⟨.returnOutsideFunction, keyword.line⟩

namespace Eval

open EvalM

/-- A set of trees that has the parts of its members. -/
structure Nodes where
  Exprs : Expr → Prop
  Stmts : Stmt → Prop
  expr_part {e : Expr} : Exprs e → ∀ p ∈ e.parts, Exprs p
  stmt_expr {s : Stmt} : Stmts s → ∀ e ∈ s.exprs, Exprs e
  stmt_part {s : Stmt} : Stmts s → ∀ p ∈ s.parts, Stmts p

namespace Nodes

variable (N : Nodes) {α β : Type}

/-- A member of the set can raise the fault. -/
def Faults (f : Fault) : Prop := (∃ e, N.Exprs e ∧ e.Raises f) ∨ ∃ s, N.Stmts s ∧ s.Raises f

/-- A reason to stop that is no fault, or a fault of a member. -/
def Stops : Stop → Prop
  | .fault f => N.Faults f
  | .outOfFuel => True

/-- If the value is a function, its body is in the set. -/
def Values (v : Value) : Prop := ∀ c, v = .function c → ∀ s ∈ c.body, N.Stmts s

/-- The statement has not returned a function with another body. -/
def Flows (f : Flow) : Prop := ∀ v, f = .returned v → N.Values v

/-- All functions in the heap have their bodies in the set. -/
def Heaps (h : Heap) : Prop :=
  ∀ (i : FrameId) (f : Frame) (name : String) (v : Value), h.frames[i]? = some f → f.get? name = some v →
    N.Values v

/-- What the computation ends with is a value of which `Q` holds or a reason that the set allows for, and it
leaves no other functions behind than it may find. -/
def Keeps (Q : α → Prop) (x : EvalM α) : Prop :=
  ∀ m, N.Heaps m.heap → (x.run m).fold (fun a n => Q a ∧ N.Heaps n.heap) fun e n => N.Stops e ∧ N.Heaps n.heap

section
variable {N} {Q : α → Prop} {R : β → Prop} {x : EvalM α}

theorem Keeps.pure {a : α} (h : Q a) : N.Keeps Q (pure a) := fun _ hm => ⟨h, hm⟩

theorem Keeps.throw {e : Stop} (h : N.Stops e) : N.Keeps Q (throw e) := fun _ hm => ⟨h, hm⟩

theorem Keeps.bind {f : α → EvalM β} (hx : N.Keeps Q x) (hf : ∀ a, Q a → N.Keeps R (f a)) :
    N.Keeps R (x >>= f) := by
  intro m hm
  have hends := hx m hm
  rw [Deep.run_bind]
  generalize x.run m = r at hends ⊢
  cases r with
  | ok a n => exact hf a hends.1 n hends.2
  | error e n => exact hends

theorem Keeps.later {x : Unit → EvalM α} (h : N.Keeps Q (x ())) : N.Keeps Q (.later x) := by
  intro m hm
  rw [Deep.run_later]
  exact h m hm

theorem Keeps.leaving (h : N.Keeps Q x) {f : Machine → Machine} (hf : ∀ m, (f m).heap = m.heap) :
    N.Keeps Q (x.leaving f) := by
  intro m hm
  have hends := h m hm
  rw [Deep.run_leaving]
  generalize x.run m = r at hends ⊢
  cases r with
  | ok a n => exact ⟨hends.1, (hf n).symm ▸ hends.2⟩
  | error e n => exact ⟨hends.1, (hf n).symm ▸ hends.2⟩

/-- A step that never stops. -/
theorem Keeps.of {f : Machine → α} {g : Machine → Machine}
    (h : ∀ m, N.Heaps m.heap → Q (f m) ∧ N.Heaps (g m).heap) : N.Keeps Q (.of fun m => .ok (f m) (g m)) := by
  intro m hm
  rw [Deep.run_of]
  exact h m hm

theorem Keeps.mapM {γ : Type} {f : γ → EvalM α} {cs : List γ} (h : ∀ c ∈ cs, N.Keeps Q (f c)) :
    N.Keeps (fun as => ∀ a ∈ as, Q a) (cs.mapM f) := by
  induction cs with
  | nil => exact .pure nofun
  | cons c cs ih =>
    rw [List.forall_mem_cons] at h
    rw [List.mapM_cons]
    refine h.1.bind fun a ha => (ih h.2).bind fun as has => .pure ?_
    exact List.forall_mem_cons.2 ⟨ha, has⟩

end

theorem keeps_ofExcept {Q : α → Prop} {r : Except Fault α} (hok : ∀ a, r = .ok a → Q a)
    (herror : ∀ f, r = .error f → N.Faults f) : N.Keeps Q (ofExcept r) := by
  cases r with
  | ok a => exact .pure (hok a rfl)
  | error f => exact .throw (herror f rfl)

theorem values_of_within {v : Value} (h : v.Within fun _ => False) : N.Values v :=
  fun c hc => (h c hc).elim

theorem shortCut_eq_some {op : Token} {l v : Value} (h : Operator.shortCut op l = .ok (some v)) : v = l := by
  unfold Operator.shortCut at h
  split at h
  case h_1 | h_2 =>
    split at h <;> cases h
    rfl
  case h_3 => cases h

theorem values_nil : N.Values .nil := by
  intro c hc
  cases hc

theorem flows_normal : N.Flows .normal := by
  intro v hv
  cases hv

theorem values_ofLiteral (l : Literal) : N.Values (.ofLiteral l) := by
  cases l <;> nofun

/-! ## Operations of a machine -/

section
variable {h : Heap}

theorem heaps_initial : N.Heaps .initial := by
  intro i f name v hf hv c hc
  obtain ⟨hi, rfl⟩ := Array.getElem?_eq_some_iff.1 hf
  obtain rfl : i = 0 := Nat.lt_one_iff.1 hi
  subst hc
  change Bindings.get? name [(Native.clock.name, .native .clock)] = _ at hv
  simp only [Bindings.get?] at hv
  split at hv <;> cases hv

theorem Heaps.get? (hh : N.Heaps h) {i : FrameId} {name : String} {v : Value}
    (hv : h.get? i name = some v) : N.Values v := by
  simp only [Heap.get?, Option.bind_eq_bind, Option.bind_eq_some_iff] at hv
  obtain ⟨o, -, f, hf, hget⟩ := hv
  exact hh o f name v hf hget

theorem Heaps.define (hh : N.Heaps h) (i : FrameId) (name : String) {v : Value} (hv : N.Values v) :
    N.Heaps (h.define i name v) := by
  intro j f other w hf hw
  unfold Heap.define at hf
  rw [Array.getElem?_modify] at hf
  split at hf
  · obtain ⟨g, hg, rfl⟩ := Option.map_eq_some_iff.1 hf
    rw [Frame.get?_define] at hw
    split at hw
    · cases hw
      exact hv
    · exact hh j g other w hg hw
  · exact hh j f other w hf hw

theorem Heaps.defineAll (hh : N.Heaps h) (i : FrameId) (names : List String) {vs : List Value}
    (hvs : ∀ v ∈ vs, N.Values v) : N.Heaps (h.defineAll i names vs) := by
  induction names generalizing h vs with
  | nil => exact hh
  | cons name names ih =>
    cases vs with
    | nil => exact hh
    | cons v vs =>
      rw [List.forall_mem_cons] at hvs
      exact ih (hh.define N i name hvs.1) hvs.2

theorem Heaps.push (hh : N.Heaps h) (parent : FrameId) : N.Heaps (h.push ⟨some parent, []⟩) := by
  intro i f name v hf hv
  unfold Heap.push at hf
  rw [Array.getElem?_push] at hf
  split at hf
  · cases hf
    cases hv
  · exact hh i f name v hf hv

end

theorem keeps_print (line : String) : N.Keeps (fun _ => True) (print line) := .of fun _ hm => ⟨trivial, hm⟩

theorem keeps_readClock (cfg : Config) : N.Keeps N.Values (readClock cfg) := by
  intro m hm
  rw [run_readClock]
  exact ⟨nofun, hm⟩

theorem keeps_callDepth : N.Keeps (fun _ => True) callDepth := .of fun _ hm => ⟨trivial, hm⟩

theorem keeps_newFrame (parent : FrameId) : N.Keeps (fun _ => True) (newFrame parent) :=
  .of fun _ hm => ⟨trivial, hm.push N parent⟩

theorem keeps_bindParams (frame : FrameId) (params : List String) {args : List Value}
    (ha : ∀ v ∈ args, N.Values v) : N.Keeps (fun _ => True) (bindParams frame params args) :=
  .of fun _ hm => ⟨trivial, hm.defineAll N frame params ha⟩

theorem keeps_defineVar (frame : FrameId) (name : String) {v : Value} (hv : N.Values v) :
    N.Keeps (fun _ => True) (defineVar frame name v) :=
  .of fun _ hm => ⟨trivial, hm.define N frame name hv⟩

theorem keeps_newFunction (frame : FrameId) (name : Token) (params : List Token) {body : List Stmt}
    (hb : ∀ s ∈ body, N.Stmts s) : N.Keeps N.Values (newFunction frame name params body) := by
  refine .of fun m hm => ⟨?_, hm⟩
  rintro c ⟨⟩
  exact hb

theorem keeps_readVar (frame : FrameId) {name : Token}
    (h : N.Faults ⟨.undefinedVariable name.lexeme, name.line⟩) : N.Keeps N.Values (readVar frame name) := by
  intro m hm
  rw [readVar, Deep.run_of]
  cases hv : m.heap.get? frame name.lexeme with
  | none => exact ⟨h, hm⟩
  | some v => exact ⟨hm.get? N hv, hm⟩

theorem keeps_assignVar (frame : FrameId) {name : Token} {v : Value} (hv : N.Values v)
    (h : N.Faults ⟨.undefinedVariable name.lexeme, name.line⟩) :
    N.Keeps (fun _ => True) (assignVar frame name v) := by
  intro m hm
  rw [assignVar, Deep.run_of]
  cases m.heap.owner? name.lexeme frame with
  | none => exact ⟨h, hm⟩
  | some o => exact ⟨trivial, hm.define N o name.lexeme hv⟩

theorem keeps_counted (cfg : Config) {line : Nat} {Q : α → Prop} {x : EvalM α} (hx : N.Keeps Q x)
    (h : N.Faults ⟨.stackOverflow, line⟩) : N.Keeps Q (counted cfg line x) := by
  have henter : N.Keeps (fun _ => True) (enterCall cfg line) := by
    intro m hm
    rw [enterCall, Deep.run_of]
    split
    · exact ⟨h, hm⟩
    · exact ⟨trivial, hm⟩
  exact henter.bind fun _ _ => hx.leaving fun _ => rfl

/-! ## Levels of evaluation -/

theorem keeps_runAll {stmt : Stmt → EvalM Flow} {ss : List Stmt} (h : ∀ s ∈ ss, N.Keeps N.Flows (stmt s)) :
    N.Keeps N.Flows (runAll stmt ss) := by
  induction ss with
  | nil => exact .pure N.flows_normal
  | cons s ss ih =>
    rw [List.forall_mem_cons] at h
    rw [runAll]
    refine h.1.bind fun f hf => ?_
    cases f with
    | normal => exact ih h.2
    | returned v => exact .pure hf

theorem keeps_runEach {stmt : Stmt → EvalM Flow} {ss : List Stmt} (h : ∀ s ∈ ss, N.Keeps N.Flows (stmt s)) :
    N.Keeps (fun _ => True) (runEach stmt ss) := by
  induction ss with
  | nil => exact .pure trivial
  | cons s ss ih =>
    rw [List.forall_mem_cons] at h
    rw [runEach]
    exact h.1.bind fun _ _ => ih h.2

theorem keeps_runWhile {test : EvalM Value} {body : EvalM Flow} (ht : N.Keeps N.Values test)
    (hb : N.Keeps N.Flows body) (fuel : Nat) : N.Keeps N.Flows (runWhile test body fuel) := by
  induction fuel with
  | zero => exact .throw trivial
  | succ fuel ih =>
    rw [runWhile]
    refine ht.bind fun v _ => ?_
    split
    · refine hb.bind fun f hf => ?_
      cases f with
      | normal => exact ih
      | returned v => exact .pure hf
    · exact .pure N.flows_normal

section
variable {expr : FrameId → Expr → EvalM Value} {stmt : FrameId → Stmt → EvalM Flow}
  (hexpr : ∀ frame e, N.Exprs e → N.Keeps N.Values (expr frame e))
  (hstmt : ∀ frame s, N.Stmts s → N.Keeps N.Flows (stmt frame s))

section
include hstmt

theorem keeps_callClosure {f : Closure} (hf : ∀ s ∈ f.body, N.Stmts s) {args : List Value}
    (ha : ∀ v ∈ args, N.Values v) : N.Keeps N.Values (callClosure stmt f args) := by
  rw [callClosure]
  refine (N.keeps_newFrame f.frame).bind fun frame _ => ?_
  refine (N.keeps_bindParams frame f.params ha).bind fun _ _ => ?_
  refine (N.keeps_runAll fun s hs => hstmt frame s (hf s hs)).bind fun flow hflow => ?_
  cases flow with
  | normal => exact .pure N.values_nil
  | returned v => exact .pure (hflow v rfl)

theorem keeps_callValue (cfg : Config) {callee : Value} (hc : N.Values callee) {args : List Value}
    (ha : ∀ v ∈ args, N.Values v) {line : Nat}
    (h : ∀ cause : Fault.Cause, cause.isOfCall = true → N.Faults ⟨cause, line⟩) :
    N.Keeps N.Values (callValue cfg stmt callee args line) := by
  have harity (expected : Nat) : N.Keeps (fun _ => True) (checkArity expected args.length line) := by
    unfold checkArity
    split
    · exact .pure trivial
    · exact .throw (h _ rfl)
  cases callee with
  | native f => exact (harity _).bind fun _ _ => N.keeps_counted cfg (N.keeps_readClock cfg) (h _ rfl)
  | function f =>
    exact (harity _).bind fun _ _ => N.keeps_counted cfg (N.keeps_callClosure hstmt (hc f rfl) ha) (h _ rfl)
  | number | string | boolean | nil => exact .throw (h _ rfl)

end

include hexpr

theorem keeps_optionalStep (frame : FrameId) {o : Option Expr} (ho : ∀ e ∈ o.toList, N.Exprs e) :
    N.Keeps N.Values (optionalStep (expr frame) o) := by
  cases o with
  | none => exact .pure N.values_nil
  | some e => exact hexpr frame e (ho e (List.mem_singleton_self e))

include hstmt

theorem keeps_exprStep (cfg : Config) (frame : FrameId) {e : Expr} (he : N.Exprs e) :
    N.Keeps N.Values (exprStep cfg expr stmt frame e) := by
  have hparts := N.expr_part he
  have hfault {f : Fault} (hf : e.Raises f) : N.Faults f := .inl ⟨e, he, hf⟩
  cases e with
  | literal id value => exact .pure (N.values_ofLiteral value)
  | var id name => exact N.keeps_readVar frame (hfault .var)
  | assign id name value =>
    refine (hexpr frame value (hparts value (by simp [Expr.parts]))).bind fun v hv => ?_
    exact (N.keeps_assignVar frame hv (hfault .assign)).bind fun _ _ => .pure hv
  | unary id op operand =>
    refine (hexpr frame operand (hparts operand (by simp [Expr.parts]))).bind fun v _ => ?_
    exact N.keeps_ofExcept (fun _ h => N.values_of_within (unary_within h)) fun f h => hfault (.unary h)
  | binary id left op right =>
    refine (hexpr frame left (hparts left (by simp [Expr.parts]))).bind fun l _ => ?_
    refine (hexpr frame right (hparts right (by simp [Expr.parts]))).bind fun r _ => ?_
    exact N.keeps_ofExcept (fun _ h => N.values_of_within (binary_within h)) fun f h => hfault (.binary h)
  | logical id left op right =>
    refine (hexpr frame left (hparts left (by simp [Expr.parts]))).bind fun l hl => ?_
    have hshort : N.Keeps (fun o => ∀ v, o = some v → N.Values v) (ofExcept (Operator.shortCut op l)) := by
      refine N.keeps_ofExcept (fun o h v ho => ?_) fun f h => hfault (.logical h)
      subst ho
      rw [shortCut_eq_some h]
      exact hl
    refine hshort.bind fun o ho => ?_
    cases o with
    | none => exact hexpr frame right (hparts right (by simp [Expr.parts]))
    | some v => exact .pure (ho v rfl)
  | grouping id inner => exact hexpr frame inner (hparts inner (by simp [Expr.parts]))
  | call id callee paren args =>
    rw [Expr.parts, List.forall_mem_cons] at hparts
    refine (hexpr frame callee hparts.1).bind fun f hf => ?_
    refine (Keeps.mapM fun a ha => hexpr frame a (hparts.2 a ha)).bind fun vs hvs => ?_
    exact N.keeps_callValue hstmt cfg hf hvs fun _ h => hfault (.call h)

theorem keeps_stmtStep (fuel : Nat) (frame : FrameId) {s : Stmt} (hs : N.Stmts s) :
    N.Keeps N.Flows (stmtStep fuel expr stmt frame s) := by
  have hexprs := N.stmt_expr hs
  have hparts := N.stmt_part hs
  cases s with
  | expression id e => exact (hexpr frame e (hexprs e (by simp [Stmt.exprs]))).bind fun _ _ => .pure N.flows_normal
  | print id e =>
    refine (hexpr frame e (hexprs e (by simp [Stmt.exprs]))).bind fun v _ => ?_
    exact (N.keeps_print _).bind fun _ _ => .pure N.flows_normal
  | varDecl id name init =>
    refine (N.keeps_optionalStep hexpr frame hexprs).bind fun v hv => ?_
    exact (N.keeps_defineVar frame name.lexeme hv).bind fun _ _ => .pure N.flows_normal
  | block id body =>
    refine (N.keeps_newFrame frame).bind fun inner _ => ?_
    exact N.keeps_runAll fun s h => hstmt inner s (hparts s h)
  | ifThen id condition yes =>
    refine (hexpr frame condition (hexprs condition (by simp [Stmt.exprs]))).bind fun v _ => ?_
    split
    · exact hstmt frame yes (hparts yes (by simp [Stmt.parts]))
    · exact .pure N.flows_normal
  | ifElse id condition yes no =>
    refine (hexpr frame condition (hexprs condition (by simp [Stmt.exprs]))).bind fun v _ => ?_
    split
    · exact hstmt frame yes (hparts yes (by simp [Stmt.parts]))
    · exact hstmt frame no (hparts no (by simp [Stmt.parts]))
  | whileLoop id condition body =>
    exact N.keeps_runWhile (hexpr frame condition (hexprs condition (by simp [Stmt.exprs])))
      (hstmt frame body (hparts body (by simp [Stmt.parts]))) fuel
  | funDecl id name params body =>
    refine (N.keeps_newFunction frame name params hparts).bind fun v hv => ?_
    exact (N.keeps_defineVar frame name.lexeme hv).bind fun _ _ => .pure N.flows_normal
  | ret id keyword value =>
    refine N.keeps_callDepth.bind fun d _ => ?_
    split
    · exact .throw (.inr ⟨_, hs, .ret⟩)
    · refine (N.keeps_optionalStep hexpr frame hexprs).bind fun v hv => .pure ?_
      rintro w ⟨⟩
      exact hv

end

/-- Evaluation of a member of the set. -/
theorem keeps_eval (cfg : Config) (fuel : Nat) :
    (∀ frame e, N.Exprs e → N.Keeps N.Values (evalExpr cfg fuel frame e)) ∧
      ∀ frame s, N.Stmts s → N.Keeps N.Flows (evalStmt cfg fuel frame s) := by
  induction fuel with
  | zero => exact ⟨fun _ _ _ => .throw trivial, fun _ _ _ => .throw trivial⟩
  | succ fuel ih =>
    refine ⟨fun frame e he => ?_, fun frame s hs => ?_⟩
    · rw [evalExpr]
      exact .later (N.keeps_exprStep ih.1 ih.2 cfg frame he)
    · rw [evalStmt]
      exact .later (N.keeps_stmtStep ih.1 ih.2 fuel frame hs)

theorem keeps_evalProgram (cfg : Config) (fuel : Nat) {p : Program} (hp : ∀ s ∈ p, N.Stmts s) :
    N.Keeps (fun _ => True) (evalProgram cfg fuel p) := by
  rw [evalProgram_eq]
  exact N.keeps_runEach fun s hs => (N.keeps_eval cfg fuel).2 Heap.globals s (hp s hs)

end Nodes
end Eval

/-! ## Sessions -/

namespace Session

/-- Runs programs one after the other. -/
def runPrograms (cfg : Config) (fuel : Nat) : List Program → Session → List Outcome × Session
  | [], s => ([], s)
  | p :: rest, s =>
    let (o, s) := s.runProgram cfg fuel p
    let (os, s) := runPrograms cfg fuel rest s
    (o :: os, s)

end Session

namespace Eval.Nodes

variable (N : Nodes) (cfg : Config) (fuel : Nat)

/-- What a run of a program in the set leaves behind, and what it can fail with. -/
theorem runProgram_keeps {p : Program} (hp : ∀ s ∈ p, N.Stmts s) {s : Session} (hs : N.Heaps s.machine.heap) :
    (∀ f, (s.runProgram cfg fuel p).1 = .failed f → N.Faults f) ∧
      N.Heaps (s.runProgram cfg fuel p).2.machine.heap := by
  have hends := N.keeps_evalProgram cfg fuel hp s.machine hs
  rw [Session.runProgram_eq]
  generalize (evalProgram cfg fuel p).run s.machine = r at hends ⊢
  cases r with
  | ok _ m => exact ⟨nofun, hends.2⟩
  | error e m =>
    cases e with
    | outOfFuel => exact ⟨nofun, hends.2⟩
    | fault f =>
      refine ⟨?_, hends.2⟩
      rintro _ ⟨⟩
      exact hends.1

/-- Programs one after the other fail with faults of the set only. -/
theorem failed_runPrograms {ps : List Program} (hps : ∀ p ∈ ps, ∀ s ∈ p, N.Stmts s) {s : Session}
    (hs : N.Heaps s.machine.heap) {f : Fault} (hf : .failed f ∈ (s.runPrograms cfg fuel ps).1) :
    N.Faults f := by
  induction ps generalizing s with
  | nil => cases hf
  | cons p ps ih =>
    rw [List.forall_mem_cons] at hps
    obtain ⟨hfailed, hheap⟩ := N.runProgram_keeps cfg fuel hps.1 hs
    rcases List.mem_cons.1 hf with hfirst | hrest
    · exact hfailed f hfirst.symm
    · exact ih hps.2 hheap hrest

/-- The same for source texts, of which only those are run that are programs. -/
theorem failed_inTurn {sources : List String}
    (hp : ∀ source p, (Program.ofSource source 0).program = .ok p → ∀ s ∈ p, N.Stmts s) {s : Session}
    (hs : N.Heaps s.machine.heap) {f : Fault}
    (hf : .failed f ∈ (Session.inTurn (Session.run cfg fuel) sources s).1) : N.Faults f := by
  induction sources generalizing s with
  | nil => cases hf
  | cons source sources ih =>
    have hrun : (∀ f, (s.run cfg fuel source).1 = .failed f → N.Faults f) ∧
        N.Heaps (s.run cfg fuel source).2.machine.heap := by
      cases hprogram : (Program.ofSource source 0).program with
      | error errors =>
        rw [Session.run_of_rejected hprogram]
        exact ⟨nofun, hs⟩
      | ok p =>
        rw [Session.run_of_program hprogram]
        exact N.runProgram_keeps cfg fuel (hp source p hprogram) hs
    rcases List.mem_cons.1 hf with hfirst | hrest
    · exact hrun.1 f hfirst.symm
    · exact ih hrun.2 hrest

end Eval.Nodes

/-! ## Trees that were read -/

/-- Canonical trees have canonical parts. -/
def Eval.canonicalNodes : Eval.Nodes where
  Exprs := Expr.Canonical
  Stmts := Stmt.Canonical
  expr_part {e} he := by
    cases e <;> simp_all [Expr.parts, Expr.Canonical, Expr.allCanonical_iff]
  stmt_expr {s} hs := by
    cases s <;> simp_all [Stmt.exprs, Stmt.Canonical]
  stmt_part {s} hs := by
    cases s <;> simp_all [Stmt.parts, Stmt.Canonical, Stmt.allCanonical_iff]

theorem Operator.onNumbers_cause {op : Token} {g : Float → Float → Value} {l r : Value} {f : Fault}
    (h : Operator.onNumbers op g l r = .error f) : f.cause = .operandsNotNumbers := by
  unfold Operator.onNumbers at h
  split at h <;> cases h
  rfl

/-- Operators of a canonical tree have a meaning, though they may get operands that they cannot take. -/
theorem Expr.Canonical.supported {e : Expr} (he : e.Canonical) {f : Fault} (hf : e.Raises f)
    (lexeme : String) : f.cause ≠ .unsupportedOperator lexeme := by
  cases hf with
  | var | assign =>
    intro hcause
    cases hcause
  | call h =>
    rintro rfl
    cases h
  | @unary _ op _ v _ h =>
    unfold Operator.unary at h
    rcases he.1 with hk | hk
    · rw [hk] at h
      cases h
    · rw [hk] at h
      cases v <;> cases h <;> intro hcause <;> cases hcause
  | @binary _ _ op _ v w _ h =>
    have hlevel : Level.equality ≤ Level.ofOperator op.kind := he.1.1
    unfold Operator.binary at h
    split at h
    case h_1 =>
      unfold Operator.add at h
      split at h <;> cases h
      intro hcause
      cases hcause
    case h_9 | h_10 => cases h
    case h_11 => cases hk : op.kind <;> simp_all [Level.ofOperator, Level.equality, Level.conjunction,
      Level.disjunction]
    all_goals
      rw [Operator.onNumbers_cause h]
      intro hcause
      cases hcause
  | @logical _ _ op _ v _ h =>
    have hlevel : Level.disjunction ≤ Level.ofOperator op.kind ∧
      Level.ofOperator op.kind ≤ Level.conjunction := he.1
    unfold Operator.shortCut at h
    split at h
    case h_1 | h_2 => cases h
    case h_3 => cases hk : op.kind <;> simp_all [Level.ofOperator, Level.disjunction, Level.conjunction,
      Level.equality, Level.comparison, Level.term, Level.factor]

theorem canonical_of_ofTokens {tokens : List Token} {firstId : NodeId} {p : Program}
    (h : (Program.ofTokens tokens firstId).program = .ok p) : ∀ s ∈ p, s.Canonical := by
  obtain ⟨j, hspells⟩ := Grammar.ofTokens_eq_ok_iff.1 h
  exact Stmt.allCanonical_iff.1 (Grammar.canonical_of_spells hspells)

theorem Eval.canonicalNodes_faults {f : Fault} (hf : canonicalNodes.Faults f) (lexeme : String) :
    f.cause ≠ .unsupportedOperator lexeme := by
  rcases hf with ⟨e, he, hraises⟩ | ⟨s, -, hraises⟩
  · exact he.supported hraises lexeme
  · cases hraises
    nofun

/-- No run of a session ends at an operator without a meaning, whether the programs were read from source texts
or from tokens that agree with no text at all. -/
theorem every_operator_is_supported (cfg : Config) (fuel : Nat) (lexeme : String) (line : Nat) :
    (∀ ps : List Program,
      (∀ p ∈ ps, ∃ tokens firstId, (Program.ofTokens tokens firstId).program = .ok p) →
        .failed ⟨.unsupportedOperator lexeme, line⟩ ∉ (Session.initial.runPrograms cfg fuel ps).1) ∧
      ∀ sources : List String,
        .failed ⟨.unsupportedOperator lexeme, line⟩ ∉
          (Session.inTurn (Session.run cfg fuel) sources .initial).1 := by
  have hheap := Eval.canonicalNodes.heaps_initial
  constructor
  · intro ps hps hf
    refine Eval.canonicalNodes_faults (Eval.canonicalNodes.failed_runPrograms cfg fuel ?_ hheap hf) lexeme rfl
    intro p hp
    obtain ⟨tokens, firstId, hread⟩ := hps p hp
    exact canonical_of_ofTokens hread
  · intro sources hf
    exact Eval.canonicalNodes_faults
      (Eval.canonicalNodes.failed_inTurn cfg fuel (fun _ _ => Session.canonical_of_ofSource) hheap hf) lexeme rfl

namespace OddLexemes

/-! A function declared by one program and called by the next one. The lexemes are those of other tokens. -/

def token (kind : Token.Kind) (lexeme : String) : Token := ⟨kind, lexeme, none, 1⟩

/-- `fun f(a) { return -a; }`, with `and` written for the minus sign. -/
def declaration : List Token :=
  [token .kwFun "var", token .identifier "f", token .leftParen "(", token .identifier "a",
    token .rightParen "]", token .leftBrace "[", token .kwReturn "fun", token .minus "and",
    token .identifier "a", token .semicolon ",", token .rightBrace ")"]

/-- `f(f);` -/
def call : List Token :=
  [token .identifier "f", token .leftParen "(", token .identifier "f", token .rightParen ")",
    token .semicolon ";"]

def programs : List Program :=
  [declaration, call].map fun tokens => (Program.ofTokens tokens 0).program.toOption.getD []

theorem programs_read :
    ∀ p ∈ programs, ∃ tokens firstId, (Program.ofTokens tokens firstId).program = .ok p := by
  have haccepted : ∀ tokens ∈ [declaration, call],
      (Program.ofTokens tokens 0).program.toOption.isSome = true := by decide +kernel
  intro p hp
  obtain ⟨tokens, htokens, rfl⟩ := List.mem_map.1 hp
  refine ⟨tokens, 0, ?_⟩
  have hsome := haccepted tokens htokens
  cases hread : (Program.ofTokens tokens 0).program with
  | error errors =>
    rw [hread] at hsome
    cases hsome
  | ok p => rfl

end OddLexemes

theorem every_operator_is_supported_odd_lexemes :
    (Session.initial.runPrograms ⟨8, fun _ => 0⟩ 20 OddLexemes.programs).1.map Outcome.exitCode = [0, 70] ∧
      (∀ p ∈ OddLexemes.programs, ∃ tokens firstId, (Program.ofTokens tokens firstId).program = .ok p) ∧
      .failed ⟨.unsupportedOperator "and", 1⟩ ∉
        (Session.initial.runPrograms ⟨8, fun _ => 0⟩ 20 OddLexemes.programs).1 :=
  ⟨by decide +kernel, OddLexemes.programs_read,
    (every_operator_is_supported ⟨8, fun _ => 0⟩ 20 "and" 1).1 _ OddLexemes.programs_read⟩

end Lox
