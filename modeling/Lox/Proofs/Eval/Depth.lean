import Lox.Proofs.Eval.Ancestry
import Lox.Proofs.Eval.Binding
import Lox.Proofs.Rejection

/-!
# The number of calls under way

A machine counts the calls that are under way. Whatever is done with it and whichever way that ends, the
count is afterwards what it was before. So between two runs it is zero, and no run takes calls away from
the next one.

**Guards.** `guardExpr` and `guardStmt` evaluate by the same steps as `evalExpr` and `evalStmt`, but look at
the count all along: before and after every expression and statement, before it goes up, and around the
body of a call, where it has just gone up and is about to go down. Where it is above the limit, or does not
fit into a counter of 64 bits when it goes up, or is zero when it goes down, they raise an alarm, which is a
computation given from outside. That the run is the same whatever the alarm does says that this never
happens.

The two runs side by side have the same machine at all times (`levelled`), so what is left to show is that
the guards let pass every count up to the limit.

**Nesting.** `Nesting.program` calls a function that prints a line and then calls itself. It shows how many calls
a session has room for.

**Results.**
* `depth_perform`: the count after an action is the count before.
* `level_guard_eval`: no alarm is raised.
* `Nesting.ends_program`: there is room for as many calls as the limit says.
* `call_depth_is_balanced`.
-/
namespace Lox

open List (Forall₂)
open EvalM Eval

/-! ## Balance -/

namespace Eval

/-- A computation that ends alike on machines that are alike keeps the count, and so it does if it then
hands out something of its value. -/
theorem depth_after {α β : Type} {Q : α → α → Prop} {x : EvalM α} {m : Machine} (f : α → β)
    (h : renumbering.Rel m.depth Q x x) : (Deep.after (do return f (← x)) m).depth = m.depth := by
  have hbind : renumbering.Rel m.depth (fun _ _ => True) (do return f (← x)) (do return f (← x)) :=
    h.bind fun _ _ _ => .pure trivial
  exact (hbind.after (Session.Renumbers.refl ⟨m⟩)).left_depth

end Eval

/-- Whatever is done with a machine, as many calls are under way afterwards as before. -/
theorem depth_perform (cfg : Config) (fuel : Nat) (a : Action) (m : Machine) :
    ((a.perform cfg fuel).after m).depth = m.depth := by
  let C := renumbering.correspondence cfg
  have heval := renumbering.rel_eval Expr.Renumbers.layer Stmt.Renumbers.layer id (fun _ => rfl) cfg fuel
  have hlist (d : Nat) (frame : FrameId) (ss ss' : List Stmt) (h : Forall₂ Stmt.Renumbers ss ss') :
      C.Rel d (C.Flows d) (runAll (evalStmt cfg fuel frame) ss) (runAll (evalStmt cfg fuel frame) ss') :=
    C.rel_runAll (h.imp fun s s' hs => (heval d).2 frame s s' hs)
  have hsame (ss : List Stmt) : Forall₂ Stmt.Renumbers ss ss := List.forall₂_same.2 fun _ _ => rfl
  cases a with
  | interpret p => exact depth_after _ (renumbers_evalProgram cfg fuel _ (hsame p))
  | block frame body => exact depth_after _ (hlist _ frame body body (hsame body))
  | stmt frame s => exact depth_after _ ((heval _).2 frame s s rfl)
  | expr frame e => exact depth_after _ ((heval _).1 frame e e rfl)
  | newRoot => rfl
  | newChild parent => exact depth_after _ (C.rel_newFrame rfl)
  | get frame name => exact depth_after _ (C.rel_readVar rfl rfl)
  | define frame name value => exact depth_after _ (C.rel_defineVar rfl name value.renumbers_refl)
  | assign frame name value => exact depth_after _ (C.rel_assignVar rfl rfl value.renumbers_refl)
  | call callee args =>
    cases callee with
    | function f =>
      have hargs : Forall₂ C.Values args args := List.forall₂_same.2 fun v _ => v.renumbers_refl
      have hf : C.Functions f f := ⟨rfl, rfl, rfl, rfl, hsame f.body⟩
      refine depth_after _ (C.rel_callClosure hf hargs ?_)
      rintro b b' hb frame _ rfl
      exact hlist m.depth frame b b' hb
    | native f => exact depth_after _ C.rel_readClock
    | number | string | boolean | nil => rfl

/-! ## Guards -/

namespace Eval

/-- Raises the alarm unless the number of calls under way is as it should be. -/
def check (alarm : EvalM Unit) (ok : Nat → Bool) : EvalM Unit :=
  .of fun m => if ok m.depth then .ok () m else alarm.run m

/-- Checks before a computation and after it, whichever way it ends. -/
def guarded {α : Type} (alarm : EvalM Unit) (ok : Nat → Bool) (x : EvalM α) : EvalM α := do
  check alarm ok
  let a ← tryCatch x fun e => do
    check alarm ok
    throw e
  check alarm ok
  return a

/-- A counted call under guard. Unless the call is refused, the count can go up without overflow. In the body
it is within the limit, and at the end of the body it can go down. -/
def guardCounted {α : Type} (cfg : Config) (alarm : EvalM Unit) (line : Nat) (body : EvalM α) : EvalM α := do
  check alarm fun n => cfg.maxCallDepth ≤ n || n + 1 < UInt64.size
  counted cfg line (guarded alarm (fun n => 0 < n && n ≤ cfg.maxCallDepth) body)

/-- Calls a value on `line` under guard. -/
def guardCallValue (cfg : Config) (alarm : EvalM Unit) (stmt : FrameId → Stmt → EvalM Flow) (callee : Value)
    (args : List Value) (line : Nat) : EvalM Value :=
  match callee with
  | .native f => do
    checkArity f.arity args.length line
    guardCounted cfg alarm line (readClock cfg)
  | .function f => do
    checkArity f.params.length args.length line
    guardCounted cfg alarm line (callClosure stmt f args)
  | _ => fault .notCallable line

/-- An expression whose calls are under guard. -/
def guardExprStep (cfg : Config) (alarm : EvalM Unit) (expr : FrameId → Expr → EvalM Value)
    (stmt : FrameId → Stmt → EvalM Flow) (frame : FrameId) : Expr → EvalM Value
  | .call _ callee paren args => do
    let f ← expr frame callee
    let vs ← args.mapM (expr frame)
    guardCallValue cfg alarm stmt f vs paren.line
  | e => exprStep cfg expr stmt frame e

mutual

/-- The value of an expression in `frame`, evaluated under guard. -/
def guardExpr (cfg : Config) (alarm : EvalM Unit) : (fuel : Nat) → FrameId → Expr → EvalM Value
  | 0, _, _ => outOfFuel
  | fuel + 1, frame, e => .later fun _ => guarded alarm (· ≤ cfg.maxCallDepth)
    (guardExprStep cfg alarm (guardExpr cfg alarm fuel) (guardStmt cfg alarm fuel) frame e)

/-- Executes a statement in `frame` under guard. -/
def guardStmt (cfg : Config) (alarm : EvalM Unit) : (fuel : Nat) → FrameId → Stmt → EvalM Flow
  | 0, _, _ => outOfFuel
  | fuel + 1, frame, s => .later fun _ => guarded alarm (· ≤ cfg.maxCallDepth)
    (stmtStep fuel (guardExpr cfg alarm fuel) (guardStmt cfg alarm fuel) frame s)

end

/-- Carries an action out under guard. -/
def guardPerform (cfg : Config) (alarm : EvalM Unit) (fuel : Nat) : Action → EvalM (Option Value)
  | .interpret program => do
    runEach (guardStmt cfg alarm fuel Heap.globals) program
    return none
  | .block frame body => return (← runAll (guardStmt cfg alarm fuel frame) body).value?
  | .stmt frame s => return (← guardStmt cfg alarm fuel frame s).value?
  | .expr frame e => return some (← guardExpr cfg alarm fuel frame e)
  | .call (.function f) args => return some (← callClosure (guardStmt cfg alarm fuel) f args)
  | a => a.perform cfg fuel

/-! ## No alarm is raised -/

/-- The same machine on both sides, with `d` calls under way. -/
def SameAt (d : Nat) (m n : Machine) : Prop := m = n ∧ m.depth = d

/-- From one machine with `d` calls under way, both computations end in the same way and with the same
machine, and as many calls are under way as before. -/
abbrev Level {α β : Type} (d : Nat) (Q : α → β → Prop) (x : EvalM α) (y : EvalM β) : Prop :=
  Sim (SameAt d) (· = ·) Q x y

section
variable {α β : Type} {cfg : Config} {alarm : EvalM Unit} {d : Nat} {Q : α → β → Prop} {x : EvalM α}
  {y : EvalM β}

theorem Level.of {f : Machine → Ending Stop Machine α} {Q : α → α → Prop}
    (h : ∀ m, Ends (SameAt m.depth) (· = ·) Q (f m) (f m)) : Level d Q (.of f) (.of f) := by
  refine Sim.of ?_
  rintro m _ ⟨rfl, rfl⟩
  exact h m

theorem Level.counted {line : Nat} (h : d < cfg.maxCallDepth → Level (d + 1) Q x y) :
    Level d Q (counted cfg line x) (counted cfg line y) := by
  rintro m _ ⟨rfl, rfl⟩
  simp only [EvalM.counted, Deep.run_bind, enterCall, Deep.run_of, Deep.run_leaving]
  split
  · exact .error rfl ⟨rfl, rfl⟩
  · next hlt =>
    have hin : SameAt (m.depth + 1) { m with depth := m.depth + 1 } { m with depth := m.depth + 1 } :=
      ⟨rfl, rfl⟩
    dsimp only [Ending.fold]
    rcases (h (Nat.lt_of_not_le hlt)).endings hin with ⟨a, b, n, _, hx, hy, hq, rfl, hn⟩ |
      ⟨e, _, n, _, hx, hy, rfl, rfl, hn⟩
    · rw [hx, hy]
      exact .ok hq ⟨rfl, by rw [hn, Nat.add_sub_cancel]⟩
    · rw [hx, hy]
      exact .error rfl ⟨rfl, by rw [hn, Nat.add_sub_cancel]⟩

theorem run_check {ok : Nat → Bool} {m : Machine} (h : ok m.depth = true) :
    (check alarm ok).run m = .ok () m := by
  rw [check, Deep.run_of, if_pos h]

/-- A check that lets the count pass does nothing. -/
theorem Level.checked {ok : Nat → Bool} (hok : ok d = true) (h : Level d Q x y) :
    Level d Q x (do check alarm ok; y) := by
  rintro m _ ⟨rfl, rfl⟩
  rw [Deep.run_bind, run_check hok]
  exact h m m ⟨rfl, rfl⟩

theorem Level.guarded {ok : Nat → Bool} (hok : ok d = true) (h : Level d Q x y) :
    Level d Q x (guarded alarm ok y) := by
  refine Level.checked hok ?_
  rintro m _ ⟨rfl, rfl⟩
  rw [Deep.run_bind, Deep.run_tryCatch]
  rcases h.endings ⟨rfl, rfl⟩ with ⟨a, b, n, _, hx, hy, hq, rfl, hn⟩ | ⟨e, _, n, _, hx, hy, rfl, rfl, hn⟩
  · rw [hx, hy]
    simp only [Ending.fold, Deep.run_bind, run_check (hn ▸ hok)]
    exact .ok hq ⟨rfl, hn⟩
  · rw [hx, hy]
    simp only [Ending.fold, Deep.run_bind, run_check (hn ▸ hok)]
    exact .error rfl ⟨rfl, hn⟩

theorem Level.guardCounted (hmax : cfg.maxCallDepth < UInt64.size) {line : Nat}
    (h : d < cfg.maxCallDepth → Level (d + 1) Q x y) :
    Level d Q (EvalM.counted cfg line x) (guardCounted cfg alarm line y) := by
  refine Level.checked ?_ (Level.counted fun hd => Level.guarded ?_ (h hd))
  · rw [Bool.or_eq_true, decide_eq_true_iff, decide_eq_true_iff]
    omega
  · rw [Bool.and_eq_true, decide_eq_true_iff, decide_eq_true_iff]
    omega

end

/-- The same machine on both sides at all times. -/
def levelled (cfg : Config) : Correspondence cfg cfg where
  Rel := Level
  Frames := (· = ·)
  Bodies := (· = ·)
  Tokens := (· = ·)
  Enters d := d < cfg.maxCallDepth
  Counts d n := n = d
  kind_eq := @renumbering.kind_eq
  lexeme_eq := @renumbering.lexeme_eq
  rel_pure := .pure
  rel_bind := .bind
  rel_later := .later
  rel_fault ht _ := .throw (congrArg (fun t : Token => Stop.fault ⟨_, t.line⟩) ht)
  rel_print _ := .of fun _ => .ok trivial ⟨rfl, rfl⟩
  rel_readVar hf ht := by
    subst hf ht
    refine .of fun m => ?_
    split
    · exact .ok (Value.corr_eq.2 rfl) ⟨rfl, rfl⟩
    · exact .error rfl ⟨rfl, rfl⟩
  rel_defineVar hf name hv := by
    obtain rfl := Value.corr_eq.1 hv
    subst hf
    exact .of fun _ => .ok trivial ⟨rfl, rfl⟩
  rel_assignVar hf ht hv := by
    obtain rfl := Value.corr_eq.1 hv
    subst hf ht
    refine .of fun m => ?_
    split
    · exact .ok trivial ⟨rfl, rfl⟩
    · exact .error rfl ⟨rfl, rfl⟩
  rel_newFrame hf := by
    subst hf
    exact .of fun _ => .ok rfl ⟨rfl, rfl⟩
  rel_bindParams hf params hvs := by
    have heq := hvs.imp fun _ _ h => Value.corr_eq.1 h
    rw [List.forall₂_eq_eq_eq] at heq
    subst hf heq
    exact .of fun _ => .ok trivial ⟨rfl, rfl⟩
  rel_newFunction hf ht hp hs := by
    rw [List.forall₂_eq_eq_eq] at hp
    subst hf ht hp hs
    exact .of fun _ => .ok (Value.corr_eq.2 rfl) ⟨rfl, rfl⟩
  rel_readClock := by
    rintro d m _ ⟨rfl, hm⟩
    rw [run_readClock]
    exact .ok (Value.corr_eq.2 rfl) ⟨rfl, hm⟩
  rel_callDepth := by
    intro d
    refine Sim.of ?_
    rintro m _ ⟨rfl, hm⟩
    exact .ok ⟨rfl, hm⟩ ⟨rfl, hm⟩
  rel_counted ht h := ht ▸ Level.counted h

section
variable {cfg : Config} {alarm : EvalM Unit} {d : Nat}

theorem level_guardCallValue (hmax : cfg.maxCallDepth < UInt64.size)
    {stmt₁ stmt₂ : FrameId → Stmt → EvalM Flow} {callee callee' : Value} {args args' : List Value}
    (hcallee : (levelled cfg).Values callee callee') (hargs : Forall₂ (levelled cfg).Values args args')
    (hbody : d < cfg.maxCallDepth → ∀ b f, Level (d + 1) ((levelled cfg).Flows (d + 1)) (runAll (stmt₁ f) b)
      (runAll (stmt₂ f) b)) (line : Nat) :
    Level d (levelled cfg).Values (callValue cfg stmt₁ callee args line)
      (guardCallValue cfg alarm stmt₂ callee' args' line) := by
  have hvalues := hargs.imp fun _ _ h => Value.corr_eq.1 h
  rw [List.forall₂_eq_eq_eq] at hvalues
  obtain rfl := Value.corr_eq.1 hcallee
  subst hvalues
  have harity (expected : Nat) : Level d (fun _ _ => True) (checkArity expected args.length line)
      (checkArity expected args.length line) := by
    unfold checkArity
    split
    · exact .pure trivial
    · exact .throw rfl
  cases callee with
  | function f =>
    refine (harity _).bind fun _ _ _ => Level.guardCounted hmax fun hd => ?_
    refine (levelled cfg).rel_callClosure ⟨rfl, rfl, rfl, rfl, rfl⟩ hargs ?_
    rintro b _ rfl f _ rfl
    exact hbody hd b f
  | native f =>
    exact (harity _).bind fun _ _ _ => Level.guardCounted hmax fun _ => (levelled cfg).rel_readClock
  | number | string | boolean | nil => exact .throw rfl

theorem level_guardExprStep (hmax : cfg.maxCallDepth < UInt64.size)
    {expr₁ expr₂ : FrameId → Expr → EvalM Value} {stmt₁ stmt₂ : FrameId → Stmt → EvalM Flow} {frame : FrameId}
    (hexpr : ∀ e e', e = e' → Level d (levelled cfg).Values (expr₁ frame e) (expr₂ frame e'))
    (hbody : d < cfg.maxCallDepth → ∀ b f, Level (d + 1) ((levelled cfg).Flows (d + 1)) (runAll (stmt₁ f) b)
      (runAll (stmt₂ f) b)) (e : Expr) :
    Level d (levelled cfg).Values (exprStep cfg expr₁ stmt₁ frame e)
      (guardExprStep cfg alarm expr₂ stmt₂ frame e) := by
  cases e with
  | call id callee paren args =>
    refine (hexpr callee callee rfl).bind fun f f' hf => ?_
    have hargs : Level d (Forall₂ (levelled cfg).Values) (args.mapM (expr₁ frame)) (args.mapM (expr₂ frame)) :=
      (levelled cfg).rel_mapM (List.forall₂_same.2 fun a _ => hexpr a a rfl)
    exact hargs.bind fun vs vs' hvs => level_guardCallValue hmax hf hvs hbody paren.line
  | _ =>
    have hbodies : (levelled cfg).Enters d → ∀ b b', b = b' → ∀ f g, f = g →
        Level (d + 1) ((levelled cfg).Flows (d + 1)) (runAll (stmt₁ f) b) (runAll (stmt₂ g) b') := by
      rintro hd b _ rfl f _ rfl
      exact hbody hd b f
    exact (levelled cfg).rel_exprStep rfl hexpr hbodies (.refl (fun _ => rfl) (fun _ => rfl) _)

theorem level_guard_eval (hmax : cfg.maxCallDepth < UInt64.size) (alarm : EvalM Unit) (fuel d : Nat)
    (hd : d ≤ cfg.maxCallDepth) :
    (∀ frame e, Level d (levelled cfg).Values (evalExpr cfg fuel frame e) (guardExpr cfg alarm fuel frame e)) ∧
    ∀ frame s, Level d ((levelled cfg).Flows d) (evalStmt cfg fuel frame s)
      (guardStmt cfg alarm fuel frame s) := by
  induction fuel generalizing d with
  | zero => exact ⟨fun _ _ => .throw rfl, fun _ _ => .throw rfl⟩
  | succ fuel ih =>
    have hexpr (frame : FrameId) (e e' : Expr) (h : e = e') : Level d (levelled cfg).Values
        (evalExpr cfg fuel frame e) (guardExpr cfg alarm fuel frame e') := by
      subst h
      exact (ih d hd).1 frame e
    have hstmt (d : Nat) (hd : d ≤ cfg.maxCallDepth) (f g : FrameId) (hfg : f = g) (s s' : Stmt) (h : s = s') :
        Level d ((levelled cfg).Flows d) (evalStmt cfg fuel f s) (guardStmt cfg alarm fuel g s') := by
      subst hfg h
      exact (ih d hd).2 f s
    -- a call that is not refused starts below the limit, so its body is still within it
    have hbody (hd : d < cfg.maxCallDepth) (b : List Stmt) (f : FrameId) :
        Level (d + 1) ((levelled cfg).Flows (d + 1)) (runAll (evalStmt cfg fuel f) b)
          (runAll (guardStmt cfg alarm fuel f) b) :=
      (levelled cfg).rel_runAll (List.forall₂_same.2 fun s _ => hstmt (d + 1) hd f f rfl s s rfl)
    refine ⟨fun frame e => ?_, fun frame s => ?_⟩
    · rw [evalExpr, guardExpr]
      refine .later (Level.guarded (decide_eq_true hd) ?_)
      exact level_guardExprStep hmax (hexpr frame) hbody e
    · rw [evalStmt, guardStmt]
      refine .later (Level.guarded (decide_eq_true hd) ?_)
      refine (levelled cfg).rel_stmtStep rfl (hexpr frame) (hstmt d hd)
        (.refl (fun _ => rfl) (fun _ => rfl) (fun _ => rfl) (fun _ => rfl) s) ?_
      rintro i c b rfl
      exact (levelled cfg).rel_runWhile (hexpr frame c c rfl) (hstmt d hd _ _ rfl b b rfl) (.throw rfl) fuel

theorem Level.handsOut {α β : Type} {Q : α → α → Prop} {x y : EvalM α} (f : α → β) (h : Level d Q x y)
    (hQ : ∀ a b, Q a b → f a = f b) : Level d (· = ·) (do return f (← x)) (do return f (← y)) :=
  h.bind fun a b hab => .pure (hQ a b hab)

/-- What ends in the same way with the same machine is the same run. -/
theorem Level.run_eq {α : Type} {Q : α → α → Prop} {x y : EvalM α} {m : Machine} (h : Level m.depth Q x y)
    (hQ : ∀ a b, Q a b → a = b) : y.run m = x.run m := by
  rcases h.endings ⟨rfl, rfl⟩ with ⟨a, b, n, _, hx, hy, hq, rfl, -⟩ | ⟨e, _, n, _, hx, hy, rfl, rfl, -⟩
  · rw [hx, hy, hQ a b hq]
  · rw [hx, hy]

theorem flow_eq_of_corr {R : Prop} {f g : Flow} (h : Flow.Corr R (levelled cfg).Values f g) : f = g := by
  cases h with
  | normal => rfl
  | returned _ hv => rw [Value.corr_eq.1 hv]

theorem guardPerform_run (hmax : cfg.maxCallDepth < UInt64.size) (alarm : EvalM Unit) (fuel : Nat) (a : Action)
    {m : Machine} (hm : m.depth ≤ cfg.maxCallDepth) :
    (guardPerform cfg alarm fuel a).run m = (a.perform cfg fuel).run m := by
  obtain ⟨hexpr, hstmt⟩ := level_guard_eval hmax alarm fuel m.depth hm
  have hlist (frame : FrameId) (ss : List Stmt) : Level m.depth ((levelled cfg).Flows m.depth)
      (runAll (evalStmt cfg fuel frame) ss) (runAll (guardStmt cfg alarm fuel frame) ss) :=
    (levelled cfg).rel_runAll (List.forall₂_same.2 fun s _ => hstmt frame s)
  have hvalue? (f g : Flow) (h : (levelled cfg).Flows m.depth f g) : f.value? = g.value? :=
    congrArg Flow.value? (flow_eq_of_corr h)
  have hsome (v w : Value) (h : (levelled cfg).Values v w) : some v = some w :=
    congrArg some (Value.corr_eq.1 h)
  cases a with
  | interpret p =>
    have hprogram : Level m.depth (fun _ _ => True) (evalProgram cfg fuel p)
        (runEach (guardStmt cfg alarm fuel Heap.globals) p) := by
      rw [evalProgram_eq]
      exact (levelled cfg).rel_runEach (List.forall₂_same.2 fun s _ => hstmt Heap.globals s)
    exact (hprogram.handsOut _ fun _ _ _ => rfl).run_eq fun _ _ => id
  | block frame body => exact ((hlist frame body).handsOut _ hvalue?).run_eq fun _ _ => id
  | stmt frame s => exact ((hstmt frame s).handsOut _ hvalue?).run_eq fun _ _ => id
  | expr frame e => exact ((hexpr frame e).handsOut _ hsome).run_eq fun _ _ => id
  | call callee args =>
    cases callee with
    | function f =>
      have hargs : Forall₂ (levelled cfg).Values args args :=
        List.forall₂_same.2 fun v _ => Value.corr_eq.2 rfl
      have hf : (levelled cfg).Functions f f := ⟨rfl, rfl, rfl, rfl, rfl⟩
      have hcall : Level m.depth (levelled cfg).Values (callClosure (evalStmt cfg fuel) f args)
          (callClosure (guardStmt cfg alarm fuel) f args) := by
        refine (levelled cfg).rel_callClosure hf hargs ?_
        rintro b _ rfl frame _ rfl
        exact hlist frame b
      exact (hcall.handsOut _ hsome).run_eq fun _ _ => id
    | native | number | string | boolean | nil => rfl
  | newRoot | newChild | get | define | assign => rfl

end
end Eval

/-! ## Room for calls -/

namespace Nesting

def name : Token := ⟨.identifier, "f", none, 1⟩

/-- `f()` -/
def call : Expr := .call 0 (.var 0 name) ⟨.rightParen, ")", none, 1⟩ []

/-- `print nil; f();` -/
def body : List Stmt := [.print 0 (.literal 0 .nil), .expression 0 call]

/-- `fun f() { print nil; f(); } f();` -/
def program : Program := [.funDecl 0 name [] body, .expression 0 call]

/-- The function that the program declares, which is the `i`-th one made. -/
def function (i : Nat) : Value := .function ⟨i, "f", [], body, Heap.globals⟩

/-- The function is a global variable. -/
def Declared (h : Heap) (i : Nat) : Prop :=
  ∃ g, h.frames[Heap.globals]? = some g ∧ g.get? "f" = some (function i)

variable {h : Heap} {i : Nat}

theorem Declared.get? (hf : Declared h i) : h.get? Heap.globals "f" = some (function i) := by
  obtain ⟨g, hg, hvalue⟩ := hf
  have howner : h.owner? "f" Heap.globals = some Heap.globals := by
    rw [Heap.owner?, hg]
    simp only [Frame.binds, hvalue, Option.isSome_some, if_true]
  rw [Heap.get?, howner]
  simp only [Option.bind_eq_bind, Option.bind_some, hg, hvalue]

theorem Declared.push (hf : Declared h i) (f : Frame) : Declared (h.push f) i := by
  obtain ⟨g, hg, hvalue⟩ := hf
  refine ⟨g, ?_, hvalue⟩
  obtain ⟨hlt, -⟩ := Array.getElem?_eq_some_iff.1 hg
  rw [Heap.push, Array.getElem?_push, if_neg (Nat.ne_of_lt hlt), hg]

/-- The function is seen from a new frame inside the global one. -/
theorem Declared.get?_child (hf : Declared h i) :
    (h.push ⟨some Heap.globals, []⟩).get? h.frames.size "f" = some (function i) := by
  have hglobals := (hf.push ⟨some Heap.globals, []⟩).get?
  have hlt : Heap.globals < h.frames.size := by
    obtain ⟨g, hg, -⟩ := hf
    exact (Array.getElem?_eq_some_iff.1 hg).1
  have hchild : (h.push ⟨some Heap.globals, []⟩).frames[h.frames.size]? = some ⟨some Heap.globals, []⟩ :=
    Array.getElem?_push_size
  have howner : (h.push ⟨some Heap.globals, []⟩).owner? "f" h.frames.size =
      (h.push ⟨some Heap.globals, []⟩).owner? "f" Heap.globals := by
    rw [Heap.owner?, hchild]
    simp only [Frame.binds, Frame.get?, Bindings.get?, Option.isSome_none, if_pos hlt]
    rfl
  rw [Heap.get?, howner]
  exact hglobals

variable {cfg : Config} {fuel : Nat} {frame : FrameId} {m : Machine}

theorem run_literal (id : NodeId) (v : Literal) :
    (evalExpr cfg (fuel + 1) frame (.literal id v)).run m = .ok (.ofLiteral v) m := by
  rw [evalExpr, Deep.run_later, exprStep, Deep.run_pure]

theorem run_call (hf : m.heap.get? frame "f" = some (function i)) :
    (evalExpr cfg (fuel + 2) frame call).run m =
      (counted cfg 1 (callClosure (evalStmt cfg (fuel + 1)) ⟨i, "f", [], body, Heap.globals⟩ [])).run m := by
  have hvar : (evalExpr cfg (fuel + 1) frame (.var 0 name)).run m = .ok (function i) m := by
    rw [evalExpr, Deep.run_later, exprStep, readVar, Deep.run_of]
    simp only [name, hf]
  rw [evalExpr, Deep.run_later, call, exprStep, Deep.run_bind, hvar]
  rfl

/-- The body prints a line and goes on with the call in it. -/
theorem run_body : (callClosure (evalStmt cfg (fuel + 2)) ⟨i, "f", [], body, Heap.globals⟩ []).run m =
    ((evalExpr cfg (fuel + 1) m.heap.frames.size call).run { m with
      heap := m.heap.push ⟨some Heap.globals, []⟩, printed := m.printed.push "nil" }).fold
        (fun _ n => .ok .nil n) .error := by
  have hprint (f : FrameId) (n : Machine) :
      (evalStmt cfg (fuel + 2) f (.print 0 (.literal 0 .nil))).run n =
        .ok .normal { n with printed := n.printed.push "nil" } := by
    rw [evalStmt, Deep.run_later, stmtStep, Deep.run_bind, run_literal]
    rfl
  have hcall (f : FrameId) (n : Machine) : (evalStmt cfg (fuel + 2) f (.expression 0 call)).run n =
      ((evalExpr cfg (fuel + 1) f call).run n).fold (fun _ n => .ok .normal n) .error := by
    rw [evalStmt, Deep.run_later, stmtStep, Deep.run_bind]
    rfl
  simp only [callClosure, Deep.run_bind, newFrame, bindParams, Deep.run_of, Ending.fold, Heap.defineAll, runAll,
    body, hprint, hcall]
  cases (evalExpr cfg (fuel + 1) m.heap.frames.size call).run { m with
    heap := m.heap.push ⟨some Heap.globals, []⟩, printed := m.printed.push "nil" } <;> rfl

theorem run_nested (k : Nat) (hf : m.heap.get? frame "f" = some (function i)) (hg : Declared m.heap i)
    (hdepth : m.depth + k = cfg.maxCallDepth) (hfuel : 2 * k + 2 ≤ fuel) :
    ∃ n, (evalExpr cfg fuel frame call).run m = .error (.fault ⟨.stackOverflow, 1⟩) n ∧
      n.printed.toList = m.printed.toList ++ List.replicate k "nil" := by
  -- `k` calls are left until the limit, and each takes two levels of evaluation
  induction k generalizing fuel frame m with
  | zero =>
    obtain ⟨fuel, rfl⟩ : ∃ l, fuel = l + 2 := ⟨fuel - 2, by omega⟩
    refine ⟨m, ?_, by simp⟩
    rw [run_call hf, counted, Deep.run_bind, enterCall, Deep.run_of, if_pos (by omega)]
    rfl
  | succ k ih =>
    obtain ⟨fuel, rfl⟩ : ∃ l, fuel = l + 1 + 2 := ⟨fuel - 3, by omega⟩
    let inside : Machine := { m with
      heap := m.heap.push ⟨some Heap.globals, []⟩, depth := m.depth + 1, printed := m.printed.push "nil" }
    have hinside : inside.depth + k = cfg.maxCallDepth := by
      show m.depth + 1 + k = cfg.maxCallDepth
      omega
    have hfuel : 2 * k + 2 ≤ fuel + 1 := by omega
    obtain ⟨n, hrun, hprinted⟩ := ih (m := inside) hg.get?_child (hg.push _) hinside hfuel
    refine ⟨{ n with depth := n.depth - 1 }, ?_, ?_⟩
    · rw [run_call hf, counted, Deep.run_bind, enterCall, Deep.run_of, if_neg (by omega)]
      simp only [Ending.fold, Deep.run_leaving, run_body]
      rw [hrun]
    · rw [hprinted, List.replicate_succ]
      simp [inside]

/-- A program that calls functions without end is stopped when as many calls are under way as the limit says. -/
theorem ends_program (hglobals : Heap.globals < m.heap.frames.size) (hdepth : m.depth = 0) :
    ∃ s', Session.Ends cfg program ⟨m⟩ (.failed ⟨.stackOverflow, 1⟩) s' ∧
      s'.printedSince ⟨m⟩ = List.replicate cfg.maxCallDepth "nil" := by
  let declared : Machine := { m with heap :=
    ({ m.heap with functions := m.heap.functions + 1 } : Heap).define Heap.globals "f" (function m.heap.functions) }
  have hdeclared : Declared declared.heap m.heap.functions := by
    refine ⟨m.heap.frames[Heap.globals].define "f" (function m.heap.functions), ?_, by simp⟩
    show (m.heap.frames.modify Heap.globals _)[Heap.globals]? = _
    rw [Array.getElem?_modify, if_pos rfl, Array.getElem?_eq_getElem hglobals]
    rfl
  have hnesting : declared.depth + cfg.maxCallDepth = cfg.maxCallDepth := by
    show m.depth + cfg.maxCallDepth = cfg.maxCallDepth
    omega
  have hfuel : 2 * cfg.maxCallDepth + 2 ≤ 2 * cfg.maxCallDepth + 2 := Nat.le_refl _
  obtain ⟨n, hrun, hprinted⟩ := run_nested cfg.maxCallDepth hdeclared.get? hdeclared hnesting hfuel
  refine ⟨⟨n⟩, ⟨nofun, 2 * cfg.maxCallDepth + 3, ?_⟩, ?_⟩
  · have hfirst : (evalStmt cfg (2 * cfg.maxCallDepth + 3) Heap.globals (.funDecl 0 name [] body)).run m =
        .ok .normal declared := by
      rw [evalStmt, Deep.run_later, stmtStep]
      rfl
    have hsecond : (evalStmt cfg (2 * cfg.maxCallDepth + 3) Heap.globals (.expression 0 call)).run declared =
        .error (.fault ⟨.stackOverflow, 1⟩) n := by
      rw [evalStmt, Deep.run_later, stmtStep, Deep.run_bind, hrun]
      rfl
    rw [Session.runProgram_eq, program, evalProgram, Deep.run_bind, hfirst]
    simp only [Ending.fold, evalProgram, Deep.run_bind, hsecond]
    rfl
  · show n.printed.toList.drop m.printed.size = _
    rw [hprinted]
    exact List.drop_left' rfl

end Nesting

/-! ## Sessions -/

/-- No call is under way, and exactly as many calls can be nested as the limit says: the program that calls a
function without end fails when one more call would be too many, and has printed a line in each call. -/
def Session.HasRoom (cfg : Config) (s : Session) : Prop :=
  s.machine.depth = 0 ∧ ∃ s', Session.Ends cfg Nesting.program s (.failed ⟨.stackOverflow, 1⟩) s' ∧
    s'.printedSince s = List.replicate cfg.maxCallDepth "nil"

theorem Machine.Reached.depth {m : Machine} {vs : List Value} (h : m.Reached vs) : m.depth = 0 := by
  induction h with
  | new => rfl
  | act _ cfg fuel a _ _ ih => rw [depth_perform, ih]

theorem Machine.Reached.hasRoom {m : Machine} {vs : List Value} (h : m.Reached vs) (cfg : Config) :
    Session.HasRoom cfg ⟨m⟩ :=
  ⟨h.depth, Nesting.ends_program h.sound.globals h.depth⟩

/-- A session uses its machine by actions. -/
theorem Session.reached_inTurn (cfg : Config) (fuel : Nat) (sources : List String) {s : Session}
    {vs : List Value} (h : s.machine.Reached vs) :
    ∃ vs, (inTurn (run cfg fuel) sources s).2.machine.Reached vs := by
  induction sources generalizing s vs with
  | nil => exact ⟨vs, h⟩
  | cons source rest ih =>
    have hmachine := run_machine cfg fuel source s
    cases hp : (Program.ofSource source 0).program with
    | error errors =>
      rw [hp] at hmachine
      dsimp only at hmachine
      exact ih (hmachine ▸ h)
    | ok p =>
      rw [hp] at hmachine
      dsimp only at hmachine
      have hact := h.act cfg fuel (.interpret p) nofun nofun
      have hafter : (Action.perform cfg fuel (.interpret p)).after s.machine =
          (evalProgram cfg fuel p).after s.machine := by
        rw [Action.perform, Deep.after, Deep.after, Deep.run_bind]
        cases (evalProgram cfg fuel p).run s.machine <;> rfl
      rw [hafter, ← hmachine] at hact
      exact ih hact

/-- Whatever is done with a machine and whichever way it ends, as many calls are under way afterwards as
before. Meanwhile the count stays within the limit, does not overflow 64 bits when it goes up and is not zero
when it goes down: an alarm that is raised otherwise changes nothing. So after all uses of a machine, and
after all runs of a session, there is room for as many calls as in the beginning. -/
theorem call_depth_is_balanced (cfg : Config) (fuel : Nat) (a : Action) (m : Machine) :
    ((a.perform cfg fuel).after m).depth = m.depth ∧
    (cfg.maxCallDepth < UInt64.size → m.depth ≤ cfg.maxCallDepth →
      ∀ alarm, (guardPerform cfg alarm fuel a).run m = (a.perform cfg fuel).run m) ∧
    (∀ vs, m.Reached vs → Session.HasRoom cfg ⟨m⟩) ∧
    ∀ sources, Session.HasRoom cfg (Session.inTurn (Session.run cfg fuel) sources .initial).2 := by
  refine ⟨depth_perform cfg fuel a m, fun hmax hm alarm => guardPerform_run hmax alarm fuel a hm,
    fun vs h => h.hasRoom cfg, fun sources => ?_⟩
  obtain ⟨vs, h⟩ := Session.reached_inTurn cfg fuel sources Machine.Reached.new
  exact h.hasRoom cfg

/-- With the highest limit that fits into 64 bits, and after a call that failed while it was under way. A count
above the limit, which is never reached, would raise the alarm. -/
theorem call_depth_is_balanced_at_the_highest_limit :
    let cfg : Config := ⟨UInt64.size - 1, fun _ => 0⟩
    let run := Session.inTurn (Session.run cfg 20) ["fun f() \x7b nil(); \x7d f();"] .initial
    (cfg.maxCallDepth < UInt64.size ∧ run.2.machine.depth ≤ cfg.maxCallDepth) ∧
    run.1.map (·.exitCode) = [70] ∧
    ((Action.perform cfg 20 (.interpret Nesting.program)).after run.2.machine).depth = 0 ∧
    (∀ alarm, (guardPerform cfg alarm 20 (.interpret Nesting.program)).run run.2.machine =
      (Action.perform cfg 20 (.interpret Nesting.program)).run run.2.machine) ∧
    Session.HasRoom cfg run.2 ∧
    (guardPerform ⟨0, fun _ => 0⟩ (print "alarm") 1 (.expr Heap.globals (.literal 0 .nil))).after
      { Machine.initial with depth := 1 } = ⟨.initial, 1, 0, #["alarm", "alarm"]⟩ := by
  intro cfg run
  obtain ⟨hbalanced, hguard, -, hroom⟩ :=
    call_depth_is_balanced cfg 20 (.interpret Nesting.program) run.2.machine
  have hdepth : run.2.machine.depth = 0 := (hroom _).1
  have hmax : cfg.maxCallDepth < UInt64.size := by decide
  have hm : run.2.machine.depth ≤ cfg.maxCallDepth := by omega
  exact ⟨⟨hmax, hm⟩, by decide +kernel, hbalanced.trans hdepth, hguard hmax hm, hroom _, rfl⟩

end Lox
