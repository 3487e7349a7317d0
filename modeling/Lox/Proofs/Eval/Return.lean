import Lox.Proofs.Eval.Likeness
import Lox.Proofs.Session

/-!
# Where a `return` is refused

A `return` is refused if no call is under way. That is a matter of the run, and yet it can be read off
the text: exactly those return statements are refused that stand outside every function.

**Marks.** Evaluation does not look at the identifiers of nodes, so that of a return statement can carry
a mark: `Stmt.mark` writes 1 there if the statement stands inside a function, and 0 otherwise.

**Watching.** `watchStmt` executes marked statements by the same steps as `evalStmt`, but at every return
statement that it comes to it compares whether the statement was refused with its mark. Where the two
disagree it raises an alarm: it drops what the statement did and runs a computation given from outside.
That the run is the same whatever the alarm does says that no such statement is ever reached.

The two runs side by side hold functions whose bodies differ in their marks only. Bodies are marked as
inside, and with a call under way nothing is refused; without one, what is executed is marked as outside,
and no statement returns.

**Results.** `watch_eval` for trees, and `return_check_is_lexical` for sessions.
-/
namespace Lox

open List (Forall₂)

/-! ## Marks -/

mutual

/-- Marks the return statements, those outside every function in the tree by `inside`. -/
def Stmt.mark (inside : Bool) : Stmt → Stmt
  | .expression id value => .expression id value
  | .print id value => .print id value
  | .varDecl id name init => .varDecl id name init
  | .block id body => .block id (Stmt.markAll inside body)
  | .ifThen id condition yes => .ifThen id condition (yes.mark inside)
  | .ifElse id condition yes no => .ifElse id condition (yes.mark inside) (no.mark inside)
  | .whileLoop id condition body => .whileLoop id condition (body.mark inside)
  | .funDecl id name params body => .funDecl id name params (Stmt.markAll true body)
  | .ret _ keyword value => .ret inside.toNat keyword value

def Stmt.markAll (inside : Bool) : List Stmt → List Stmt
  | [] => []
  | s :: ss => s.mark inside :: Stmt.markAll inside ss

end

theorem Stmt.forall₂_markAll (inside : Bool) (ss : List Stmt) :
    Forall₂ (fun s s' => s' = s.mark inside) ss (Stmt.markAll inside ss) := by
  induction ss with
  | nil => exact .nil
  | cons s ss ih => exact .cons rfl ih

/-- A statement and its marked form differ in marks only. -/
theorem Stmt.layer_mark (inside : Bool) (s : Stmt) :
    Stmt.Layer (· = ·) (· = ·) (fun a b => b = a.mark inside) (fun b b' => b' = Stmt.markAll true b) s
      (s.mark inside) := by
  have hoption (o : Option Expr) : Option.Rel (· = ·) o o := by
    cases o with
    | none => exact .none
    | some e => exact .some rfl
  cases s with
  | expression => exact .expression rfl
  | print => exact .print rfl
  | varDecl => exact .varDecl rfl (hoption _)
  | block id body => exact .block (Stmt.forall₂_markAll inside body)
  | ifThen => exact .ifThen rfl rfl
  | ifElse => exact .ifElse rfl rfl rfl
  | whileLoop => exact .whileLoop rfl rfl
  | funDecl => exact .funDecl rfl (List.forall₂_same.2 fun _ _ => rfl) rfl
  | ret => exact .ret rfl (hoption _)

/-! ## Watching -/

/-- The reason is a `return` without a call under way. -/
def Stop.refusesReturn : Stop → Bool
  | .fault f => f.cause = .returnOutsideFunction
  | .outOfFuel => false

namespace Eval

open EvalM

/-- Executes a statement by `x`, but raises the alarm if it is a return statement that is refused against
its mark, or not refused against it. -/
def watch (alarm x : EvalM Flow) : Stmt → EvalM Flow
  | .ret id _ _ => .of fun m =>
    let refused := (x.run m).fold (fun _ _ => false) fun e _ => e.refusesReturn
    if refused = (id == 0) then x.run m else alarm.run m
  | _ => x

mutual

/-- The value of an expression in `frame`, with functions under watch. -/
def watchExpr (cfg : Config) (alarm : EvalM Flow) : (fuel : Nat) → FrameId → Expr → EvalM Value
  | 0, _, _ => outOfFuel
  | fuel + 1, frame, e => .later fun _ =>
    exprStep cfg (watchExpr cfg alarm fuel) (watchStmt cfg alarm fuel) frame e

/-- Executes a marked statement in `frame` under watch. -/
def watchStmt (cfg : Config) (alarm : EvalM Flow) : (fuel : Nat) → FrameId → Stmt → EvalM Flow
  | 0, _, _ => outOfFuel
  | fuel + 1, frame, s => .later fun _ =>
    watch alarm (stmtStep fuel (watchExpr cfg alarm fuel) (watchStmt cfg alarm fuel) frame s) s

end

/-- Marks a program and executes it under watch. -/
def watchProgram (cfg : Config) (alarm : EvalM Flow) (fuel : Nat) (p : Program) : EvalM Unit :=
  runEach (watchStmt cfg alarm fuel Heap.globals) (Stmt.markAll false p)

/-- Functions whose bodies differ in marks. With calls under way no `return` is refused. -/
def marking : Likeness where
  Bodies b b' := b' = Stmt.markAll true b
  Tokens := (· = ·)
  Stops d e f := e = f ∧ (0 < d → e.refusesReturn = false)
  kind_eq := congrArg Token.kind
  lexeme_eq := congrArg Token.lexeme
  stops_fault ht hc := by
    refine ⟨by rw [ht], fun hd => ?_⟩
    simp only [Stop.refusesReturn, decide_eq_false_iff_not]
    intro hcause
    have := hc hcause
    omega
  stops_caller h := ⟨h.1, fun _ => h.2 (Nat.succ_pos _)⟩

variable {cfg : Config} {alarm : EvalM Flow}

/-- Without a call under way a `return` is refused. -/
theorem refused_of_depth {fuel : Nat} {expr : FrameId → Expr → EvalM Value}
    {stmt : FrameId → Stmt → EvalM Flow} {frame : FrameId} {id : NodeId} {keyword : Token}
    {value : Option Expr} {m : Machine} (hm : m.depth = 0) :
    (stmtStep fuel expr stmt frame (.ret id keyword value)).run m =
      .error (.fault ⟨.returnOutsideFunction, keyword.line⟩) m := by
  simp only [stmtStep, Deep.run_bind, callDepth, Deep.run_of, Ending.fold, hm]
  rfl

/-- The alarm is not raised, and the run goes on as it would without watch. -/
theorem rel_watch {fuel d : Nat} {expr : FrameId → Expr → EvalM Value}
    {stmt : FrameId → Stmt → EvalM Flow} {frame : FrameId} {s : Stmt} {x : EvalM Flow}
    (h : marking.Rel d ((marking.correspondence cfg).Flows d) x
      (stmtStep fuel expr stmt frame (s.mark (decide (0 < d))))) :
    marking.Rel d ((marking.correspondence cfg).Flows d) x
      (watch alarm (stmtStep fuel expr stmt frame (s.mark (decide (0 < d)))) (s.mark (decide (0 < d)))) := by
  cases s with
  | ret id keyword value =>
    intro m n hmn
    rcases Nat.eq_zero_or_pos d with rfl | hd
    · have hends := h m n hmn
      simp only [Stmt.mark, watch, Deep.run_of, refused_of_depth hmn.right_depth] at hends ⊢
      exact hends
    · have hmark : (decide (0 < d)).toNat = 1 := by simp [hd]
      simp only [Stmt.mark, hmark, watch, Deep.run_of] at h ⊢
      rcases h.endings hmn with ⟨a, b, m', n', hx, hy, hq, hout⟩ | ⟨e, f, m', n', hx, hy, he, hout⟩
      · rw [hx, hy]
        exact .ok hq hout
      · obtain ⟨rfl, hnot⟩ := he
        rw [hx, hy]
        simp only [Ending.fold, hnot hd]
        exact .error ⟨rfl, hnot⟩ hout
  | _ => exact h

theorem watch_eval (cfg : Config) (alarm : EvalM Flow) (fuel d : Nat) :
    (∀ frame e, marking.Rel d marking.Values (evalExpr cfg fuel frame e)
      (watchExpr cfg alarm fuel frame e)) ∧
    ∀ frame s, marking.Rel d ((marking.correspondence cfg).Flows d) (evalStmt cfg fuel frame s)
      (watchStmt cfg alarm fuel frame (s.mark (decide (0 < d)))) := by
  have hout {α β : Type} {d : Nat} {Q : α → β → Prop} : marking.Rel d Q outOfFuel outOfFuel :=
    .throw ⟨rfl, fun _ => rfl⟩
  induction fuel generalizing d with
  | zero => exact ⟨fun _ _ => hout, fun _ _ => hout⟩
  | succ fuel ih =>
    have hexpr (frame : FrameId) (e e' : Expr) (h : e = e') : marking.Rel d marking.Values
        (evalExpr cfg fuel frame e) (watchExpr cfg alarm fuel frame e') := by
      subst h
      exact (ih d).1 frame e
    have hstmt (f g : FrameId) (hfg : f = g) (s s' : Stmt) (h : s' = s.mark (decide (0 < d))) :
        marking.Rel d ((marking.correspondence cfg).Flows d) (evalStmt cfg fuel f s)
          (watchStmt cfg alarm fuel g s') := by
      subst hfg h
      exact (ih d).2 f s
    refine ⟨fun frame e => ?_, fun frame s => ?_⟩
    · rw [evalExpr, watchExpr]
      refine .later ((marking.correspondence cfg).rel_exprStep rfl (hexpr frame) ?_
        (.refl (fun _ => rfl) (fun _ => rfl) e))
      rintro _ b _ rfl f _ rfl
      refine (marking.correspondence cfg).rel_runAll ((Stmt.forall₂_markAll true b).imp fun s s' hs => ?_)
      subst hs
      -- inside the call at least one call is under way
      exact (ih (d + 1)).2 f s
    · rw [evalStmt, watchStmt]
      refine .later (rel_watch ((marking.correspondence cfg).rel_stmtStep rfl (hexpr frame) hstmt
        (s.layer_mark _) ?_))
      rintro i c b rfl
      exact (marking.correspondence cfg).rel_runWhile (hexpr frame c c rfl) (hstmt _ _ rfl b _ rfl) hout fuel

theorem watch_evalProgram (cfg : Config) (alarm : EvalM Flow) (fuel : Nat) (p : Program) :
    marking.Rel 0 (fun _ _ => True) (evalProgram cfg fuel p) (watchProgram cfg alarm fuel p) := by
  rw [evalProgram_eq, watchProgram]
  refine (marking.correspondence cfg).rel_runEach ((Stmt.forall₂_markAll false p).imp fun s s' hs => ?_)
  subst hs
  exact (watch_eval cfg alarm fuel 0).2 Heap.globals s

/-- Without a call under way no statement returns. -/
theorem not_returned {fuel : Nat} {frame : FrameId} {s : Stmt} {m n m' : Machine} {v : Value}
    (hmn : Machine.Corr marking.Values 0 m n) :
    (evalStmt cfg fuel frame s).run m ≠ .ok (.returned v) m' := by
  intro hrun
  have hends := (watch_eval cfg outOfFuel fuel 0).2 frame s m n hmn
  rw [hrun] at hends
  generalize (watchStmt cfg outOfFuel fuel frame _).run n = r at hends
  cases hends with
  | ok hq _ =>
    cases hq with
    | returned hr _ =>
      obtain ⟨k, hk, hcounts⟩ := hr
      exact hk hcounts

end Eval

/-! ## Sessions -/

namespace Session

open Eval

variable (cfg : Config) (alarm : EvalM Flow) (fuel : Nat) {s s' : Session}

theorem runBy_watchProgram (h : Machine.Corr marking.Values 0 s.machine s'.machine) (source : String) :
    (s.run cfg fuel source).1 = (s'.runBy (watchProgram cfg alarm fuel) source).1 ∧
      Machine.Corr marking.Values 0 (s.run cfg fuel source).2.machine
        (s'.runBy (watchProgram cfg alarm fuel) source).2.machine := by
  rw [run_eq]
  unfold runBy
  cases (Program.ofSource source 0).program with
  | error errors => exact ⟨rfl, h⟩
  | ok p =>
    dsimp only
    rcases (watch_evalProgram cfg alarm fuel p).endings h with ⟨_, _, m, n, hx, hy, -, hmn⟩ |
      ⟨e, f, m, n, hx, hy, he, hmn⟩
    · rw [hx, hy]
      exact ⟨rfl, hmn⟩
    · rw [hx, hy]
      exact ⟨congrArg Outcome.ofStop he.1, hmn⟩

theorem inTurn_watchProgram (h : Machine.Corr marking.Values 0 s.machine s'.machine)
    (sources : List String) :
    (inTurn (run cfg fuel) sources s).1 = (inTurn (runBy (watchProgram cfg alarm fuel)) sources s').1 ∧
      Machine.Corr marking.Values 0 (inTurn (run cfg fuel) sources s).2.machine
        (inTurn (runBy (watchProgram cfg alarm fuel)) sources s').2.machine := by
  induction sources generalizing s s' with
  | nil => exact ⟨rfl, h⟩
  | cons source rest ih =>
    obtain ⟨houtcome, hmachine⟩ := runBy_watchProgram cfg alarm fuel h source
    obtain ⟨hrest, hlast⟩ := ih hmachine
    exact ⟨congrArg₂ List.cons houtcome hrest, hlast⟩

/-- In a session every return statement that is reached is refused if and only if it stands outside every
function: an alarm that is raised at any other changes neither the outcomes nor what is printed. And no
statement of a program ends by returning. -/
theorem return_check_is_lexical (cfg : Config) (fuel : Nat) (sources : List String) :
    (∀ alarm, (inTurn (run cfg fuel) sources initial).1 =
        (inTurn (runBy (watchProgram cfg alarm fuel)) sources initial).1 ∧
      (inTurn (run cfg fuel) sources initial).2.printed =
        (inTurn (runBy (watchProgram cfg alarm fuel)) sources initial).2.printed) ∧
    ∀ (before : Program) (s : Stmt) (m : Machine),
      (evalProgram cfg fuel before).run (inTurn (run cfg fuel) sources initial).2.machine = .ok () m →
      ∀ v m', (evalStmt cfg fuel Heap.globals s).run m ≠ .ok (.returned v) m' := by
  have hinitial : Machine.Corr marking.Values 0 initial.machine initial.machine :=
    ⟨.initial _, rfl, rfl, rfl, rfl⟩
  refine ⟨fun alarm => ?_, fun before s m hbefore v m' => ?_⟩
  · obtain ⟨houtcomes, hlast⟩ := inTurn_watchProgram cfg alarm fuel hinitial sources
    exact ⟨houtcomes, hlast.printed_eq⟩
  · obtain ⟨-, hlast⟩ := inTurn_watchProgram cfg EvalM.outOfFuel fuel hinitial sources
    rcases (watch_evalProgram cfg EvalM.outOfFuel fuel before).endings hlast with
      ⟨_, _, _, n, hx, -, -, hmn⟩ | ⟨_, _, _, _, hx, -⟩
    · rw [hbefore] at hx
      cases hx
      exact not_returned hmn
    · rw [hbefore] at hx
      cases hx

/-- The second text fails at its `return`, after the function of the first one has returned. -/
def twoTexts : List String :=
  ["fun f() \x7b return \"in\"; \x7d", "print f(); return; print \"out\";"]

/-- An alarm that can be seen. -/
def printedAlarm : EvalM Flow := do
  EvalM.print "alarm"
  return .normal

theorem return_check_is_lexical_two_texts :
    (inTurn (runBy (watchProgram ⟨8, fun _ => 0⟩ printedAlarm 20)) twoTexts initial).1.map (·.exitCode) =
      [0, 70] ∧
    (inTurn (runBy (watchProgram ⟨8, fun _ => 0⟩ printedAlarm 20)) twoTexts initial).2.printed = #["in"] ∧
    ∀ v m', (evalStmt ⟨8, fun _ => 0⟩ 20 Heap.globals (.ret 0 ⟨.kwReturn, "return", none, 1⟩ none)).run
      (inTurn (run ⟨8, fun _ => 0⟩ 20) twoTexts initial).2.machine ≠ .ok (.returned v) m' := by
  obtain ⟨halarm, hreturned⟩ := return_check_is_lexical ⟨8, fun _ => 0⟩ 20 twoTexts
  refine ⟨?_, ?_, hreturned [] _ _ rfl⟩
  · rw [← (halarm printedAlarm).1]
    decide +kernel
  · rw [← (halarm printedAlarm).2]
    decide +kernel

end Session
end Lox
