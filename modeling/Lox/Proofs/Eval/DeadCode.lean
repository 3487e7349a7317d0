import Lox.Proofs.Eval.Origin
import Lox.Proofs.Rejection

/-!
# Code behind a `return`

What stands behind a `return` in one list of statements is never executed. So it can be deleted or
replaced by anything, anywhere in a program: at the top level, in blocks and in the bodies of functions.
`Stmt.DeadEdits` relates two lists of statements that differ in such places only.

The edit reaches the heap, where the bodies of functions are, so two runs are compared that hold edited
functions (`deadCode`). With a call under way a `return` ends the list that it stands in, since it never
ends normally (`ret_ne_normal`). Without one it is refused, and the fault ends the run.

**Results.**
* `rel_runAll`, `rel_runEach`: lists of statements that differ in dead code only.
* `Session.code_behind_return_is_dead`: sessions that run such programs.
-/
namespace Lox

open List (Forall₂)

mutual

/-- The statements differ in identifiers and in code behind a `return` only. -/
inductive Stmt.DeadEdit : Stmt → Stmt → Prop where
  | expression {i j e e'} (he : e.Renumbers e') : DeadEdit (.expression i e) (.expression j e')
  | print {i j e e'} (he : e.Renumbers e') : DeadEdit (.print i e) (.print j e')
  | varDecl {i j name o o'} (ho : Option.Rel Expr.Renumbers o o') :
      DeadEdit (.varDecl i name o) (.varDecl j name o')
  | block {i j ss ss'} (hs : Stmt.DeadEdits ss ss') : DeadEdit (.block i ss) (.block j ss')
  | ifThen {i j c c' s s'} (hc : c.Renumbers c') (hs : DeadEdit s s') :
      DeadEdit (.ifThen i c s) (.ifThen j c' s')
  | ifElse {i j c c' s s' n n'} (hc : c.Renumbers c') (hs : DeadEdit s s') (hn : DeadEdit n n') :
      DeadEdit (.ifElse i c s n) (.ifElse j c' s' n')
  | whileLoop {i j c c' s s'} (hc : c.Renumbers c') (hs : DeadEdit s s') :
      DeadEdit (.whileLoop i c s) (.whileLoop j c' s')
  | funDecl {i j name params ss ss'} (hs : Stmt.DeadEdits ss ss') :
      DeadEdit (.funDecl i name params ss) (.funDecl j name params ss')
  | ret {i j keyword o o'} (ho : Option.Rel Expr.Renumbers o o') :
      DeadEdit (.ret i keyword o) (.ret j keyword o')

@[inherit_doc Stmt.DeadEdit]
inductive Stmt.DeadEdits : List Stmt → List Stmt → Prop where
  | nil : DeadEdits [] []
  | cons {s s' ss ss'} (h : Stmt.DeadEdit s s') (hs : DeadEdits ss ss') : DeadEdits (s :: ss) (s' :: ss')
  /-- Behind a `return` there may be anything. -/
  | dead {i j keyword o o'} (ho : Option.Rel Expr.Renumbers o o') (ss ss' : List Stmt) :
      DeadEdits (.ret i keyword o :: ss) (.ret j keyword o' :: ss')

end

/-- Where nothing is edited. -/
theorem Stmt.DeadEdit.refl (s : Stmt) : s.DeadEdit s := by
  have hoption (o : Option Expr) : Option.Rel Expr.Renumbers o o := map_eq_iff_rel.1 rfl
  have hlist (ss : List Stmt) (h : ∀ s ∈ ss, Stmt.DeadEdit s s) : Stmt.DeadEdits ss ss := by
    induction ss with
    | nil => exact .nil
    | cons s ss ih =>
      rw [List.forall_mem_cons] at h
      exact .cons h.1 (ih h.2)
  induction s with
  | expression => exact .expression rfl
  | print => exact .print rfl
  | varDecl => exact .varDecl (hoption _)
  | block _ ss ih => exact .block (hlist ss ih)
  | ifThen _ _ _ ih => exact .ifThen rfl ih
  | ifElse _ _ _ _ ihs ihn => exact .ifElse rfl ihs ihn
  | whileLoop _ _ _ ih => exact .whileLoop rfl ih
  | funDecl _ _ _ ss ih => exact .funDecl (hlist ss ih)
  | ret => exact .ret (hoption _)

/-- Apart from blocks, an edit goes through the parts of a statement. -/
theorem Stmt.DeadEdit.layer {s s' : Stmt} (h : s.DeadEdit s') :
    Stmt.Layer (· = ·) Expr.Renumbers Stmt.DeadEdit Stmt.DeadEdits s s' ∨
      ∃ i j ss ss', s = .block i ss ∧ s' = .block j ss' ∧ Stmt.DeadEdits ss ss' := by
  cases h with
  | expression he => exact .inl (.expression he)
  | print he => exact .inl (.print he)
  | varDecl ho => exact .inl (.varDecl rfl ho)
  | block hs => exact .inr ⟨_, _, _, _, rfl, rfl, hs⟩
  | ifThen hc hs => exact .inl (.ifThen hc hs)
  | ifElse hc hs hn => exact .inl (.ifElse hc hs hn)
  | whileLoop hc hs => exact .inl (.whileLoop hc hs)
  | funDecl hs => exact .inl (.funDecl rfl (List.forall₂_same.2 fun _ _ => rfl) hs)
  | ret ho => exact .inl (.ret rfl ho)

namespace Eval

open EvalM

/-- A `return` never ends normally. -/
theorem ret_ne_normal {cfg : Config} {fuel : Nat} {frame : FrameId} {id : NodeId} {keyword : Token}
    {value : Option Expr} (m : Machine) (flow : Flow) (n : Machine)
    (h : (evalStmt cfg fuel frame (.ret id keyword value)).run m = .ok flow n) : flow ≠ .normal := by
  rintro rfl
  cases fuel with
  | zero => cases h
  | succ fuel =>
    rw [evalStmt, Deep.run_later, stmtStep, Deep.run_bind] at h
    simp only [callDepth, Deep.run_of, Ending.fold] at h
    split at h
    · cases h
    · rw [Deep.run_bind] at h
      cases hvalue : (optionalStep (evalExpr cfg fuel frame) value).run m with
      | ok v n => rw [hvalue] at h; cases h
      | error e n => rw [hvalue] at h; cases h

/-- Functions whose bodies differ in dead code. -/
def deadCode : Likeness := { renumbering with Bodies := Stmt.DeadEdits }

namespace DeadCode

variable {cfg : Config} {fuel d : Nat}

/-- A `return` ends the list that it stands in. -/
theorem rel_runAll {f g : FrameId} (hstmt : ∀ s s', Stmt.DeadEdit s s' → deadCode.Rel d
      ((deadCode.correspondence cfg).Flows d) (evalStmt cfg fuel f s) (evalStmt cfg fuel g s'))
    {ss ss' : List Stmt} (h : Stmt.DeadEdits ss ss') :
    deadCode.Rel d ((deadCode.correspondence cfg).Flows d) (runAll (evalStmt cfg fuel f) ss)
      (runAll (evalStmt cfg fuel g) ss') := by
  induction ss generalizing ss' with
  | nil =>
    cases h
    exact .pure .normal
  | cons s ss ih =>
    cases h with
    | cons hs hss =>
      rw [runAll, runAll]
      refine (hstmt _ _ hs).bind fun flow flow' hflow => ?_
      cases hflow with
      | normal => exact ih hss
      | returned hr hv => exact .pure (.returned hr hv)
    | dead ho =>
      rw [runAll, runAll]
      refine ((hstmt _ _ (.ret ho)).also ret_ne_normal).bind fun flow flow' hflow => ?_
      obtain ⟨hflow, hne⟩ := hflow
      cases hflow with
      | normal => exact absurd rfl hne
      | returned hr hv => exact .pure (.returned hr hv)

/-- At the top level a `return` ends the run. -/
theorem rel_runEach {f g : FrameId} (hstmt : ∀ s s', Stmt.DeadEdit s s' → deadCode.Rel 0
      ((deadCode.correspondence cfg).Flows 0) (evalStmt cfg fuel f s) (evalStmt cfg fuel g s'))
    {p p' : Program} (h : Stmt.DeadEdits p p') :
    deadCode.Rel 0 (fun _ _ => True) (runEach (evalStmt cfg fuel f) p) (runEach (evalStmt cfg fuel g) p') := by
  induction p generalizing p' with
  | nil =>
    cases h
    exact .pure trivial
  | cons s p ih =>
    cases h with
    | cons hs hss =>
      rw [runEach, runEach]
      exact (hstmt _ _ hs).bind fun _ _ _ => ih hss
    | dead ho =>
      rw [runEach, runEach]
      refine ((hstmt _ _ (.ret ho)).also ret_ne_normal).bind fun flow flow' hflow => ?_
      -- there is no way to end but a fault: no call is under way that could return
      obtain ⟨hflow, hne⟩ := hflow
      cases hflow with
      | normal => exact absurd rfl hne
      | returned hr =>
        obtain ⟨n, hn, hcounts⟩ := hr
        exact absurd hcounts hn

theorem rel_eval (cfg : Config) (fuel d : Nat) :
    (∀ frame e e', e.Renumbers e' →
      deadCode.Rel d deadCode.Values (evalExpr cfg fuel frame e) (evalExpr cfg fuel frame e')) ∧
    ∀ frame s s', Stmt.DeadEdit s s' → deadCode.Rel d ((deadCode.correspondence cfg).Flows d)
      (evalStmt cfg fuel frame s) (evalStmt cfg fuel frame s') := by
  induction fuel generalizing d with
  | zero => exact ⟨fun _ _ _ _ => .throw rfl, fun _ _ _ _ => .throw rfl⟩
  | succ fuel ih =>
    have hlist (d : Nat) (ss ss' : List Stmt) (h : Stmt.DeadEdits ss ss') (f g : FrameId) (hfg : f = g) :
        deadCode.Rel d ((deadCode.correspondence cfg).Flows d) (runAll (evalStmt cfg fuel f) ss)
          (runAll (evalStmt cfg fuel g) ss') := by
      subst hfg
      exact rel_runAll ((ih d).2 f) h
    refine ⟨fun frame e e' h => ?_, fun frame s s' h => ?_⟩
    · rw [evalExpr, evalExpr]
      exact .later ((deadCode.correspondence cfg).rel_exprStep rfl ((ih d).1 frame)
        (fun _ => hlist (d + 1)) h.layer)
    · rw [evalStmt, evalStmt]
      rcases h.layer with hlayer | ⟨i, j, ss, ss', rfl, rfl, hss⟩
      · refine .later ((deadCode.correspondence cfg).rel_stmtStep rfl ((ih d).1 frame) ?_ hlayer ?_)
        · rintro f _ rfl
          exact (ih d).2 f
        · rintro i c b rfl
          cases hlayer with
          | whileLoop hc hb =>
            exact (deadCode.correspondence cfg).rel_runWhile ((ih d).1 frame _ _ hc)
              ((ih d).2 frame _ _ hb) (.throw rfl) fuel
      · exact .later ((deadCode.correspondence cfg).rel_block rfl (hlist d ss ss' hss))

theorem rel_evalProgram (cfg : Config) (fuel : Nat) {p p' : Program} (h : Stmt.DeadEdits p p') :
    deadCode.Rel 0 (fun _ _ => True) (evalProgram cfg fuel p) (evalProgram cfg fuel p') := by
  rw [evalProgram_eq, evalProgram_eq]
  exact rel_runEach ((rel_eval cfg fuel 0).2 Heap.globals) h

end DeadCode
end Eval

namespace Session

theorem runPrograms_deadEdits (cfg : Config) (fuel : Nat) {ps ps' : List Program}
    (h : Forall₂ Stmt.DeadEdits ps ps') {s s' : Session}
    (hs : Machine.Corr Eval.deadCode.Values 0 s.machine s'.machine) :
    (s.runPrograms cfg fuel ps).1 = (s'.runPrograms cfg fuel ps').1 ∧
      Machine.Corr Eval.deadCode.Values 0 (s.runPrograms cfg fuel ps).2.machine
        (s'.runPrograms cfg fuel ps').2.machine := by
  induction h generalizing s s' with
  | nil => exact ⟨rfl, hs⟩
  | cons hp _ ih =>
    obtain ⟨houtcome, hafter⟩ :=
      runProgram_of_sim cfg fuel (Eval.DeadCode.rel_evalProgram cfg fuel hp) hs
    obtain ⟨houtcomes, hlast⟩ := ih hafter
    exact ⟨congrArg₂ List.cons houtcome houtcomes, hlast⟩

/-- Sessions that run programs which differ in code behind a `return` have the same outcomes and the same
prints, and leave heaps that differ in the same way in the bodies of functions only. -/
theorem code_behind_return_is_dead (cfg : Config) (fuel : Nat) {ps ps' : List Program}
    (h : Forall₂ Stmt.DeadEdits ps ps') :
    (initial.runPrograms cfg fuel ps).1 = (initial.runPrograms cfg fuel ps').1 ∧
    (initial.runPrograms cfg fuel ps).2.printed = (initial.runPrograms cfg fuel ps').2.printed ∧
    Heap.Corr (Value.Corr (Closure.Corr (· = ·) Stmt.DeadEdits))
      (initial.runPrograms cfg fuel ps).2.machine.heap (initial.runPrograms cfg fuel ps').2.machine.heap := by
  have hinitial : Machine.Corr Eval.deadCode.Values 0 initial.machine initial.machine :=
    ⟨.initial _, rfl, rfl, rfl, rfl⟩
  obtain ⟨houtcomes, hlast⟩ := runPrograms_deadEdits cfg fuel h hinitial
  exact ⟨houtcomes, hlast.printed_eq, hlast.heap⟩

/-- `fun f() { while (true) { return "in"; dead } }` -/
def loopWith (dead : List Stmt) : Program :=
  [.funDecl 0 ⟨.identifier, "f", none, 1⟩ [] [.whileLoop 1 (.literal 2 (.boolean true))
    (.block 3 (.ret 4 ⟨.kwReturn, "return", none, 1⟩ (some (.literal 5 (.string "in"))) :: dead))]]

/-- `print f();` -/
def printCall : Program :=
  [.print 6 (.call 7 (.var 8 ⟨.identifier, "f", none, 2⟩) ⟨.rightParen, ")", none, 2⟩ [])]

/-- `return; dead` -/
def returnWith (dead : List Stmt) : Program := .ret 9 ⟨.kwReturn, "return", none, 3⟩ none :: dead

/-- A `print` in the loop is left out, and a call is put in behind the last `return`. -/
theorem code_behind_return_is_dead_in_a_loop :
    let ps := [loopWith [.print 10 (.literal 11 .nil)], printCall, returnWith []]
    let ps' := [loopWith [], printCall, returnWith printCall]
    Forall₂ Stmt.DeadEdits ps ps' ∧
    (initial.runPrograms ⟨8, fun _ => 0⟩ 20 ps').1.map (·.exitCode) = [0, 0, 70] ∧
    (initial.runPrograms ⟨8, fun _ => 0⟩ 20 ps').2.printed = #["in"] ∧
    Heap.Corr (Value.Corr (Closure.Corr (· = ·) Stmt.DeadEdits))
      (initial.runPrograms ⟨8, fun _ => 0⟩ 20 ps).2.machine.heap
      (initial.runPrograms ⟨8, fun _ => 0⟩ 20 ps').2.machine.heap := by
  intro ps ps'
  have hedits : Forall₂ Stmt.DeadEdits ps ps' := by
    refine .cons ?_ (.cons ?_ (.cons ?_ .nil))
    · exact .cons (.funDecl (.cons (.whileLoop rfl (.block (.dead (.some rfl) _ _))) .nil)) .nil
    · exact .cons (.refl _) .nil
    · exact .dead .none _ _
  obtain ⟨houtcomes, hprinted, hheap⟩ := code_behind_return_is_dead ⟨8, fun _ => 0⟩ 20 hedits
  refine ⟨hedits, ?_, ?_, hheap⟩
  · rw [← houtcomes]
    decide +kernel
  · rw [← hprinted]
    decide +kernel

end Session
end Lox
