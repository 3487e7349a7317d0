import Lox.Proofs.Eval.Likeness
import Lox.Proofs.Session

/-!
# Without loops every run ends

Fuel is used up by loops and by calls. A program without loops can only go on by calling functions, and
their number under way at once is limited. So for such a program, and functions without loops in the heap
it starts from, some fuel is enough.

**Measure.** With `d` calls under way, a part of a tree needs its own size and, for each call that may
still be entered, the size of the largest function body: `size + (limit - d) * H`. A declaration puts
bodies into the heap that are smaller than the statement they stand in, so the bound `H` for the bodies
at the start and for the program stays one.

**Results.** `finishes_eval` for trees, and `loopFree_ends` for runs of programs.
-/
namespace Lox

/-! ## Trees without loops -/

mutual

/-- There is no loop in the statement, nor in a function that is declared in it. -/
def Stmt.loopFree : Stmt → Bool
  | .expression .. | .print .. | .varDecl .. | .ret .. => true
  | .block _ body => Stmt.allLoopFree body
  | .ifThen _ _ yes => yes.loopFree
  | .ifElse _ _ yes no => yes.loopFree && no.loopFree
  | .whileLoop .. => false
  | .funDecl _ _ _ body => Stmt.allLoopFree body

def Stmt.allLoopFree : List Stmt → Bool
  | [] => true
  | s :: ss => s.loopFree && Stmt.allLoopFree ss

end

theorem Stmt.allLoopFree_iff {ss : List Stmt} : Stmt.allLoopFree ss = true ↔ ∀ s ∈ ss, s.loopFree = true := by
  induction ss with
  | nil => simp [Stmt.allLoopFree]
  | cons s ss ih => simp [Stmt.allLoopFree, ih]

/-- Every function that the heap holds has a body without loops. -/
def Heap.LoopFree (h : Heap) : Prop :=
  ∀ (i : FrameId) (f : Frame) (name : String) (c : Closure), h.frames[i]? = some f →
    f.get? name = some (.function c) → Stmt.allLoopFree c.body = true

/-! ## Sizes -/

theorem Bindings.mem_of_get? {bs : Bindings} {name : String} {v : Value} (h : bs.get? name = some v) :
    ∃ n, (n, v) ∈ bs := by
  induction bs with
  | nil => cases h
  | cons b bs ih =>
    obtain ⟨n, w⟩ := b
    unfold Bindings.get? at h
    split at h
    · cases h
      exact ⟨n, List.mem_cons_self⟩
    · obtain ⟨n', hmem⟩ := ih h
      exact ⟨n', List.mem_cons_of_mem _ hmem⟩

/-- The body of a function is smaller than the heap that holds it. -/
theorem Heap.sizeOf_body_lt {h : Heap} {i : FrameId} {f : Frame} {name : String} {c : Closure}
    (hf : h.frames[i]? = some f) (hc : f.get? name = some (.function c)) : sizeOf c.body < sizeOf h := by
  obtain ⟨n, hmem⟩ := Bindings.mem_of_get? hc
  have hvars : sizeOf (n, Value.function c) < sizeOf f.vars := List.sizeOf_lt_of_mem hmem
  have hframe : sizeOf f < sizeOf h.frames := Array.sizeOf_lt_of_mem (Array.mem_of_getElem? hf)
  obtain ⟨parent, vars⟩ := f
  obtain ⟨frames, functions⟩ := h
  obtain ⟨identity, fname, params, body, frame⟩ := c
  simp only [Heap.mk.sizeOf_spec, Frame.mk.sizeOf_spec, Closure.mk.sizeOf_spec,
    Value.function.sizeOf_spec, Prod.mk.sizeOf_spec] at *
  omega

theorem Expr.sizeOf_pos (e : Expr) : 0 < sizeOf e := by
  cases e <;>
    simp only [Expr.literal.sizeOf_spec, Expr.var.sizeOf_spec, Expr.assign.sizeOf_spec,
      Expr.unary.sizeOf_spec, Expr.binary.sizeOf_spec, Expr.logical.sizeOf_spec,
      Expr.grouping.sizeOf_spec, Expr.call.sizeOf_spec] <;>
    omega

theorem Stmt.sizeOf_pos (s : Stmt) : 0 < sizeOf s := by
  cases s <;>
    simp only [Stmt.expression.sizeOf_spec, Stmt.print.sizeOf_spec, Stmt.varDecl.sizeOf_spec,
      Stmt.block.sizeOf_spec, Stmt.ifThen.sizeOf_spec, Stmt.ifElse.sizeOf_spec,
      Stmt.whileLoop.sizeOf_spec, Stmt.funDecl.sizeOf_spec, Stmt.ret.sizeOf_spec] <;>
    omega

/-- The parts of an expression are smaller than the whole. -/
theorem Expr.layer_smaller (e : Expr) :
    Expr.Layer (· = ·) (fun a b => a = b ∧ sizeOf a < sizeOf e) e e := by
  cases e with
  | literal => exact .literal
  | var => exact .var rfl
  | assign id name value =>
    have hsize := Expr.assign.sizeOf_spec id name value
    exact .assign rfl ⟨rfl, by omega⟩
  | unary id op operand =>
    have hsize := Expr.unary.sizeOf_spec id op operand
    exact .unary rfl ⟨rfl, by omega⟩
  | binary id left op right =>
    have hsize := Expr.binary.sizeOf_spec id left op right
    exact .binary ⟨rfl, by omega⟩ rfl ⟨rfl, by omega⟩
  | logical id left op right =>
    have hsize := Expr.logical.sizeOf_spec id left op right
    exact .logical ⟨rfl, by omega⟩ rfl ⟨rfl, by omega⟩
  | grouping id inner =>
    have hsize := Expr.grouping.sizeOf_spec id inner
    exact .grouping ⟨rfl, by omega⟩
  | call id callee paren args =>
    have hsize := Expr.call.sizeOf_spec id callee paren args
    refine .call ⟨rfl, by omega⟩ rfl (List.forall₂_same.2 fun a ha => ⟨rfl, ?_⟩)
    have hlt := List.sizeOf_lt_of_mem ha
    omega

namespace Eval

open EvalM

/-! ## Evaluation -/

/-- Function bodies without loops and of size at most `H`, and every reason to stop but lack of fuel. -/
def loopless (H : Nat) : Likeness where
  Bodies b b' := b = b' ∧ Stmt.allLoopFree b = true ∧ sizeOf b ≤ H
  Tokens := (· = ·)
  Stops _ e f := e = f ∧ e ≠ .outOfFuel
  kind_eq := congrArg Token.kind
  lexeme_eq := congrArg Token.lexeme
  stops_fault ht _ := ⟨by rw [ht], nofun⟩
  stops_caller h := h

variable {cfg : Config} {H d fuel : Nat}

/-- The parts of a statement are smaller than the whole, and without loops if the whole is. -/
theorem layer_loopless {s : Stmt} (hloop : s.loopFree = true) (hsize : sizeOf s ≤ H) :
    Stmt.Layer (· = ·) (fun a b => a = b ∧ sizeOf a < sizeOf s)
      (fun a b => a = b ∧ a.loopFree = true ∧ sizeOf a < sizeOf s) (loopless H).Bodies s s := by
  cases s with
  | expression id e =>
    have hspec := Stmt.expression.sizeOf_spec id e
    exact .expression ⟨rfl, by omega⟩
  | print id e =>
    have hspec := Stmt.print.sizeOf_spec id e
    exact .print ⟨rfl, by omega⟩
  | varDecl id name init =>
    have hspec := Stmt.varDecl.sizeOf_spec id name init
    refine .varDecl rfl ?_
    cases init with
    | none => exact .none
    | some e =>
      have hsome := Option.some.sizeOf_spec e
      exact .some ⟨rfl, by omega⟩
  | block id body =>
    have hspec := Stmt.block.sizeOf_spec id body
    refine .block (List.forall₂_same.2 fun a ha => ⟨rfl, Stmt.allLoopFree_iff.1 hloop a ha, ?_⟩)
    have hlt := List.sizeOf_lt_of_mem ha
    omega
  | ifThen id condition yes =>
    have hspec := Stmt.ifThen.sizeOf_spec id condition yes
    exact .ifThen ⟨rfl, by omega⟩ ⟨rfl, hloop, by omega⟩
  | ifElse id condition yes no =>
    have hspec := Stmt.ifElse.sizeOf_spec id condition yes no
    obtain ⟨hyes, hno⟩ := Bool.and_eq_true_iff.1 hloop
    exact .ifElse ⟨rfl, by omega⟩ ⟨rfl, hyes, by omega⟩ ⟨rfl, hno, by omega⟩
  | whileLoop => cases hloop
  | funDecl id name params body =>
    have hspec := Stmt.funDecl.sizeOf_spec id name params body
    exact .funDecl rfl (List.forall₂_same.2 fun _ _ => rfl) ⟨rfl, hloop, by omega⟩
  | ret id keyword value =>
    have hspec := Stmt.ret.sizeOf_spec id keyword value
    refine .ret rfl ?_
    cases value with
    | none => exact .none
    | some e =>
      have hsome := Option.some.sizeOf_spec e
      exact .some ⟨rfl, by omega⟩

/-- The evaluations do not stop for lack of fuel. -/
def Finishes (cfg : Config) (H d fuel : Nat) : Prop :=
  (∀ frame e, sizeOf e + (cfg.maxCallDepth - d) * H ≤ fuel →
      (loopless H).Rel d (loopless H).Values (evalExpr cfg fuel frame e) (evalExpr cfg fuel frame e)) ∧
    ∀ frame s, s.loopFree = true → sizeOf s ≤ H → sizeOf s + (cfg.maxCallDepth - d) * H ≤ fuel →
      (loopless H).Rel d (((loopless H).correspondence cfg).Flows d) (evalStmt cfg fuel frame s)
        (evalStmt cfg fuel frame s)

theorem finishes_eval (cfg : Config) (H d fuel : Nat) : Finishes cfg H d fuel := by
  induction fuel generalizing d with
  | zero =>
    refine ⟨fun frame e hfuel => ?_, fun frame s _ _ hfuel => ?_⟩
    · have := e.sizeOf_pos
      omega
    · have := s.sizeOf_pos
      omega
  | succ fuel ih =>
    have hexpr (frame : FrameId) (n : Nat) (hfuel : n + (cfg.maxCallDepth - d) * H ≤ fuel + 1)
        (e e' : Expr) (h : e = e' ∧ sizeOf e < n) :
        (loopless H).Rel d (loopless H).Values (evalExpr cfg fuel frame e)
          (evalExpr cfg fuel frame e') := by
      obtain ⟨rfl, hlt⟩ := h
      exact (ih d).1 frame e (by omega)
    refine ⟨fun frame e hfuel => ?_, fun frame s hloop hsize hfuel => ?_⟩
    · rw [evalExpr]
      refine .later (((loopless H).correspondence cfg).rel_exprStep rfl (hexpr frame _ hfuel) ?_
        e.layer_smaller)
      rintro (hd : d < cfg.maxCallDepth) b _ ⟨rfl, hfree, hsize⟩ f _ rfl
      refine ((loopless H).correspondence cfg).rel_runAll (List.forall₂_same.2 fun s hs => ?_)
      -- the call that is entered pays for its body
      have hcalls : (cfg.maxCallDepth - d) * H = (cfg.maxCallDepth - (d + 1)) * H + H := by
        rw [← Nat.succ_mul]
        congr 1
        omega
      have hlt := List.sizeOf_lt_of_mem hs
      exact (ih (d + 1)).2 f s (Stmt.allLoopFree_iff.1 hfree s hs) (by omega) (by omega)
    · rw [evalStmt]
      refine .later (((loopless H).correspondence cfg).rel_stmtStep rfl (hexpr frame _ hfuel) ?_
        (layer_loopless hloop hsize) ?_)
      · rintro f _ rfl t _ ⟨rfl, hfree, hlt⟩
        exact (ih d).2 f t hfree (by omega) (by omega)
      · rintro i c b rfl
        cases hloop

theorem finishes_evalProgram {p : Program} (hp : Stmt.allLoopFree p = true) (hsize : sizeOf p ≤ H)
    (hfuel : sizeOf p + (cfg.maxCallDepth - d) * H ≤ fuel) :
    (loopless H).Rel d (fun _ _ => True) (evalProgram cfg fuel p) (evalProgram cfg fuel p) := by
  rw [evalProgram_eq]
  refine ((loopless H).correspondence cfg).rel_runEach (List.forall₂_same.2 fun s hs => ?_)
  have hlt := List.sizeOf_lt_of_mem hs
  exact (finishes_eval cfg H d fuel).2 _ s (Stmt.allLoopFree_iff.1 hp s hs) (by omega) (by omega)

/-- A heap without loops has bodies up to its own size. -/
theorem corr_loopless {h : Heap} (hh : h.LoopFree) (hsize : sizeOf h ≤ H) :
    Heap.Corr (loopless H).Values h h := by
  refine .refl fun i f name v hf hv => ?_
  cases v with
  | function c =>
    have hlt := Heap.sizeOf_body_lt hf hv
    exact .function ⟨rfl, rfl, rfl, rfl, rfl, hh i f name c hf hv, by omega⟩
  | _ => exact .same nofun

end Eval

/-! ## Runs of programs -/

namespace Session

/-- A run of a program without loops, in a heap whose functions have none, ends with its last statement
or with a fault. -/
theorem loopFree_ends (cfg : Config) (p : Program) (s : Session) (hp : Stmt.allLoopFree p = true)
    (hs : s.machine.heap.LoopFree) :
    (∃ s', Ends cfg p s .completed s') ∨ ∃ f s', Ends cfg p s (.failed f) s' := by
  let H := sizeOf p + sizeOf s.machine.heap
  let fuel := sizeOf p + (cfg.maxCallDepth - s.machine.depth) * H
  have hrun : (Eval.loopless H).Rel s.machine.depth (fun _ _ => True) (evalProgram cfg fuel p)
      (evalProgram cfg fuel p) := Eval.finishes_evalProgram hp (by omega) (Nat.le_refl _)
  have hheap := Eval.corr_loopless hs (by omega : sizeOf s.machine.heap ≤ H)
  rcases hrun.endings ⟨hheap, rfl, rfl, rfl, rfl⟩ with ⟨_, _, m, _, hok, -⟩ |
    ⟨e, _, m, _, herror, -, ⟨-, he⟩, -⟩
  · refine .inl ⟨⟨m⟩, nofun, fuel, ?_⟩
    rw [runProgram_eq, hok]
    rfl
  · cases e with
    | fault f =>
      refine .inr ⟨f, ⟨m⟩, nofun, fuel, ?_⟩
      rw [runProgram_eq, herror]
      rfl
    | outOfFuel => exact absurd rfl he

/-- `f();` -/
def callOfF : Stmt :=
  .expression 0 (.call 0 (.var 0 ⟨.identifier, "f", none, 1⟩) ⟨.rightParen, ")", none, 1⟩ [])

/-- A session in which `fun f() { f(); }` has been run. -/
def afterSelfCaller : Session :=
  ⟨⟨#[⟨none, [("f", .function ⟨0, "f", [], [callOfF], Heap.globals⟩), ("clock", .native .clock)]⟩], 1⟩,
    0, 0, #[]⟩

theorem loopFree_ends_self_call : Stmt.allLoopFree [callOfF] = true ∧
    afterSelfCaller.machine.heap.LoopFree ∧
    ((∃ s', Ends ⟨1024, fun _ => 0⟩ [callOfF] afterSelfCaller .completed s') ∨
      ∃ f s', Ends ⟨1024, fun _ => 0⟩ [callOfF] afterSelfCaller (.failed f) s') := by
  have hheap : afterSelfCaller.machine.heap.LoopFree := by
    intro i f name c hf hc
    cases i with
    | succ i => cases hf
    | zero =>
      cases hf
      obtain ⟨n, hmem⟩ := Bindings.mem_of_get? hc
      rcases List.mem_cons.1 hmem with hfirst | hrest
      · cases hfirst
        rfl
      · cases List.mem_singleton.1 hrest
  exact ⟨rfl, hheap, loopFree_ends _ _ _ rfl hheap⟩

end Session
end Lox
