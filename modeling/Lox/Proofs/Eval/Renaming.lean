import Lox.Proofs.Eval.Correspondence
import Lox.Proofs.Eval.Simulation

/-!
# Names matter up to equality

Evaluation compares names and does nothing else with them, except that a function is printed with its name and
a fault quotes that of an undefined variable. So all names of a program can be replaced by others, in the
program and in the heap that it is run in, as long as different names stay different. The run stays what it
is, up to the new names.

**New names.** For `r : String → String` there is one function `rename r` for each kind of thing that has
names in it: trees, values, frames and their keys, heaps, faults, machines. Operators, parentheses and
keywords are tokens that name nothing and are left alone. So is what has been printed.

**What is printed.** Most values have the same text under all names, but a string can read like a function. To
tell the two apart, `showStmt` executes a statement by the same steps as `evalStmt`, but prints values as it
is told. With the text that they have after renaming, a run prints exactly what the renamed program prints.

**Results.**
* One lemma for each operation of a heap and each operator: it commutes with an injective `r`.
* `renames_show`: evaluation of trees.
* `names_matter_up_to_equality`.
-/
namespace Lox

/-! ## New names -/

/-- The same token with a new name. -/
def Token.rename (r : String → String) (t : Token) : Token := { t with lexeme := r t.lexeme }

mutual

/-- The expression with new names of variables. -/
def Expr.rename (r : String → String) : Expr → Expr
  | .literal id value => .literal id value
  | .var id name => .var id (name.rename r)
  | .assign id name value => .assign id (name.rename r) (value.rename r)
  | .unary id op operand => .unary id op (operand.rename r)
  | .binary id left op right => .binary id (left.rename r) op (right.rename r)
  | .logical id left op right => .logical id (left.rename r) op (right.rename r)
  | .grouping id inner => .grouping id (inner.rename r)
  | .call id callee paren args => .call id (callee.rename r) paren (Expr.renameAll r args)

def Expr.renameAll (r : String → String) : List Expr → List Expr
  | [] => []
  | e :: es => e.rename r :: Expr.renameAll r es

end

mutual

/-- The statement with new names of variables, functions and parameters. -/
def Stmt.rename (r : String → String) : Stmt → Stmt
  | .expression id value => .expression id (value.rename r)
  | .print id value => .print id (value.rename r)
  | .varDecl id name init => .varDecl id (name.rename r) (init.map (·.rename r))
  | .block id body => .block id (Stmt.renameAll r body)
  | .ifThen id condition yes => .ifThen id (condition.rename r) (yes.rename r)
  | .ifElse id condition yes no => .ifElse id (condition.rename r) (yes.rename r) (no.rename r)
  | .whileLoop id condition body => .whileLoop id (condition.rename r) (body.rename r)
  | .funDecl id name params body =>
    .funDecl id (name.rename r) (params.map (·.rename r)) (Stmt.renameAll r body)
  | .ret id keyword value => .ret id keyword (value.map (·.rename r))

/-- The program with new names. -/
def Stmt.renameAll (r : String → String) : List Stmt → List Stmt
  | [] => []
  | s :: ss => s.rename r :: Stmt.renameAll r ss

end

theorem Expr.renameAll_eq_map (r : String → String) (es : List Expr) :
    Expr.renameAll r es = es.map (·.rename r) := by
  induction es with
  | nil => rfl
  | cons e es ih => rw [Expr.renameAll, ih, List.map_cons]

def Closure.rename (r : String → String) (c : Closure) : Closure where
  identity := c.identity
  name := r c.name
  params := c.params.map r
  body := Stmt.renameAll r c.body
  frame := c.frame

def Value.rename (r : String → String) : Value → Value
  | .function c => .function (c.rename r)
  | v => v

def Flow.rename (r : String → String) : Flow → Flow
  | .normal => .normal
  | .returned v => .returned (v.rename r)

/-- The frame with new names as its keys and in its values. -/
def Frame.rename (r : String → String) (f : Frame) : Frame :=
  ⟨f.parent, f.vars.map fun b => (r b.1, b.2.rename r)⟩

def Heap.rename (r : String → String) (h : Heap) : Heap := ⟨h.frames.map (·.rename r), h.functions⟩

def Fault.Cause.rename (r : String → String) : Fault.Cause → Fault.Cause
  | undefinedVariable name => undefinedVariable (r name)
  | cause => cause

/-- The same fault on the same line. -/
def Fault.rename (r : String → String) (f : Fault) : Fault := ⟨f.cause.rename r, f.line⟩

def Stop.rename (r : String → String) : Stop → Stop
  | .fault f => .fault (f.rename r)
  | .outOfFuel => .outOfFuel

/-- The machine with new names in its heap. -/
def Machine.rename (r : String → String) (m : Machine) : Machine := { m with heap := m.heap.rename r }

/-! ## Frames and heaps -/

section
variable {r : String → String}

@[simp] theorem Frame.parent_rename (f : Frame) : (f.rename r).parent = f.parent := rfl

theorem Heap.frames_rename (h : Heap) (i : FrameId) :
    (h.rename r).frames[i]? = h.frames[i]?.map (Frame.rename r) := Array.getElem?_map

theorem Heap.size_rename (h : Heap) : (h.rename r).frames.size = h.frames.size := Array.size_map

theorem Heap.push_rename (h : Heap) (parent : Option FrameId) :
    (h.push ⟨parent, []⟩).rename r = (h.rename r).push ⟨parent, []⟩ := by
  simp [Heap.push, Heap.rename, Frame.rename]

variable (hr : Function.Injective r)
include hr

theorem Frame.get?_rename (f : Frame) (name : String) :
    (f.rename r).get? (r name) = (f.get? name).map (Value.rename r) := by
  obtain ⟨parent, vars⟩ := f
  unfold Frame.rename Frame.get?
  induction vars with
  | nil => rfl
  | cons b vars ih =>
    simp only [List.map_cons, Bindings.get?, hr.eq_iff]
    split
    · rfl
    · exact ih

theorem Frame.binds_rename (f : Frame) (name : String) : (f.rename r).binds (r name) = f.binds name := by
  rw [Frame.binds, Frame.get?_rename hr, Option.isSome_map, Frame.binds]

theorem Frame.define_rename (f : Frame) (name : String) (v : Value) :
    (f.define name v).rename r = (f.rename r).define (r name) (v.rename r) := by
  obtain ⟨parent, vars⟩ := f
  simp only [Frame.define, Frame.rename, Bindings.erase, List.map_cons, List.eraseP_map, Function.comp_def,
    hr.eq_iff]

/-- Names have the same owners. -/
theorem Heap.owner?_rename (h : Heap) (name : String) (i : FrameId) :
    (h.rename r).owner? (r name) i = h.owner? name i := by
  induction i using Nat.strongRecOn with
  | ind i ih =>
    rw [Heap.owner?, Heap.owner?, Heap.frames_rename]
    cases h.frames[i]? with
    | none => rfl
    | some f =>
      simp only [Option.map_some, Frame.binds_rename hr, Frame.parent_rename]
      split
      · rfl
      · cases f.parent with
        | none => rfl
        | some p =>
          dsimp only
          split
          · exact ih p ‹_›
          · rfl

theorem Heap.get?_rename (h : Heap) (i : FrameId) (name : String) :
    (h.rename r).get? i (r name) = (h.get? i name).map (Value.rename r) := by
  unfold Heap.get?
  rw [Heap.owner?_rename hr]
  cases h.owner? name i with
  | none => rfl
  | some o =>
    simp only [Option.bind_eq_bind, Option.bind_some, Heap.frames_rename]
    cases h.frames[o]? with
    | none => rfl
    | some f => exact Frame.get?_rename hr f name

theorem Heap.define_rename (h : Heap) (i : FrameId) (name : String) (v : Value) :
    (h.define i name v).rename r = (h.rename r).define i (r name) (v.rename r) := by
  unfold Heap.define Heap.rename
  congr 1
  apply Array.ext_getElem?
  intro j
  rw [Array.getElem?_map, Array.getElem?_modify, Array.getElem?_modify, Array.getElem?_map]
  split
  · rw [Option.map_map, Option.map_map]
    refine congrArg (Option.map · _) (funext fun f => ?_)
    exact Frame.define_rename hr f name v
  · rfl

theorem Heap.defineAll_rename (h : Heap) (i : FrameId) (names : List String) (vs : List Value) :
    (h.defineAll i names vs).rename r = (h.rename r).defineAll i (names.map r) (vs.map (Value.rename r)) := by
  induction names generalizing h vs with
  | nil => rfl
  | cons name names ih =>
    cases vs with
    | nil => rfl
    | cons v vs =>
      simp only [Heap.defineAll, List.map_cons]
      rw [ih, Heap.define_rename hr]

end

/-! ## Values and operators -/

section
variable (r : String → String)

theorem Value.isTruthy_rename (v : Value) : (v.rename r).isTruthy = v.isTruthy := by
  cases v <;> rfl

theorem Value.equals_rename (v w : Value) : (v.rename r).equals (w.rename r) = v.equals w := by
  cases v <;> cases w <;> rfl

theorem Value.rename_ofLiteral (l : Literal) : (Value.ofLiteral l).rename r = .ofLiteral l := by
  cases l <;> rfl

/-- The value with new names by `f`, or the fault with new names. -/
def renameResult {α : Type} (f : α → α) : Except Fault α → Except Fault α
  | .ok a => .ok (f a)
  | .error x => .error (x.rename r)

theorem Operator.onNumbers_rename {f : Float → Float → Value} (hf : ∀ x y, (f x y).rename r = f x y)
    (op : Token) (v w : Value) :
    onNumbers op f (v.rename r) (w.rename r) = renameResult r (Value.rename r) (onNumbers op f v w) := by
  cases v with
  | number x =>
    cases w with
    | number y => exact congrArg Except.ok (hf x y).symm
    | _ => rfl
  | _ => rfl

theorem Operator.add_rename (op : Token) (v w : Value) :
    add op (v.rename r) (w.rename r) = renameResult r (Value.rename r) (add op v w) := by
  cases v <;> cases w <;> rfl

theorem Operator.binary_rename (op : Token) (v w : Value) :
    binary op (v.rename r) (w.rename r) = renameResult r (Value.rename r) (binary op v w) := by
  unfold binary
  rw [Value.equals_rename]
  split
  case h_1 => exact add_rename r op v w
  case h_9 | h_10 | h_11 => rfl
  all_goals exact onNumbers_rename r (fun _ _ => rfl) op v w

theorem Operator.unary_rename (op : Token) (v : Value) :
    unary op (v.rename r) = renameResult r (Value.rename r) (unary op v) := by
  unfold unary
  cases v with
  | function c => cases op.kind <;> rfl
  | _ =>
    simp only [Value.rename]
    split <;> rfl

theorem Operator.shortCut_rename (op : Token) (v : Value) :
    shortCut op (v.rename r) = renameResult r (Option.map (Value.rename r)) (shortCut op v) := by
  unfold shortCut
  rw [Value.isTruthy_rename]
  split
  · cases v.isTruthy <;> rfl
  · cases v.isTruthy <;> rfl
  · rfl

end

/-! ## Evaluation -/

namespace Eval

open EvalM

/-- A statement, given evaluators of what it is made of, with values printed as `shown`. -/
def showStep (shown : Value → String) (fuel : Nat) (expr : FrameId → Expr → EvalM Value)
    (stmt : FrameId → Stmt → EvalM Flow) (frame : FrameId) : Stmt → EvalM Flow
  | .print _ e => do
    let v ← expr frame e
    print (shown v)
    return .normal
  | s => stmtStep fuel expr stmt frame s

mutual

/-- The value of an expression in `frame`, with values printed as `shown`. -/
def showExpr (cfg : Config) (shown : Value → String) : (fuel : Nat) → FrameId → Expr → EvalM Value
  | 0, _, _ => outOfFuel
  | fuel + 1, frame, e => .later fun _ =>
    exprStep cfg (showExpr cfg shown fuel) (showStmt cfg shown fuel) frame e

/-- Executes a statement in `frame`, with values printed as `shown`. -/
def showStmt (cfg : Config) (shown : Value → String) : (fuel : Nat) → FrameId → Stmt → EvalM Flow
  | 0, _, _ => outOfFuel
  | fuel + 1, frame, s => .later fun _ =>
    showStep shown fuel (showExpr cfg shown fuel) (showStmt cfg shown fuel) frame s

end

theorem showStep_text {fuel : Nat} {expr : FrameId → Expr → EvalM Value} {stmt : FrameId → Stmt → EvalM Flow}
    {frame : FrameId} {s : Stmt} :
    showStep Value.text fuel expr stmt frame s = stmtStep fuel expr stmt frame s := by
  cases s <;> rfl

/-- Evaluation prints values as their texts. -/
theorem show_text (cfg : Config) (fuel : Nat) :
    showExpr cfg Value.text fuel = evalExpr cfg fuel ∧ showStmt cfg Value.text fuel = evalStmt cfg fuel := by
  induction fuel with
  | zero => exact ⟨rfl, rfl⟩
  | succ fuel ih =>
    constructor
    · funext frame e
      rw [showExpr, evalExpr, ih.1, ih.2]
    · funext frame s
      simp only [showStmt, evalStmt, showStep_text, ih.1, ih.2]

/-- Machines with the same heap up to names. What they have printed is related by `P`. -/
structure Renames (r : String → String) (P : Array String → Array String → Prop) (m m' : Machine) : Prop where
  heap_eq : m'.heap = m.heap.rename r
  depth_eq : m'.depth = m.depth
  ticks_eq : m'.ticks = m.ticks
  printed : P m.printed m'.printed

section
variable {α β : Type} {r : String → String} {P : Array String → Array String → Prop}

/-- From machines that are equal up to names, the computations end alike up to names. -/
abbrev Renaming (r : String → String) (P : Array String → Array String → Prop) (f : α → α) (x y : EvalM α) :
    Prop :=
  Sim (Renames r P) (fun e e' => e' = e.rename r) (fun a b => b = f a) x y

theorem Renaming.bind {f : α → α} {g : β → β} {x y : EvalM α} {k k' : α → EvalM β} (hx : Renaming r P f x y)
    (hk : ∀ a, Renaming r P g (k a) (k' (f a))) : Renaming r P g (x >>= k) (y >>= k') := by
  refine Sim.bind hx ?_
  rintro a _ rfl
  exact hk a

theorem renaming_fault {f : α → α} {cause : Fault.Cause} (h : cause.rename r = cause) (line : Nat) :
    Renaming r P f (fault cause line) (fault cause line) := by
  refine Sim.throw ?_
  rw [Stop.rename, Fault.rename, h]

theorem renaming_ofExcept {f : α → α} (x : Except Fault α) :
    Renaming r P f (ofExcept x) (ofExcept (renameResult r f x)) := by
  cases x with
  | ok a => exact Sim.pure rfl
  | error x => exact Sim.throw rfl

theorem renaming_mapM {f : α → α} {x y : β → EvalM α} {g : β → β} (bs : List β)
    (h : ∀ b ∈ bs, Renaming r P f (x b) (y (g b))) :
    Renaming r P (List.map f) (bs.mapM x) ((bs.map g).mapM y) := by
  induction bs with
  | nil => exact Sim.pure rfl
  | cons b bs ih =>
    rw [List.forall_mem_cons] at h
    rw [List.map_cons, List.mapM_cons, List.mapM_cons]
    exact h.1.bind fun a => (ih h.2).bind fun as => Sim.pure rfl

/-! ## Operations of a machine -/

section
variable (hr : Function.Injective r)
include hr

theorem renaming_readVar (frame : FrameId) (name : Token) :
    Renaming r P (Value.rename r) (readVar frame name) (readVar frame (name.rename r)) := by
  refine Sim.of fun m m' hm => ?_
  rw [hm.heap_eq, Token.rename, Heap.get?_rename hr]
  cases m.heap.get? frame name.lexeme with
  | none => exact .error rfl hm
  | some v => exact .ok rfl hm

theorem renaming_defineVar (frame : FrameId) (name : String) (v : Value) :
    Renaming r P id (defineVar frame name v) (defineVar frame (r name) (v.rename r)) := by
  refine Sim.of fun m m' hm => .ok rfl { hm with heap_eq := ?_ }
  rw [hm.heap_eq, Heap.define_rename hr]

theorem renaming_assignVar (frame : FrameId) (name : Token) (v : Value) :
    Renaming r P id (assignVar frame name v) (assignVar frame (name.rename r) (v.rename r)) := by
  refine Sim.of fun m m' hm => ?_
  rw [hm.heap_eq, Token.rename, Heap.owner?_rename hr]
  cases m.heap.owner? name.lexeme frame with
  | none => exact .error rfl hm
  | some o =>
    refine .ok rfl { hm with heap_eq := ?_ }
    rw [Heap.define_rename hr]

theorem renaming_bindParams (frame : FrameId) (params : List String) (vs : List Value) :
    Renaming r P id (bindParams frame params vs)
      (bindParams frame (params.map r) (vs.map (Value.rename r))) := by
  refine Sim.of fun m m' hm => .ok rfl { hm with heap_eq := ?_ }
  rw [hm.heap_eq, Heap.defineAll_rename hr]

end

theorem renaming_print {shown : Value → String}
    (hP : ∀ v a b, P a b → P (a.push (shown v)) (b.push (v.rename r).text)) (v : Value) :
    Renaming r P id (print (shown v)) (print (v.rename r).text) :=
  Sim.of fun m m' hm => .ok rfl { hm with printed := hP v m.printed m'.printed hm.printed }

theorem renaming_newFrame (parent : FrameId) : Renaming r P id (newFrame parent) (newFrame parent) := by
  refine Sim.of fun m m' hm => .ok ?_ { hm with heap_eq := ?_ }
  · rw [hm.heap_eq, Heap.size_rename, id]
  · rw [hm.heap_eq, Heap.push_rename]

theorem renaming_newFunction (frame : FrameId) (name : Token) (params : List Token) (body : List Stmt) :
    Renaming r P (Value.rename r) (newFunction frame name params body)
      (newFunction frame (name.rename r) (params.map (·.rename r)) (Stmt.renameAll r body)) := by
  refine Sim.of fun m m' hm => .ok ?_ { hm with heap_eq := ?_ }
  · simp [hm.heap_eq, Value.rename, Closure.rename, Heap.rename, Token.rename]
  · rw [hm.heap_eq]
    rfl

theorem renaming_readClock (cfg : Config) : Renaming r P (Value.rename r) (readClock cfg) (readClock cfg) := by
  intro m m' hm
  rw [run_readClock, run_readClock, hm.ticks_eq]
  exact .ok rfl { hm with ticks_eq := rfl }

theorem renaming_callDepth : Renaming r P id callDepth callDepth :=
  Sim.of fun _ _ hm => .ok hm.depth_eq hm

theorem renaming_counted {f : α → α} (cfg : Config) (line : Nat) {x y : EvalM α} (h : Renaming r P f x y) :
    Renaming r P f (counted cfg line x) (counted cfg line y) := by
  have henter : Renaming r P id (enterCall cfg line) (enterCall cfg line) := by
    refine Sim.of fun m m' hm => ?_
    rw [hm.depth_eq]
    split
    · exact .error rfl hm
    · exact .ok rfl { hm with depth_eq := rfl }
  refine henter.bind fun _ => Sim.leaving h fun m m' hm => { hm with depth_eq := ?_ }
  rw [hm.depth_eq]

/-! ## Levels of evaluation -/

theorem renaming_truthy {f : α → α} (v : Value) {x y x' y' : EvalM α} (h : Renaming r P f x y)
    (h' : Renaming r P f x' y') :
    Renaming r P f (if v.isTruthy then x else x') (if (v.rename r).isTruthy then y else y') := by
  rw [Value.isTruthy_rename]
  split
  · exact h
  · exact h'

theorem renaming_runAll {stmt stmt' : Stmt → EvalM Flow}
    (h : ∀ s, Renaming r P (Flow.rename r) (stmt s) (stmt' (s.rename r))) (ss : List Stmt) :
    Renaming r P (Flow.rename r) (runAll stmt ss) (runAll stmt' (Stmt.renameAll r ss)) := by
  induction ss with
  | nil => exact Sim.pure rfl
  | cons s ss ih =>
    rw [Stmt.renameAll, runAll, runAll]
    refine (h s).bind fun flow => ?_
    cases flow with
    | normal => exact ih
    | returned v => exact Sim.pure rfl

theorem renaming_runEach {stmt stmt' : Stmt → EvalM Flow}
    (h : ∀ s, Renaming r P (Flow.rename r) (stmt s) (stmt' (s.rename r))) (ss : List Stmt) :
    Renaming r P id (runEach stmt ss) (runEach stmt' (Stmt.renameAll r ss)) := by
  induction ss with
  | nil => exact Sim.pure rfl
  | cons s ss ih =>
    rw [Stmt.renameAll, runEach, runEach]
    exact (h s).bind fun _ => ih

theorem renaming_runWhile {test test' : EvalM Value} {body body' : EvalM Flow}
    (ht : Renaming r P (Value.rename r) test test') (hb : Renaming r P (Flow.rename r) body body')
    (fuel : Nat) :
    Renaming r P (Flow.rename r) (runWhile test body fuel) (runWhile test' body' fuel) := by
  induction fuel with
  | zero => exact Sim.throw rfl
  | succ fuel ih =>
    rw [runWhile, runWhile]
    refine ht.bind fun v => renaming_truthy v ?_ (Sim.pure rfl)
    refine hb.bind fun flow => ?_
    cases flow with
    | normal => exact ih
    | returned v => exact Sim.pure rfl

section
variable (hr : Function.Injective r) {expr expr' : FrameId → Expr → EvalM Value}
  {stmt stmt' : FrameId → Stmt → EvalM Flow}
  (hexpr : ∀ frame e, Renaming r P (Value.rename r) (expr frame e) (expr' frame (e.rename r)))
  (hstmt : ∀ frame s, Renaming r P (Flow.rename r) (stmt frame s) (stmt' frame (s.rename r)))

include hexpr in
theorem renaming_optionalStep (frame : FrameId) (o : Option Expr) :
    Renaming r P (Value.rename r) (optionalStep (expr frame) o)
      (optionalStep (expr' frame) (o.map (·.rename r))) := by
  cases o with
  | none => exact Sim.pure rfl
  | some e => exact hexpr frame e

include hr hstmt

theorem renaming_callClosure (c : Closure) (args : List Value) :
    Renaming r P (Value.rename r) (callClosure stmt c args)
      (callClosure stmt' (c.rename r) (args.map (Value.rename r))) := by
  rw [callClosure, callClosure]
  refine (renaming_newFrame c.frame).bind fun frame => ?_
  refine (renaming_bindParams hr frame c.params args).bind fun _ => ?_
  refine (renaming_runAll (hstmt frame) c.body).bind fun flow => ?_
  cases flow with
  | normal => exact Sim.pure rfl
  | returned v => exact Sim.pure rfl

theorem renaming_callValue (cfg : Config) (callee : Value) (args : List Value) (line : Nat) :
    Renaming r P (Value.rename r) (callValue cfg stmt callee args line)
      (callValue cfg stmt' (callee.rename r) (args.map (Value.rename r)) line) := by
  have harity (expected : Nat) : Renaming r P id (checkArity expected args.length line)
      (checkArity expected (args.map (Value.rename r)).length line) := by
    rw [checkArity, checkArity, List.length_map]
    split
    · exact Sim.pure rfl
    · exact renaming_fault rfl line
  cases callee with
  | native f => exact (harity _).bind fun _ => renaming_counted cfg line (renaming_readClock cfg)
  | function c =>
    have hparams : (c.rename r).params.length = c.params.length := List.length_map r
    rw [Value.rename, callValue, callValue, hparams]
    exact (harity _).bind fun _ => renaming_counted cfg line (renaming_callClosure hr hstmt c args)
  | number | string | boolean | nil => exact renaming_fault rfl line

include hexpr

theorem renaming_exprStep (cfg : Config) (frame : FrameId) (e : Expr) :
    Renaming r P (Value.rename r) (exprStep cfg expr stmt frame e)
      (exprStep cfg expr' stmt' frame (e.rename r)) := by
  cases e with
  | literal id value => exact Sim.pure (Value.rename_ofLiteral r value).symm
  | var id name => exact renaming_readVar hr frame name
  | assign id name value =>
    refine (hexpr frame value).bind fun v => ?_
    exact (renaming_assignVar hr frame name v).bind fun _ => Sim.pure rfl
  | unary id op operand =>
    refine (hexpr frame operand).bind fun v => ?_
    rw [Operator.unary_rename]
    exact renaming_ofExcept _
  | binary id left op right =>
    refine (hexpr frame left).bind fun v => (hexpr frame right).bind fun w => ?_
    rw [Operator.binary_rename]
    exact renaming_ofExcept _
  | logical id left op right =>
    refine (hexpr frame left).bind fun v => ?_
    rw [Operator.shortCut_rename]
    refine (renaming_ofExcept _).bind fun o => ?_
    cases o with
    | none => exact hexpr frame right
    | some v => exact Sim.pure rfl
  | grouping id inner => exact hexpr frame inner
  | call id callee paren args =>
    refine (hexpr frame callee).bind fun v => ?_
    rw [Expr.renameAll_eq_map]
    refine (renaming_mapM args fun a _ => hexpr frame a).bind fun vs => ?_
    exact renaming_callValue hr hstmt cfg v vs paren.line

theorem renaming_showStep {shown : Value → String}
    (hP : ∀ v a b, P a b → P (a.push (shown v)) (b.push (v.rename r).text)) (fuel : Nat) (frame : FrameId)
    (s : Stmt) :
    Renaming r P (Flow.rename r) (showStep shown fuel expr stmt frame s)
      (stmtStep fuel expr' stmt' frame (s.rename r)) := by
  cases s with
  | expression id value => exact (hexpr frame value).bind fun _ => Sim.pure rfl
  | print id value =>
    refine (hexpr frame value).bind fun v => ?_
    exact (renaming_print hP v).bind fun _ => Sim.pure rfl
  | varDecl id name init =>
    refine (renaming_optionalStep hexpr frame init).bind fun v => ?_
    exact (renaming_defineVar hr frame name.lexeme v).bind fun _ => Sim.pure rfl
  | block id body => exact (renaming_newFrame frame).bind fun inner => renaming_runAll (hstmt inner) body
  | ifThen id condition yes =>
    exact (hexpr frame condition).bind fun v => renaming_truthy v (hstmt frame yes) (Sim.pure rfl)
  | ifElse id condition yes no =>
    exact (hexpr frame condition).bind fun v => renaming_truthy v (hstmt frame yes) (hstmt frame no)
  | whileLoop id condition body => exact renaming_runWhile (hexpr frame condition) (hstmt frame body) fuel
  | funDecl id name params body =>
    refine (renaming_newFunction frame name params body).bind fun v => ?_
    exact (renaming_defineVar hr frame name.lexeme v).bind fun _ => Sim.pure rfl
  | ret id keyword value =>
    refine renaming_callDepth.bind fun d => ?_
    cases d with
    | zero => exact renaming_fault rfl keyword.line
    | succ d => exact (renaming_optionalStep hexpr frame value).bind fun v => Sim.pure rfl

end

/-- Evaluation of a tree and of the same tree with new names. -/
theorem renames_show (hr : Function.Injective r) {shown : Value → String}
    (hP : ∀ v a b, P a b → P (a.push (shown v)) (b.push (v.rename r).text)) (cfg : Config) (fuel : Nat) :
    (∀ frame e, Renaming r P (Value.rename r) (showExpr cfg shown fuel frame e)
        (evalExpr cfg fuel frame (e.rename r))) ∧
      ∀ frame s, Renaming r P (Flow.rename r) (showStmt cfg shown fuel frame s)
        (evalStmt cfg fuel frame (s.rename r)) := by
  induction fuel with
  | zero => exact ⟨fun _ _ => Sim.throw rfl, fun _ _ => Sim.throw rfl⟩
  | succ fuel ih =>
    refine ⟨fun frame e => ?_, fun frame s => ?_⟩
    · rw [showExpr, evalExpr]
      exact Sim.later (renaming_exprStep hr ih.1 ih.2 cfg frame e)
    · rw [showStmt, evalStmt]
      exact Sim.later (renaming_showStep hr ih.1 ih.2 hP fuel frame s)

end

/-! ## Runs -/

/-- Executes statements in `frame` itself as `evalBlock` does, with values printed as `shown`. -/
def showBlock (cfg : Config) (shown : Value → String) (fuel : Nat) (frame : FrameId) (body : List Stmt) :
    EvalM Flow :=
  runAll (showStmt cfg shown fuel frame) body

/-- Executes a program as `evalProgram` does, with values printed as `shown`. -/
def showProgram (cfg : Config) (shown : Value → String) (fuel : Nat) (p : Program) : EvalM Unit :=
  runEach (showStmt cfg shown fuel Heap.globals) p

/-- Since `start`, the one has the texts of some values, and the other the texts of the same values with new
names. -/
def SameButNames (r : String → String) (start a b : Array String) : Prop :=
  ∃ vs : List Value, a.toList = start.toList ++ vs.map (·.text) ∧
    b.toList = start.toList ++ vs.map fun v => (v.rename r).text

theorem SameButNames.push {r : String → String} (start : Array String) (v : Value) (a b : Array String)
    (h : SameButNames r start a b) : SameButNames r start (a.push v.text) (b.push (v.rename r).text) := by
  obtain ⟨vs, ha, hb⟩ := h
  exact ⟨vs ++ [v], by simp [ha], by simp [hb]⟩

/-- The ending with new names, values being given them by `f`. -/
def renameEnding {α : Type} (r : String → String) (f : α → α) : Ending Stop Machine α → Ending Stop Machine α
  | .ok a m => .ok (f a) (m.rename r)
  | .error e m => .error (e.rename r) (m.rename r)

variable {α : Type} {r : String → String} {f : α → α}

/-- If the lines printed are the same, all is the same but names. -/
theorem Renaming.run_rename {x y : EvalM α} (h : Renaming r (· = ·) f x y) (m : Machine) :
    y.run (m.rename r) = renameEnding r f (x.run m) := by
  have hmachine {n n' : Machine} (hn : Renames r (· = ·) n n') : n' = n.rename r := by
    obtain ⟨heap, depth, ticks, printed⟩ := n'
    obtain ⟨hheap, hdepth, hticks, hprinted⟩ := hn
    dsimp only at hheap hdepth hticks hprinted
    subst hheap hdepth hticks hprinted
    rfl
  have hm : Renames r (· = ·) m (m.rename r) := ⟨rfl, rfl, rfl, rfl⟩
  rcases h.endings hm with ⟨a, b, n, n', hx, hy, rfl, hn⟩ | ⟨e, e', n, n', hx, hy, rfl, hn⟩
  · rw [hx, hy, hmachine hn]
    rfl
  · rw [hx, hy, hmachine hn]
    rfl

/-- With new names in the machine, `y` ends as `x` does without them. It prints the texts of the same values
with new names, and so does `shown`, which is the same as `x` in everything else. -/
structure RunsRenamed (r : String → String) (f : α → α) (x shown y : EvalM α) (m : Machine) : Prop where
  alike : Ends (Renames r (SameButNames r m.printed)) (fun e e' => e' = e.rename r) (fun a b => b = f a)
    (x.run m) (y.run (m.rename r))
  exactly : y.run (m.rename r) = renameEnding r f (shown.run m)

theorem RunsRenamed.of_renaming {x shown y : EvalM α} {m : Machine}
    (h : Renaming r (SameButNames r m.printed) f x y) (h' : Renaming r (· = ·) f shown y) :
    RunsRenamed r f x shown y m :=
  ⟨h m (m.rename r) ⟨rfl, rfl, rfl, [], by simp [Machine.rename]⟩, h'.run_rename m⟩

end Eval

open Eval in
/-- Names matter up to equality. If `r` takes different names to different ones, then a tree with new names,
run on a machine with new names, ends as the tree does on the machine itself: with the same value, the same
fault on the same line, an undefined variable being quoted by its new name, and the same heap, all up to
names. It prints the same values, and these have the same texts but for functions, which show their new names.
A machine that has done nothing yet has no names in it but that of the clock. -/
theorem names_matter_up_to_equality {r : String → String} (hr : Function.Injective r) (cfg : Config)
    (fuel : Nat) :
    (r "clock" = "clock" → Machine.initial.rename r = .initial) ∧
      ∀ m : Machine,
        (∀ frame e, RunsRenamed r (Value.rename r) (evalExpr cfg fuel frame e)
          (showExpr cfg (fun v => (v.rename r).text) fuel frame e) (evalExpr cfg fuel frame (e.rename r)) m) ∧
        (∀ frame s, RunsRenamed r (Flow.rename r) (evalStmt cfg fuel frame s)
          (showStmt cfg (fun v => (v.rename r).text) fuel frame s) (evalStmt cfg fuel frame (s.rename r)) m) ∧
        ∀ p,
          (∀ frame, RunsRenamed r (Flow.rename r) (evalBlock cfg fuel frame p)
            (showBlock cfg (fun v => (v.rename r).text) fuel frame p)
            (evalBlock cfg fuel frame (Stmt.renameAll r p)) m) ∧
          RunsRenamed r id (evalProgram cfg fuel p) (showProgram cfg (fun v => (v.rename r).text) fuel p)
            (evalProgram cfg fuel (Stmt.renameAll r p)) m := by
  constructor
  · intro hclock
    simp [Machine.initial, Machine.rename, Heap.initial, Heap.rename, Heap.globalFrame, Frame.rename,
      Native.name, Value.rename, hclock]
  · intro m
    have hpush (v : Value) (a b : Array String) (h : a = b) :
        a.push (v.rename r).text = b.push (v.rename r).text :=
      congrArg (Array.push · (v.rename r).text) h
    have hsame := renames_show hr (SameButNames.push m.printed) cfg fuel
    have hexact := renames_show (P := (· = ·)) hr hpush cfg fuel
    rw [(show_text cfg fuel).1, (show_text cfg fuel).2] at hsame
    refine ⟨fun frame e => ?_, fun frame s => ?_, fun p => ⟨fun frame => ?_, ?_⟩⟩
    · exact .of_renaming (hsame.1 frame e) (hexact.1 frame e)
    · exact .of_renaming (hsame.2 frame s) (hexact.2 frame s)
    · exact .of_renaming (renaming_runAll (hsame.2 frame) p) (renaming_runAll (hexact.2 frame) p)
    · rw [evalProgram_eq, evalProgram_eq]
      exact .of_renaming (renaming_runEach (hsame.2 _) p) (renaming_runEach (hexact.2 _) p)

namespace Swapped

/-! A function and a string that reads like it. -/

def swap (name : String) : String := if name = "f" then "g" else if name = "g" then "f" else name

theorem swap_injective : Function.Injective swap := by
  have hswap : Function.Involutive swap := by
    intro name
    by_cases hf : name = "f"
    · subst hf
      decide
    · by_cases hg : name = "g"
      · subst hg
        decide
      · simp [swap, hf, hg]
  exact hswap.injective

def token (kind : Token.Kind) (lexeme : String) : Token := ⟨kind, lexeme, none, 1⟩

/-- `fun f() {} print f; print "<fn f>"; g;` -/
def program : Program :=
  [.funDecl 0 (token .identifier "f") [] [], .print 0 (.var 0 (token .identifier "f")),
    .print 0 (.literal 0 (.string "<fn f>")), .expression 0 (.var 0 (token .identifier "g"))]

end Swapped

open Eval Swapped in
theorem names_matter_up_to_equality_swapped :
    Function.Injective swap ∧ swap "clock" = "clock" ∧ Machine.initial.rename swap = .initial ∧
      RunsRenamed swap id (evalProgram ⟨8, fun _ => 0⟩ 9 program)
        (showProgram ⟨8, fun _ => 0⟩ (fun v => (v.rename swap).text) 9 program)
        (evalProgram ⟨8, fun _ => 0⟩ 9 (Stmt.renameAll swap program)) .initial ∧
      ((evalProgram ⟨8, fun _ => 0⟩ 9 program).after .initial).printed = #["<fn f>", "<fn f>"] ∧
      ((evalProgram ⟨8, fun _ => 0⟩ 9 (Stmt.renameAll swap program)).after .initial).printed =
        #["<fn g>", "<fn f>"] := by
  have hrun := names_matter_up_to_equality swap_injective ⟨8, fun _ => 0⟩ 9
  refine ⟨swap_injective, by decide, hrun.1 (by decide), ((hrun.2 .initial).2.2 program).2, ?_, ?_⟩
  · decide +kernel
  · decide +kernel

end Lox
