import Lox.Proofs.Eval.CutOff
import Lox.Proofs.Eval.Trimming
import Lox.Proofs.Grammar.Spelling

/-!
# A `for` loop needs no frame for each round

A `for` loop is read as a `while` loop. If it has an increment, body and increment stand in a block, and
so each round has a frame of its own. Here such a loop is compared with one that knows only one frame
(`forLoop`): condition, body and increment are evaluated in it directly.

**Frames too many.** In the heap of the first run there are empty frames between the frame of the loop
and those made in its rounds, and functions declared in there have them in sight. But for these the heaps
are the same (`Heap.Without`). The frames stay empty because the body declares nothing in its own frame,
and the grammar sees to that.

**Fuel.** The two runs nest to different depths, so they need different amounts of fuel. They are compared
with fuel for each part that makes them go in step, and fuel that is enough makes no difference
(`Eval.CutOff`).

**Results.**
* `Grammar.givesBare_statement`: what a body declares.
* `ends_forTree`: the two runs in step.
* `for_needs_one_frame`: both end alike, or none of them ends.
-/
namespace Lox

/-! ## Statements as they are read -/

namespace Grammar

/-- Whenever the reader gives a statement, it declares nothing in its own frame. -/
def GivesBare (x : Reader Stmt) : Prop := ∀ s stmt s', x.run s = .ok stmt s' → stmt.declared = []

namespace GivesBare

variable {α : Type} {x : Reader Stmt}

/-- What is built from values of which `P` is known. -/
theorem bindOf {P : α → Prop} {y : Reader α} {f : α → Reader Stmt}
    (hy : ∀ s a s', y.run s = .ok a s' → P a) (hf : ∀ a, P a → GivesBare (f a)) :
    GivesBare (y >>= f) := by
  intro s stmt s' hrun
  rw [Deep.run_bind] at hrun
  cases ha : y.run s with
  | error e s₁ =>
    rw [ha] at hrun
    cases hrun
  | ok a s₁ =>
    rw [ha] at hrun
    exact hf a (hy s a s₁ ha) s₁ stmt s' hrun

theorem bind {y : Reader α} {f : α → Reader Stmt} (hf : ∀ a, GivesBare (f a)) : GivesBare (y >>= f) :=
  bindOf (fun _ _ _ _ => trivial) fun a _ => hf a

/-- What is built from a statement that declares nothing. -/
theorem andThen {f : Stmt → Reader Stmt} (hx : GivesBare x)
    (hf : ∀ stmt, stmt.declared = [] → GivesBare (f stmt)) : GivesBare (x >>= f) :=
  bindOf hx hf

theorem later {x : Unit → Reader Stmt} (hx : GivesBare (x ())) : GivesBare (.later x) := by
  intro s stmt s' hrun
  rw [Deep.run_later] at hrun
  exact hx s stmt s' hrun

theorem node {build : NodeId → Stmt} (h : ∀ i, (build i).declared = []) : GivesBare (node build) := by
  intro s stmt s' hrun
  rw [Grammar.node, Deep.run_of] at hrun
  cases hrun
  exact h _

theorem fail (cause : SyntaxError.Cause) : GivesBare (fail cause) := by
  intro s stmt s' hrun
  rw [Grammar.fail, Deep.run_of] at hrun
  cases hrun

end GivesBare

theorem givesBare_desugarFor (init : Option Stmt) (condition increment : Option Expr) {body : Stmt}
    (hbody : body.declared = []) : GivesBare (desugarFor init condition increment body) := by
  intro s stmt s' hrun
  rw [run_desugarFor] at hrun
  cases hrun
  cases init <;> cases condition <;> cases increment <;> first | rfl | exact hbody

theorem givesBare_statementForm {statement : Reader Stmt} (hs : GivesBare statement)
    (declaration : Reader (Option Stmt)) (bound : Nat) :
    GivesBare (statementForm declaration statement bound) := by
  refine .bind fun o => ?_
  cases o with
  | none => exact .bind fun _ => .bind fun _ => .node fun _ => rfl
  | some t =>
    dsimp only
    split
    · refine .bind fun _ => .bind fun init => .bind fun condition => .bind fun _ => .bind fun increment =>
        .bind fun _ => hs.andThen fun body hbody => ?_
      exact givesBare_desugarFor init condition increment hbody
    · refine .bind fun _ => .bind fun _ => .bind fun _ => hs.andThen fun yes hyes => .bind fun o => ?_
      cases o with
      | none => exact .node fun _ => hyes
      | some _ =>
        refine hs.andThen fun no hno => .node fun _ => ?_
        rw [Stmt.declared, hyes, hno]
        rfl
    · exact .bind fun _ => .bind fun _ => .node fun _ => rfl
    · exact .bind fun _ => .bind fun _ => .node fun _ => rfl
    · exact .bind fun _ => .bind fun _ => .bind fun _ => hs.andThen fun body hbody => .node fun _ => hbody
    · exact .bind fun _ => .node fun _ => rfl

theorem givesBare_statement (bound : Nat) : GivesBare (statement bound) := by
  induction bound with
  | zero => exact .fail _
  | succ bound ih =>
    rw [statement]
    exact .later (givesBare_statementForm ih (declaration bound) bound)

end Grammar

namespace Eval

open EvalM

/-! ## Loops with one frame -/

/-- Repeats `body` and then `step` as long as `test` holds, up to the first `return` in `body`. -/
def forRounds (test : EvalM Value) (body : EvalM Flow) (step : EvalM Unit) : (fuel : Nat) → EvalM Flow
  | 0 => outOfFuel
  | fuel + 1 => do
    if (← test).isTruthy then
      match ← body with
      | .returned v => return .returned v
      | .normal => do
        step
        forRounds test body step fuel
    else return .normal

/-- A `for` loop with one frame for all its parts: a new one if there is an initializer, and else the
frame it is executed in. -/
def forLoop (init : Option (FrameId → EvalM Flow)) (test : FrameId → EvalM Value)
    (body : FrameId → EvalM Flow) (step : FrameId → EvalM Unit) (fuel : Nat) (frame : FrameId) : EvalM Flow :=
  match init with
  | none => forRounds (test frame) (body frame) (step frame) fuel
  | some init => do
    let inner ← newFrame frame
    match ← init inner with
    | .returned v => return .returned v
    | .normal => forRounds (test inner) (body inner) (step inner) fuel

section
variable (cfg : Config) (fuel : Nat)

def forInit (init : Option Stmt) : Option (FrameId → EvalM Flow) :=
  init.map fun s frame => evalStmt cfg fuel frame s

/-- A missing condition is true. -/
def forTest : Option Expr → FrameId → EvalM Value
  | none, _ => return .boolean true
  | some condition, frame => evalExpr cfg fuel frame condition

def forStep : Option Expr → FrameId → EvalM Unit
  | none, _ => return ()
  | some increment, frame => do
    let _ ← evalExpr cfg fuel frame increment

/-- A `for` loop as it is written, with one frame. -/
def evalFor (init : Option Stmt) (condition increment : Option Expr) (body : Stmt) (frame : FrameId) :
    EvalM Flow :=
  forLoop (forInit cfg fuel init) (forTest cfg fuel condition) (fun frame => evalStmt cfg fuel frame body)
    (forStep cfg fuel increment) fuel frame

end

/-- The body of a round and the step after it, unless the body returns. -/
def thenStep (body : EvalM Flow) (step : EvalM Unit) : EvalM Flow := do
  match ← body with
  | .returned v => return .returned v
  | .normal => do
    step
    return .normal

theorem forRounds_eq (test : EvalM Value) (body : EvalM Flow) (step : EvalM Unit) (fuel : Nat) :
    forRounds test body step fuel = runWhile test (thenStep body step) fuel := by
  induction fuel with
  | zero => rfl
  | succ fuel ih =>
    rw [forRounds, runWhile, ih, thenStep]
    refine congrArg (test >>= ·) (funext fun v => ?_)
    split
    · rw [bind_assoc]
      refine congrArg (body >>= ·) (funext fun f => ?_)
      cases f with
      | returned v => rfl
      | normal => simp
    · rfl

theorem thenStep_pure (body : EvalM Flow) : thenStep body (pure ()) = body := by
  calc
    thenStep body (pure ()) = body >>= pure := congrArg (body >>= ·) (funext fun f => by cases f <;> rfl)
    _ = body := bind_pure body

theorem runAll_singleton (stmt : Stmt → EvalM Flow) (s : Stmt) : runAll stmt [s] = stmt s := by
  calc
    runAll stmt [s] = stmt s >>= pure := congrArg (stmt s >>= ·) (funext fun f => by cases f <;> rfl)
    _ = stmt s := bind_pure (stmt s)

/-! ## In step -/

section
variable {base loop frame : FrameId} {w : Removal} (cfg : Config)

theorem homes_of_bare {body : Stmt} (hbody : body.declared = []) (i j : FrameId) :
    ∀ name ∈ body.declared, (trimming base loop).Homes w i j name := by
  rw [hbody]
  exact fun name hname => absurd hname List.not_mem_nil

theorem sim_forTest (hf : w.Frames loop frame) (id : NodeId) (fuel : Nat) (condition : Option Expr) :
    (trimming base loop).Sim w (trimming base loop).Values
      (evalExpr cfg (fuel + 1) loop (condition.getD (.literal id (.boolean true))))
      (forTest cfg (fuel + 1) condition frame) := by
  cases condition with
  | none =>
    rw [Option.getD_none, evalExpr]
    exact .laterLeft (.pure fun _ _ => Value.corr_boolean true)
  | some c => exact ((trimming base loop).sim_eval cfg (fuel + 1) hf).1 c

/-- A round of a loop with an increment. -/
theorem sim_round {body : Stmt} (hbody : body.declared = []) (hbase : base ≤ w.size)
    (hf : w.Frames loop frame) (hextra : ¬ w.extra loop) (id id' : NodeId) (step : Expr) (fuel : Nat) :
    (trimming base loop).Sim w (trimming base loop).Flows
      (evalStmt cfg (fuel + 2) loop (.block id [body, .expression id' step]))
      (thenStep (evalStmt cfg (fuel + 1) frame body) (forStep cfg fuel (some step) frame)) := by
  rw [evalStmt]
  refine .laterLeft (sim_newFrame_extra hbase hf hextra fun w₁ _ i hi => ?_)
  rw [runAll, thenStep]
  have heval := ((trimming base loop).sim_eval cfg (fuel + 1) hi).2 body (homes_of_bare hbody i frame)
  refine heval.bind fun w₂ hw₂ f g hfg => ?_
  cases hfg with
  | returned hr hv => exact .pure fun _ hw => .returned hr (Growth.values_mono _ hw hv)
  | normal =>
    have hi₂ := Removal.frames_mono hw₂ hi
    dsimp only
    rw [runAll_singleton, forStep, evalStmt, bind_assoc]
    refine .laterLeft ((((trimming base loop).sim_eval cfg fuel hi₂).1 step).bind fun _ _ _ _ _ => ?_)
    exact .pure fun _ _ => .normal

/-- The body of the loop that a `for` loop is read as. -/
def forBody (id id' : NodeId) (increment : Option Expr) (body : Stmt) : Stmt :=
  match increment with
  | none => body
  | some step => .block id [body, .expression id' step]

/-- Fuel for the body that makes the two loops go in step. -/
def bodyFuel (fuel : Nat) : Option Expr → Nat
  | none => fuel + 2
  | some _ => fuel + 1

theorem sim_while {body : Stmt} (hbody : body.declared = []) (hbase : base ≤ w.size)
    (hf : w.Frames loop frame) (hextra : ¬ w.extra loop) (id₁ id₂ id₃ id₄ : NodeId)
    (condition increment : Option Expr) (fuel : Nat) :
    (trimming base loop).Sim w (trimming base loop).Flows
      (evalStmt cfg (fuel + 3) loop (.whileLoop id₁ (condition.getD (.literal id₂ (.boolean true)))
        (forBody id₃ id₄ increment body)))
      (forRounds (forTest cfg (fuel + 2) condition frame) (evalStmt cfg (bodyFuel fuel increment) frame body)
        (forStep cfg fuel increment frame) (fuel + 2)) := by
  rw [evalStmt, forRounds_eq]
  refine .laterLeft (Growth.sim_runWhile _ (sim_forTest cfg hf id₂ (fuel + 1) condition) ?_ _)
  cases increment with
  | none =>
    rw [forStep, thenStep_pure]
    exact ((trimming base loop).sim_eval cfg (fuel + 2) hf).2 body (homes_of_bare hbody loop frame)
  | some step => exact sim_round cfg hbody hbase hf hextra id₃ id₄ step fuel

end

/-! ## Fuel -/

/-- Computations of which the second has more fuel. -/
abbrev moreFuel (cfg : Config) : Correspondence cfg cfg := cutOff rfl (Nat.le_refl _)

section
variable {cfg : Config} {α : Type} {Q : α → α → Prop} {x y : EvalM α}

theorem eq_outOfFuel_of_cuts {e : Stop} (h : Cuts cfg cfg e) : e = .outOfFuel := by
  cases e with
  | outOfFuel => rfl
  | fault f => exact absurd h.2 (Nat.lt_irrefl _)

/-- If the fuel was enough, more of it changes nothing. -/
theorem Extends.run_eq (h : Extends cfg cfg Q x y) (hQ : ∀ a b, Q a b → a = b) {m : Machine}
    (hfuel : ∀ n, x.run m ≠ .error .outOfFuel n) : y.run m = x.run m := by
  have hends := h.ends m
  generalize x.run m = r at hends hfuel ⊢
  generalize y.run m = r' at hends ⊢
  cases hends with
  | ok hab => rw [hQ _ _ hab]
  | error => rfl
  | beforeOk he | beforeError he =>
    cases eq_outOfFuel_of_cuts he
    exact absurd rfl (hfuel _)

theorem Extends.printedBy (h : Extends cfg cfg Q x y) (m : Machine) :
    (x.after m).PrintedBy (y.after m) := by
  have hends := h.ends m
  unfold Deep.after
  generalize x.run m = r at hends ⊢
  generalize y.run m = r' at hends ⊢
  cases hends with
  | ok | error => exact .refl _
  | beforeOk _ hp | beforeError _ hp => exact hp

theorem extends_evalExpr {n k : Nat} (hnk : n ≤ k) (frame : FrameId) (e : Expr) :
    Extends cfg cfg (moreFuel cfg).Values (evalExpr cfg n frame e) (evalExpr cfg k frame e) :=
  (extends_eval hnk frame).1 e

theorem extends_evalStmt {n k : Nat} (hnk : n ≤ k) (frame : FrameId) (s : Stmt) :
    Extends cfg cfg ((moreFuel cfg).Flows 0) (evalStmt cfg n frame s) (evalStmt cfg k frame s) :=
  (extends_eval hnk frame).2 s

theorem eq_of_moreFuel_flows {d : Nat} {f g : Flow} (h : (moreFuel cfg).Flows d f g) : f = g := by
  cases h with
  | normal => rfl
  | returned _ hv => rw [Value.corr_eq.1 hv]

end

/-- Fuel for each part of a `for` loop. -/
structure ForFuel where
  init : Nat
  test : Nat
  body : Nat
  step : Nat
  rounds : Nat

namespace ForFuel

/-- The same fuel for all parts. -/
def all (fuel : Nat) : ForFuel := ⟨fuel, fuel, fuel, fuel, fuel⟩

structure Le (u v : ForFuel) : Prop where
  init : u.init ≤ v.init
  test : u.test ≤ v.test
  body : u.body ≤ v.body
  step : u.step ≤ v.step
  rounds : u.rounds ≤ v.rounds

/-- Fuel that makes the loop go in step with its tree, which has `fuel + 4`. -/
def inStep (fuel : Nat) (init : Option Stmt) (increment : Option Expr) : ForFuel :=
  match init with
  | none => ⟨fuel, fuel + 3, bodyFuel (fuel + 1) increment, fuel + 1, fuel + 3⟩
  | some _ => ⟨fuel + 3, fuel + 2, bodyFuel fuel increment, fuel, fuel + 2⟩

theorem inStep_between (fuel : Nat) (init : Option Stmt) (increment : Option Expr) :
    (all fuel).Le (inStep fuel init increment) ∧ (inStep fuel init increment).Le (all (fuel + 4)) := by
  constructor <;> cases init <;> cases increment <;> constructor <;>
    simp only [all, inStep, bodyFuel] <;> omega

end ForFuel

section
variable (cfg : Config) (init : Option Stmt) (condition increment : Option Expr) (body : Stmt)
  (frame : FrameId)

/-- A `for` loop with one frame, and with fuel for each of its parts. -/
def forWith (u : ForFuel) : EvalM Flow :=
  forLoop (forInit cfg u.init init) (forTest cfg u.test condition)
    (fun frame => evalStmt cfg u.body frame body) (forStep cfg u.step increment) u.rounds frame

theorem extends_forRounds {u v : ForFuel} (h : u.Le v) :
    Extends cfg cfg ((moreFuel cfg).Flows 0)
      (forRounds (forTest cfg u.test condition frame) (evalStmt cfg u.body frame body)
        (forStep cfg u.step increment frame) u.rounds)
      (forRounds (forTest cfg v.test condition frame) (evalStmt cfg v.body frame body)
        (forStep cfg v.step increment frame) v.rounds) := by
  have htest : Extends cfg cfg (moreFuel cfg).Values (forTest cfg u.test condition frame)
      (forTest cfg v.test condition frame) := by
    cases condition with
    | none => exact .pure (Value.corr_boolean true)
    | some c => exact extends_evalExpr h.test frame c
  have hstep : Extends cfg cfg (fun _ _ => True) (forStep cfg u.step increment frame)
      (forStep cfg v.step increment frame) := by
    cases increment with
    | none => exact .pure trivial
    | some e => exact (extends_evalExpr h.step frame e).bind fun _ _ _ => .pure trivial
  have hround : Extends cfg cfg ((moreFuel cfg).Flows 0)
      (thenStep (evalStmt cfg u.body frame body) (forStep cfg u.step increment frame))
      (thenStep (evalStmt cfg v.body frame body) (forStep cfg v.step increment frame)) := by
    refine (extends_evalStmt h.body frame body).bind fun f g hfg => ?_
    cases hfg with
    | normal => exact hstep.bind fun _ _ _ => .pure .normal
    | returned hr hv => exact .pure (.returned hr hv)
  rw [forRounds_eq, forRounds_eq]
  exact extends_runWhile htest hround h.rounds

/-- More fuel for some parts only takes the loop further. -/
theorem extends_forWith {u v : ForFuel} (h : u.Le v) :
    Extends cfg cfg ((moreFuel cfg).Flows 0) (forWith cfg init condition increment body frame u)
      (forWith cfg init condition increment body frame v) := by
  cases init with
  | none => exact extends_forRounds cfg condition increment body frame h
  | some s =>
    refine ((moreFuel cfg).rel_newFrame (d := 0) rfl).bind fun inner inner' hinner => ?_
    subst hinner
    refine (extends_evalStmt h.init inner s).bind fun f g hfg => ?_
    cases hfg with
    | normal => exact extends_forRounds cfg condition increment body inner h
    | returned hr hv => exact .pure (.returned hr hv)

end

/-! ## The tree of a loop and the loop -/

/-- The frame that the parts of a `for` loop are evaluated in. -/
def loopFrame (init : Option Stmt) (m : Machine) (frame : FrameId) : FrameId :=
  match init with
  | none => frame
  | some _ => m.heap.frames.size

section
variable (init : Option Stmt) (condition increment : Option Expr) (body : Stmt)

theorem forTree_eq (n : NodeId) : ∃ id₁ id₂ id₃ id₄ id₅,
    (Grammar.forTree init condition increment body n).1 =
      let loop := Stmt.whileLoop id₁ (condition.getD (.literal id₂ (.boolean true)))
        (forBody id₃ id₄ increment body)
      match init with
      | none => loop
      | some s => .block id₅ [s, loop] := by
  let n₁ := increment.elim n fun _ => n + 2
  let n₂ := condition.elim (n₁ + 1) fun _ => n₁
  refine ⟨n₂, n₁, n + 1, n, n₂ + 1, ?_⟩
  cases init <;> cases condition <;> cases increment <;> rfl

variable {init condition increment body} (cfg : Config) {m : Machine} {frame : FrameId}

/-- The initializer and the loop behind it. -/
theorem sim_forTree {base loop : FrameId} {w : Removal} (hbody : body.declared = []) (hbase : base ≤ w.size)
    (hf : w.Frames loop frame) (hextra : ¬ w.extra loop) (s : Stmt) (id₁ id₂ id₃ id₄ : NodeId) (fuel : Nat) :
    (trimming base loop).Sim w (trimming base loop).Flows
      (runAll (evalStmt cfg (fuel + 3) loop) [s, .whileLoop id₁
        (condition.getD (.literal id₂ (.boolean true))) (forBody id₃ id₄ increment body)])
      (do
        match ← evalStmt cfg (fuel + 3) frame s with
        | .returned v => return .returned v
        | .normal =>
          forRounds (forTest cfg (fuel + 2) condition frame)
            (evalStmt cfg (bodyFuel fuel increment) frame body) (forStep cfg fuel increment frame)
            (fuel + 2)) := by
  rw [runAll]
  have hinit := ((trimming base loop).sim_eval cfg (fuel + 3) hf).2 s fun _ _ => ⟨hf, hextra⟩
  refine hinit.bind fun w₁ hw₁ f g hfg => ?_
  cases hfg with
  | returned hr hv => exact .pure fun _ hw => .returned hr (Growth.values_mono _ hw hv)
  | normal =>
    dsimp only
    rw [runAll_singleton]
    exact sim_while cfg hbody (Nat.le_trans hbase hw₁.1) (Removal.frames_mono hw₁ hf)
      (Removal.not_extra_mono hw₁ hf.1 hextra) id₁ id₂ id₃ id₄ condition increment fuel

/-- With fuel for going in step, the tree of a loop and the loop end alike. -/
theorem ends_forTree (hbody : body.declared = []) (hm : m.heap.WellFormed)
    (hframe : frame < m.heap.frames.size) (n : NodeId) (fuel : Nat) :
    ∃ w, Ends ((trimming m.heap.frames.size (loopFrame init m frame)).Machines w) (· = ·)
      ((trimming m.heap.frames.size (loopFrame init m frame)).Flows w)
      ((evalStmt cfg (fuel + 4) frame (Grammar.forTree init condition increment body n).1).run m)
      ((forWith cfg init condition increment body frame (.inStep fuel init increment)).run m) := by
  obtain ⟨id₁, id₂, id₃, id₄, id₅, htree⟩ := forTree_eq init condition increment body n
  rw [htree]
  cases init with
  | none =>
    have hhere : (Removal.none m.heap.frames.size).Frames frame frame := ⟨hframe, rfl⟩
    obtain ⟨w, -, hends⟩ := sim_while cfg hbody (Nat.le_refl _) hhere id id₁ id₂ id₃ id₄ condition increment
      (fuel + 1) _ (le_refl _) m m (machines_none hm)
    exact ⟨w, hends⟩
  | some s =>
    have hpushed := hm.push hframe
    have hsize := Heap.size_push m.heap ⟨some frame, []⟩
    have hhere : (Removal.none (m.heap.push ⟨some frame, []⟩).frames.size).Frames m.heap.frames.size
        m.heap.frames.size := ⟨by rw [hsize]; exact Nat.lt_succ_self _, rfl⟩
    obtain ⟨w, -, hends⟩ := sim_forTree cfg hbody (Nat.le_of_lt hhere.1) hhere id s id₁ id₂ id₃ id₄ fuel _
      (le_refl _) _ _ (machines_none (m := { m with heap := m.heap.push ⟨some frame, []⟩ }) hpushed)
    refine ⟨w, ?_⟩
    rw [evalStmt, Deep.run_later]
    exact hends

end

/-- Given enough fuel, the computation ends like this. -/
def Settles (x : Nat → EvalM Flow) (m : Machine) (r : Ending Stop Machine Flow) : Prop :=
  (∃ fuel, (x fuel).run m = r) ∧ ∀ n, r ≠ .error .outOfFuel n

/-- Both ended normally, both returned or both stopped for one reason. Depth, clock and prints are the
same, the second heap is the first one without extra frames, and returned values are moved along. -/
def EndAlike (base loop : FrameId) (r r' : Ending Stop Machine Flow) : Prop :=
  ∃ w, Ends ((trimming base loop).Machines w) (· = ·) ((trimming base loop).Flows w) r r'

theorem EndAlike.outOfFuel_iff {base loop : FrameId} {r r' : Ending Stop Machine Flow}
    (h : EndAlike base loop r r') :
    (∀ n, r ≠ .error .outOfFuel n) ↔ ∀ n, r' ≠ .error .outOfFuel n := by
  obtain ⟨w, hends⟩ := h
  cases hends with
  | ok => simp
  | error he => simp [he]

theorem EndAlike.printed_eq {base loop : FrameId} {x y : EvalM Flow} {m : Machine}
    (h : EndAlike base loop (x.run m) (y.run m)) : (x.after m).printed = (y.after m).printed := by
  obtain ⟨w, hends⟩ := h
  unfold Deep.after
  generalize x.run m = r at hends ⊢
  generalize y.run m = r' at hends ⊢
  cases hends with
  | ok _ hi | error _ hi => exact hi.printed_eq

/-- A `for` loop is executed as if it had one frame for all its rounds. The tree that is built for it and
the loop itself end alike, or none of them ends and one prints what the other does. The body must not
declare anything in its own frame, and no statement that is read does. -/
theorem for_needs_one_frame (cfg : Config) :
    (∀ bound s body s', (Grammar.statement bound).run s = .ok body s' → body.declared = []) ∧
    ∀ (init : Option Stmt) (condition increment : Option Expr) (body : Stmt), body.declared = [] →
      ∀ (m : Machine) (frame : FrameId), m.heap.WellFormed → frame < m.heap.frames.size →
      ∀ s, ∃ tree s', (Grammar.desugarFor init condition increment body).run s = .ok tree s' ∧
        (∀ r, Settles (evalStmt cfg · frame tree) m r →
          ∃ r', Settles (evalFor cfg · init condition increment body frame) m r' ∧
            EndAlike m.heap.frames.size (loopFrame init m frame) r r') ∧
        (∀ r', Settles (evalFor cfg · init condition increment body frame) m r' →
          ∃ r, Settles (evalStmt cfg · frame tree) m r ∧
            EndAlike m.heap.frames.size (loopFrame init m frame) r r') ∧
        ∀ fuel, ∃ more,
          ((evalStmt cfg fuel frame tree).after m).PrintedBy
            ((evalFor cfg more init condition increment body frame).after m) ∧
          ((evalFor cfg fuel init condition increment body frame).after m).PrintedBy
            ((evalStmt cfg more frame tree).after m) := by
  refine ⟨fun bound => Grammar.givesBare_statement bound, ?_⟩
  intro init condition increment body hbody m frame hm hframe s
  refine ⟨_, _, Grammar.run_desugarFor init condition increment body s, ?_⟩
  generalize htree : (Grammar.forTree init condition increment body s.nextId).1 = tree
  have hends (fuel : Nat) : EndAlike m.heap.frames.size (loopFrame init m frame)
      ((evalStmt cfg (fuel + 4) frame tree).run m)
      ((forWith cfg init condition increment body frame (.inStep fuel init increment)).run m) := by
    rw [← htree]
    exact ends_forTree cfg hbody hm hframe s.nextId fuel
  have hless (fuel : Nat) := extends_forWith cfg init condition increment body frame
    (ForFuel.inStep_between fuel init increment).1
  have hmore (fuel : Nat) := extends_forWith cfg init condition increment body frame
    (ForFuel.inStep_between fuel init increment).2
  have htrees (fuel : Nat) : Extends cfg cfg ((moreFuel cfg).Flows 0) (evalStmt cfg fuel frame tree)
      (evalStmt cfg (fuel + 4) frame tree) := extends_evalStmt (Nat.le_add_right fuel 4) frame tree
  refine ⟨?_, ?_, fun fuel => ⟨fuel + 4, ?_, ?_⟩⟩
  · rintro r ⟨⟨fuel, rfl⟩, hfuel⟩
    have hsame := (htrees fuel).run_eq (fun _ _ => eq_of_moreFuel_flows) hfuel
    have halike := hends fuel
    rw [hsame] at halike
    have hfuel' := halike.outOfFuel_iff.1 hfuel
    exact ⟨_, ⟨⟨fuel + 4, (hmore fuel).run_eq (fun _ _ => eq_of_moreFuel_flows) hfuel'⟩, hfuel'⟩, halike⟩
  · rintro r' ⟨⟨fuel, rfl⟩, hfuel⟩
    have hsame := (hless fuel).run_eq (fun _ _ => eq_of_moreFuel_flows) hfuel
    have halike := hends fuel
    rw [hsame] at halike
    exact ⟨_, ⟨⟨fuel + 4, rfl⟩, halike.outOfFuel_iff.2 hfuel⟩, halike⟩
  · exact ((htrees fuel).printedBy m).trans
      ((Machine.PrintedBy.of_eq (hends fuel).printed_eq.symm).trans ((hmore fuel).printedBy m))
  · exact ((hless fuel).printedBy m).trans (.of_eq (hends fuel).printed_eq)

namespace OneRound

/-! The loop `for (var b = true; b; b = false) { fun f() { print "round"; } f(); }`. -/

def flag : Token := ⟨.identifier, "b", none, 1⟩

def init : Stmt := .varDecl 0 flag (some (.literal 0 (.boolean true)))

def condition : Expr := .var 0 flag

def increment : Expr := .assign 0 flag (.literal 0 (.boolean false))

def body : Stmt :=
  let f : Token := ⟨.identifier, "f", none, 1⟩
  .block 0 [.funDecl 0 f [] [.print 0 (.literal 0 (.string "round"))],
    .expression 0 (.call 0 (.var 0 f) ⟨.rightParen, ")", none, 1⟩ [])]

end OneRound

theorem for_needs_one_frame_one_round :
    OneRound.body.declared = [] ∧ Machine.initial.heap.WellFormed ∧
      Heap.globals < Machine.initial.heap.frames.size ∧
      ∃ tree s' r r',
        (Grammar.desugarFor (some OneRound.init) (some OneRound.condition) (some OneRound.increment)
          OneRound.body).run (.start [] 0) = .ok tree s' ∧
        Settles (evalStmt ⟨8, fun _ => 0⟩ · Heap.globals tree) .initial r ∧
        Settles (evalFor ⟨8, fun _ => 0⟩ · (some OneRound.init) (some OneRound.condition)
          (some OneRound.increment) OneRound.body Heap.globals) .initial r' ∧
        EndAlike 1 1 r r' ∧ r.fold (fun _ m => (m.heap.frames.size, m.printed)) (fun _ _ => (0, #[])) =
          (5, #["round"]) := by
  obtain ⟨tree, s', htree, hsugar, -⟩ := (for_needs_one_frame ⟨8, fun _ => 0⟩).2 (some OneRound.init)
    (some OneRound.condition) (some OneRound.increment) OneRound.body rfl .initial Heap.globals .initial
    (by decide) (.start [] 0)
  have hround : ((evalStmt ⟨8, fun _ => 0⟩ 20 Heap.globals tree).run .initial).fold
      (fun _ m => (m.heap.frames.size, m.printed)) (fun _ _ => (0, #[])) = (5, #["round"]) := by
    rw [Grammar.run_desugarFor] at htree
    cases htree
    decide +kernel
  generalize hr : (evalStmt ⟨8, fun _ => 0⟩ 20 Heap.globals tree).run .initial = r at hround
  have hfuel : ∀ n, r ≠ .error .outOfFuel n := by
    rintro n rfl
    cases hround
  obtain ⟨r', hsettles, halike⟩ := hsugar r ⟨⟨20, hr⟩, hfuel⟩
  exact ⟨rfl, .initial, by decide, tree, s', r, r', htree, ⟨⟨20, hr⟩, hfuel⟩, hsettles, halike, hround⟩

end Eval
end Lox
