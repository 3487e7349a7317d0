import Lox.Proofs.Eval.Correspondence
import Lox.Proofs.Eval.Simulation
import Mathlib.Order.Basic

/-!
# Heaps that stay related while they grow

A run makes frames as it goes, so a relation between the frames of two runs has to grow along with them.
A `Growth` relates heaps and frames in each of many worlds. The two runs pass from a world to later ones,
and frames that belong together in one world do so in all later ones. There is one law for each operation
of a heap, and from these laws it is proved once that the same tree, evaluated on the two sides, comes out
alike (`Growth.sim_eval`).

**Homes.** Frames may belong together without being alike, so a `Growth` also says in which pairs of
frames a declaration may bind a name. What a block or a function declares goes to a new frame; a
statement declares in its own frame only the names in `Stmt.declared`. A new frame is a home for all.

With one run on both sides this is also the way to an invariant of a single run.
-/
namespace Lox

open List (Forall₂)

/-- The names that a statement declares in the frame it is executed in. -/
def Stmt.declared : Stmt → List String
  | .varDecl _ name _ | .funDecl _ name _ _ => [name.lexeme]
  | .ifThen _ _ yes => yes.declared
  | .ifElse _ _ yes no => yes.declared ++ no.declared
  | .whileLoop _ _ body => body.declared
  | .expression .. | .print .. | .block .. | .ret .. => []

/-- The same value, or one function seen from frames related by `F`. -/
abbrev Value.Moved (F : FrameId → FrameId → Prop) : Value → Value → Prop :=
  Value.Corr (Closure.Corr F (· = ·))

theorem Value.Moved.mono {F F' : FrameId → FrameId → Prop} (hF : ∀ i j, F i j → F' i j) {v v' : Value}
    (h : Value.Moved F v v') : Value.Moved F' v v' := by
  cases h with
  | same h => exact .same h
  | function h => exact .function { h with frame := hF _ _ h.frame }

namespace Eval

open EvalM

/-- Heaps and frames that belong together in each world. -/
structure Growth (W : Type) [Preorder W] where
  Heaps : W → Heap → Heap → Prop
  Frames : W → FrameId → FrameId → Prop
  /-- A declaration may bind the name in the two frames. -/
  Homes : W → FrameId → FrameId → String → Prop
  frames_mono {w w' : W} (hw : w ≤ w') (i j : FrameId) : Frames w i j → Frames w' i j
  homes_mono {w w' : W} (hw : w ≤ w') (i j : FrameId) (name : String) : Homes w i j name → Homes w' i j name
  get {w : W} {h k : Heap} (hh : Heaps w h k) {i j : FrameId} (hf : Frames w i j) (name : String) :
    Option.Rel (Value.Moved (Frames w)) (h.get? i name) (k.get? j name)
  assign {w : W} {h k : Heap} (hh : Heaps w h k) {i j : FrameId} (hf : Frames w i j) (name : String) :
    Option.Rel (fun o o' => ∀ v v', Value.Moved (Frames w) v v' →
      Heaps w (h.define o name v) (k.define o' name v')) (h.owner? name i) (k.owner? name j)
  define {w : W} {h k : Heap} (hh : Heaps w h k) {i j : FrameId} {name : String} (hf : Homes w i j name)
    {v v' : Value} (hv : Value.Moved (Frames w) v v') :
    Heaps w (h.define i name v) (k.define j name v')
  push {w : W} {h k : Heap} (hh : Heaps w h k) {i j : FrameId} (hf : Frames w i j) :
    ∃ w', w ≤ w' ∧ Heaps w' (h.push ⟨some i, []⟩) (k.push ⟨some j, []⟩) ∧
      Frames w' h.frames.size k.frames.size ∧ ∀ name, Homes w' h.frames.size k.frames.size name
  functions {w : W} {h k : Heap} (hh : Heaps w h k) : h.functions = k.functions ∧
    Heaps w { h with functions := h.functions + 1 } { k with functions := k.functions + 1 }

namespace Growth

variable {W : Type} [Preorder W] (G : Growth W) {α β γ δ : Type} {w w' : W}

/-- Values that belong together. -/
abbrev Values (w : W) : Value → Value → Prop := Value.Moved (G.Frames w)

/-- Endings of statements that belong together. -/
abbrev Flows (w : W) : Flow → Flow → Prop := Flow.Corr True (G.Values w)

/-- Machines that differ in their heaps only, and these belong together. -/
structure Machines (w : W) (m n : Machine) : Prop where
  heap : G.Heaps w m.heap n.heap
  depth_eq : m.depth = n.depth
  ticks_eq : m.ticks = n.ticks
  printed_eq : m.printed = n.printed

/-- From machines that belong together, now or later, the two computations end alike, in a world that is
later still. -/
def Sim (w : W) (Q : W → α → β → Prop) (x : EvalM α) (y : EvalM β) : Prop :=
  ∀ w', w ≤ w' → ∀ m n, G.Machines w' m n →
    ∃ w'', w' ≤ w'' ∧ Ends (G.Machines w'') (· = ·) (Q w'') (x.run m) (y.run n)

theorem values_mono (hw : w ≤ w') {v v' : Value} (h : G.Values w v v') : G.Values w' v v' :=
  h.mono (G.frames_mono hw)

theorem functions_same {c d : Closure} (h : Closure.Corr (G.Frames w) (· = ·) c d) :
    c.identity = d.identity ∧ c.name = d.name :=
  ⟨h.identity_eq, h.name_eq⟩

/-! ## Building blocks -/

section
variable {G} {Q : W → α → β → Prop} {R : W → γ → δ → Prop} {x : EvalM α} {y : EvalM β}

theorem Sim.mono (h : G.Sim w Q x y) (hw : w ≤ w') : G.Sim w' Q x y :=
  fun w'' hw' => h w'' (le_trans hw hw')

theorem Sim.pure {a : α} {b : β} (h : ∀ w', w ≤ w' → Q w' a b) : G.Sim w Q (pure a) (pure b) :=
  fun w' hw _ _ hmn => ⟨w', le_refl w', .ok (h w' hw) hmn⟩

theorem Sim.throw (e : Stop) : G.Sim w Q (throw e) (throw e) :=
  fun w' _ _ _ hmn => ⟨w', le_refl w', .error rfl hmn⟩

/-- A step that needs no later world. -/
theorem Sim.of {f : Machine → Ending Stop Machine α} {g : Machine → Ending Stop Machine β}
    (h : ∀ w', w ≤ w' → ∀ m n, G.Machines w' m n → Ends (G.Machines w') (· = ·) (Q w') (f m) (g n)) :
    G.Sim w Q (.of f) (.of g) := by
  intro w' hw m n hmn
  rw [Deep.run_of, Deep.run_of]
  exact ⟨w', le_refl w', h w' hw m n hmn⟩

theorem Sim.bind {f : α → EvalM γ} {g : β → EvalM δ} (hx : G.Sim w Q x y)
    (hf : ∀ w', w ≤ w' → ∀ a b, Q w' a b → G.Sim w' R (f a) (g b)) : G.Sim w R (x >>= f) (y >>= g) := by
  intro w' hw m n hmn
  obtain ⟨w₁, hw₁, hends⟩ := hx w' hw m n hmn
  rw [Deep.run_bind, Deep.run_bind]
  generalize x.run m = r at hends ⊢
  generalize y.run n = r' at hends ⊢
  cases hends with
  | error he hi => exact ⟨w₁, hw₁, .error he hi⟩
  | ok hq hi =>
    obtain ⟨w₂, hw₂, hends⟩ := hf w₁ (le_trans hw hw₁) _ _ hq w₁ (le_refl w₁) _ _ hi
    exact ⟨w₂, le_trans hw₁ hw₂, hends⟩

theorem Sim.later {x : Unit → EvalM α} {y : Unit → EvalM β} (h : G.Sim w Q (x ()) (y ())) :
    G.Sim w Q (.later x) (.later y) := by
  intro w' hw m n hmn
  rw [Deep.run_later, Deep.run_later]
  exact h w' hw m n hmn

/-- A pause on one side only. -/
theorem Sim.laterLeft {x : Unit → EvalM α} (h : G.Sim w Q (x ()) y) : G.Sim w Q (.later x) y := by
  intro w' hw m n hmn
  rw [Deep.run_later]
  exact h w' hw m n hmn

theorem Sim.leaving {f : Machine → Machine} (h : G.Sim w Q x y)
    (hf : ∀ w m n, G.Machines w m n → G.Machines w (f m) (f n)) :
    G.Sim w Q (x.leaving f) (y.leaving f) := by
  intro w' hw m n hmn
  obtain ⟨w₁, hw₁, hends⟩ := h w' hw m n hmn
  rw [Deep.run_leaving, Deep.run_leaving]
  generalize x.run m = r at hends ⊢
  generalize y.run n = r' at hends ⊢
  cases hends with
  | ok hq hi => exact ⟨w₁, hw₁, .ok hq (hf _ _ _ hi)⟩
  | error he hi => exact ⟨w₁, hw₁, .error he (hf _ _ _ hi)⟩

/-- The machines left behind belong together. -/
theorem Sim.after {m n : Machine} (h : G.Sim w Q x y) (hmn : G.Machines w m n) :
    ∃ w', w ≤ w' ∧ G.Machines w' (x.after m) (y.after n) := by
  obtain ⟨w', hw, hends⟩ := h w (le_refl w) m n hmn
  unfold Deep.after
  generalize x.run m = r at hends ⊢
  generalize y.run n = r' at hends ⊢
  cases hends with
  | ok _ hi => exact ⟨w', hw, hi⟩
  | error _ hi => exact ⟨w', hw, hi⟩

end

theorem sim_ofExcept (op : Token) {Q : W → α → β → Prop} {r : Except Fault α} {r' : Except Fault β}
    (h : ∀ w', w ≤ w' → Operator.Agree op op (Q w') r r') : G.Sim w Q (ofExcept r) (ofExcept r') := by
  intro w' hw m n hmn
  have hagree := h w' hw
  cases hagree with
  | ok hq => exact ⟨w', le_refl w', .ok hq hmn⟩
  | fault => exact ⟨w', le_refl w', .error rfl hmn⟩

/-! ## Operations of a machine -/

section
variable {i j : FrameId} (hf : G.Frames w i j)

theorem sim_print (line : String) : G.Sim w (fun _ _ _ => True) (print line) (print line) := by
  refine Sim.of fun w' _ m n hmn => .ok trivial { hmn with printed_eq := ?_ }
  rw [hmn.printed_eq]

theorem sim_readClock (cfg : Config) : G.Sim w G.Values (readClock cfg) (readClock cfg) := by
  intro w' _ m n hmn
  rw [run_readClock, run_readClock, hmn.ticks_eq]
  exact ⟨w', le_refl w', .ok (Value.corr_number _) { hmn with ticks_eq := rfl }⟩

theorem sim_callDepth : G.Sim w (fun _ a b => a = b) callDepth callDepth :=
  Sim.of fun _ _ _ _ hmn => .ok hmn.depth_eq hmn

theorem sim_counted (cfg : Config) (line : Nat) {Q : W → α → β → Prop} {x : EvalM α} {y : EvalM β}
    (h : G.Sim w Q x y) : G.Sim w Q (counted cfg line x) (counted cfg line y) := by
  have henter : G.Sim w (fun _ _ _ => True) (enterCall cfg line) (enterCall cfg line) := by
    refine Sim.of fun w' _ m n hmn => ?_
    rw [hmn.depth_eq]
    split
    · exact .error rfl hmn
    · exact .ok trivial { hmn with depth_eq := rfl }
  refine henter.bind fun w' hw _ _ _ => (h.mono hw).leaving fun _ m n hmn => { hmn with depth_eq := ?_ }
  rw [hmn.depth_eq]

theorem sim_defineVar {name : String} (hf : G.Homes w i j name) {v v' : Value} (hv : G.Values w v v') :
    G.Sim w (fun _ _ _ => True) (defineVar i name v) (defineVar j name v') := by
  refine Sim.of fun w' hw m n hmn => .ok trivial { hmn with heap := ?_ }
  exact G.define hmn.heap (G.homes_mono hw _ _ _ hf) (G.values_mono hw hv)

theorem heaps_defineAll (hf : ∀ name, G.Homes w i j name) (names : List String) {vs vs' : List Value}
    (hvs : Forall₂ (G.Values w) vs vs') {h k : Heap} (hh : G.Heaps w h k) :
    G.Heaps w (h.defineAll i names vs) (k.defineAll j names vs') := by
  induction hvs generalizing h k names with
  | nil =>
    rw [Heap.defineAll, Heap.defineAll]
    · exact hh
    · nofun
    · nofun
  | cons hv _ ih =>
    cases names with
    | nil => exact hh
    | cons name names => exact ih names (G.define hh (hf name) hv)

theorem sim_bindParams (hf : ∀ name, G.Homes w i j name) (params : List String) {vs vs' : List Value}
    (hvs : Forall₂ (G.Values w) vs vs') :
    G.Sim w (fun _ _ _ => True) (bindParams i params vs) (bindParams j params vs') := by
  refine Sim.of fun w' hw m n hmn => .ok trivial { hmn with heap := ?_ }
  exact G.heaps_defineAll (fun name => G.homes_mono hw _ _ _ (hf name)) params
    (hvs.imp fun _ _ => G.values_mono hw) hmn.heap

include hf

theorem sim_readVar (name : Token) : G.Sim w G.Values (readVar i name) (readVar j name) := by
  refine Sim.of fun w' hw m n hmn => ?_
  have hget := G.get hmn.heap (G.frames_mono hw _ _ hf) name.lexeme
  generalize m.heap.get? i name.lexeme = o at hget ⊢
  generalize n.heap.get? j name.lexeme = o' at hget ⊢
  cases hget with
  | none => exact .error rfl hmn
  | some hv => exact .ok hv hmn

theorem sim_assignVar (name : Token) {v v' : Value} (hv : G.Values w v v') :
    G.Sim w (fun _ _ _ => True) (assignVar i name v) (assignVar j name v') := by
  refine Sim.of fun w' hw m n hmn => ?_
  have howner := G.assign hmn.heap (G.frames_mono hw _ _ hf) name.lexeme
  generalize m.heap.owner? name.lexeme i = o at howner ⊢
  generalize n.heap.owner? name.lexeme j = o' at howner ⊢
  cases howner with
  | none => exact .error rfl hmn
  | some h => exact .ok trivial { hmn with heap := h _ _ (G.values_mono hw hv) }

theorem sim_newFrame :
    G.Sim w (fun w' a b => G.Frames w' a b ∧ ∀ name, G.Homes w' a b name) (newFrame i) (newFrame j) := by
  intro w' hw m n hmn
  obtain ⟨w₁, hw₁, hheap, hnew⟩ := G.push hmn.heap (G.frames_mono hw _ _ hf)
  refine ⟨w₁, hw₁, ?_⟩
  rw [newFrame, newFrame, Deep.run_of, Deep.run_of]
  exact .ok hnew { hmn with heap := hheap }

theorem sim_newFunction (name : Token) (params : List Token) (body : List Stmt) :
    G.Sim w G.Values (newFunction i name params body) (newFunction j name params body) := by
  refine Sim.of fun w' hw m n hmn => ?_
  obtain ⟨hsame, hheap⟩ := G.functions hmn.heap
  refine .ok (.function ⟨?_, rfl, rfl, G.frames_mono hw _ _ hf, rfl⟩) { hmn with heap := hheap }
  exact hsame

end

/-! ## Levels of evaluation -/

theorem sim_runAll {stmt₁ stmt₂ : Stmt → EvalM Flow} {ss : List Stmt}
    (h : ∀ s ∈ ss, G.Sim w G.Flows (stmt₁ s) (stmt₂ s)) :
    G.Sim w G.Flows (runAll stmt₁ ss) (runAll stmt₂ ss) := by
  induction ss generalizing w with
  | nil => exact Sim.pure fun _ _ => .normal
  | cons s ss ih =>
    rw [List.forall_mem_cons] at h
    rw [runAll, runAll]
    refine h.1.bind fun w' hw f g hfg => ?_
    cases hfg with
    | normal => exact ih fun s hs => (h.2 s hs).mono hw
    | returned hr hv => exact Sim.pure fun _ hw' => .returned hr (G.values_mono hw' hv)

theorem sim_runEach {stmt₁ stmt₂ : Stmt → EvalM Flow} {ss : List Stmt}
    (h : ∀ s ∈ ss, G.Sim w G.Flows (stmt₁ s) (stmt₂ s)) :
    G.Sim w (fun _ _ _ => True) (runEach stmt₁ ss) (runEach stmt₂ ss) := by
  induction ss generalizing w with
  | nil => exact Sim.pure fun _ _ => trivial
  | cons s ss ih =>
    rw [List.forall_mem_cons] at h
    rw [runEach, runEach]
    exact h.1.bind fun w' hw _ _ _ => ih fun s hs => (h.2 s hs).mono hw

theorem sim_runWhile {test₁ test₂ : EvalM Value} {body₁ body₂ : EvalM Flow}
    (ht : G.Sim w G.Values test₁ test₂) (hb : G.Sim w G.Flows body₁ body₂) (fuel : Nat) :
    G.Sim w G.Flows (runWhile test₁ body₁ fuel) (runWhile test₂ body₂ fuel) := by
  induction fuel generalizing w with
  | zero => exact Sim.throw _
  | succ fuel ih =>
    rw [runWhile, runWhile]
    refine ht.bind fun w₁ hw₁ v v' hv => ?_
    rw [hv.isTruthy_eq]
    split
    · refine (hb.mono hw₁).bind fun w₂ hw₂ f g hfg => ?_
      cases hfg with
      | normal => exact ih (ht.mono (le_trans hw₁ hw₂)) (hb.mono (le_trans hw₁ hw₂))
      | returned hr hv => exact Sim.pure fun _ hw' => .returned hr (G.values_mono hw' hv)
    · exact Sim.pure fun _ _ => .normal

theorem sim_mapM {f₁ f₂ : γ → EvalM Value} {cs : List γ}
    (h : ∀ c ∈ cs, G.Sim w G.Values (f₁ c) (f₂ c)) :
    G.Sim w (fun w' => Forall₂ (G.Values w')) (cs.mapM f₁) (cs.mapM f₂) := by
  induction cs generalizing w with
  | nil => exact Sim.pure fun _ _ => .nil
  | cons c cs ih =>
    rw [List.forall_mem_cons] at h
    rw [List.mapM_cons, List.mapM_cons]
    refine h.1.bind fun w₁ hw₁ v v' hv => ?_
    refine (ih fun c hc => (h.2 c hc).mono hw₁).bind fun w₂ hw₂ vs vs' hvs => ?_
    refine Sim.pure fun w₃ hw₃ => .cons (G.values_mono (le_trans hw₂ hw₃) hv) ?_
    exact hvs.imp fun _ _ => G.values_mono hw₃

section
variable {expr : FrameId → Expr → EvalM Value} {stmt : FrameId → Stmt → EvalM Flow}
  (hexpr : ∀ {w i j}, G.Frames w i j → ∀ e, G.Sim w G.Values (expr i e) (expr j e))
  (hstmt : ∀ {w i j}, G.Frames w i j → ∀ s, (∀ name ∈ s.declared, G.Homes w i j name) →
    G.Sim w G.Flows (stmt i s) (stmt j s))

section
include hstmt

/-- The body of a function has a new frame, which is a home for all that it declares. -/
theorem sim_callClosure {c c' : Closure} (hc : Closure.Corr (G.Frames w) (· = ·) c c')
    {args args' : List Value} (ha : Forall₂ (G.Values w) args args') :
    G.Sim w G.Values (callClosure stmt c args) (callClosure stmt c' args') := by
  rw [callClosure, callClosure, hc.params_eq, hc.body]
  refine (G.sim_newFrame hc.frame).bind fun w₁ hw₁ i j hij => ?_
  refine (G.sim_bindParams hij.2 _ (ha.imp fun _ _ => G.values_mono hw₁)).bind fun w₂ hw₂ _ _ _ => ?_
  have hbody : G.Sim w₂ G.Flows (runAll (stmt i) c'.body) (runAll (stmt j) c'.body) :=
    G.sim_runAll fun s _ => (hstmt hij.1 s fun name _ => hij.2 name).mono hw₂
  refine hbody.bind fun w₃ _ f g hfg => ?_
  cases hfg with
  | normal => exact Sim.pure fun _ _ => Value.corr_nil
  | returned _ hv => exact Sim.pure fun _ hw => G.values_mono hw hv

theorem sim_callValue (cfg : Config) {callee callee' : Value} (hcallee : G.Values w callee callee')
    {args args' : List Value} (ha : Forall₂ (G.Values w) args args') (line : Nat) :
    G.Sim w G.Values (callValue cfg stmt callee args line) (callValue cfg stmt callee' args' line) := by
  have harity (expected : Nat) : G.Sim w (fun _ _ _ => True) (checkArity expected args.length line)
      (checkArity expected args'.length line) := by
    rw [checkArity, checkArity, ha.length_eq]
    split
    · exact Sim.pure fun _ _ => trivial
    · exact Sim.throw _
  cases hcallee with
  | @function c c' hc =>
    rw [callValue, callValue, hc.params_eq]
    refine (harity _).bind fun w₁ hw₁ _ _ _ => G.sim_counted cfg line ?_
    exact (G.sim_callClosure hstmt hc ha).mono hw₁
  | same hv =>
    cases callee with
    | native f => exact (harity _).bind fun _ _ _ _ _ => G.sim_counted cfg line (G.sim_readClock cfg)
    | function f => exact absurd rfl (hv f)
    | number | string | boolean | nil => exact Sim.throw _

end

variable {i j : FrameId} (hf : G.Frames w i j)
include hexpr hf

theorem sim_optionalStep (o : Option Expr) :
    G.Sim w G.Values (optionalStep (expr i) o) (optionalStep (expr j) o) := by
  cases o with
  | none => exact Sim.pure fun _ _ => Value.corr_nil
  | some e => exact hexpr hf e

include hstmt

theorem sim_exprStep (cfg : Config) (e : Expr) :
    G.Sim w G.Values (exprStep cfg expr stmt i e) (exprStep cfg expr stmt j e) := by
  cases e with
  | literal id value => exact Sim.pure fun _ _ => Value.corr_ofLiteral _
  | var id name => exact G.sim_readVar hf name
  | assign id name value =>
    refine (hexpr hf value).bind fun w₁ hw₁ v v' hv => ?_
    refine (G.sim_assignVar (G.frames_mono hw₁ _ _ hf) name hv).bind fun w₂ hw₂ _ _ _ => ?_
    exact Sim.pure fun _ hw => G.values_mono (le_trans hw₂ hw) hv
  | unary id op operand =>
    refine (hexpr hf operand).bind fun w₁ hw₁ v v' hv => G.sim_ofExcept op fun w₂ hw₂ => ?_
    exact Operator.agree_unary rfl rfl (G.values_mono hw₂ hv)
  | binary id left op right =>
    refine (hexpr hf left).bind fun w₁ hw₁ l l' hl => ?_
    refine (hexpr (G.frames_mono hw₁ _ _ hf) right).bind fun w₂ hw₂ r r' hr => ?_
    refine G.sim_ofExcept op fun w₃ hw₃ => ?_
    exact Operator.agree_binary rfl rfl (fun _ _ => G.functions_same)
      (G.values_mono (le_trans hw₂ hw₃) hl) (G.values_mono hw₃ hr)
  | logical id left op right =>
    refine (hexpr hf left).bind fun w₁ hw₁ l l' hl => ?_
    have hshort : G.Sim w₁ (fun w' => Option.Rel (G.Values w')) (ofExcept (Operator.shortCut op l))
        (ofExcept (Operator.shortCut op l')) :=
      G.sim_ofExcept op fun w₂ hw₂ => Operator.agree_shortCut rfl rfl (G.values_mono hw₂ hl)
    refine hshort.bind fun w₂ hw₂ o o' ho => ?_
    cases ho with
    | none => exact hexpr (G.frames_mono (le_trans hw₁ hw₂) _ _ hf) right
    | some hv => exact Sim.pure fun _ hw => G.values_mono hw hv
  | grouping id inner => exact hexpr hf inner
  | call id callee paren args =>
    refine (hexpr hf callee).bind fun w₁ hw₁ v v' hv => ?_
    have hargs : G.Sim w₁ (fun w' => Forall₂ (G.Values w')) (args.mapM (expr i)) (args.mapM (expr j)) :=
      G.sim_mapM fun a _ => (hexpr hf a).mono hw₁
    refine hargs.bind fun w₂ hw₂ vs vs' hvs => ?_
    exact G.sim_callValue hstmt cfg (G.values_mono hw₂ hv) hvs paren.line

theorem sim_stmtStep (fuel : Nat) (s : Stmt) (hs : ∀ name ∈ s.declared, G.Homes w i j name) :
    G.Sim w G.Flows (stmtStep fuel expr stmt i s) (stmtStep fuel expr stmt j s) := by
  cases s with
  | expression id e => exact (hexpr hf e).bind fun _ _ _ _ _ => Sim.pure fun _ _ => .normal
  | print id e =>
    refine (hexpr hf e).bind fun w₁ hw₁ v v' hv => ?_
    rw [hv.text_eq fun _ _ => G.functions_same]
    exact (G.sim_print _).bind fun _ _ _ _ _ => Sim.pure fun _ _ => .normal
  | varDecl id name init =>
    refine (G.sim_optionalStep hexpr hf init).bind fun w₁ hw₁ v v' hv => ?_
    have hhome := G.homes_mono hw₁ _ _ _ (hs name.lexeme (by simp [Stmt.declared]))
    exact (G.sim_defineVar hhome hv).bind fun _ _ _ _ _ => Sim.pure fun _ _ => .normal
  | block id body =>
    refine (G.sim_newFrame hf).bind fun w₁ hw₁ i' j' hnew => ?_
    exact G.sim_runAll fun s _ => hstmt hnew.1 s fun name _ => hnew.2 name
  | ifThen id condition yes =>
    refine (hexpr hf condition).bind fun w₁ hw₁ v v' hv => ?_
    rw [hv.isTruthy_eq]
    split
    · exact (hstmt hf yes hs).mono hw₁
    · exact Sim.pure fun _ _ => .normal
  | ifElse id condition yes no =>
    refine (hexpr hf condition).bind fun w₁ hw₁ v v' hv => ?_
    rw [hv.isTruthy_eq]
    split
    · exact (hstmt hf yes fun name hn => hs name (List.mem_append_left _ hn)).mono hw₁
    · exact (hstmt hf no fun name hn => hs name (List.mem_append_right _ hn)).mono hw₁
  | whileLoop id condition body => exact G.sim_runWhile (hexpr hf condition) (hstmt hf body hs) fuel
  | funDecl id name params body =>
    refine (G.sim_newFunction hf name params body).bind fun w₁ hw₁ v v' hv => ?_
    have hhome := G.homes_mono hw₁ _ _ _ (hs name.lexeme (by simp [Stmt.declared]))
    exact (G.sim_defineVar hhome hv).bind fun _ _ _ _ _ => Sim.pure fun _ _ => .normal
  | ret id keyword value =>
    refine G.sim_callDepth.bind fun w₁ hw₁ n n' hn => ?_
    subst hn
    split
    · exact Sim.throw _
    · refine ((G.sim_optionalStep hexpr hf value).mono hw₁).bind fun w₂ hw₂ v v' hv => ?_
      exact Sim.pure fun _ hw => .returned trivial (G.values_mono hw hv)

end

/-- Evaluation of a tree in frames that belong together. -/
theorem sim_eval (cfg : Config) (fuel : Nat) {i j : FrameId} (hf : G.Frames w i j) :
    (∀ e, G.Sim w G.Values (evalExpr cfg fuel i e) (evalExpr cfg fuel j e)) ∧
      ∀ s, (∀ name ∈ s.declared, G.Homes w i j name) →
        G.Sim w G.Flows (evalStmt cfg fuel i s) (evalStmt cfg fuel j s) := by
  induction fuel generalizing w i j with
  | zero => exact ⟨fun _ => Sim.throw _, fun _ _ => Sim.throw _⟩
  | succ fuel ih =>
    refine ⟨fun e => ?_, fun s hs => ?_⟩
    · rw [evalExpr, evalExpr]
      exact .later (G.sim_exprStep (fun h => (ih h).1) (fun h => (ih h).2) hf cfg e)
    · rw [evalStmt, evalStmt]
      exact .later (G.sim_stmtStep (fun h => (ih h).1) (fun h => (ih h).2) hf fuel s hs)

end Growth
end Eval
end Lox
