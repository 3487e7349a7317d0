import Lox.Proofs.Eval.Simulation
import Mathlib.Logic.Relation

/-!
# Evaluation touches only what it can reach

From a frame one reaches its parent and the frames that the functions bound in it see, and so on.
Evaluation in a frame changes no frame that existed before and cannot be reached from there, and two
heaps that look alike from there give the same run. So frames that cannot be reached may be dropped.

**Looking alike.** What can be seen of a frame is its parent and the value of each name (`Frame.view`);
the order of its bindings cannot.

**The region.** The proof fixes a set `S` of frames: those that can be reached at the start, and all that
do not exist yet. `Alike` says that two heaps look alike on `S` and that no link leads out of `S`. Every
operation of a machine keeps this up as long as it works on frames in `S`, and the frames and functions
it comes up with are in `S` again. So reaching is looked at once, at the start, although it changes with
every assignment.

**Results.**
* `confined_eval`: two runs from heaps that are alike on `S`.
* `local_eval`: the same in terms of what can be reached.
-/
namespace Lox

/-! ## Links between frames -/

/-- What can be seen of a frame. -/
def Frame.view (f : Frame) : Option FrameId × (String → Option Value) := (f.parent, f.get?)

namespace Heap

/-- What can be seen of the frame at a place. -/
def view (h : Heap) (i : FrameId) : Option (Option FrameId × (String → Option Value)) :=
  h.frames[i]?.map Frame.view

/-- The frame at `i` has the one at `j` as its parent, or binds a function that sees it. -/
def Links (h : Heap) (i j : FrameId) : Prop :=
  ∃ f, h.frames[i]? = some f ∧
    (f.parent = some j ∨ ∃ name c, f.get? name = some (.function c) ∧ c.frame = j)

/-- The frame at `j` is found from the one at `i` by following links. -/
def Reachable (h : Heap) : FrameId → FrameId → Prop := Relation.ReflTransGen h.Links

theorem view_eq_some {h : Heap} {i : FrameId} {p : Option FrameId} {g : String → Option Value} :
    h.view i = some (p, g) ↔ ∃ f, h.frames[i]? = some f ∧ f.parent = p ∧ f.get? = g := by
  simp [view, Frame.view]

theorem links_iff {h : Heap} {i j : FrameId} : h.Links i j ↔
    ∃ p g, h.view i = some (p, g) ∧ (p = some j ∨ ∃ name c, g name = some (.function c) ∧ c.frame = j) := by
  constructor
  · intro h
    obtain ⟨f, hf, hj⟩ := h
    exact ⟨f.parent, f.get?, view_eq_some.2 ⟨f, hf, rfl, rfl⟩, hj⟩
  · intro h
    obtain ⟨p, g, hv, hj⟩ := h
    obtain ⟨f, hf, rfl, rfl⟩ := view_eq_some.1 hv
    exact ⟨f, hf, hj⟩

theorem view_define (h : Heap) (i j : FrameId) (name : String) (v : Value) :
    (h.define i name v).view j = if i = j then
      (h.view j).map fun w => (w.1, fun other => if other = name then some v else w.2 other)
    else h.view j := by
  unfold view define
  rw [Array.getElem?_modify]
  split
  · cases h.frames[j]? with
    | none => rfl
    | some f => simp [Frame.view, funext_iff]
  · rfl

theorem view_push (h : Heap) (f : Frame) (j : FrameId) :
    (h.push f).view j = if j = h.frames.size then some f.view else h.view j := by
  unfold view push
  rw [Array.getElem?_push]
  split <;> rfl

end Heap

/-- If the value is a function, the frame it sees is in `S`. -/
def Value.Within (S : FrameId → Prop) (v : Value) : Prop := ∀ c, v = .function c → S c.frame

/-! ## Heaps that look alike -/

/-- Two heaps of one size look alike on `S`, and no link leads out of `S`. -/
structure Heap.Alike (S : FrameId → Prop) (h₁ h₂ : Heap) : Prop where
  size_eq : h₁.frames.size = h₂.frames.size
  functions_eq : h₁.functions = h₂.functions
  view_eq : ∀ i, S i → h₁.view i = h₂.view i
  closed : ∀ i j, S i → h₁.Links i j → S j
  fresh : ∀ i, h₁.frames.size ≤ i → S i

namespace Heap.Alike

variable {S : FrameId → Prop} {h₁ h₂ : Heap}

/-- At a place in `S` either both heaps have no frame, or both have frames that look alike. -/
theorem frames_alike (h : Alike S h₁ h₂) {i : FrameId} (hi : S i) :
    h₁.frames[i]? = none ∧ h₂.frames[i]? = none ∨
      ∃ f₁ f₂, h₁.frames[i]? = some f₁ ∧ h₂.frames[i]? = some f₂ ∧ f₁.parent = f₂.parent ∧
        f₁.get? = f₂.get? := by
  have hview := h.view_eq i hi
  cases e₁ : h₁.frames[i]? <;> cases e₂ : h₂.frames[i]? <;> simp_all [view, Frame.view]

theorem reachable {e i : FrameId} (h : Alike S h₁ h₂) (he : S e) (hi : h₁.Reachable e i) : S i := by
  induction hi with
  | refl => exact he
  | tail _ hlinks ih => exact h.closed _ _ ih hlinks

/-- Names have the same owners in both heaps, and these are in `S`. -/
theorem owner?_eq (h : Alike S h₁ h₂) (name : String) (i : FrameId) (hi : S i) :
    h₁.owner? name i = h₂.owner? name i ∧ ∀ o, h₁.owner? name i = some o → S o := by
  induction i using Nat.strongRecOn with
  | ind i ih =>
    rw [Heap.owner?, Heap.owner?]
    rcases h.frames_alike hi with ⟨e₁, e₂⟩ | ⟨f₁, f₂, e₁, e₂, hparent, hget⟩
    · rw [e₁, e₂]
      exact ⟨rfl, fun o ho => by cases ho⟩
    · have hbinds : f₂.binds name = f₁.binds name := by rw [Frame.binds, Frame.binds, hget]
      simp only [e₁, e₂, hbinds, ← hparent]
      split
      · exact ⟨rfl, fun o ho => by cases ho; exact hi⟩
      · cases hp : f₁.parent with
        | none => exact ⟨rfl, fun o ho => by cases ho⟩
        | some p =>
          dsimp only
          split
          · exact ih p ‹_› (h.closed i p hi ⟨f₁, e₁, .inl hp⟩)
          · exact ⟨rfl, fun o ho => by cases ho⟩

/-- Variables have the same values in both heaps, and these are within `S`. -/
theorem get?_eq (h : Alike S h₁ h₂) (name : String) {i : FrameId} (hi : S i) :
    h₁.get? i name = h₂.get? i name ∧ ∀ v, h₁.get? i name = some v → v.Within S := by
  obtain ⟨hsame, howner⟩ := h.owner?_eq name i hi
  unfold Heap.get?
  rw [← hsame]
  cases ho : h₁.owner? name i with
  | none => exact ⟨rfl, nofun⟩
  | some o =>
    have hso := howner o ho
    simp only [Option.bind_eq_bind, Option.bind_some]
    rcases h.frames_alike hso with ⟨e₁, e₂⟩ | ⟨f₁, f₂, e₁, e₂, -, hget⟩
    · rw [e₁, e₂]
      exact ⟨rfl, nofun⟩
    · rw [e₁, e₂, Option.bind_some, Option.bind_some, hget]
      refine ⟨rfl, ?_⟩
      rintro v hv c rfl
      exact h.closed o c.frame hso ⟨f₁, e₁, .inr ⟨name, c, by rw [hget]; exact hv, rfl⟩⟩

theorem define {v : Value} (h : Alike S h₁ h₂) (i : FrameId) (name : String) (hv : v.Within S) :
    Alike S (h₁.define i name v) (h₂.define i name v) where
  size_eq := by rw [size_define, size_define, h.size_eq]
  functions_eq := h.functions_eq
  view_eq j hj := by rw [view_define, view_define, h.view_eq j hj]
  closed j k hj hlinks := by
    obtain ⟨p, g, hview, hk⟩ := links_iff.1 hlinks
    rw [view_define] at hview
    split at hview
    · obtain ⟨⟨p', g'⟩, hbefore, heq⟩ := Option.map_eq_some_iff.1 hview
      cases heq
      rcases hk with hp | ⟨other, c, hc, rfl⟩
      · exact h.closed j k hj (links_iff.2 ⟨p', g', hbefore, .inl hp⟩)
      · dsimp only at hc
        split at hc
        · cases hc
          exact hv c rfl
        · exact h.closed j _ hj (links_iff.2 ⟨p', g', hbefore, .inr ⟨other, c, hc, rfl⟩⟩)
    · exact h.closed j k hj (links_iff.2 ⟨p, g, hview, hk⟩)
  fresh j hj := h.fresh j (by rwa [size_define] at hj)

theorem defineAll (h : Alike S h₁ h₂) (i : FrameId) (names : List String) (values : List Value)
    (hvs : ∀ v ∈ values, v.Within S) :
    Alike S (h₁.defineAll i names values) (h₂.defineAll i names values) := by
  induction names generalizing h₁ h₂ values with
  | nil => exact h
  | cons name names ih =>
    cases values with
    | nil => exact h
    | cons v values =>
      rw [List.forall_mem_cons] at hvs
      exact ih (h.define i name hvs.1) values hvs.2

/-- A new frame inside one in `S` binds nothing. -/
theorem push {parent : FrameId} (h : Alike S h₁ h₂) (hp : S parent) :
    Alike S (h₁.push ⟨some parent, []⟩) (h₂.push ⟨some parent, []⟩) where
  size_eq := by rw [size_push, size_push, h.size_eq]
  functions_eq := h.functions_eq
  view_eq j hj := by rw [view_push, view_push, h.view_eq j hj, h.size_eq]
  closed j k hj hlinks := by
    obtain ⟨p, g, hview, hk⟩ := links_iff.1 hlinks
    rw [view_push] at hview
    split at hview
    · cases hview
      rcases hk with hk | ⟨name, c, hc, -⟩
      · cases hk
        exact hp
      · cases hc
    · exact h.closed j k hj (links_iff.2 ⟨p, g, hview, hk⟩)
  fresh j hj := h.fresh j (by rw [size_push] at hj; omega)

end Heap.Alike

/-! ## Frames out of reach -/

namespace Heap

theorem frames_define {h : Heap} {i j : FrameId} (hij : i ≠ j) (name : String) (v : Value) :
    (h.define i name v).frames[j]? = h.frames[j]? := by
  rw [define, Array.getElem?_modify, if_neg hij]

theorem frames_defineAll {h : Heap} {i j : FrameId} (hij : i ≠ j) (names : List String)
    (values : List Value) : (h.defineAll i names values).frames[j]? = h.frames[j]? := by
  induction names generalizing h values with
  | nil => rfl
  | cons name names ih =>
    cases values with
    | nil => rfl
    | cons v values => rw [defineAll, ih, frames_define hij]

theorem frames_push {h : Heap} {j : FrameId} (hj : j ≠ h.frames.size) (f : Frame) :
    (h.push f).frames[j]? = h.frames[j]? := by
  rw [push, Array.getElem?_push, if_neg hj]

end Heap

/-! ## Operations of a machine -/

/-- Two machines that differ in their heaps only, which look alike on `S`. Outside `S` the first is as
it was at the start. -/
structure Machine.Alike (S : FrameId → Prop) (start : Heap) (m₁ m₂ : Machine) : Prop where
  heap : Heap.Alike S m₁.heap m₂.heap
  outside : ∀ i, ¬ S i → m₁.heap.frames[i]? = start.frames[i]?
  depth_eq : m₁.depth = m₂.depth
  ticks_eq : m₁.ticks = m₂.ticks
  printed_eq : m₁.printed = m₂.printed

/-- A step that changes the heaps only, the first one only inside `S`. -/
theorem Machine.Alike.withHeap {S : FrameId → Prop} {start h₁ h₂ : Heap} {m₁ m₂ : Machine}
    (hi : Machine.Alike S start m₁ m₂) (heap : Heap.Alike S h₁ h₂)
    (hout : ∀ i, ¬ S i → h₁.frames[i]? = m₁.heap.frames[i]?) :
    Machine.Alike S start { m₁ with heap := h₁ } { m₂ with heap := h₂ } :=
  { hi with heap, outside := fun i hS => (hout i hS).trans (hi.outside i hS) }

/-- If the statement returned, then with a value within `S`. -/
def Flow.Within (S : FrameId → Prop) (f : Flow) : Prop := ∀ v, f = .returned v → v.Within S

namespace Eval

open EvalM

/-- Two runs of the computation from machines that are alike end alike, with one value of which `P`
holds or for one reason. -/
def Confined {α : Type} (S : FrameId → Prop) (start : Heap) (P : α → Prop) (x : EvalM α) : Prop :=
  Sim (Machine.Alike S start) (· = ·) (fun a b => a = b ∧ P a) x x

variable {α β : Type} {S : FrameId → Prop} {start : Heap} {P : α → Prop} {Q : β → Prop}

namespace Confined

theorem pure {a : α} (h : P a) : Confined S start P (pure a) := Sim.pure ⟨rfl, h⟩

theorem throw (e : Stop) : Confined S start P (throw e) := Sim.throw rfl

theorem bind {x : EvalM α} {f : α → EvalM β} (hx : Confined S start P x)
    (hf : ∀ a, P a → Confined S start Q (f a)) : Confined S start Q (x >>= f) := by
  refine Sim.bind hx ?_
  intro a _ h
  obtain ⟨rfl, ha⟩ := h
  exact hf a ha

theorem mapM {f : β → EvalM α} {bs : List β} (h : ∀ b ∈ bs, Confined S start P (f b)) :
    Confined S start (fun as => ∀ a ∈ as, P a) (bs.mapM f) := by
  induction bs with
  | nil => exact .pure (by simp)
  | cons b bs ih =>
    rw [List.forall_mem_cons] at h
    rw [List.mapM_cons]
    refine h.1.bind fun a ha => ?_
    refine (ih h.2).bind fun as has => ?_
    exact .pure (List.forall_mem_cons.2 ⟨ha, has⟩)

end Confined

theorem confined_ofExcept {r : Except Fault α} (h : ∀ a, r = .ok a → P a) :
    Confined S start P (ofExcept r) := by
  cases r with
  | ok a => exact .pure (h a rfl)
  | error f => exact .throw _

theorem confined_print (line : String) : Confined S start (fun _ => True) (print line) := by
  refine Sim.of fun m₁ m₂ hi => .ok ⟨rfl, trivial⟩ { hi with printed_eq := ?_ }
  rw [hi.printed_eq]

theorem confined_readClock (cfg : Config) : Confined S start (Value.Within S) (readClock cfg) := by
  intro m₁ m₂ hi
  rw [run_readClock, run_readClock, hi.ticks_eq]
  exact .ok ⟨rfl, nofun⟩ { hi with ticks_eq := rfl }

theorem confined_callDepth : Confined S start (fun _ => True) callDepth := by
  refine Sim.of fun m₁ m₂ hi => ?_
  rw [hi.depth_eq]
  exact .ok ⟨rfl, trivial⟩ hi

theorem confined_counted (cfg : Config) (line : Nat) {x : EvalM α} (h : Confined S start P x) :
    Confined S start P (counted cfg line x) := by
  have henter : Confined S start (fun _ => True) (enterCall cfg line) := by
    refine Sim.of fun m₁ m₂ hi => ?_
    rw [hi.depth_eq]
    split
    · exact .error rfl hi
    · exact .ok ⟨rfl, trivial⟩ { hi with depth_eq := rfl }
  refine henter.bind fun _ _ => Sim.leaving h fun m₁ m₂ hi => { hi with depth_eq := ?_ }
  rw [hi.depth_eq]

theorem ne_of_outside {i j : FrameId} (hi : S i) (hj : ¬ S j) : i ≠ j := by
  intro heq
  rw [heq] at hi
  exact hj hi

section
variable {frame : FrameId} (hframe : S frame)
include hframe

theorem confined_readVar (name : Token) : Confined S start (Value.Within S) (readVar frame name) := by
  refine Sim.of fun m₁ m₂ hi => ?_
  obtain ⟨hsame, hwithin⟩ := hi.heap.get?_eq name.lexeme hframe
  rw [← hsame]
  cases hv : m₁.heap.get? frame name.lexeme with
  | none => exact .error rfl hi
  | some v => exact .ok ⟨rfl, hwithin v hv⟩ hi

theorem confined_defineVar {v : Value} (hv : v.Within S) (name : String) :
    Confined S start (fun _ => True) (defineVar frame name v) := by
  refine Sim.of fun m₁ m₂ hi => .ok ⟨rfl, trivial⟩ ?_
  refine hi.withHeap (hi.heap.define frame name hv) fun j hj => ?_
  exact Heap.frames_define (ne_of_outside hframe hj) name v

theorem confined_assignVar {v : Value} (hv : v.Within S) (name : Token) :
    Confined S start (fun _ => True) (assignVar frame name v) := by
  refine Sim.of fun m₁ m₂ hi => ?_
  obtain ⟨hsame, howner⟩ := hi.heap.owner?_eq name.lexeme frame hframe
  rw [← hsame]
  cases ho : m₁.heap.owner? name.lexeme frame with
  | none => exact .error rfl hi
  | some o =>
    refine .ok ⟨rfl, trivial⟩ ?_
    refine hi.withHeap (hi.heap.define o name.lexeme hv) fun j hj => ?_
    exact Heap.frames_define (ne_of_outside (howner o ho) hj) name.lexeme v

theorem confined_newFrame : Confined S start S (newFrame frame) := by
  refine Sim.of fun m₁ m₂ hi => ?_
  have hnew := hi.heap.fresh m₁.heap.frames.size (Nat.le_refl _)
  rw [← hi.heap.size_eq]
  refine .ok ⟨rfl, hnew⟩ ?_
  refine hi.withHeap (hi.heap.push hframe) fun j hj => ?_
  exact Heap.frames_push (ne_of_outside hnew hj).symm _

theorem confined_bindParams (params : List String) {args : List Value}
    (hargs : ∀ v ∈ args, v.Within S) :
    Confined S start (fun _ => True) (bindParams frame params args) := by
  refine Sim.of fun m₁ m₂ hi => .ok ⟨rfl, trivial⟩ ?_
  refine hi.withHeap (hi.heap.defineAll frame params args hargs) fun j hj => ?_
  exact Heap.frames_defineAll (ne_of_outside hframe hj) params args

theorem confined_newFunction (name : Token) (params : List Token) (body : List Stmt) :
    Confined S start (Value.Within S) (newFunction frame name params body) := by
  refine Sim.of fun m₁ m₂ hi => ?_
  rw [hi.heap.functions_eq]
  refine .ok ⟨rfl, fun c hc => ?_⟩ { hi with heap := { hi.heap with functions_eq := rfl } }
  cases hc
  exact hframe

end

/-! ## Operators -/

theorem onNumbers_within {op : Token} {f : Float → Float → Value} {l r v : Value}
    (hf : ∀ x y, (f x y).Within S) (h : Operator.onNumbers op f l r = .ok v) : v.Within S := by
  unfold Operator.onNumbers at h
  split at h
  · cases h
    exact hf _ _
  · cases h

theorem unary_within {op : Token} {operand v : Value} (h : Operator.unary op operand = .ok v) :
    v.Within S := by
  unfold Operator.unary at h
  split at h <;> cases h <;> nofun

theorem binary_within {op : Token} {l r v : Value} (h : Operator.binary op l r = .ok v) :
    v.Within S := by
  unfold Operator.binary at h
  split at h
  case h_1 =>
    unfold Operator.add at h
    split at h <;> cases h <;> nofun
  case h_9 | h_10 => cases h; nofun
  case h_11 => cases h
  all_goals
    refine onNumbers_within ?_ h
    exact fun _ _ => nofun

theorem shortCut_within {op : Token} {l v : Value} (hl : l.Within S)
    (h : Operator.shortCut op l = .ok (some v)) : v.Within S := by
  unfold Operator.shortCut at h
  split at h
  case h_1 | h_2 =>
    split at h <;> cases h
    exact hl
  case h_3 => cases h

/-! ## Levels of evaluation -/

section
variable {stmt : FrameId → Stmt → EvalM Flow} {expr : FrameId → Expr → EvalM Value}

theorem confined_runAll {stmt : Stmt → EvalM Flow} {body : List Stmt}
    (h : ∀ s, Confined S start (Flow.Within S) (stmt s)) :
    Confined S start (Flow.Within S) (runAll stmt body) := by
  induction body with
  | nil => exact .pure nofun
  | cons s body ih =>
    rw [runAll]
    refine (h s).bind fun f hf => ?_
    cases f with
    | normal => exact ih
    | returned v => exact .pure hf

theorem confined_runWhile {test : EvalM Value} {body : EvalM Flow}
    (ht : Confined S start (Value.Within S) test) (hb : Confined S start (Flow.Within S) body)
    (fuel : Nat) : Confined S start (Flow.Within S) (runWhile test body fuel) := by
  induction fuel with
  | zero => exact .throw _
  | succ fuel ih =>
    rw [runWhile]
    refine ht.bind fun v _ => ?_
    split
    · refine hb.bind fun f hf => ?_
      cases f with
      | normal => exact ih
      | returned v => exact .pure hf
    · exact .pure nofun

variable (hstmt : ∀ frame s, S frame → Confined S start (Flow.Within S) (stmt frame s))
include hstmt

theorem confined_callClosure {f : Closure} (hf : S f.frame) {args : List Value}
    (hargs : ∀ v ∈ args, v.Within S) :
    Confined S start (Value.Within S) (callClosure stmt f args) := by
  rw [callClosure]
  refine (confined_newFrame hf).bind fun frame hframe => ?_
  refine (confined_bindParams hframe f.params hargs).bind fun _ _ => ?_
  refine (confined_runAll fun s => hstmt frame s hframe).bind fun flow hflow => ?_
  cases flow with
  | normal => exact .pure nofun
  | returned v => exact .pure (hflow v rfl)

theorem confined_callValue (cfg : Config) {callee : Value} (hcallee : callee.Within S)
    {args : List Value} (hargs : ∀ v ∈ args, v.Within S) (line : Nat) :
    Confined S start (Value.Within S) (callValue cfg stmt callee args line) := by
  have harity (expected : Nat) :
      Confined S start (fun _ => True) (checkArity expected args.length line) := by
    rw [checkArity]
    split
    · exact .pure trivial
    · exact .throw _
  cases callee with
  | native f => exact (harity _).bind fun _ _ => confined_counted cfg line (confined_readClock cfg)
  | function f =>
    refine (harity _).bind fun _ _ => confined_counted cfg line ?_
    exact confined_callClosure hstmt (hcallee f rfl) hargs
  | number | string | boolean | nil => exact .throw _

variable (hexpr : ∀ frame e, S frame → Confined S start (Value.Within S) (expr frame e))
  {frame : FrameId} (hframe : S frame)
include hexpr hframe

theorem confined_exprStep (cfg : Config) (e : Expr) :
    Confined S start (Value.Within S) (exprStep cfg expr stmt frame e) := by
  cases e with
  | literal id value => exact .pure (by cases value <;> nofun)
  | var id name => exact confined_readVar hframe name
  | assign id name value =>
    refine (hexpr frame value hframe).bind fun v hv => ?_
    exact (confined_assignVar hframe hv name).bind fun _ _ => .pure hv
  | unary id op operand =>
    exact (hexpr frame operand hframe).bind fun v _ => confined_ofExcept fun _ => unary_within
  | binary id left op right =>
    refine (hexpr frame left hframe).bind fun l _ => ?_
    exact (hexpr frame right hframe).bind fun r _ => confined_ofExcept fun _ => binary_within
  | logical id left op right =>
    refine (hexpr frame left hframe).bind fun l hl => ?_
    have hshort : Confined S start (fun o => ∀ v, o = some v → v.Within S)
        (ofExcept (Operator.shortCut op l)) := by
      refine confined_ofExcept fun o ho v hv => ?_
      subst hv
      exact shortCut_within hl ho
    refine hshort.bind fun o ho => ?_
    cases o with
    | none => exact hexpr frame right hframe
    | some v => exact .pure (ho v rfl)
  | grouping id inner => exact hexpr frame inner hframe
  | call id callee paren args =>
    refine (hexpr frame callee hframe).bind fun f hf => ?_
    refine (Confined.mapM fun a _ => hexpr frame a hframe).bind fun vs hvs => ?_
    exact confined_callValue hstmt cfg hf hvs paren.line

theorem confined_stmtStep (fuel : Nat) (s : Stmt) :
    Confined S start (Flow.Within S) (stmtStep fuel expr stmt frame s) := by
  have hoptional (o : Option Expr) :
      Confined S start (Value.Within S) (optionalStep (expr frame) o) := by
    cases o with
    | none => exact .pure nofun
    | some e => exact hexpr frame e hframe
  cases s with
  | expression id e => exact (hexpr frame e hframe).bind fun _ _ => .pure nofun
  | print id e =>
    refine (hexpr frame e hframe).bind fun v _ => ?_
    exact (confined_print v.text).bind fun _ _ => .pure nofun
  | varDecl id name init =>
    refine (hoptional init).bind fun v hv => ?_
    exact (confined_defineVar hframe hv name.lexeme).bind fun _ _ => .pure nofun
  | block id body =>
    refine (confined_newFrame hframe).bind fun inner hinner => ?_
    exact confined_runAll fun s => hstmt inner s hinner
  | ifThen id condition yes =>
    refine (hexpr frame condition hframe).bind fun v _ => ?_
    split
    · exact hstmt frame yes hframe
    · exact .pure nofun
  | ifElse id condition yes no =>
    refine (hexpr frame condition hframe).bind fun v _ => ?_
    split
    · exact hstmt frame yes hframe
    · exact hstmt frame no hframe
  | whileLoop id condition body =>
    exact confined_runWhile (hexpr frame condition hframe) (hstmt frame body hframe) fuel
  | funDecl id name params body =>
    refine (confined_newFunction hframe name params body).bind fun f hf => ?_
    exact (confined_defineVar hframe hf name.lexeme).bind fun _ _ => .pure nofun
  | ret id keyword value =>
    refine confined_callDepth.bind fun d _ => ?_
    split
    · exact .throw _
    · refine (hoptional value).bind fun v hv => .pure ?_
      intro w hw
      cases hw
      exact hv

end

theorem confined_eval (cfg : Config) (fuel : Nat) :
    (∀ frame e, S frame → Confined S start (Value.Within S) (evalExpr cfg fuel frame e)) ∧
      ∀ frame s, S frame → Confined S start (Flow.Within S) (evalStmt cfg fuel frame s) := by
  induction fuel with
  | zero => exact ⟨fun _ _ _ => .throw _, fun _ _ _ => .throw _⟩
  | succ fuel ih =>
    obtain ⟨hexpr, hstmt⟩ := ih
    refine ⟨fun frame e hframe => ?_, fun frame s hframe => ?_⟩
    · rw [evalExpr]
      exact Sim.later (confined_exprStep hstmt hexpr hframe cfg e)
    · rw [evalStmt]
      exact Sim.later (confined_stmtStep hstmt hexpr hframe fuel s)

/-! ## Locality -/

/-- A computation that works in the frame at `e` touches only what can be reached from there. -/
structure Local (e : FrameId) (x : EvalM α) : Prop where
  /-- A frame that cannot be reached stays as it is, however the computation ends. -/
  unreached (m : Machine) (i : FrameId) (hi : i < m.heap.frames.size) (hr : ¬ m.heap.Reachable e i) :
    (x.after m).heap.frames[i]? = m.heap.frames[i]?
  /-- With another heap that looks alike from `e`, the computation ends with the same value or for the
  same reason, has printed the same, and leaves behind heaps that look alike on the frames that could
  be reached before, on those that can be reached now, and on new ones. -/
  settled (m : Machine) (h : Heap) (hsize : h.frames.size = m.heap.frames.size)
    (hfunctions : h.functions = m.heap.functions)
    (hview : ∀ i, m.heap.Reachable e i → h.view i = m.heap.view i) :
    x.result { m with heap := h } = x.result m ∧
      (x.after { m with heap := h }).printed = (x.after m).printed ∧
      ∀ i, m.heap.Reachable e i ∨ (x.after m).heap.Reachable e i ∨ m.heap.frames.size ≤ i →
        (x.after { m with heap := h }).heap.view i = (x.after m).heap.view i

/-- What can be reached from `e`, and all places where there is no frame yet. -/
def region (h : Heap) (e i : FrameId) : Prop := h.Reachable e i ∨ h.frames.size ≤ i

theorem alike_region {m : Machine} {h : Heap} {e : FrameId}
    (hsize : h.frames.size = m.heap.frames.size) (hfunctions : h.functions = m.heap.functions)
    (hview : ∀ i, m.heap.Reachable e i → h.view i = m.heap.view i) :
    Machine.Alike (region m.heap e) m.heap m { m with heap := h } where
  heap :=
    { size_eq := hsize.symm
      functions_eq := hfunctions.symm
      view_eq := by
        intro i h
        rcases h with hi | hi
        · exact (hview i hi).symm
        · rw [Heap.view, Heap.view, Array.getElem?_eq_none hi, Array.getElem?_eq_none (hsize ▸ hi)]
      closed := by
        rintro i j (hi | hi) hlinks
        · exact .inl (hi.tail hlinks)
        · obtain ⟨f, hf, -⟩ := hlinks
          rw [Array.getElem?_eq_none hi] at hf
          cases hf
      fresh := fun i hi => .inr hi }
  outside _ _ := rfl
  depth_eq := rfl
  ticks_eq := rfl
  printed_eq := rfl

theorem local_of_confined {e : FrameId} {x : EvalM α} {P : (FrameId → Prop) → α → Prop}
    (hx : ∀ S start, S e → Confined S start (P S) x) : Local e x := by
  have he (m : Machine) : region m.heap e e := .inl .refl
  refine ⟨fun m i hi hr => ?_, fun m h hsize hfunctions hview => ?_⟩
  · have hconfined := hx (region m.heap e) m.heap (he m)
    have hafter := hconfined.after (alike_region rfl rfl fun _ _ => rfl)
    refine hafter.outside i ?_
    intro h
    rcases h with h | h
    · exact hr h
    · exact absurd hi (Nat.not_lt.2 h)
  · have hconfined := hx (region m.heap e) m.heap (he m)
    have hstart := alike_region hsize hfunctions hview
    have hafter := hconfined.after hstart
    refine ⟨(hconfined.result_eq (fun _ _ h => h.1) hstart).symm, hafter.printed_eq.symm, ?_⟩
    intro i h
    rcases h with hi | hi | hi
    · exact (hafter.heap.view_eq i (.inl hi)).symm
    · exact (hafter.heap.view_eq i (hafter.heap.reachable (he m) hi)).symm
    · exact (hafter.heap.view_eq i (.inr hi)).symm

/-- Evaluation in a frame, of an expression, a statement or a list of statements, touches only what can
be reached from that frame. -/
theorem local_eval (cfg : Config) (fuel : Nat) (frame : FrameId) :
    (∀ e, Local frame (evalExpr cfg fuel frame e)) ∧
      (∀ s, Local frame (evalStmt cfg fuel frame s)) ∧
      ∀ body, Local frame (evalBlock cfg fuel frame body) := by
  refine ⟨fun e => ?_, fun s => ?_, fun body => ?_⟩
  · exact local_of_confined fun S start hS => (confined_eval cfg fuel).1 frame e hS
  · exact local_of_confined fun S start hS => (confined_eval cfg fuel).2 frame s hS
  · exact local_of_confined fun S start hS =>
      confined_runAll fun s => (confined_eval cfg fuel).2 frame s hS

/-- `x = "s"` in a frame that binds `x`, next to a frame that sees it but is not seen from it. -/
theorem local_eval_child :
    let x : Token := ⟨.identifier, "x", none, 1⟩
    let frame : Frame := ⟨none, [("x", .nil)]⟩
    let m : Machine := ⟨⟨#[frame, ⟨some 0, [("x", .boolean true)]⟩], 0⟩, 0, 0, #[]⟩
    let other : Heap := ⟨#[frame, ⟨none, []⟩], 0⟩
    let run := evalExpr ⟨1, fun _ => 0⟩ 2 0 (.assign 1 x (.literal 0 (.string "s")))
    ¬ m.heap.Reachable 0 1 ∧ (run.after m).heap.frames[1]? = m.heap.frames[1]? ∧
      run.result { m with heap := other } = run.result m := by
  intro x frame m other run
  have hlocal := (local_eval ⟨1, fun _ => 0⟩ 2 0).1 (.assign 1 x (.literal 0 (.string "s")))
  have hreach (i : FrameId) (hi : m.heap.Reachable 0 i) : i = 0 := by
    induction hi with
    | refl => rfl
    | tail _ hlinks ih =>
      subst ih
      obtain ⟨f, hf, hlink⟩ := hlinks
      obtain rfl : frame = f := Option.some.inj hf
      rcases hlink with hp | ⟨name, c, hc, -⟩
      · cases hp
      · simp only [frame, Frame.get?, Bindings.get?] at hc
        split at hc <;> cases hc
  have hout : ¬ m.heap.Reachable 0 1 := fun h => Nat.one_ne_zero (hreach 1 h)
  refine ⟨hout, hlocal.unreached m 1 (by decide) hout, (hlocal.settled m other rfl rfl ?_).1⟩
  intro i hi
  rw [hreach i hi]
  rfl

end Eval
end Lox
