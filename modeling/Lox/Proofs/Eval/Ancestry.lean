import Lox.Proofs.Eval.Reachability
import Lox.Proofs.Eval.Trimming

/-!
# Frames form a forest

Every frame but a root has a parent, and a look-up goes from a frame to its parent, to the parent of that
and so on. Functions hold on to frames as well, and there the links do go in circles: a function is bound in
the very frame that it sees. The parents never do, because a frame is made inside one that is there already
and its parent is not changed afterwards.

**Use from outside.** A machine is used by one action after the other: programs, statements and expressions
are executed, frames are made, names are bound and read, and functions are called directly. An action may
name any frame there is and pass on any value that an earlier action has handed out. `Machine.Reached m vs`
says that a new machine can come to be `m` in this way, with `vs` handed out.

**Look-ups.** `Heap.Chain` follows parents to the end and `Heap.Walk` does so in search of a name. Neither
looks at the places of frames as `Heap.owner?` does. A walk keeps the frames that it came through and does
not step on one of them again, as an assignment has to that holds on to each of these frames until it is done.

**Results.**
* `sim_perform`: what an action leaves behind.
* `Machine.Reached.sound`: the same for all actions.
* `Heap.WellFormed.chain` and `Heap.WellFormed.walk`: chains and walks come to an end.
* `frames_form_a_forest`: the results for every machine that can be reached.
-/
namespace Lox

open EvalM Eval

/-! ## Chains and walks -/

namespace Heap

/-- The frames from the first one outward, up to one that has no parent. -/
inductive Chain (h : Heap) : FrameId → List FrameId → Prop where
  | root {i f} (hf : h.frames[i]? = some f) (hp : f.parent = none) : Chain h i [i]
  | inner {i f p l} (hf : h.frames[i]? = some f) (hp : f.parent = some p) (hl : Chain h p l) :
    Chain h i (i :: l)

/-- The search for the frame that binds a name, from a frame outward. It holds on to the frames that it has
come through and does not come to any of them again. -/
inductive Walk (h : Heap) (name : String) : (held : List FrameId) → FrameId → Option FrameId → Prop where
  | found {held i f} (hf : h.frames[i]? = some f) (hfree : i ∉ held) (hb : f.binds name = true) :
    Walk h name held i (some i)
  | missing {held i f} (hf : h.frames[i]? = some f) (hfree : i ∉ held) (hb : f.binds name = false)
    (hp : f.parent = none) : Walk h name held i none
  | outward {held i f p o} (hf : h.frames[i]? = some f) (hfree : i ∉ held) (hb : f.binds name = false)
    (hp : f.parent = some p) (hw : Walk h name (i :: held) p o) : Walk h name held i o

/-- Parents and names decide where a walk goes. -/
theorem Walk.unique {h : Heap} {name : String} {held : List FrameId} {i : FrameId} {o o' : Option FrameId}
    (hw : h.Walk name held i o) (hw' : h.Walk name held i o') : o = o' := by
  induction hw with
  | found hf _ hb =>
    cases hw' with
    | found => rfl
    | missing hf' _ hb' | outward hf' _ hb' => simp_all
  | missing hf _ hb hp =>
    cases hw' with
    | missing => rfl
    | found hf' _ hb' | outward hf' _ hb' hp' => simp_all
  | outward hf _ hb hp _ ih =>
    cases hw' with
    | found hf' _ hb' | missing hf' _ hb' hp' => simp_all
    | outward hf' _ _ hp' hw' =>
      cases hf.symm.trans hf'
      cases hp.symm.trans hp'
      exact ih hw'

namespace WellFormed

variable {h : Heap} {i : FrameId} {name : String}

/-- Parents are older, so the chain comes to an end and gets no frame twice. -/
theorem chain (hh : h.WellFormed) (hi : i < h.frames.size) :
    ∃ l, h.Chain i l ∧ l.Pairwise (· > ·) ∧ ∀ j ∈ l, j ≤ i := by
  induction i using Nat.strongRecOn with
  | ind i ih =>
    have hf := Array.getElem?_eq_getElem hi
    cases hp : h.frames[i].parent with
    | none => exact ⟨[i], .root hf hp, by simp, by simp⟩
    | some p =>
      have hlt : p < i := (hh i _ hf).1 p hp
      obtain ⟨l, hl, hsorted, hle⟩ := ih p hlt (Nat.lt_trans hlt hi)
      have hbelow : ∀ j ∈ l, j < i := fun j hj => Nat.lt_of_le_of_lt (hle j hj) hlt
      refine ⟨i :: l, .inner hf hp hl, hsorted.cons hbelow, ?_⟩
      rw [List.forall_mem_cons]
      exact ⟨Nat.le_refl i, fun j hj => Nat.le_of_lt (hbelow j hj)⟩

/-- All frames that a walk has come through are younger than the one it is at. -/
theorem walk (hh : h.WellFormed) (hi : i < h.frames.size) {held : List FrameId}
    (hheld : ∀ j ∈ held, i < j) : h.Walk name held i (h.owner? name i) := by
  induction i using Nat.strongRecOn generalizing held with
  | ind i ih =>
    have hf := Array.getElem?_eq_getElem hi
    have hfree : i ∉ held := fun hmem => Nat.lt_irrefl i (hheld i hmem)
    rw [owner?, hf]
    cases hb : h.frames[i].binds name with
    | true => simpa [hb] using Walk.found hf hfree hb
    | false =>
      cases hp : h.frames[i].parent with
      | none => simpa [hb, hp] using Walk.missing hf hfree hb hp
      | some p =>
        have hlt : p < i := (hh i _ hf).1 p hp
        have hyounger : ∀ j ∈ i :: held, p < j := by
          rw [List.forall_mem_cons]
          exact ⟨hlt, fun j hj => Nat.lt_trans hlt (hheld j hj)⟩
        simpa [hb, hp, hlt] using Walk.outward hf hfree hb hp (ih p hlt (Nat.lt_trans hlt hi) hyounger)

/-! ## Operations of a heap -/

theorem get? (hh : h.WellFormed) {v : Value} (hv : h.get? i name = some v) :
    v.Within (· < h.frames.size) := by
  simp only [Heap.get?, Option.bind_eq_bind, Option.bind_eq_some_iff] at hv
  obtain ⟨o, -, f, hf, hget⟩ := hv
  rintro c rfl
  exact (hh o f hf).2 name c hget

theorem define (hh : h.WellFormed) (i : FrameId) (name : String) {v : Value}
    (hv : v.Within (· < h.frames.size)) : (h.define i name v).WellFormed := by
  intro j f hf
  rw [size_define]
  unfold Heap.define at hf
  rw [Array.getElem?_modify] at hf
  split at hf
  · obtain ⟨g, hg, rfl⟩ := Option.map_eq_some_iff.1 hf
    refine ⟨(hh j g hg).1, fun other c hc => ?_⟩
    rw [Frame.get?_define] at hc
    split at hc
    · cases hc
      exact hv c rfl
    · exact (hh j g hg).2 other c hc
  · exact hh j f hf

/-- A new root binds no function of a program. -/
theorem pushRoot (hh : h.WellFormed) : (h.push globalFrame).WellFormed := by
  intro i f hf
  unfold Heap.push at hf
  rw [Array.getElem?_push] at hf
  rw [size_push]
  split at hf
  · cases hf
    obtain ⟨hparent, hvalue⟩ := WellFormed.initial 0 globalFrame rfl
    exact ⟨nofun, fun name c hc => Nat.lt_of_lt_of_le (hvalue name c hc) (Nat.le_add_left 1 _)⟩
  · obtain ⟨hparent, hvalue⟩ := hh i f hf
    exact ⟨hparent, fun name c hc => Nat.lt_succ_of_lt (hvalue name c hc)⟩

end WellFormed
end Heap

/-! ## One run as a growing heap -/

theorem Value.Within.mono {S S' : FrameId → Prop} (hS : ∀ i, S i → S' i) {v : Value} (hv : v.Within S) :
    v.Within S' :=
  fun c hc => hS _ (hv c hc)

theorem Value.moved_self_iff {S : FrameId → Prop} {v v' : Value} :
    Value.Moved (fun i j => i = j ∧ S i) v v' ↔ v = v' ∧ v.Within S := by
  constructor
  · intro h
    cases h with
    | same h => exact ⟨rfl, fun c hc => absurd hc (h c)⟩
    | @function c d h =>
      obtain ⟨hi, hn, hp, ⟨hf, hs⟩, hb⟩ := h
      cases c
      cases d
      simp_all [Value.Within]
  · rintro ⟨rfl, hv⟩
    cases v with
    | function c => exact .function ⟨rfl, rfl, rfl, ⟨rfl, hv c rfl⟩, rfl⟩
    | number | string | boolean | nil | native => exact .same nofun

namespace Eval

/-- A world in which that many frames have been made. -/
structure FrameCount where
  count : Nat

instance : Preorder FrameCount where
  le w w' := w.count ≤ w'.count
  le_refl _ := Nat.le_refl _
  le_trans _ _ _ := Nat.le_trans

/-- One run, on heaps that are well-formed. -/
def ancestry : Growth FrameCount where
  Heaps w h k := h = k ∧ h.frames.size = w.count ∧ h.WellFormed
  Frames w i j := i = j ∧ i < w.count
  Homes _ i j _ := i = j
  frames_mono hw _ _ h := ⟨h.1, Nat.lt_of_lt_of_le h.2 hw⟩
  homes_mono _ _ _ _ := id
  get := by
    rintro w h _ ⟨rfl, hsize, hh⟩ i _ ⟨rfl, -⟩ name
    cases hv : h.get? i name with
    | none => exact .none
    | some v =>
      have hwithin := hh.get? hv
      rw [hsize] at hwithin
      exact .some (Value.moved_self_iff.2 ⟨rfl, hwithin⟩)
  assign := by
    rintro w h _ ⟨rfl, hsize, hh⟩ i _ ⟨rfl, -⟩ name
    cases h.owner? name i with
    | none => exact .none
    | some o =>
      refine .some fun v v' hv => ?_
      obtain ⟨rfl, hwithin⟩ := Value.moved_self_iff.1 hv
      rw [← hsize] at hwithin
      exact ⟨rfl, by rw [Heap.size_define, hsize], hh.define o name hwithin⟩
  define := by
    rintro w h _ ⟨rfl, hsize, hh⟩ i _ name rfl v v' hv
    obtain ⟨rfl, hwithin⟩ := Value.moved_self_iff.1 hv
    rw [← hsize] at hwithin
    exact ⟨rfl, by rw [Heap.size_define, hsize], hh.define i name hwithin⟩
  push := by
    rintro w h _ ⟨rfl, hsize, hh⟩ i _ ⟨rfl, hi⟩
    refine ⟨⟨w.count + 1⟩, Nat.le_succ _, ⟨rfl, by rw [Heap.size_push, hsize], hh.push ?_⟩, ⟨rfl, ?_⟩, fun _ => rfl⟩
    · rw [hsize]
      exact hi
    · rw [hsize]
      exact Nat.lt_succ_self _
  functions := by
    rintro w h _ ⟨rfl, hsize, hh⟩
    exact ⟨rfl, rfl, hsize, hh⟩

end Eval

/-! ## Use from outside -/

/-- A way to use a machine. -/
inductive Action where
  | interpret (program : Program)
  | block (frame : FrameId) (body : List Stmt)
  | stmt (frame : FrameId) (s : Stmt)
  | expr (frame : FrameId) (e : Expr)
  | newRoot
  | newChild (parent : FrameId)
  | get (frame : FrameId) (name : Token)
  | define (frame : FrameId) (name : String) (value : Value)
  | assign (frame : FrameId) (name : Token) (value : Value)
  | call (callee : Value) (args : List Value)

/-- The value that a statement hands out. -/
def Flow.value? : Flow → Option Value
  | .normal => none
  | .returned v => some v

/-- Makes a root, which binds the native functions. -/
def EvalM.newRoot : EvalM Unit := .of fun m => .ok () { m with heap := m.heap.push Heap.globalFrame }

namespace Action

/-- The frames that the action names. -/
def frames : Action → List FrameId
  | .block frame _ | .stmt frame _ | .expr frame _ | .newChild frame | .get frame _ | .define frame _ _
  | .assign frame _ _ => [frame]
  | .interpret _ | .newRoot | .call _ _ => []

/-- The values that the action passes on. -/
def values : Action → List Value
  | .define _ _ v | .assign _ _ v => [v]
  | .call callee args => callee :: args
  | .interpret _ | .block _ _ | .stmt _ _ | .expr _ _ | .newRoot | .newChild _ | .get _ _ => []

/-- Carries the action out. It may hand out a value. -/
def perform (cfg : Config) (fuel : Nat) : Action → EvalM (Option Value)
  | .interpret program => do
    evalProgram cfg fuel program
    return none
  | .block frame body => return (← evalBlock cfg fuel frame body).value?
  | .stmt frame s => return (← evalStmt cfg fuel frame s).value?
  | .expr frame e => return some (← evalExpr cfg fuel frame e)
  | .newRoot => do
    EvalM.newRoot
    return none
  | .newChild parent => do
    let _ ← newFrame parent
    return none
  | .get frame name => return some (← readVar frame name)
  | .define frame name value => do
    defineVar frame name value
    return none
  | .assign frame name value => do
    assignVar frame name value
    return none
  | .call (.function f) args => return some (← applyClosure cfg fuel f args)
  | .call (.native _) _ => return some (← readClock cfg)
  | .call _ _ => return none

/-- What has been handed out once the action is over, if `values` had been before. -/
def handedOut (cfg : Config) (fuel : Nat) (a : Action) (m : Machine) (values : List Value) : List Value :=
  match (a.perform cfg fuel).result m with
  | .ok (some v) => v :: values
  | _ => values

end Action

/-- A new machine comes to be this one by actions, whichever way these end, and has handed out the values.
A function can be passed on only after it was handed out. -/
inductive Machine.Reached : Machine → List Value → Prop where
  | new : Reached .initial []
  | act {m vs} (hm : Reached m vs) (cfg : Config) (fuel : Nat) (a : Action)
    (hframes : ∀ i ∈ a.frames, i < m.heap.frames.size)
    (hvalues : ∀ c, .function c ∈ a.values → .function c ∈ vs) :
    Reached ((a.perform cfg fuel).after m) (a.handedOut cfg fuel m vs)

/-! ## What actions keep -/

namespace Eval

open Growth

section
variable {w : FrameCount}

/-- A computation that goes on to hand out something of what it came to. -/
theorem Growth.Sim.handsOut {W α β : Type} [Preorder W] {G : Growth W} {w : W} {Q : W → α → β → Prop}
    {x : EvalM α} {y : EvalM β} {f : α → Option Value} {g : β → Option Value} (h : G.Sim w Q x y)
    (hfg : ∀ w' a b, Q w' a b → Option.Rel (G.Values w') (f a) (g b)) :
    G.Sim w (fun w' => Option.Rel (G.Values w')) (do return f (← x)) (do return g (← y)) := by
  refine h.bind fun w' _ a b hab => .pure fun w'' hw => ?_
  have hrel := hfg w' a b hab
  generalize f a = o at hrel ⊢
  generalize g b = o' at hrel ⊢
  cases hrel with
  | none => exact .none
  | some hv => exact .some (G.values_mono hw hv)

theorem sim_newRoot : ancestry.Sim w (fun _ _ _ => True) newRoot newRoot := by
  intro w' _ m n hmn
  obtain ⟨⟨hsame, hsize, hh⟩, hdepth, hticks, hprinted⟩ := hmn
  refine ⟨⟨w'.count + 1⟩, Nat.le_succ _, ?_⟩
  rw [newRoot, Deep.run_of, Deep.run_of, ← hsame]
  exact .ok trivial ⟨⟨rfl, by rw [Heap.size_push, hsize], hh.pushRoot⟩, hdepth, hticks, hprinted⟩

theorem Flow.value?_corr {f g : Flow} (h : ancestry.Flows w f g) :
    Option.Rel (ancestry.Values w) f.value? g.value? := by
  cases h with
  | normal => exact .none
  | returned _ hv => exact .some hv

theorem sim_applyClosure (cfg : Config) (fuel : Nat) {f : Closure} {args : List Value}
    (hf : f.frame < w.count) (hargs : List.Forall₂ (ancestry.Values w) args args) :
    ancestry.Sim w ancestry.Values (applyClosure cfg fuel f args) (applyClosure cfg fuel f args) :=
  ancestry.sim_callClosure (fun hij => (ancestry.sim_eval cfg fuel hij).2)
    ⟨rfl, rfl, rfl, ⟨rfl, hf⟩, rfl⟩ hargs

/-- An action on frames that are there, with functions that see such frames, hands out a value of that
kind. -/
theorem sim_perform (cfg : Config) (fuel : Nat) (a : Action) (hw : 0 < w.count)
    (hframes : ∀ i ∈ a.frames, i < w.count) (hvalues : ∀ v ∈ a.values, v.Within (· < w.count)) :
    ancestry.Sim w (fun w' => Option.Rel (ancestry.Values w')) (a.perform cfg fuel) (a.perform cfg fuel) := by
  have heval {i : FrameId} (hi : i < w.count) := ancestry.sim_eval cfg fuel (w := w) (i := i) ⟨rfl, hi⟩
  cases a with
  | interpret program =>
    rw [Action.perform, evalProgram_eq]
    exact (ancestry.sim_runEach fun s _ => (heval hw).2 s fun _ _ => rfl).handsOut fun _ _ _ _ => .none
  | block frame body =>
    have hi : frame < w.count := hframes frame (List.mem_singleton_self _)
    exact (ancestry.sim_runAll fun s _ => (heval hi).2 s fun _ _ => rfl).handsOut
      fun _ _ _ => Flow.value?_corr
  | stmt frame s =>
    have hi : frame < w.count := hframes frame (List.mem_singleton_self _)
    exact ((heval hi).2 s fun _ _ => rfl).handsOut fun _ _ _ => Flow.value?_corr
  | expr frame e =>
    have hi : frame < w.count := hframes frame (List.mem_singleton_self _)
    exact ((heval hi).1 e).handsOut fun _ _ _ => .some
  | newRoot => exact sim_newRoot.handsOut fun _ _ _ _ => .none
  | newChild parent =>
    have hi : parent < w.count := hframes parent (List.mem_singleton_self _)
    exact (ancestry.sim_newFrame ⟨rfl, hi⟩).handsOut fun _ _ _ _ => .none
  | get frame name =>
    have hi : frame < w.count := hframes frame (List.mem_singleton_self _)
    exact (ancestry.sim_readVar ⟨rfl, hi⟩ name).handsOut fun _ _ _ => .some
  | define frame name v =>
    have hv : v.Within (· < w.count) := hvalues v (List.mem_singleton_self _)
    exact (ancestry.sim_defineVar rfl (Value.moved_self_iff.2 ⟨rfl, hv⟩)).handsOut fun _ _ _ _ => .none
  | assign frame name v =>
    have hi : frame < w.count := hframes frame (List.mem_singleton_self _)
    have hv : v.Within (· < w.count) := hvalues v (List.mem_singleton_self _)
    exact (ancestry.sim_assignVar ⟨rfl, hi⟩ name (Value.moved_self_iff.2 ⟨rfl, hv⟩)).handsOut
      fun _ _ _ _ => .none
  | call callee args =>
    rw [Action.values, List.forall_mem_cons] at hvalues
    cases callee with
    | function f =>
      have hargs : List.Forall₂ (ancestry.Values w) args args :=
        List.forall₂_same.2 fun v hv => Value.moved_self_iff.2 ⟨rfl, hvalues.2 v hv⟩
      exact (sim_applyClosure cfg fuel (hvalues.1 f rfl) hargs).handsOut fun _ _ _ => .some
    | native f => exact (ancestry.sim_readClock cfg).handsOut fun _ _ _ => .some
    | number | string | boolean | nil => exact .pure fun _ _ => .none

end
end Eval

/-- What holds of every machine that can be reached: its heap is well-formed and has a global frame, and
functions that it has handed out see frames that are there. -/
structure Machine.Sound (m : Machine) (vs : List Value) : Prop where
  heap : m.heap.WellFormed
  globals : Heap.globals < m.heap.frames.size
  values : ∀ v ∈ vs, v.Within (· < m.heap.frames.size)

theorem Machine.Sound.act {m : Machine} {vs : List Value} (hm : m.Sound vs) (cfg : Config) (fuel : Nat)
    (a : Action) (hframes : ∀ i ∈ a.frames, i < m.heap.frames.size)
    (hvalues : ∀ c, .function c ∈ a.values → .function c ∈ vs) :
    ((a.perform cfg fuel).after m).Sound (a.handedOut cfg fuel m vs) := by
  have hgiven : ∀ v ∈ a.values, v.Within (· < m.heap.frames.size) := by
    rintro v hv c rfl
    exact hm.values _ (hvalues c hv) c rfl
  have hmachines : ancestry.Machines ⟨m.heap.frames.size⟩ m m := ⟨⟨rfl, rfl, hm.heap⟩, rfl, rfl, rfl⟩
  obtain ⟨w, hw, hends⟩ := sim_perform cfg fuel a hm.globals hframes hgiven _ (le_refl _) m m hmachines
  unfold Deep.after Action.handedOut Deep.result
  generalize (a.perform cfg fuel).run m = r at hends ⊢
  have hkept {n : Machine} (hn : ancestry.Machines w n n) : n.Sound vs := by
    obtain ⟨-, hsize, hheap⟩ := hn.heap
    refine ⟨hheap, ?_, fun v hv => (hm.values v hv).mono fun i hi => ?_⟩
    · rw [hsize]
      exact Nat.lt_of_lt_of_le hm.globals hw
    · rw [hsize]
      exact Nat.lt_of_lt_of_le hi hw
  cases r with
  | error e n =>
    cases hends with
    | error _ hn => exact hkept hn
  | ok o n =>
    cases hends with
    | ok ho hn =>
      cases o with
      | none => exact hkept hn
      | some v =>
        cases ho with
        | some hv =>
          obtain ⟨-, hwithin⟩ := Value.moved_self_iff.1 hv
          rw [← hn.heap.2.1] at hwithin
          exact { hkept hn with values := List.forall_mem_cons.2 ⟨hwithin, (hkept hn).values⟩ }

theorem Machine.Reached.sound {m : Machine} {vs : List Value} (h : m.Reached vs) : m.Sound vs := by
  induction h with
  | new => exact ⟨.initial, Nat.zero_lt_one, nofun⟩
  | act _ cfg fuel a hframes hvalues ih => exact ih.act cfg fuel a hframes hvalues

/-- A frame is made inside an older one, and functions see frames that are there. So every chain of parents
ends in a root and gets no frame twice, and a look-up comes to an end without coming to a frame that it still
holds; it gives what reading and assigning go by. -/
theorem frames_form_a_forest {m : Machine} {vs : List Value} (h : m.Reached vs) :
    (∀ (i : FrameId) (f : Frame) (p : FrameId), m.heap.frames[i]? = some f → f.parent = some p → p < i) ∧
      (∀ (i : FrameId) (f : Frame) (name : String) (c : Closure), m.heap.frames[i]? = some f →
        f.get? name = some (.function c) → c.frame < m.heap.frames.size) ∧
      (∀ c, .function c ∈ vs → c.frame < m.heap.frames.size) ∧
      ∀ i, i < m.heap.frames.size → (∃ l, m.heap.Chain i l ∧ l.Nodup) ∧
        ∀ name o, m.heap.Walk name [] i o ↔ o = m.heap.owner? name i := by
  have hm := h.sound
  refine ⟨fun i f p hf => (hm.heap i f hf).1 p, fun i f name c hf => (hm.heap i f hf).2 name c,
    fun c hc => hm.values _ hc c rfl, fun i hi => ⟨?_, fun name o => ?_⟩⟩
  · obtain ⟨l, hl, hsorted, -⟩ := hm.heap.chain hi
    exact ⟨l, hl, hsorted.imp Nat.ne_of_gt⟩
  · have hwalk : m.heap.Walk name [] i (m.heap.owner? name i) := hm.heap.walk hi nofun
    exact ⟨fun hw => hw.unique hwalk, fun ho => ho ▸ hwalk⟩

namespace HandedOut

/-! `fun f() { fun g() {} return g; }` is executed, `f()` hands out a function that sees the frame of the call,
and then a variable is read that is bound nowhere. -/

def cfg : Config := ⟨8, fun _ => 0⟩

def word (lexeme : String) : Token := ⟨.identifier, lexeme, none, 1⟩

def declareF : Action :=
  .stmt Heap.globals (.funDecl 0 (word "f") []
    [.funDecl 0 (word "g") [] [], .ret 0 (word "return") (some (.var 0 (word "g")))])

def callF : Action := .expr Heap.globals (.call 0 (.var 0 (word "f")) (word ")") [])

def readX : Action := .get 1 (word "x")

def declared : Machine := (declareF.perform cfg 9).after .initial

def called : Machine := (callF.perform cfg 9).after declared

def failed : Machine := (readX.perform cfg 9).after called

def values : List Value :=
  readX.handedOut cfg 9 called (callF.handedOut cfg 9 declared (declareF.handedOut cfg 9 .initial []))

theorem reached : failed.Reached values := by
  have hdeclared : declared.Reached (declareF.handedOut cfg 9 .initial []) :=
    Machine.Reached.new.act cfg 9 declareF (by decide +kernel) nofun
  have hcalled := hdeclared.act cfg 9 callF (by decide +kernel) nofun
  exact hcalled.act cfg 9 readX (by decide +kernel) nofun

end HandedOut

theorem frames_form_a_forest_handed_out :
    HandedOut.failed.Reached HandedOut.values ∧ HandedOut.values.length = 1 ∧
      HandedOut.failed.heap.frames.size = 2 ∧ ∃ l, HandedOut.failed.heap.Chain 1 l ∧ l.Nodup := by
  have hreached := HandedOut.reached
  have hsize : HandedOut.failed.heap.frames.size = 2 := by decide +kernel
  obtain ⟨-, -, -, hchains⟩ := frames_form_a_forest hreached
  exact ⟨hreached, by decide +kernel, hsize, (hchains 1 (by rw [hsize]; decide)).1⟩

end Lox
