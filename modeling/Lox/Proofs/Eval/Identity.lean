import Lox.Proofs.Eval.Lookup
import Lox.Proofs.Eval.Origin
import Mathlib.Logic.Relation

/-!
# Which functions are equal

A function is equal to itself only, and what makes it itself is the execution of the function statement that it
comes from. One declaration makes another function each time it is executed, also in the same frame.

**Courses.** What a run does to values is told step by step: a function statement makes a function, a name is read
or bound, a frame is made. A `Course` has the heap at a point of a run, all values that have come up to then, and
the functions that were made, in the order in which function statements were executed. So `made[k]?` is the
function of the `k`th execution, and a function stems from it if it is this one. A value can be bound only after
it has come up, and nothing but a function statement makes a function.

**Results.**
* `Course.Sound.step`, `Course.Leads.sound`: the `k`th function has identity `k`, and there are no others.
* `follows_eval`, `follows_perform`: evaluation and actions are a course, whichever way they end.
* `Machine.Reached.course`: so is all that has been done with a machine.
* `Course.Sound.funDecl`: what a function statement makes.
* `passes`, `passesCall`: values come out of variables, assignments, returns and arguments as they went in.
* `equal_functions_stem_from_one_execution`: the results for every machine that can be reached.
-/
namespace Lox

open EvalM Eval

/-! ## Values in frames -/

namespace Heap

/-- Some name is bound to the value in some frame. -/
def Binds (h : Heap) (v : Value) : Prop :=
  ∃ (i : FrameId) (f : Frame) (name : String), h.frames[i]? = some f ∧ f.get? name = some v

variable {h : Heap} {v w : Value} {i : FrameId} {name : String}

theorem binds_of_get? (hv : h.get? i name = some v) : h.Binds v := by
  simp only [get?, Option.bind_eq_bind, Option.bind_eq_some_iff] at hv
  obtain ⟨o, -, f, hf, hget⟩ := hv
  exact ⟨o, f, name, hf, hget⟩

theorem binds_define (hw : (h.define i name v).Binds w) : w = v ∨ h.Binds w := by
  obtain ⟨j, f, other, hf, hget⟩ := hw
  unfold define at hf
  rw [Array.getElem?_modify] at hf
  split at hf
  · obtain ⟨g, hg, rfl⟩ := Option.map_eq_some_iff.1 hf
    rw [Frame.get?_define] at hget
    split at hget
    · cases hget
      exact .inl rfl
    · exact .inr ⟨j, g, other, hg, hget⟩
  · exact .inr ⟨j, f, other, hf, hget⟩

theorem binds_push {f : Frame} (hw : (h.push f).Binds w) : h.Binds w ∨ ∃ other, f.get? other = some w := by
  obtain ⟨j, g, other, hg, hget⟩ := hw
  unfold push at hg
  rw [Array.getElem?_push] at hg
  split at hg
  · cases hg
    exact .inr ⟨other, hget⟩
  · exact .inl ⟨j, g, other, hg, hget⟩

/-- A new root binds no function of a program. -/
theorem get?_globalFrame (f : Closure) : globalFrame.get? name ≠ some (.function f) := by
  intro hget
  change Bindings.get? name [(Native.clock.name, .native .clock)] = _ at hget
  simp only [Bindings.get?] at hget
  split at hget <;> cases hget

end Heap

/-! ## Courses -/

/-- A point of a run: its heap, the values that have come up, and the functions that were made, in order. -/
structure Course where
  heap : Heap
  seen : List Value
  made : List Closure

namespace Course

def initial : Course := ⟨.initial, [], []⟩

/-- The next thing that a run does. -/
inductive Step : Course → Course → Prop where
  /-- A function statement makes a function. -/
  | declare {m n vs fs f} {frame : FrameId} {name : Token} {params : List Token} {body : List Stmt}
    (hf : (newFunction frame name params body).run m = .ok (.function f) n) :
    Step ⟨m.heap, vs, fs⟩ ⟨n.heap, .function f :: vs, fs ++ [f]⟩
  /-- A name is read. -/
  | read {h vs fs v} {frame : FrameId} {name : String} (hv : h.get? frame name = some v) :
    Step ⟨h, vs, fs⟩ ⟨h, v :: vs, fs⟩
  /-- A value comes up that is no function of a program. -/
  | plain {h vs fs} {v : Value} (hv : ∀ f, v ≠ .function f) : Step ⟨h, vs, fs⟩ ⟨h, v :: vs, fs⟩
  /-- A name is bound to a value that has come up. -/
  | bind {h vs fs} {v : Value} (frame : FrameId) (name : String) (hv : v ∈ vs) :
    Step ⟨h, vs, fs⟩ ⟨h.define frame name v, vs, fs⟩
  /-- A frame is made. -/
  | push {h vs fs} (parent : FrameId) : Step ⟨h, vs, fs⟩ ⟨h.push ⟨some parent, []⟩, vs, fs⟩
  /-- A root is made. -/
  | pushRoot {h vs fs} : Step ⟨h, vs, fs⟩ ⟨h.push Heap.globalFrame, vs, fs⟩

/-- The second point comes after the first one. -/
abbrev Leads : Course → Course → Prop := Relation.ReflTransGen Step

/-- The function has come up and may be in use, or it is bound in a frame. -/
def Holds (c : Course) (f : Closure) : Prop := .function f ∈ c.seen ∨ c.heap.Binds (.function f)

/-! ## Identities -/

/-- Functions are numbered in the order in which they were made, and there are no others. -/
structure Sound (c : Course) : Prop where
  count : c.heap.functions = c.made.length
  identity : ∀ (k : Nat) (f : Closure), c.made[k]? = some f → f.identity = k
  origin : ∀ f, c.Holds f → f ∈ c.made

variable {b c d : Course}

theorem sound_initial : initial.Sound where
  count := rfl
  identity := by
    intro k f hf
    cases hf
  origin := by
    rintro f (hf | ⟨i, g, name, hg, hget⟩)
    · cases hf
    · obtain ⟨hi, rfl⟩ := Array.getElem?_eq_some_iff.1 hg
      obtain rfl : i = 0 := Nat.lt_one_iff.1 hi
      exact (Heap.get?_globalFrame f hget).elim

/-- A step without a function statement keeps the numbering if what is held afterwards was held before. -/
theorem Sound.keep (hc : c.Sound) (hfunctions : d.heap.functions = c.heap.functions) (hmade : d.made = c.made)
    (hholds : ∀ f, d.Holds f → c.Holds f) : d.Sound where
  count := by rw [hfunctions, hmade, hc.count]
  identity := by
    rw [hmade]
    exact hc.identity
  origin f hf := by
    rw [hmade]
    exact hc.origin f (hholds f hf)

theorem Sound.step (h : c.Step d) (hc : c.Sound) : d.Sound := by
  cases h with
  | @declare m n vs fs f frame name params body hf =>
    rw [newFunction, Deep.run_of] at hf
    cases hf
    have hnumber : m.heap.functions = fs.length := hc.count
    refine ⟨?_, fun k g hg => ?_, ?_⟩
    · rw [List.length_append, ← hnumber]
      rfl
    · rw [List.getElem?_append] at hg
      split at hg
      · exact hc.identity k g hg
      · rw [List.getElem?_singleton] at hg
        split at hg
        · cases hg
          show m.heap.functions = k
          omega
        · cases hg
    · rintro g (hg | hg)
      · rcases List.mem_cons.1 hg with hg | hg
        · cases hg
          exact List.mem_append_right _ (List.mem_singleton_self _)
        · exact List.mem_append_left _ (hc.origin g (.inl hg))
      · exact List.mem_append_left _ (hc.origin g (.inr hg))
  | @read h vs fs v frame name hv =>
    refine hc.keep rfl rfl ?_
    rintro f (hf | hf)
    · rcases List.mem_cons.1 hf with rfl | hf
      · exact .inr (Heap.binds_of_get? hv)
      · exact .inl hf
    · exact .inr hf
  | @plain h vs fs v hv =>
    refine hc.keep rfl rfl ?_
    rintro f (hf | hf)
    · rcases List.mem_cons.1 hf with hf | hf
      · exact absurd hf.symm (hv f)
      · exact .inl hf
    · exact .inr hf
  | @bind h vs fs v frame name hv =>
    refine hc.keep rfl rfl ?_
    rintro f (hf | hf)
    · exact .inl hf
    · rcases Heap.binds_define hf with rfl | hf
      · exact .inl hv
      · exact .inr hf
  | @push h vs fs parent =>
    refine hc.keep rfl rfl ?_
    rintro f (hf | hf)
    · exact .inl hf
    · rcases Heap.binds_push hf with hf | ⟨name, hf⟩
      · exact .inr hf
      · cases hf
  | @pushRoot h vs fs =>
    refine hc.keep rfl rfl ?_
    rintro f (hf | hf)
    · exact .inl hf
    · rcases Heap.binds_push hf with hf | ⟨name, hf⟩
      · exact .inr hf
      · exact (Heap.get?_globalFrame f hf).elim

theorem Leads.sound (h : c.Leads d) (hc : c.Sound) : d.Sound := by
  induction h with
  | refl => exact hc
  | tail _ hs ih => exact ih.step hs

theorem Step.seen_subset (h : c.Step d) : c.seen ⊆ d.seen := by
  cases h with
  | declare | read | plain => exact List.subset_cons_self _ _
  | bind | push | pushRoot => exact List.Subset.refl _

theorem Leads.seen_subset (h : c.Leads d) : c.seen ⊆ d.seen := by
  induction h with
  | refl => exact List.Subset.refl _
  | tail _ hs ih => exact List.Subset.trans ih hs.seen_subset

/-- A function that is held was made by one execution, which has the number of its identity. -/
theorem Sound.made_identity (hc : c.Sound) {f : Closure} (hf : c.Holds f) : c.made[f.identity]? = some f := by
  obtain ⟨k, hk⟩ := List.getElem?_of_mem (hc.origin f hf)
  rw [hc.identity k f hk]
  exact hk

theorem Sound.existsUnique_made (hc : c.Sound) {f : Closure} (hf : c.Holds f) :
    ∃! k : Nat, c.made[k]? = some f :=
  ⟨f.identity, hc.made_identity hf, fun k hk => (hc.identity k f hk).symm⟩

theorem Sound.equals_iff (hc : c.Sound) {f g : Closure} (hf : c.Holds f) (hg : c.Holds g) :
    (Value.function f).equals (.function g) = true ↔ ∃ k : Nat, c.made[k]? = some f ∧ c.made[k]? = some g := by
  rw [Value.equals, beq_iff_eq]
  constructor
  · intro h
    refine ⟨f.identity, hc.made_identity hf, ?_⟩
    rw [h]
    exact hc.made_identity hg
  · rintro ⟨k, hf, hg⟩
    rw [hc.identity k f hf, hc.identity k g hg]

theorem Sound.eq_of_equals (hc : c.Sound) {f g : Closure} (hf : c.Holds f) (hg : c.Holds g)
    (h : (Value.function f).equals (.function g) = true) : f = g := by
  obtain ⟨k, hkf, hkg⟩ := (hc.equals_iff hf hg).1 h
  exact Option.some.inj (hkf.symm.trans hkg)

/-- A function that is made differs from all functions that were held before. -/
theorem Sound.fresh (hc : c.Sound) {f g : Closure} (hf : f.identity = c.heap.functions) (hg : c.Holds g) :
    (Value.function f).equals (.function g) = false := by
  have hlt : g.identity < c.made.length := (List.getElem?_eq_some_iff.1 (hc.made_identity hg)).1
  rw [← hc.count, ← hf] at hlt
  exact beq_false_of_ne (Nat.ne_of_gt hlt)

end Course

/-! ## Evaluation is a course -/

namespace Eval

/-- From every point behind `c` the computation goes on with the course, whichever way it ends. If it ends with a
value, `Q` holds of it at the point that it has come to. -/
def Follows {α : Type} (c : Course) (Q : Course → α → Prop) (x : EvalM α) : Prop :=
  ∀ b, c.Leads b → ∀ m : Machine, m.heap = b.heap →
    (x.run m).fold (fun a n => ∃ d, b.Leads d ∧ n.heap = d.heap ∧ Q d a)
      fun _ n => ∃ d, b.Leads d ∧ n.heap = d.heap

/-- The value has come up. -/
def Seen (c : Course) (v : Value) : Prop := v ∈ c.seen

/-- All of the values have come up. -/
def AllSeen (c : Course) (vs : List Value) : Prop := ∀ v ∈ vs, v ∈ c.seen

/-- If the statement has returned, then a value that has come up. -/
def FlowSeen (c : Course) (f : Flow) : Prop := ∀ v, f = .returned v → v ∈ c.seen

section
variable {α β : Type} {c : Course} {Q : Course → α → Prop} {R : Course → β → Prop} {x : EvalM α}

theorem Follows.pure {a : α} (h : ∀ b, c.Leads b → Q b a) : Follows c Q (pure a) :=
  fun b hb _ hm => ⟨b, .refl, hm, h b hb⟩

theorem Follows.throw {e : Stop} : Follows c Q (throw e) := fun b _ _ hm => ⟨b, .refl, hm⟩

/-- What follows a later point follows an earlier one. -/
theorem fold_of_leads {b d : Course} (hbd : b.Leads d) {r : Ending Stop Machine α}
    (h : r.fold (fun a n => ∃ e, d.Leads e ∧ n.heap = e.heap ∧ Q e a) fun _ n => ∃ e, d.Leads e ∧ n.heap = e.heap) :
    r.fold (fun a n => ∃ e, b.Leads e ∧ n.heap = e.heap ∧ Q e a) fun _ n => ∃ e, b.Leads e ∧ n.heap = e.heap := by
  cases r with
  | ok a n =>
    obtain ⟨e, he, hn, hq⟩ := h
    exact ⟨e, hbd.trans he, hn, hq⟩
  | error s n =>
    obtain ⟨e, he, hn⟩ := h
    exact ⟨e, hbd.trans he, hn⟩

theorem Follows.bind {f : α → EvalM β} (hx : Follows c Q x)
    (hf : ∀ b, c.Leads b → ∀ a, Q b a → Follows b R (f a)) : Follows c R (x >>= f) := by
  intro b hb m hm
  have hends := hx b hb m hm
  rw [Deep.run_bind]
  generalize x.run m = r at hends ⊢
  cases r with
  | error e n => exact hends
  | ok a n =>
    obtain ⟨d, hbd, hn, hq⟩ := hends
    exact fold_of_leads hbd (hf d (hb.trans hbd) a hq d .refl n hn)

theorem Follows.later {x : Unit → EvalM α} (h : Follows c Q (x ())) : Follows c Q (.later x) := by
  intro b hb m hm
  rw [Deep.run_later]
  exact h b hb m hm

theorem Follows.leaving {f : Machine → Machine} (h : Follows c Q x) (hf : ∀ m, (f m).heap = m.heap) :
    Follows c Q (x.leaving f) := by
  intro b hb m hm
  have hends := h b hb m hm
  rw [Deep.run_leaving]
  generalize x.run m = r at hends ⊢
  cases r with
  | ok a n =>
    obtain ⟨d, hd, hn, hq⟩ := hends
    exact ⟨d, hd, (hf n).trans hn, hq⟩
  | error e n =>
    obtain ⟨d, hd, hn⟩ := hends
    exact ⟨d, hd, (hf n).trans hn⟩

/-- An operation that never stops and goes on with the course by the given steps. -/
theorem Follows.of {f : Machine → α} {g : Machine → Machine}
    (h : ∀ b, c.Leads b → ∀ m, m.heap = b.heap → ∃ d, b.Leads d ∧ (g m).heap = d.heap ∧ Q d (f m)) :
    Follows c Q (.of fun m => .ok (f m) (g m)) := by
  intro b hb m hm
  rw [Deep.run_of]
  exact h b hb m hm

theorem Follows.mapM {γ : Type} {f : γ → EvalM Value} {l : List γ}
    (h : ∀ b, c.Leads b → ∀ a ∈ l, Follows b Seen (f a)) : Follows c AllSeen (l.mapM f) := by
  induction l generalizing c with
  | nil => exact .pure fun _ _ _ hv => (List.not_mem_nil hv).elim
  | cons a l ih =>
    rw [List.mapM_cons]
    refine (h c .refl a List.mem_cons_self).bind fun b hb v hv => ?_
    refine (ih fun d hd a' ha => h d (hb.trans hd) a' (List.mem_cons_of_mem a ha)).bind fun d hd vs hvs => ?_
    refine .pure fun d' hd' => List.forall_mem_cons.2 ⟨?_, fun w hw => hd'.seen_subset (hvs w hw)⟩
    exact Course.Leads.seen_subset (hd.trans hd') hv

end

/-! ### Operations of a machine -/

section
variable {c : Course}

theorem follows_print (line : String) : Follows c (fun _ _ => True) (print line) :=
  .of fun b _ _ hm => ⟨b, .refl, hm, trivial⟩

theorem follows_callDepth : Follows c (fun _ _ => True) callDepth := .of fun b _ _ hm => ⟨b, .refl, hm, trivial⟩

theorem ofLiteral_ne_function (l : Literal) (f : Closure) : Value.ofLiteral l ≠ .function f := by
  cases l <;> intro h <;> cases h

/-- A value that is no function of a program may come up at any time. -/
theorem Follows.plain {v : Value} (hv : ∀ f, v ≠ .function f) : Follows c Seen (Pure.pure v) :=
  fun _ _ _ hm => ⟨_, .single (.plain hv), hm, List.mem_cons_self⟩

theorem follows_readClock (cfg : Config) : Follows c Seen (readClock cfg) := by
  intro b _ m hm
  rw [run_readClock]
  refine ⟨_, .single (.plain ?_), hm, List.mem_cons_self⟩
  intro f hf
  cases hf

theorem follows_newFrame (parent : FrameId) : Follows c (fun _ _ => True) (newFrame parent) := by
  refine .of fun b _ m hm => ⟨_, .single (.push parent), ?_, trivial⟩
  dsimp only
  rw [hm]

theorem follows_newFunction (frame : FrameId) (name : Token) (params : List Token) (body : List Stmt) :
    Follows c Seen (newFunction frame name params body) := by
  rintro ⟨h, vs, fs⟩ - m rfl
  exact ⟨_, .single (.declare (Deep.run_of _ m)), rfl, List.mem_cons_self⟩

theorem follows_readVar (frame : FrameId) (name : Token) : Follows c Seen (readVar frame name) := by
  intro b _ m hm
  rw [readVar, Deep.run_of, hm]
  cases hv : b.heap.get? frame name.lexeme with
  | none => exact ⟨b, .refl, hm⟩
  | some v => exact ⟨_, .single (.read hv), hm, List.mem_cons_self⟩

theorem follows_defineVar (frame : FrameId) (name : String) {v : Value} (hv : v ∈ c.seen) :
    Follows c (fun _ _ => True) (defineVar frame name v) := by
  refine .of fun b hb m hm => ⟨_, .single (.bind frame name (hb.seen_subset hv)), ?_, trivial⟩
  dsimp only
  rw [hm]

theorem follows_assignVar (frame : FrameId) (name : Token) {v : Value} (hv : v ∈ c.seen) :
    Follows c (fun _ _ => True) (assignVar frame name v) := by
  intro b hb m hm
  rw [assignVar, Deep.run_of, hm]
  cases b.heap.owner? name.lexeme frame with
  | none => exact ⟨b, .refl, hm⟩
  | some o => exact ⟨_, .single (.bind o name.lexeme (hb.seen_subset hv)), rfl, trivial⟩

/-- Parameters are bound one after the other. -/
theorem leads_defineAll (c : Course) (frame : FrameId) (names : List String) {vs : List Value}
    (hvs : ∀ v ∈ vs, v ∈ c.seen) : c.Leads { c with heap := c.heap.defineAll frame names vs } := by
  induction names generalizing c vs with
  | nil => exact .refl
  | cons name names ih =>
    cases vs with
    | nil => exact .refl
    | cons v vs =>
      rw [List.forall_mem_cons] at hvs
      exact .head (.bind frame name hvs.1) (ih { c with heap := c.heap.define frame name v } hvs.2)

theorem follows_bindParams (frame : FrameId) (params : List String) {args : List Value}
    (ha : ∀ v ∈ args, v ∈ c.seen) : Follows c (fun _ _ => True) (bindParams frame params args) := by
  refine .of fun b hb m hm => ⟨_, leads_defineAll b frame params fun v hv => hb.seen_subset (ha v hv), ?_, trivial⟩
  dsimp only
  rw [hm]

theorem follows_counted (cfg : Config) {line : Nat} {α : Type} {Q : Course → α → Prop} {x : EvalM α}
    (hx : ∀ b, c.Leads b → Follows b Q x) : Follows c Q (counted cfg line x) := by
  have henter : Follows c (fun _ _ => True) (enterCall cfg line) := by
    intro b _ m hm
    rw [enterCall, Deep.run_of]
    split
    · exact ⟨b, .refl, hm⟩
    · exact ⟨b, .refl, hm, trivial⟩
  exact henter.bind fun b hb _ _ => (hx b hb).leaving fun _ => rfl

end

/-! ### Levels of evaluation -/

section
variable {c : Course}

theorem follows_runAll {stmt : Stmt → EvalM Flow} {ss : List Stmt}
    (h : ∀ b, c.Leads b → ∀ s, Follows b FlowSeen (stmt s)) : Follows c FlowSeen (runAll stmt ss) := by
  induction ss generalizing c with
  | nil => exact .pure fun _ _ _ hv => by cases hv
  | cons s ss ih =>
    rw [runAll]
    refine (h c .refl s).bind fun b hb f hf => ?_
    cases f with
    | normal => exact ih fun d hd => h d (hb.trans hd)
    | returned v =>
      refine .pure fun d hd w hw => ?_
      cases hw
      exact hd.seen_subset (hf v rfl)

theorem follows_runEach {stmt : Stmt → EvalM Flow} {ss : List Stmt}
    (h : ∀ b, c.Leads b → ∀ s, Follows b FlowSeen (stmt s)) : Follows c (fun _ _ => True) (runEach stmt ss) := by
  induction ss generalizing c with
  | nil => exact .pure fun _ _ => trivial
  | cons s ss ih =>
    rw [runEach]
    exact (h c .refl s).bind fun b hb _ _ => ih fun d hd => h d (hb.trans hd)

theorem follows_runWhile {test : EvalM Value} {body : EvalM Flow} (ht : ∀ b, c.Leads b → Follows b Seen test)
    (hb : ∀ b, c.Leads b → Follows b FlowSeen body) (fuel : Nat) :
    Follows c FlowSeen (runWhile test body fuel) := by
  induction fuel generalizing c with
  | zero => exact .throw
  | succ fuel ih =>
    rw [runWhile]
    refine (ht c .refl).bind fun b hcb v _ => ?_
    split
    · refine (hb b hcb).bind fun d hbd f hf => ?_
      cases f with
      | normal => exact ih (fun e he => ht e ((hcb.trans hbd).trans he)) fun e he => hb e ((hcb.trans hbd).trans he)
      | returned v =>
        refine .pure fun e he w hw => ?_
        cases hw
        exact he.seen_subset (hf v rfl)
    · exact .pure fun _ _ _ hv => by cases hv

variable {expr : FrameId → Expr → EvalM Value} {stmt : FrameId → Stmt → EvalM Flow}
  (hexpr : ∀ c frame e, Follows c Seen (expr frame e)) (hstmt : ∀ c frame s, Follows c FlowSeen (stmt frame s))

section
include hstmt

theorem follows_callClosure (f : Closure) {args : List Value} (ha : ∀ v ∈ args, v ∈ c.seen) :
    Follows c Seen (callClosure stmt f args) := by
  rw [callClosure]
  refine (follows_newFrame f.frame).bind fun b hb frame _ => ?_
  refine (follows_bindParams frame f.params fun v hv => hb.seen_subset (ha v hv)).bind fun d _ _ _ => ?_
  refine (follows_runAll fun e _ s => hstmt e frame s).bind fun e _ flow hflow => ?_
  cases flow with
  | normal => exact .plain (ofLiteral_ne_function .nil)
  | returned v => exact .pure fun e' he => he.seen_subset (hflow v rfl)

theorem follows_callValue (cfg : Config) (callee : Value) {args : List Value} (ha : ∀ v ∈ args, v ∈ c.seen)
    (line : Nat) : Follows c Seen (callValue cfg stmt callee args line) := by
  have harity (expected : Nat) : Follows c (fun _ _ => True) (checkArity expected args.length line) := by
    unfold checkArity
    split
    · exact .pure fun _ _ => trivial
    · exact .throw
  cases callee with
  | native f => exact (harity _).bind fun b _ _ _ => follows_counted cfg fun d _ => follows_readClock cfg
  | function f =>
    refine (harity _).bind fun b hb _ _ => follows_counted cfg fun d hd => follows_callClosure hstmt f ?_
    exact fun v hv => Course.Leads.seen_subset (hb.trans hd) (ha v hv)
  | number | string | boolean | nil => exact .throw

end

include hexpr

theorem follows_optionalStep (frame : FrameId) (o : Option Expr) :
    Follows c Seen (optionalStep (expr frame) o) := by
  cases o with
  | none => exact .plain (ofLiteral_ne_function .nil)
  | some e => exact hexpr c frame e

include hstmt

theorem follows_exprStep (cfg : Config) (frame : FrameId) (e : Expr) :
    Follows c Seen (exprStep cfg expr stmt frame e) := by
  have hoperator {d : Course} {r : Except Fault Value} (hr : ∀ v f, r = .ok v → v ≠ .function f) :
      Follows d Seen (ofExcept r) := by
    cases r with
    | ok v => exact .plain fun f => hr v f rfl
    | error => exact .throw
  cases e with
  | literal id value => exact .plain (ofLiteral_ne_function value)
  | var id name => exact follows_readVar frame name
  | assign id name value =>
    refine (hexpr c frame value).bind fun b hb v hv => ?_
    refine (follows_assignVar frame name hv).bind fun d hd _ _ => .pure fun e he => ?_
    exact Course.Leads.seen_subset (hd.trans he) hv
  | unary id op operand =>
    refine (hexpr c frame operand).bind fun b _ v _ => hoperator ?_
    rintro w f hw rfl
    exact unary_within (S := fun _ => False) hw f rfl
  | binary id left op right =>
    refine (hexpr c frame left).bind fun b _ l _ => (hexpr b frame right).bind fun d _ r _ => hoperator ?_
    rintro w f hw rfl
    exact binary_within (S := fun _ => False) hw f rfl
  | logical id left op right =>
    refine (hexpr c frame left).bind fun b hb l hl => ?_
    have hshort : Follows b (fun d o => ∀ v, o = some v → v ∈ d.seen) (ofExcept (Operator.shortCut op l)) := by
      cases h : Operator.shortCut op l with
      | error => exact .throw
      | ok o =>
        refine .pure fun d hd v ho => ?_
        subst ho
        rw [Nodes.shortCut_eq_some h]
        exact hd.seen_subset hl
    refine hshort.bind fun d _ o ho => ?_
    cases o with
    | none => exact hexpr d frame right
    | some v => exact .pure fun e he => he.seen_subset (ho v rfl)
  | grouping id inner => exact hexpr c frame inner
  | call id callee paren args =>
    refine (hexpr c frame callee).bind fun b _ f _ => ?_
    refine (Follows.mapM fun d _ a _ => hexpr d frame a).bind fun d _ vs hvs => ?_
    exact follows_callValue hstmt cfg f hvs paren.line

theorem follows_stmtStep (fuel : Nat) (frame : FrameId) (s : Stmt) :
    Follows c FlowSeen (stmtStep fuel expr stmt frame s) := by
  have hnormal {d : Course} : Follows d FlowSeen (pure .normal) := .pure fun _ _ _ hv => by cases hv
  cases s with
  | expression id e => exact (hexpr c frame e).bind fun _ _ _ _ => hnormal
  | print id e =>
    exact (hexpr c frame e).bind fun _ _ v _ => (follows_print v.text).bind fun _ _ _ _ => hnormal
  | varDecl id name init =>
    refine (follows_optionalStep hexpr frame init).bind fun b _ v hv => ?_
    exact (follows_defineVar frame name.lexeme hv).bind fun _ _ _ _ => hnormal
  | block id body =>
    exact (follows_newFrame frame).bind fun b _ inner _ => follows_runAll fun d _ s => hstmt d inner s
  | ifThen id condition yes =>
    refine (hexpr c frame condition).bind fun b _ v _ => ?_
    split
    · exact hstmt b frame yes
    · exact hnormal
  | ifElse id condition yes no =>
    refine (hexpr c frame condition).bind fun b _ v _ => ?_
    split
    · exact hstmt b frame yes
    · exact hstmt b frame no
  | whileLoop id condition body =>
    exact follows_runWhile (fun b _ => hexpr b frame condition) (fun b _ => hstmt b frame body) fuel
  | funDecl id name params body =>
    refine (follows_newFunction frame name params body).bind fun b _ v hv => ?_
    exact (follows_defineVar frame name.lexeme hv).bind fun _ _ _ _ => hnormal
  | ret id keyword value =>
    refine follows_callDepth.bind fun b _ d _ => ?_
    split
    · exact .throw
    · refine (follows_optionalStep hexpr frame value).bind fun e _ v hv => .pure fun e' he w hw => ?_
      cases hw
      exact he.seen_subset hv

end

theorem follows_eval (cfg : Config) (fuel : Nat) :
    (∀ c frame e, Follows c Seen (evalExpr cfg fuel frame e)) ∧
      ∀ c frame s, Follows c FlowSeen (evalStmt cfg fuel frame s) := by
  induction fuel with
  | zero => exact ⟨fun _ _ _ => .throw, fun _ _ _ => .throw⟩
  | succ fuel ih =>
    refine ⟨fun c frame e => ?_, fun c frame s => ?_⟩
    · rw [evalExpr]
      exact .later (follows_exprStep ih.1 ih.2 cfg frame e)
    · rw [evalStmt]
      exact .later (follows_stmtStep ih.1 ih.2 fuel frame s)

/-! ### Actions -/

section
variable {c : Course}

/-- A value that is handed out has come up. -/
def HandsOut (c : Course) (o : Option Value) : Prop := ∀ v, o = some v → v ∈ c.seen

theorem Follows.handsOut {α : Type} {Q : Course → α → Prop} {x : EvalM α} {f : α → Option Value}
    (h : Follows c Q x) (hf : ∀ b a, Q b a → HandsOut b (f a)) : Follows c HandsOut (do return f (← x)) :=
  h.bind fun b _ a ha => .pure fun _ hd v hv => hd.seen_subset (hf b a ha v hv)

theorem follows_newRoot : Follows c (fun _ _ => True) newRoot := by
  refine .of fun b _ m hm => ⟨_, .single .pushRoot, ?_, trivial⟩
  dsimp only
  rw [hm]

/-- All values come up that are given, of which the functions have done so already. -/
theorem leads_given (c : Course) {vs : List Value} (hvs : ∀ f, .function f ∈ vs → .function f ∈ c.seen) :
    ∃ d, c.Leads d ∧ d.heap = c.heap ∧ ∀ v ∈ vs, v ∈ d.seen := by
  induction vs with
  | nil => exact ⟨c, .refl, rfl, nofun⟩
  | cons v vs ih =>
    obtain ⟨d, hd, hheap, hseen⟩ := ih fun f hf => hvs f (List.mem_cons_of_mem v hf)
    have hmore {e : Course} (he : d.Leads e) (hv : v ∈ e.seen) : ∀ w ∈ v :: vs, w ∈ e.seen :=
      List.forall_mem_cons.2 ⟨hv, fun w hw => he.seen_subset (hseen w hw)⟩
    by_cases hv : ∃ f, v = .function f
    · obtain ⟨f, rfl⟩ := hv
      exact ⟨d, hd, hheap, hmore .refl (hd.seen_subset (hvs f List.mem_cons_self))⟩
    · have hplain (f : Closure) : v ≠ .function f := fun hf => hv ⟨f, hf⟩
      exact ⟨_, hd.tail (.plain hplain), hheap, hmore (.single (.plain hplain)) List.mem_cons_self⟩

theorem Follows.given {α : Type} {Q : Course → α → Prop} {x : EvalM α} {vs : List Value}
    (hvs : ∀ f, .function f ∈ vs → .function f ∈ c.seen)
    (h : ∀ d, (∀ v ∈ vs, v ∈ d.seen) → Follows d Q x) : Follows c Q x := by
  intro b hb m hm
  obtain ⟨d, hd, hheap, hseen⟩ := leads_given b fun f hf => hb.seen_subset (hvs f hf)
  exact fold_of_leads hd (h d hseen d .refl m (hm.trans hheap.symm))

/-- An action is given functions that have come up, and does what evaluation does. -/
theorem follows_perform (cfg : Config) (fuel : Nat) (a : Action)
    (ha : ∀ f, .function f ∈ a.values → .function f ∈ c.seen) : Follows c HandsOut (a.perform cfg fuel) := by
  refine .given ha fun c ha => ?_
  have hexpr := (follows_eval cfg fuel).1
  have hstmt := (follows_eval cfg fuel).2
  have hnone (b : Course) : HandsOut b none := fun _ hv => by cases hv
  have hseen (b : Course) (v : Value) (hv : v ∈ b.seen) : HandsOut b (some v) := by
    intro w hw
    cases hw
    exact hv
  have hflow (b : Course) (f : Flow) (hf : FlowSeen b f) : HandsOut b f.value? := by
    intro v hv
    cases f with
    | normal => cases hv
    | returned w =>
      cases hv
      exact hf v rfl
  cases a with
  | interpret program =>
    rw [Action.perform, evalProgram_eq]
    exact (follows_runEach fun b _ s => hstmt b Heap.globals s).handsOut fun b _ _ => hnone b
  | block frame body => exact (follows_runAll fun b _ s => hstmt b frame s).handsOut hflow
  | stmt frame s => exact (hstmt c frame s).handsOut hflow
  | expr frame e => exact (hexpr c frame e).handsOut hseen
  | newRoot => exact follows_newRoot.handsOut fun b _ _ => hnone b
  | newChild parent => exact (follows_newFrame parent).handsOut fun b _ _ => hnone b
  | get frame name => exact (follows_readVar frame name).handsOut hseen
  | define frame name v =>
    exact (follows_defineVar frame name (ha v (List.mem_singleton_self v))).handsOut fun b _ _ => hnone b
  | assign frame name v =>
    exact (follows_assignVar frame name (ha v (List.mem_singleton_self v))).handsOut fun b _ _ => hnone b
  | call callee args =>
    rw [Action.values, List.forall_mem_cons] at ha
    cases callee with
    | function f => exact (follows_callClosure hstmt f ha.2).handsOut hseen
    | native f => exact (follows_readClock cfg).handsOut hseen
    | number | string | boolean | nil => exact .pure fun b _ => hnone b

end

/-- What a computation leaves behind is a later point, and so is what it comes to. -/
theorem Follows.after {c : Course} {x : EvalM (Option Value)}
    (h : Follows c HandsOut x) {m : Machine} (hm : m.heap = c.heap) :
    ∃ d, c.Leads d ∧ d.heap = (x.after m).heap ∧ ∀ v, x.result m = .ok (some v) → v ∈ d.seen := by
  have hends := h c .refl m hm
  unfold Deep.after Deep.result
  generalize x.run m = r at hends ⊢
  cases r with
  | ok o n =>
    obtain ⟨d, hd, hn, ho⟩ := hends
    refine ⟨d, hd, hn.symm, fun v hv => ho v ?_⟩
    cases hv
    rfl
  | error e n =>
    obtain ⟨d, hd, hn⟩ := hends
    exact ⟨d, hd, hn.symm, fun v hv => by cases hv⟩

end Eval

/-- Actions on a machine are a course. All that they have handed out has come up. -/
theorem Machine.Reached.course {m : Machine} {vs : List Value} (h : m.Reached vs) :
    ∃ c, Course.initial.Leads c ∧ c.heap = m.heap ∧ ∀ v ∈ vs, v ∈ c.seen := by
  induction h with
  | new => exact ⟨.initial, .refl, rfl, nofun⟩
  | @act m vs _ cfg fuel a _ hvalues ih =>
    obtain ⟨c, hc, hheap, hseen⟩ := ih
    have hgiven (f : Closure) (hf : .function f ∈ a.values) : .function f ∈ c.seen :=
      hseen _ (hvalues f hf)
    obtain ⟨d, hd, hheap', hout⟩ := (follows_perform cfg fuel a hgiven).after hheap.symm
    refine ⟨d, hc.trans hd, hheap', ?_⟩
    unfold Action.handedOut
    split
    · next v hv => exact List.forall_mem_cons.2 ⟨hout v hv, fun w hw => hd.seen_subset (hseen w hw)⟩
    · exact fun w hw => hd.seen_subset (hseen w hw)

/-! ## Values are passed on as they are -/

namespace Heap

variable {h : Heap} {i o : FrameId} {name : String} {v : Value}

theorem bound_define_self (hi : i < h.frames.size) : (h.define i name v).bound i name = some v := by
  unfold bound define
  rw [Array.getElem?_modify, if_pos rfl, Array.getElem?_eq_getElem hi]
  exact (Frame.get?_define _ name name v).trans (if_pos rfl)

theorem bound_define_of_ne {other : String} (hne : other ≠ name) :
    (h.define i name v).bound i other = h.bound i other := by
  unfold bound define
  rw [Array.getElem?_modify, if_pos rfl]
  cases h.frames[i]? with
  | none => rfl
  | some f => exact (Frame.get?_define f name other v).trans (if_neg hne)

/-- A frame that binds a name owns it. -/
theorem get?_of_bound (hv : h.bound i name = some v) : h.get? i name = some v := by
  obtain ⟨f, hf, hget⟩ := Option.bind_eq_some_iff.1 hv
  have howner : h.owner? name i = some i := by
    rw [owner?, hf]
    simp [Frame.binds, hget]
  rw [get?, howner]
  exact hv

theorem get?_define_owner (ho : h.owner? name i = some o) : (h.define o name v).get? i name = some v := by
  have hi : i < h.frames.size := by
    rw [owner?] at ho
    split at ho
    · cases ho
    · next f hf => exact (Array.getElem?_eq_some_iff.1 hf).1
  obtain ⟨f, hf, hbinds⟩ := binds_iff.1 (owner?_binds ho)
  have hgrows : h.Grows (fun _ _ => False) (h.define o name v) := by
    refine (Grows.refl h).define (fun g hg => .inl ?_) v
    cases hf.symm.trans hg
    exact hbinds
  rw [get?, hgrows.owner?_eq name hi, ho]
  exact bound_define_self (Array.getElem?_eq_some_iff.1 hf).1

theorem bound_defineAll_of_not_mem {names : List String} (hname : name ∉ names) (vs : List Value) :
    (h.defineAll i names vs).bound i name = h.bound i name := by
  induction names generalizing h vs with
  | nil => rfl
  | cons other names ih =>
    rw [List.mem_cons, not_or] at hname
    cases vs with
    | nil => rfl
    | cons w vs => exact (ih hname.2 vs).trans (bound_define_of_ne hname.1)

/-- A parameter has the argument at its place, unless a later parameter has the same name. -/
theorem bound_defineAll (hi : i < h.frames.size) {before after : List String} {vs : List Value}
    (hv : vs[before.length]? = some v) (hname : name ∉ after) :
    (h.defineAll i (before ++ name :: after) vs).bound i name = some v := by
  induction before generalizing h vs with
  | nil =>
    cases vs with
    | nil => cases hv
    | cons w vs =>
      cases hv
      exact (bound_defineAll_of_not_mem hname vs).trans (bound_define_self hi)
  | cons other before ih =>
    cases vs with
    | nil => cases hv
    | cons w vs => exact ih (h := h.define i other w) (by rw [size_define]; exact hi) hv

end Heap

theorem Deep.run_bind_of_ok {ε σ α β : Type} {x : Deep ε σ α} {f : α → Deep ε σ β} {s s' : σ} {a : α}
    (hx : x.run s = .ok a s') : (x >>= f).run s = (f a).run s' := by
  rw [run_bind, hx]
  rfl

/-- The machine in which a call of the function starts, with a new frame that binds the parameters. -/
def Machine.entered (m : Machine) (f : Closure) (args : List Value) : Machine :=
  { m with
    heap := (m.heap.push ⟨some f.frame, []⟩).defineAll m.heap.frames.size f.params args
    depth := m.depth + 1 }

section
variable {cfg : Config} {fuel : Nat} {frame : FrameId} {e : Expr} {v : Value} {m n : Machine}

theorem run_varDecl (he : (evalExpr cfg fuel frame e).run m = .ok v n) (id : Nat) (name : Token) :
    (evalStmt cfg (fuel + 1) frame (.varDecl id name (some e))).run m =
      .ok .normal { n with heap := n.heap.define frame name.lexeme v } := by
  rw [evalStmt, Deep.run_later, stmtStep, optionalStep, Deep.run_bind_of_ok he]
  rfl

theorem run_assign (he : (evalExpr cfg fuel frame e).run m = .ok v n) {o : FrameId} {name : Token}
    (ho : n.heap.owner? name.lexeme frame = some o) (id : Nat) :
    (evalExpr cfg (fuel + 1) frame (.assign id name e)).run m =
      .ok v { n with heap := n.heap.define o name.lexeme v } := by
  have hassign : (assignVar frame name v).run n = .ok () { n with heap := n.heap.define o name.lexeme v } := by
    rw [assignVar, Deep.run_of, ho]
  rw [evalExpr, Deep.run_later, exprStep, Deep.run_bind_of_ok he, Deep.run_bind_of_ok hassign]
  rfl

theorem run_return (he : (evalExpr cfg fuel frame e).run m = .ok v n) (hm : m.depth ≠ 0) (id : Nat)
    (keyword : Token) :
    (evalStmt cfg (fuel + 1) frame (.ret id keyword (some e))).run m = .ok (.returned v) n := by
  have hdepth : callDepth.run m = .ok m.depth m := Deep.run_of _ m
  rw [evalStmt, Deep.run_later, stmtStep, Deep.run_bind_of_ok hdepth, if_neg hm, optionalStep,
    Deep.run_bind_of_ok he]
  rfl

theorem run_counted {α : Type} {x : EvalM α} {a : α} (hdepth : m.depth < cfg.maxCallDepth) (line : Nat)
    (hx : x.run { m with depth := m.depth + 1 } = .ok a n) :
    (counted cfg line x).run m = .ok a { n with depth := n.depth - 1 } := by
  have henter : (enterCall cfg line).run m = .ok () { m with depth := m.depth + 1 } := by
    rw [enterCall, Deep.run_of, if_neg (Nat.not_le.2 hdepth)]
  rw [counted, Deep.run_bind_of_ok henter, Deep.run_leaving, hx]
  rfl

theorem run_call {f : Closure} {args : List Expr} {vs : List Value} {callee : Expr} {paren : Token} {k : Machine}
    (hf : (evalExpr cfg fuel frame callee).run k = .ok (.function f) m)
    (hvs : (args.mapM (evalExpr cfg fuel frame)).run m = .ok vs n) (hlength : vs.length = f.params.length)
    (hdepth : n.depth < cfg.maxCallDepth) (id : Nat) {v : Value} {n' : Machine}
    (hbody : (runAll (evalStmt cfg fuel n.heap.frames.size) f.body).run (n.entered f vs) = .ok (.returned v) n') :
    (evalExpr cfg (fuel + 1) frame (.call id callee paren args)).run k =
      .ok v { n' with depth := n'.depth - 1 } := by
  have hcall : (callClosure (evalStmt cfg fuel) f vs).run { n with depth := n.depth + 1 } = .ok v n' := by
    change (runAll (evalStmt cfg fuel n.heap.frames.size) f.body >>= _).run (n.entered f vs) = _
    rw [Deep.run_bind_of_ok hbody]
    rfl
  have harity : (checkArity f.params.length vs.length paren.line).run n = .ok () n := by
    rw [checkArity, if_pos hlength]
    rfl
  rw [evalExpr, Deep.run_later, exprStep, Deep.run_bind_of_ok hf, Deep.run_bind_of_ok hvs, callValue,
    Deep.run_bind_of_ok harity, run_counted hdepth _ hcall]

end

namespace Course

variable {c : Course}

/-- A function statement makes a function and binds it. It is the next one of the course and differs from all that
there were. -/
theorem Sound.funDecl (hc : c.Sound) {m : Machine} (hm : m.heap = c.heap) (cfg : Config) (fuel : Nat)
    (frame : FrameId) (id : Nat) (name : Token) (params : List Token) (body : List Stmt) :
    ∃ (f : Closure) (n : Machine),
      (evalStmt cfg (fuel + 1) frame (.funDecl id name params body)).run m = .ok .normal n ∧
      f.name = name.lexeme ∧ f.params = params.map (·.lexeme) ∧ f.body = body ∧ f.frame = frame ∧
      (frame < m.heap.frames.size → n.heap.get? frame name.lexeme = some (.function f)) ∧
      c.Leads ⟨n.heap, .function f :: c.seen, c.made ++ [f]⟩ ∧
      ∀ g, c.Holds g → (Value.function f).equals (.function g) = false := by
  obtain ⟨h, vs, fs⟩ := c
  subst hm
  refine ⟨⟨m.heap.functions, name.lexeme, params.map (·.lexeme), body, frame⟩, _, rfl, rfl, rfl, rfl, rfl,
    ?_, ?_, fun g => hc.fresh rfl⟩
  · exact fun hframe => Heap.get?_of_bound (Heap.bound_define_self hframe)
  · exact .tail (.single (.declare (Deep.run_of _ m))) (.bind frame name.lexeme List.mem_cons_self)

end Course

/-- From `m`, the expression has the value `v` and leaves `n` behind. A variable that is declared with it or that it
is assigned to has this value, and so has a `return` of it. -/
structure Passes (cfg : Config) (fuel : Nat) (frame : FrameId) (e : Expr) (m : Machine) (v : Value) (n : Machine) :
    Prop where
  declared (id : Nat) (name : Token) (hframe : frame < n.heap.frames.size) :
    ∃ k, (evalStmt cfg (fuel + 1) frame (.varDecl id name (some e))).run m = .ok .normal k ∧
      (readVar frame name).run k = .ok v k
  assigned (id : Nat) (name : Token) (o : FrameId) (ho : n.heap.owner? name.lexeme frame = some o) :
    ∃ k, (evalExpr cfg (fuel + 1) frame (.assign id name e)).run m = .ok v k ∧ (readVar frame name).run k = .ok v k
  returned (id : Nat) (keyword : Token) (hm : m.depth ≠ 0) :
    (evalStmt cfg (fuel + 1) frame (.ret id keyword (some e))).run m = .ok (.returned v) n

theorem passes {cfg : Config} {fuel : Nat} {frame : FrameId} {e : Expr} {m : Machine} {v : Value} {n : Machine}
    (he : (evalExpr cfg fuel frame e).run m = .ok v n) : Passes cfg fuel frame e m v n where
  declared id name hframe :=
    ⟨_, run_varDecl he id name, run_readVar_some (Heap.get?_of_bound (Heap.bound_define_self hframe))⟩
  assigned id _ _ ho := ⟨_, run_assign he ho id, run_readVar_some (Heap.get?_define_owner ho)⟩
  returned id keyword hm := run_return he hm id keyword

/-- A call with the values `vs` on the machine `n`. In its frame, which is the next one, a parameter has the value at
its place, unless a later parameter has the same name. If the body returns a value, the call has this value. -/
structure PassesCall (cfg : Config) (fuel : Nat) (frame : FrameId) (call : Expr) (m : Machine) (f : Closure)
    (vs : List Value) (n : Machine) : Prop where
  argument (before after : List String) (p : Token) (v : Value) (hp : f.params = before ++ p.lexeme :: after)
    (hv : vs[before.length]? = some v) (hlast : p.lexeme ∉ after) :
    (readVar n.heap.frames.size p).run (n.entered f vs) = .ok v (n.entered f vs)
  result (v : Value) (k : Machine)
    (hbody : (runAll (evalStmt cfg fuel n.heap.frames.size) f.body).run (n.entered f vs) = .ok (.returned v) k) :
    (evalExpr cfg (fuel + 1) frame call).run m = .ok v { k with depth := k.depth - 1 }

theorem passesCall {cfg : Config} {fuel : Nat} {frame : FrameId} {callee : Expr} {args : List Expr} {id : Nat}
    {paren : Token} {m k n : Machine} {f : Closure} {vs : List Value}
    (hf : (evalExpr cfg fuel frame callee).run m = .ok (.function f) k)
    (hvs : (args.mapM (evalExpr cfg fuel frame)).run k = .ok vs n) (hlength : vs.length = f.params.length)
    (hdepth : n.depth < cfg.maxCallDepth) :
    PassesCall cfg fuel frame (.call id callee paren args) m f vs n where
  argument before after p v hp hv hlast := by
    have hframe : n.heap.frames.size < (n.heap.push ⟨some f.frame, []⟩).frames.size := by
      rw [Heap.size_push]
      exact Nat.lt_succ_self _
    refine run_readVar_some (Heap.get?_of_bound ?_)
    unfold Machine.entered
    rw [hp]
    exact Heap.bound_defineAll hframe hv hlast
  result v k := run_call hf hvs hlength hdepth id

/-- Whatever has been done with a machine is the course of a run, and so is whatever is done next. At each of its
points, a function that has come up or is bound in a frame stems from one execution of a function statement. Two of
them are equal if and only if they stem from the same one, and then they have all in common. A function statement
makes a function that differs from all these. And a value comes out of variables, assignments, arguments and
returns as it went in. -/
theorem equal_functions_stem_from_one_execution {m : Machine} {vs : List Value} (h : m.Reached vs) :
    ∃ c, Course.initial.Leads c ∧ c.heap = m.heap ∧ (∀ v ∈ vs, v ∈ c.seen) ∧ ∀ d, c.Leads d →
      (∀ f, d.Holds f → ∃! k : Nat, d.made[k]? = some f) ∧
      (∀ f g, d.Holds f → d.Holds g →
        ((Value.function f).equals (.function g) = true ↔
          ∃ k : Nat, d.made[k]? = some f ∧ d.made[k]? = some g) ∧
        ((Value.function f).equals (.function g) = true →
          f.name = g.name ∧ f.params = g.params ∧ f.body = g.body ∧ f.frame = g.frame)) ∧
      ∀ m : Machine, m.heap = d.heap → ∀ (cfg : Config) (fuel : Nat),
        (∀ a : Action, (∀ f, .function f ∈ a.values → .function f ∈ d.seen) →
          ∃ d', d.Leads d' ∧ d'.heap = ((a.perform cfg fuel).after m).heap ∧
            ∀ v, (a.perform cfg fuel).result m = .ok (some v) → v ∈ d'.seen) ∧
        (∀ frame id name params body, ∃ (f : Closure) (n : Machine),
          (evalStmt cfg (fuel + 1) frame (.funDecl id name params body)).run m = .ok .normal n ∧
          f.name = name.lexeme ∧ f.params = params.map (·.lexeme) ∧ f.body = body ∧ f.frame = frame ∧
          (frame < m.heap.frames.size → n.heap.get? frame name.lexeme = some (.function f)) ∧
          d.Leads ⟨n.heap, .function f :: d.seen, d.made ++ [f]⟩ ∧
          ∀ g, d.Holds g → (Value.function f).equals (.function g) = false) ∧
        (∀ frame e v n, (evalExpr cfg fuel frame e).run m = .ok v n → Passes cfg fuel frame e m v n) ∧
        ∀ frame id callee paren args f k ws n, (evalExpr cfg fuel frame callee).run m = .ok (.function f) k →
          (args.mapM (evalExpr cfg fuel frame)).run k = .ok ws n → ws.length = f.params.length →
          n.depth < cfg.maxCallDepth → PassesCall cfg fuel frame (.call id callee paren args) m f ws n := by
  obtain ⟨c, hc, hheap, hseen⟩ := h.course
  refine ⟨c, hc, hheap, hseen, fun d hd => ?_⟩
  have hsound : d.Sound := Course.Leads.sound (hc.trans hd) Course.sound_initial
  refine ⟨fun f => hsound.existsUnique_made, fun f g hf hg => ⟨hsound.equals_iff hf hg, fun heq => ?_⟩,
    fun m hm cfg fuel => ⟨fun a ha => ?_, hsound.funDecl hm cfg fuel, ?_, ?_⟩⟩
  · cases hsound.eq_of_equals hf hg heq
    exact ⟨rfl, rfl, rfl, rfl⟩
  · exact (follows_perform cfg fuel a ha).after hm
  · exact fun _ _ _ _ => passes
  · exact fun _ _ _ _ _ _ _ _ _ => passesCall

namespace HandedOut

/-! `f()` once more, which hands out another function. -/

def calledTwice : Machine := (callF.perform cfg 9).after called

def functions : List Value :=
  callF.handedOut cfg 9 called (callF.handedOut cfg 9 declared (declareF.handedOut cfg 9 .initial []))

theorem reached_calledTwice : calledTwice.Reached functions := by
  have hdeclared : declared.Reached (declareF.handedOut cfg 9 .initial []) :=
    Machine.Reached.new.act cfg 9 declareF (by decide +kernel) nofun
  have hcalled := hdeclared.act cfg 9 callF (by decide +kernel) nofun
  exact hcalled.act cfg 9 callF (by decide +kernel) nofun

theorem functions_eq : functions = [.function ⟨2, "g", [], [], 2⟩, .function ⟨1, "g", [], [], 1⟩] := by
  with_unfolding_all rfl

end HandedOut

theorem equal_functions_stem_from_one_execution_called_twice :
    HandedOut.calledTwice.Reached HandedOut.functions ∧ ∃ c f g, Course.initial.Leads c ∧
      HandedOut.functions = [.function f, .function g] ∧ c.Holds f ∧ c.Holds g ∧
        ¬ ∃ k : Nat, c.made[k]? = some f ∧ c.made[k]? = some g := by
  obtain ⟨c, hc, -, hseen, hpoints⟩ := equal_functions_stem_from_one_execution HandedOut.reached_calledTwice
  rw [HandedOut.functions_eq] at hseen
  have hf := hseen _ List.mem_cons_self
  have hg := hseen _ (List.mem_cons_of_mem _ List.mem_cons_self)
  obtain ⟨-, hequal, -⟩ := hpoints c .refl
  refine ⟨HandedOut.reached_calledTwice, c, _, _, hc, HandedOut.functions_eq, .inl hf, .inl hg, ?_⟩
  rw [← (hequal _ _ (.inl hf) (.inl hg)).1]
  decide

end Lox
