import Lox.Proofs.Eval.Correspondence
import Lox.Proofs.Eval.Simulation

/-!
# Machines that differ in function bodies only

Two runs stay side by side if their machines are alike but for the bodies of the functions they hold.
What counts as alike is a parameter: a `Likeness` says which bodies belong together, which tokens, and
for which reasons the two runs may stop. Frames have the same places in both heaps, and as many calls
are under way in one machine as in the other.

This is a `Correspondence`, so one level of evaluation comes out alike if the levels below do. A relation
on bodies may also hold of equal bodies only and restrict them, so that the same serves for a property
of all functions that one run ever holds.

**Results.** One lemma for each operation of a heap, `Likeness.correspondence`, and `Likeness.rel_eval` for
trees whose likeness goes through all their parts.
-/
namespace Lox

open List (Forall₂)

/-! ## Heaps -/

/-- Frames with one parent that bind the same names, to values related by `V`. -/
structure Frame.Corr (V : Value → Value → Prop) (f g : Frame) : Prop where
  parent_eq : f.parent = g.parent
  value (name : String) : Option.Rel V (f.get? name) (g.get? name)

/-- Heaps with corresponding frames at the same places. -/
structure Heap.Corr (V : Value → Value → Prop) (h k : Heap) : Prop where
  size_eq : h.frames.size = k.frames.size
  functions_eq : h.functions = k.functions
  frame (i : FrameId) : Option.Rel (Frame.Corr V) h.frames[i]? k.frames[i]?

variable {V : Value → Value → Prop}

namespace Frame.Corr

variable {f g : Frame}

theorem binds_eq (h : Corr V f g) (name : String) : f.binds name = g.binds name := by
  have hvalue := h.value name
  unfold binds
  generalize f.get? name = o at hvalue ⊢
  generalize g.get? name = o' at hvalue ⊢
  cases hvalue <;> rfl

theorem define {v w : Value} (h : Corr V f g) (name : String) (hv : V v w) :
    Corr V (f.define name v) (g.define name w) where
  parent_eq := h.parent_eq
  value other := by
    rw [get?_define, get?_define]
    split
    · exact .some hv
    · exact h.value other

end Frame.Corr

namespace Heap.Corr

variable {h k : Heap}

/-- Names have the same owners. -/
theorem owner?_eq (hc : Corr V h k) (name : String) (i : FrameId) : h.owner? name i = k.owner? name i := by
  induction i using Nat.strongRecOn with
  | ind i ih =>
    have hframe := hc.frame i
    rw [owner?, owner?]
    generalize h.frames[i]? = o at hframe ⊢
    generalize k.frames[i]? = o' at hframe ⊢
    cases hframe with
    | none => rfl
    | @some f g hfg =>
      simp only [hfg.binds_eq name, hfg.parent_eq]
      split
      · rfl
      · cases g.parent with
        | none => rfl
        | some p =>
          dsimp only
          split
          · exact ih p ‹_›
          · rfl

theorem get? (hc : Corr V h k) (i : FrameId) (name : String) :
    Option.Rel V (h.get? i name) (k.get? i name) := by
  unfold Heap.get?
  rw [hc.owner?_eq name i]
  cases k.owner? name i with
  | none => exact .none
  | some o =>
    have hframe := hc.frame o
    simp only [Option.bind_eq_bind, Option.bind_some]
    generalize h.frames[o]? = f at hframe ⊢
    generalize k.frames[o]? = g at hframe ⊢
    cases hframe with
    | none => exact .none
    | some hfg => exact hfg.value name

theorem define {v w : Value} (hc : Corr V h k) (i : FrameId) (name : String) (hv : V v w) :
    Corr V (h.define i name v) (k.define i name w) where
  size_eq := by rw [size_define, size_define, hc.size_eq]
  functions_eq := hc.functions_eq
  frame j := by
    have hframe := hc.frame j
    unfold Heap.define
    rw [Array.getElem?_modify, Array.getElem?_modify]
    split
    · generalize h.frames[j]? = f at hframe ⊢
      generalize k.frames[j]? = g at hframe ⊢
      cases hframe with
      | none => exact .none
      | some hfg => exact .some (hfg.define name hv)
    · exact hframe

theorem defineAll (hc : Corr V h k) (i : FrameId) (names : List String) {vs ws : List Value}
    (hvs : Forall₂ V vs ws) : Corr V (h.defineAll i names vs) (k.defineAll i names ws) := by
  induction hvs generalizing h k names with
  | nil =>
    rw [Heap.defineAll, Heap.defineAll]
    · exact hc
    · nofun
    · nofun
  | cons hv _ ih =>
    cases names with
    | nil => exact hc
    | cons name names => exact ih (hc.define i name hv) names

/-- A new frame binds nothing. -/
theorem push (hc : Corr V h k) (parent : FrameId) :
    Corr V (h.push ⟨some parent, []⟩) (k.push ⟨some parent, []⟩) where
  size_eq := by rw [size_push, size_push, hc.size_eq]
  functions_eq := hc.functions_eq
  frame j := by
    unfold Heap.push
    rw [Array.getElem?_push, Array.getElem?_push, hc.size_eq]
    split
    · exact .some ⟨rfl, fun _ => .none⟩
    · exact hc.frame j

/-- A heap corresponds to itself if every value that it holds does. -/
theorem refl (hV : ∀ (i : FrameId) (f : Frame) (name : String) (v : Value), h.frames[i]? = some f →
    f.get? name = some v → V v v) : Corr V h h where
  size_eq := rfl
  functions_eq := rfl
  frame i := by
    cases hf : h.frames[i]? with
    | none => exact .none
    | some f =>
      refine .some ⟨rfl, fun name => ?_⟩
      cases hv : f.get? name with
      | none => exact .none
      | some v => exact .some (hV i f name v hf hv)

/-- At the start of a session there are no functions but those of the language. -/
theorem initial (C : Closure → Closure → Prop) : Corr (Value.Corr C) .initial .initial := by
  refine .refl fun i f name v hf hv => .same ?_
  rintro c rfl
  cases i with
  | succ i => cases hf
  | zero =>
    cases hf
    simp only [Heap.initial, globalFrame, List.getElem_toArray, List.getElem_cons_zero, Frame.get?,
      Bindings.get?] at hv
    split at hv <;> cases hv

end Heap.Corr

/-- Machines with corresponding heaps and equal in everything else, with `d` calls under way. -/
structure Machine.Corr (V : Value → Value → Prop) (d : Nat) (m n : Machine) : Prop where
  heap : Heap.Corr V m.heap n.heap
  left_depth : m.depth = d
  right_depth : n.depth = d
  ticks_eq : m.ticks = n.ticks
  printed_eq : m.printed = n.printed

namespace Machine.Corr

variable {d : Nat} {m n : Machine}

theorem enter (h : Corr V d m n) :
    Corr V (d + 1) { m with depth := d + 1 } { n with depth := d + 1 } :=
  { h with left_depth := rfl, right_depth := rfl }

theorem leave (h : Corr V (d + 1) m n) :
    Corr V d { m with depth := m.depth - 1 } { n with depth := n.depth - 1 } where
  heap := h.heap
  left_depth := by rw [h.left_depth, Nat.add_sub_cancel]
  right_depth := by rw [h.right_depth, Nat.add_sub_cancel]
  ticks_eq := h.ticks_eq
  printed_eq := h.printed_eq

end Machine.Corr

namespace Eval

open EvalM

/-! ## The correspondence -/

/-- What counts as alike in two runs. -/
structure Likeness where
  Bodies : List Stmt → List Stmt → Prop
  Tokens : Token → Token → Prop
  /-- With `depth` calls under way the runs may stop for these reasons. -/
  Stops (depth : Nat) : Stop → Stop → Prop
  kind_eq {s t : Token} (h : Tokens s t) : s.kind = t.kind
  lexeme_eq {s t : Token} (h : Tokens s t) : s.lexeme = t.lexeme
  stops_fault {d : Nat} {s t : Token} {cause : Fault.Cause} (ht : Tokens s t)
    (hc : cause = .returnOutsideFunction → d = 0) :
    Stops d (.fault ⟨cause, s.line⟩) (.fault ⟨cause, t.line⟩)
  /-- What stops a call stops its caller. -/
  stops_caller {d : Nat} {e f : Stop} (h : Stops (d + 1) e f) : Stops d e f

namespace Likeness

variable (L : Likeness) {cfg : Config} {d : Nat} {α β : Type} {Q : α → β → Prop}

abbrev Values : Value → Value → Prop := Value.Corr (Closure.Corr (· = ·) L.Bodies)

/-- From machines that are alike with `d` calls under way, the computations end alike. -/
abbrev Rel (d : Nat) (Q : α → β → Prop) (x : EvalM α) (y : EvalM β) : Prop :=
  Sim (Machine.Corr L.Values d) (L.Stops d) Q x y

theorem rel_counted {s t : Token} {x : EvalM α} {y : EvalM β} (ht : L.Tokens s t)
    (h : d < cfg.maxCallDepth → L.Rel (d + 1) Q x y) :
    L.Rel d Q (counted cfg s.line x) (counted cfg t.line y) := by
  intro m n hmn
  simp only [counted, Deep.run_bind, enterCall, Deep.run_of, Deep.run_leaving, hmn.left_depth,
    hmn.right_depth]
  split
  · exact .error (L.stops_fault ht nofun) hmn
  · next hlt =>
    dsimp only [Ending.fold]
    rcases (h (by omega)).endings hmn.enter with ⟨a, b, m', n', hx, hy, hq, hout⟩ |
      ⟨e, f, m', n', hx, hy, he, hout⟩
    · rw [hx, hy]
      exact .ok hq hout.leave
    · rw [hx, hy]
      exact .error (L.stops_caller he) hout.leave

/-- Frames belong to themselves. -/
def correspondence (cfg : Config) : Correspondence cfg cfg where
  Rel := L.Rel
  Frames := (· = ·)
  Bodies := L.Bodies
  Tokens := L.Tokens
  Enters d := d < cfg.maxCallDepth
  Counts d n := n = d
  kind_eq := L.kind_eq
  lexeme_eq := L.lexeme_eq
  rel_pure := .pure
  rel_bind := .bind
  rel_later := .later
  rel_fault ht hc := .throw (L.stops_fault ht fun h => (hc h).symm)
  rel_print line := by
    refine .of fun m n hmn => .ok trivial { hmn with printed_eq := ?_ }
    rw [hmn.printed_eq]
  rel_readVar {_ f _ s t} hf ht := by
    subst hf
    refine .of fun m n hmn => ?_
    have hvalue := hmn.heap.get? f s.lexeme
    rw [← L.lexeme_eq ht]
    generalize m.heap.get? f s.lexeme = o at hvalue ⊢
    generalize n.heap.get? f s.lexeme = o' at hvalue ⊢
    cases hvalue with
    | none => exact .error (L.stops_fault ht nofun) hmn
    | some hv => exact .ok hv hmn
  rel_defineVar hf name hv := by
    subst hf
    exact .of fun m n hmn => .ok trivial { hmn with heap := hmn.heap.define _ name hv }
  rel_assignVar hf ht hv := by
    subst hf
    refine .of fun m n hmn => ?_
    rw [← L.lexeme_eq ht, hmn.heap.owner?_eq]
    split
    · exact .ok trivial { hmn with heap := hmn.heap.define _ _ hv }
    · exact .error (L.stops_fault ht nofun) hmn
  rel_newFrame hf := by
    subst hf
    exact .of fun m n hmn => .ok hmn.heap.size_eq { hmn with heap := hmn.heap.push _ }
  rel_bindParams hf params hvs := by
    subst hf
    exact .of fun m n hmn => .ok trivial { hmn with heap := hmn.heap.defineAll _ params hvs }
  rel_newFunction {_ f _ s t ps qs ss ss'} hf ht hp hs := by
    subst hf
    refine .of fun m n hmn => .ok (.function ?_) { hmn with heap := ?_ }
    · exact ⟨hmn.heap.functions_eq, L.lexeme_eq ht, Token.lexemes_eq L.lexeme_eq hp, rfl, hs⟩
    · exact { hmn.heap with functions_eq := congrArg (· + 1) hmn.heap.functions_eq }
  rel_readClock := by
    intro d m n hmn
    rw [run_readClock, run_readClock, hmn.ticks_eq]
    exact .ok (Value.corr_number _) { hmn with ticks_eq := rfl }
  rel_callDepth := by
    intro d
    refine .of fun m n hmn => .ok ⟨?_, hmn.left_depth⟩ hmn
    rw [hmn.left_depth, hmn.right_depth]
  rel_counted := L.rel_counted

/-! ## Trees that are alike -/

section
variable {E : Expr → Expr → Prop} {S : Stmt → Stmt → Prop}
  (hE : ∀ {e e'}, E e e' → Expr.Layer L.Tokens E e e')
  (hS : ∀ {s s'}, S s s' → Stmt.Layer L.Tokens E S L.Bodies s s')
  (hB : ∀ {b b'}, L.Bodies b b' → Forall₂ S b b') (hout : ∀ d, L.Stops d .outOfFuel .outOfFuel)
include hE hS hB hout

/-- Trees that are alike layer by layer are evaluated alike. -/
theorem rel_eval (cfg : Config) (fuel d : Nat) :
    (∀ frame e e', E e e' → L.Rel d L.Values (evalExpr cfg fuel frame e) (evalExpr cfg fuel frame e')) ∧
      ∀ frame s s', S s s' → L.Rel d ((L.correspondence cfg).Flows d) (evalStmt cfg fuel frame s)
        (evalStmt cfg fuel frame s') := by
  have heval (frame : FrameId) := (L.correspondence cfg).rel_eval hE hS hB (.throw (hout _)) fuel d (f := frame) rfl
  exact ⟨fun frame => (heval frame).1, fun frame => (heval frame).2⟩

theorem rel_evalProgram (cfg : Config) (fuel d : Nat) {p p' : Program} (h : Forall₂ S p p') :
    L.Rel d (fun _ _ => True) (evalProgram cfg fuel p) (evalProgram cfg fuel p') := by
  exact (L.correspondence cfg).rel_evalProgram hE hS hB (.throw (hout _)) rfl fuel d h

end
end Likeness
end Eval
end Lox
