import Lox.Proofs.Eval.Likeness
import Lox.Proofs.Eval.Origin
import Lox.Proofs.Tree

/-!
# Lines show in faults only

A tree carries an identifier in each node and a line in each token. Evaluation makes no use of the first, and of
the second only to say where a fault is. So a program and a heap can be given other identifiers and other lines:
the run stays what it is, and a fault on line `l` is then on the line that `l` has become.

**Other lines.** `Expr.Relines f` and `Stmt.Relines f` relate a tree to every tree that has line `f l` where the
first has `l`, whatever its identifiers. `Machine.Relines f` does so for the functions that a machine holds.

**Where a fault can be.** The line of a fault is one that occurs in the program or in a function of the heap.
Were it not, it could be moved by an `f` that leaves all these lines alone; but then the run would be the same
run, with the fault on another line.

**Results.**
* `relines_eval`: evaluation of trees with other lines.
* `line_of_fault`: the line of a fault occurs in what is run.
* `bodies_runPrograms`: all functions of a session were declared in it.
* `lines_show_in_faults_only`.
-/
namespace Lox

open List (Forall₂)

theorem forall₂_of_map_eq_map {α β γ : Type} {f : α → γ} {g : β → γ} {as : List α} {bs : List β}
    (h : bs.map g = as.map f) : Forall₂ (fun a b => g b = f a) as bs := by
  rw [← List.forall₂_eq_eq_eq, List.forall₂_map_left_iff, List.forall₂_map_right_iff] at h
  exact h.flip

theorem rel_of_map_eq_map {α β γ : Type} {f : α → γ} {g : β → γ} {a : Option α} {b : Option β}
    (h : b.map g = a.map f) : Option.Rel (fun a b => g b = f a) a b := by
  cases a <;> cases b <;> simp_all

/-! ## Trees with other lines -/

/-- The same token on another line. -/
def Token.reline (f : Nat → Nat) (t : Token) : Token := { t with line := f t.line }

/-- The second expression has line `f l` where the first has `l`, and any identifiers. -/
def Expr.Relines (f : Nat → Nat) (e e' : Expr) : Prop := e'.eraseIds = e.map (fun _ => 0) (·.reline f)

@[inherit_doc Expr.Relines]
def Stmt.Relines (f : Nat → Nat) (s s' : Stmt) : Prop := s'.eraseIds = s.map (fun _ => 0) (·.reline f)

theorem Expr.Relines.layer {f : Nat → Nat} {e e' : Expr} (h : e.Relines f e') :
    Expr.Layer (fun s t => t = s.reline f) (Expr.Relines f) e e' := by
  cases e <;> cases e' <;> simp [Expr.Relines, Expr.map, Expr.mapAll_eq_map] at h
  case literal.literal => subst h; exact .literal
  case var.var => exact .var h
  case assign.assign => exact .assign h.1 h.2
  case unary.unary => exact .unary h.1 h.2
  case binary.binary => exact .binary h.1 h.2.1 h.2.2
  case logical.logical => exact .logical h.1 h.2.1 h.2.2
  case grouping.grouping => exact .grouping h
  case call.call => exact .call h.1 h.2.1 (forall₂_of_map_eq_map h.2.2)

theorem Stmt.Relines.layer {f : Nat → Nat} {s s' : Stmt} (h : s.Relines f s') :
    Stmt.Layer (fun s t => t = s.reline f) (Expr.Relines f) (Stmt.Relines f) (Forall₂ (Stmt.Relines f)) s
      s' := by
  cases s <;> cases s' <;> simp [Stmt.Relines, Stmt.map, Stmt.mapAll_eq_map] at h
  case expression.expression => exact .expression h
  case print.print => exact .print h
  case varDecl.varDecl => exact .varDecl h.1 (rel_of_map_eq_map h.2)
  case block.block => exact .block (forall₂_of_map_eq_map h)
  case ifThen.ifThen => exact .ifThen h.1 h.2
  case ifElse.ifElse => exact .ifElse h.1 h.2.1 h.2.2
  case whileLoop.whileLoop => exact .whileLoop h.1 h.2
  case funDecl.funDecl =>
    obtain ⟨hname, rfl, hbody⟩ := h
    exact .funDecl hname (List.forall₂_map_right_iff.2 (List.forall₂_same.2 fun _ _ => rfl))
      (forall₂_of_map_eq_map hbody)
  case ret.ret => exact .ret h.1 (rel_of_map_eq_map h.2)

/-! ## Evaluation -/

/-- The same fault on another line. -/
def Fault.reline (f : Nat → Nat) (x : Fault) : Fault := ⟨x.cause, f x.line⟩

def Stop.reline (f : Nat → Nat) : Stop → Stop
  | .fault x => .fault (x.reline f)
  | .outOfFuel => .outOfFuel

namespace Eval

/-- Functions whose bodies have other lines and identifiers. -/
def relining (f : Nat → Nat) : Likeness where
  Bodies := Forall₂ (Stmt.Relines f)
  Tokens s t := t = s.reline f
  Stops _ e e' := e' = e.reline f
  kind_eq h := (congrArg Token.kind h).symm
  lexeme_eq h := (congrArg Token.lexeme h).symm
  stops_fault {_ _ _ cause} h _ := congrArg (fun t : Token => Stop.fault ⟨cause, t.line⟩) h
  stops_caller h := h

end Eval

/-- The same value, but for lines and identifiers in the body of a function. -/
abbrev Value.Relines (f : Nat → Nat) : Value → Value → Prop := (Eval.relining f).Values

/-- Both statements ended normally, or both returned the same value. -/
abbrev Flow.Relines (f : Nat → Nat) : Flow → Flow → Prop := Flow.Corr True (Value.Relines f)

/-- The same machine, but for lines and identifiers in the bodies of the functions that it holds. -/
def Machine.Relines (f : Nat → Nat) (m m' : Machine) : Prop := Machine.Corr (Value.Relines f) m.depth m m'

namespace Eval

variable {α β : Type} (f : Nat → Nat)

/-- The same ending, but for lines. -/
abbrev EndsRelined (Q : α → β → Prop) : Ending Stop Machine α → Ending Stop Machine β → Prop :=
  Ends (Machine.Relines f) (fun e e' => e' = e.reline f) Q

variable {f}

theorem EndsRelined.of_rel {m m' : Machine} (hm : m.Relines f m') {Q R : α → β → Prop} {x : EvalM α}
    {y : EvalM β} (h : (relining f).Rel m.depth Q x y) (hQR : ∀ a b, Q a b → R a b) :
    EndsRelined f R (x.run m) (y.run m') := by
  have hafter {n n' : Machine} (hn : Machine.Corr (Value.Relines f) m.depth n n') : n.Relines f n' := by
    rw [← hn.left_depth] at hn
    exact hn
  rcases h.endings hm with ⟨a, b, n, n', hx, hy, hab, hn⟩ | ⟨e, e', n, n', hx, hy, he, hn⟩
  · rw [hx, hy]
    exact .ok (hQR a b hab) (hafter hn)
  · rw [hx, hy]
    exact .error he (hafter hn)

variable (f) in
theorem relines_eval (cfg : Config) (fuel d : Nat) :
    (∀ frame e e', e.Relines f e' → (relining f).Rel d (Value.Relines f) (evalExpr cfg fuel frame e)
      (evalExpr cfg fuel frame e')) ∧
    ∀ frame s s', s.Relines f s' → (relining f).Rel d (((relining f).correspondence cfg).Flows d)
      (evalStmt cfg fuel frame s) (evalStmt cfg fuel frame s') :=
  (relining f).rel_eval Expr.Relines.layer Stmt.Relines.layer id (fun _ => rfl) cfg fuel d

theorem relines_evalProgram (cfg : Config) (fuel d : Nat) {p p' : Program} (h : Forall₂ (Stmt.Relines f) p p') :
    (relining f).Rel d (fun _ _ => True) (evalProgram cfg fuel p) (evalProgram cfg fuel p') :=
  (relining f).rel_evalProgram Expr.Relines.layer Stmt.Relines.layer id (fun _ => rfl) cfg fuel d h

end Eval

/-! ## Tokens and function bodies of a tree -/

mutual

/-- The tokens that an expression keeps. -/
def Expr.tokens : Expr → List Token
  | .literal .. => []
  | .var _ name => [name]
  | .assign _ name value => name :: value.tokens
  | .unary _ op operand => op :: operand.tokens
  | .binary _ left op right | .logical _ left op right => left.tokens ++ op :: right.tokens
  | .grouping _ inner => inner.tokens
  | .call _ callee paren args => callee.tokens ++ paren :: Expr.allTokens args

def Expr.allTokens : List Expr → List Token
  | [] => []
  | e :: es => e.tokens ++ Expr.allTokens es

end

mutual

/-- The tokens that a statement keeps, those of function bodies included. -/
def Stmt.tokens : Stmt → List Token
  | .expression _ value | .print _ value => value.tokens
  | .varDecl _ name init => name :: Expr.allTokens init.toList
  | .block _ body => Stmt.allTokens body
  | .ifThen _ condition yes => condition.tokens ++ yes.tokens
  | .ifElse _ condition yes no => condition.tokens ++ yes.tokens ++ no.tokens
  | .whileLoop _ condition body => condition.tokens ++ body.tokens
  | .funDecl _ name params body => name :: params ++ Stmt.allTokens body
  | .ret _ keyword value => keyword :: Expr.allTokens value.toList

def Stmt.allTokens : List Stmt → List Token
  | [] => []
  | s :: ss => s.tokens ++ Stmt.allTokens ss

end

mutual

/-- The bodies of all functions that are declared in a statement, at whatever depth. -/
def Stmt.bodies : Stmt → List (List Stmt)
  | .expression .. | .print .. | .varDecl .. | .ret .. => []
  | .block _ body => Stmt.allBodies body
  | .ifThen _ _ yes => yes.bodies
  | .ifElse _ _ yes no => yes.bodies ++ no.bodies
  | .whileLoop _ _ body => body.bodies
  | .funDecl _ _ _ body => body :: Stmt.allBodies body

def Stmt.allBodies : List Stmt → List (List Stmt)
  | [] => []
  | s :: ss => s.bodies ++ Stmt.allBodies ss

end

theorem Expr.mem_allTokens {t : Token} {es : List Expr} : t ∈ Expr.allTokens es ↔ ∃ e ∈ es, t ∈ e.tokens := by
  induction es with
  | nil => simp [Expr.allTokens]
  | cons e es ih => simp [Expr.allTokens, ih]

theorem Stmt.mem_allTokens {t : Token} {ss : List Stmt} : t ∈ Stmt.allTokens ss ↔ ∃ s ∈ ss, t ∈ s.tokens := by
  induction ss with
  | nil => simp [Stmt.allTokens]
  | cons s ss ih => simp [Stmt.allTokens, ih]

theorem Stmt.mem_allBodies {b ss : List Stmt} : b ∈ Stmt.allBodies ss ↔ ∃ s ∈ ss, b ∈ s.bodies := by
  induction ss with
  | nil => simp [Stmt.allBodies]
  | cons s ss ih => simp [Stmt.allBodies, ih]

/-- A tree is not changed by a change to tokens that it does not keep. -/
theorem Expr.map_congr_tokens {f : NodeId → NodeId} {g g' : Token → Token} {e : Expr}
    (h : ∀ t ∈ e.tokens, g t = g' t) : e.map f g = e.map f g' := by
  induction e with
  | call id callee paren args ihc iha =>
    simp only [Expr.tokens, List.mem_append, List.mem_cons, Expr.mem_allTokens] at h
    simp only [Expr.map, Expr.mapAll_eq_map]
    rw [ihc fun t ht => h t (.inl ht), h paren (.inr (.inl rfl)),
      List.map_congr_left fun a ha => iha a ha fun t ht => h t (.inr (.inr ⟨a, ha, ht⟩))]
  | _ => simp_all [Expr.map, Expr.tokens]

theorem Stmt.map_congr_tokens {f : NodeId → NodeId} {g g' : Token → Token} {s : Stmt}
    (h : ∀ t ∈ s.tokens, g t = g' t) : s.map f g = s.map f g' := by
  have hoption {o : Option Expr} (ho : ∀ t ∈ Expr.allTokens o.toList, g t = g' t) :
      o.map (·.map f g) = o.map (·.map f g') := by
    cases o with
    | none => rfl
    | some e =>
      exact congrArg some (Expr.map_congr_tokens fun t ht => ho t (by simpa [Expr.allTokens] using ht))
  have hbody {ss : List Stmt} (ih : ∀ s ∈ ss, (∀ t ∈ s.tokens, g t = g' t) → s.map f g = s.map f g')
      (hss : ∀ t ∈ Stmt.allTokens ss, g t = g' t) : Stmt.mapAll f g ss = Stmt.mapAll f g' ss := by
    rw [Stmt.mapAll_eq_map, Stmt.mapAll_eq_map]
    exact List.map_congr_left fun s hs => ih s hs fun t ht => hss t (Stmt.mem_allTokens.2 ⟨s, hs, ht⟩)
  induction s with
  | expression | print => exact congrArg _ (Expr.map_congr_tokens h)
  | varDecl id name init | ret id name init =>
    rw [Stmt.tokens, List.forall_mem_cons] at h
    simp only [Stmt.map, h.1, hoption h.2]
  | block id body ih => exact congrArg _ (hbody ih h)
  | ifThen id condition yes ih | whileLoop id condition yes ih =>
    rw [Stmt.tokens, List.forall_mem_append] at h
    simp only [Stmt.map, Expr.map_congr_tokens h.1, ih h.2]
  | ifElse id condition yes no ihy ihn =>
    rw [Stmt.tokens, List.forall_mem_append, List.forall_mem_append] at h
    simp only [Stmt.map, Expr.map_congr_tokens h.1.1, ihy h.1.2, ihn h.2]
  | funDecl id name params body ih =>
    rw [Stmt.tokens, List.forall_mem_append, List.forall_mem_cons] at h
    simp only [Stmt.map, h.1.1, List.map_congr_left h.1.2, hbody ih h.2]

/-! ## Where a fault can be -/

theorem Stmt.Relines.of_tokens {f : Nat → Nat} {s : Stmt} (h : ∀ t ∈ s.tokens, f t.line = t.line) :
    s.Relines f s := by
  refine Stmt.map_congr_tokens fun t ht => ?_
  rw [Token.reline, h t ht]

/-- The function is bound to a name in some frame. -/
def Heap.Holds (h : Heap) (c : Closure) : Prop :=
  ∃ (i : FrameId) (f : Frame) (name : String), h.frames[i]? = some f ∧ f.get? name = some (.function c)

/-- A machine is like itself if each function that it holds is. -/
theorem Eval.Likeness.machine_refl (L : Likeness) {m : Machine}
    (h : ∀ c, m.heap.Holds c → L.Bodies c.body c.body) : Machine.Corr L.Values m.depth m m where
  heap := by
    refine .refl fun i f name v hf hv => ?_
    cases v with
    | function c => exact .function ⟨rfl, rfl, rfl, rfl, h c ⟨i, f, name, hf, hv⟩⟩
    | _ => exact .same nofun
  left_depth := rfl
  right_depth := rfl
  ticks_eq := rfl
  printed_eq := rfl

/-- The function that has the place of another one in a heap that is like its own has a body like its body. -/
theorem Heap.Corr.bodies {L : Eval.Likeness} {h k : Heap} (hc : Heap.Corr L.Values h k) {c : Closure}
    (hh : h.Holds c) : ∃ c' : Closure, L.Bodies c.body c'.body := by
  obtain ⟨i, f, name, hf, hv⟩ := hh
  have hframe := hc.frame i
  rw [hf] at hframe
  generalize k.frames[i]? = o at hframe
  cases hframe with
  | @some _ g hfg =>
    have hvalue := hfg.value name
    rw [hv] at hvalue
    generalize g.get? name = o at hvalue
    cases hvalue with
    | some hcorr =>
      cases hcorr with
      | same hne => exact absurd rfl (hne c)
      | @function _ c' hclosure => exact ⟨c', hclosure.body⟩

/-- The line of a fault occurs in the program or in a function of the heap. -/
theorem line_of_fault {cfg : Config} {fuel : Nat} {p : Program} {m n : Machine} {x : Fault}
    (h : (evalProgram cfg fuel p).run m = .error (.fault x) n) :
    ∃ t, t.line = x.line ∧ (t ∈ Stmt.allTokens p ∨ ∃ c, m.heap.Holds c ∧ t ∈ Stmt.allTokens c.body) := by
  by_contra hnone
  -- The line of the fault is moved, and none of those that occur.
  let f (l : Nat) : Nat := if l = x.line then l + 1 else l
  have hfixed {t : Token} (ht : t.line ≠ x.line) : f t.line = t.line := if_neg ht
  have hself {ss : List Stmt} (hss : ∀ t ∈ Stmt.allTokens ss, t.line ≠ x.line) :
      Forall₂ (Stmt.Relines f) ss ss :=
    List.forall₂_same.2 fun s hs => .of_tokens fun t ht => hfixed (hss t (Stmt.mem_allTokens.2 ⟨s, hs, ht⟩))
  have hm : m.Relines f m :=
    (Eval.relining f).machine_refl fun c hc => hself fun t ht hline => hnone ⟨t, hline, .inr ⟨c, hc, ht⟩⟩
  have hp : Forall₂ (Stmt.Relines f) p p := hself fun t ht hline => hnone ⟨t, hline, .inl ht⟩
  have hends := Eval.EndsRelined.of_rel hm (Eval.relines_evalProgram cfg fuel m.depth hp) fun _ _ => id
  rw [h] at hends
  cases hends with
  | error he _ =>
    have hline : x.line = f x.line := congrArg Fault.line (Stop.fault.inj he)
    simp [f] at hline

/-! ## Functions of a session -/

/-- Bodies of functions that are declared in the body of a function that is declared in a statement. -/
theorem Stmt.bodies_trans {s s' : Stmt} {b c : List Stmt} (hb : b ∈ s.bodies) (hs : s' ∈ b)
    (hc : c ∈ s'.bodies) : c ∈ s.bodies := by
  have hbody {ss : List Stmt} (ih : ∀ s ∈ ss, b ∈ s.bodies → c ∈ s.bodies) (h : b ∈ Stmt.allBodies ss) :
      c ∈ Stmt.allBodies ss := by
    obtain ⟨s, hs, hb⟩ := Stmt.mem_allBodies.1 h
    exact Stmt.mem_allBodies.2 ⟨s, hs, ih s hs hb⟩
  induction s with
  | expression | print | varDecl | ret => cases hb
  | block id body ih => exact hbody ih hb
  | ifThen id condition yes ih | whileLoop id condition yes ih => exact ih hb
  | ifElse id condition yes no ihy ihn =>
    rw [Stmt.bodies, List.mem_append] at hb ⊢
    exact hb.imp ihy ihn
  | funDecl id name params body ih =>
    rw [Stmt.bodies, List.mem_cons] at hb ⊢
    rcases hb with rfl | hb
    · exact .inr (Stmt.mem_allBodies.2 ⟨s', hs, hc⟩)
    · exact .inr (hbody ih hb)

namespace Eval

/-- Functions with bodies of which `B` holds. -/
def declaring (B : List Stmt → Prop) : Likeness where
  Bodies b b' := b = b' ∧ B b
  Tokens s t := t = s
  Stops _ e e' := e' = e
  kind_eq h := (congrArg Token.kind h).symm
  lexeme_eq h := (congrArg Token.lexeme h).symm
  stops_fault {_ _ _ cause} h _ := congrArg (fun t : Token => Stop.fault ⟨cause, t.line⟩) h
  stops_caller h := h

end Eval

section
variable {B : List Stmt → Prop}

/-- A statement that declares only functions with bodies of which `B` holds has no others in its parts. -/
theorem Stmt.layer_declaring {s s' : Stmt} (h : s = s' ∧ ∀ c ∈ s.bodies, B c) :
    Stmt.Layer (fun s t => t = s) (· = ·) (fun s s' => s = s' ∧ ∀ c ∈ s.bodies, B c) (Eval.declaring B).Bodies s
      s' := by
  obtain ⟨rfl, hs⟩ := h
  have hoption (o : Option Expr) : Option.Rel (· = ·) o o := by
    cases o with
    | none => exact .none
    | some e => exact .some rfl
  cases s with
  | expression => exact .expression rfl
  | print => exact .print rfl
  | varDecl => exact .varDecl rfl (hoption _)
  | block id body =>
    refine .block (List.forall₂_same.2 fun s hmem => ⟨rfl, fun c hc => ?_⟩)
    exact hs c (Stmt.mem_allBodies.2 ⟨s, hmem, hc⟩)
  | ifThen => exact .ifThen rfl ⟨rfl, hs⟩
  | ifElse =>
    rw [Stmt.bodies, List.forall_mem_append] at hs
    exact .ifElse rfl ⟨rfl, hs.1⟩ ⟨rfl, hs.2⟩
  | whileLoop => exact .whileLoop rfl ⟨rfl, hs⟩
  | funDecl id name params body =>
    rw [Stmt.bodies, List.forall_mem_cons] at hs
    exact .funDecl rfl (List.forall₂_same.2 fun _ _ => rfl) ⟨rfl, hs.1⟩
  | ret => exact .ret rfl (hoption _)

variable (hB : ∀ b, B b → ∀ c ∈ Stmt.allBodies b, B c)
include hB

/-- A program leaves behind no functions but those that there were and those that it declares. -/
theorem holds_runProgram (cfg : Config) (fuel : Nat) {p : Program} (hp : ∀ c ∈ Stmt.allBodies p, B c)
    {s : Session} (hs : ∀ c, s.machine.heap.Holds c → B c.body) {c : Closure}
    (hc : (s.runProgram cfg fuel p).2.machine.heap.Holds c) : B c.body := by
  have hself {ss : List Stmt} (h : ∀ c ∈ Stmt.allBodies ss, B c) :
      Forall₂ (fun s s' => s = s' ∧ ∀ c ∈ s.bodies, B c) ss ss :=
    List.forall₂_same.2 fun s hs => ⟨rfl, fun c hc => h c (Stmt.mem_allBodies.2 ⟨s, hs, hc⟩)⟩
  have hexpr {e e' : Expr} (h : e = e') : Expr.Layer (Eval.declaring B).Tokens (· = ·) e e' := by
    subst h
    exact Expr.Layer.refl (T := (Eval.declaring B).Tokens) (fun _ => rfl) (fun _ => rfl) e
  have hrel := (Eval.declaring B).rel_evalProgram hexpr Stmt.layer_declaring
    (fun h => h.1 ▸ hself (hB _ h.2)) (fun _ => rfl) cfg fuel s.machine.depth (hself hp)
  have hm := (Eval.declaring B).machine_refl fun c hc => ⟨rfl, hs c hc⟩
  rw [Session.runProgram_eq] at hc
  rcases hrel.endings hm with ⟨_, _, n, n', hx, -, -, hn⟩ | ⟨e, _, n, n', hx, -, -, hn⟩
  · rw [hx] at hc
    obtain ⟨c', hbody⟩ := hn.heap.bodies hc
    exact hbody.2
  · rw [hx] at hc
    obtain ⟨c', hbody⟩ := hn.heap.bodies hc
    exact hbody.2

theorem holds_runPrograms (cfg : Config) (fuel : Nat) {ps : List Program}
    (hps : ∀ p ∈ ps, ∀ c ∈ Stmt.allBodies p, B c) {s : Session} (hs : ∀ c, s.machine.heap.Holds c → B c.body)
    {c : Closure} (hc : (s.runPrograms cfg fuel ps).2.machine.heap.Holds c) : B c.body := by
  induction ps generalizing s with
  | nil => exact hs c hc
  | cons p ps ih =>
    rw [List.forall_mem_cons] at hps
    exact ih hps.2 (fun c hc => holds_runProgram hB cfg fuel hps.1 hs hc) hc

end

theorem Heap.not_holds_initial (c : Closure) : ¬ Heap.initial.Holds c := by
  intro h
  obtain ⟨c', hbody⟩ := (Heap.Corr.initial (Closure.Corr (· = ·) (Eval.declaring fun _ => False).Bodies)).bodies
    (L := Eval.declaring fun _ => False) h
  exact hbody.2

/-- All functions of a session were declared in it. -/
theorem bodies_runPrograms (cfg : Config) (fuel : Nat) (ps : List Program) {c : Closure}
    (hc : (Session.initial.runPrograms cfg fuel ps).2.machine.heap.Holds c) :
    ∃ p ∈ ps, c.body ∈ Stmt.allBodies p := by
  refine holds_runPrograms (B := fun b => ∃ p ∈ ps, b ∈ Stmt.allBodies p) ?_ cfg fuel
    (fun p hp c hc => ⟨p, hp, hc⟩) (fun c hc => (Heap.not_holds_initial c hc).elim) hc
  rintro b ⟨p, hp, hb⟩ c hc
  obtain ⟨s, hs, hb⟩ := Stmt.mem_allBodies.1 hb
  obtain ⟨s', hs', hc⟩ := Stmt.mem_allBodies.1 hc
  exact ⟨p, hp, Stmt.mem_allBodies.2 ⟨s, hs, Stmt.bodies_trans hb hs' hc⟩⟩

/-- Identifiers and lines have no part in a run but to say where a fault is. With any other identifiers, and
line `f l` in place of `l`, in the trees and in all functions of the heap, a run prints the same, ends in the
same way and leaves the same heap behind, and a fault on line `l` is on line `f l`. And this line is that of a
token of the program that is run, or of a token in a function body that an earlier program of the session
declares. -/
theorem lines_show_in_faults_only (cfg : Config) (fuel : Nat) :
    (∀ (f : Nat → Nat) (m m' : Machine), m.Relines f m' →
      (∀ frame e e', e.Relines f e' →
        Eval.EndsRelined f (Value.Relines f) ((evalExpr cfg fuel frame e).run m)
          ((evalExpr cfg fuel frame e').run m')) ∧
      (∀ frame s s', s.Relines f s' →
        Eval.EndsRelined f (Flow.Relines f) ((evalStmt cfg fuel frame s).run m)
          ((evalStmt cfg fuel frame s').run m')) ∧
      ∀ p p', Forall₂ (Stmt.Relines f) p p' →
        (∀ frame, Eval.EndsRelined f (Flow.Relines f) ((evalBlock cfg fuel frame p).run m)
          ((evalBlock cfg fuel frame p').run m')) ∧
        Eval.EndsRelined f (fun _ _ => True) ((evalProgram cfg fuel p).run m)
          ((evalProgram cfg fuel p').run m')) ∧
      ∀ (earlier : List Program) (p : Program) (x : Fault),
        ((Session.initial.runPrograms cfg fuel earlier).2.runProgram cfg fuel p).1 = .failed x →
        ∃ t, t.line = x.line ∧
          (t ∈ Stmt.allTokens p ∨ ∃ q ∈ earlier, ∃ body ∈ Stmt.allBodies q, t ∈ Stmt.allTokens body) := by
  constructor
  · intro f m m' hm
    obtain ⟨hexpr, hstmt⟩ := Eval.relines_eval f cfg fuel m.depth
    have hflow {a b : Flow} (h : ((Eval.relining f).correspondence cfg).Flows m.depth a b) :
        Flow.Relines f a b := by
      cases h with
      | normal => exact .normal
      | returned _ hv => exact .returned trivial hv
    refine ⟨fun frame e e' he => ?_, fun frame s s' hs => ?_, fun p p' hp => ⟨fun frame => ?_, ?_⟩⟩
    · exact .of_rel hm (hexpr frame e e' he) fun _ _ => id
    · exact .of_rel hm (hstmt frame s s' hs) fun _ _ => hflow
    · have hall := ((Eval.relining f).correspondence cfg).rel_runAll (hp.imp (hstmt frame))
      exact .of_rel hm hall fun _ _ => hflow
    · exact .of_rel hm (Eval.relines_evalProgram cfg fuel m.depth hp) fun _ _ => id
  · intro earlier p x hx
    rw [Session.runProgram_eq] at hx
    cases hrun : (evalProgram cfg fuel p).run (Session.initial.runPrograms cfg fuel earlier).2.machine with
    | ok _ n =>
      rw [hrun] at hx
      cases hx
    | error e n =>
      rw [hrun] at hx
      cases e with
      | outOfFuel => cases hx
      | fault y =>
        cases hx
        obtain ⟨t, hline, ht⟩ := line_of_fault hrun
        refine ⟨t, hline, ht.imp id ?_⟩
        rintro ⟨c, hc, ht⟩
        obtain ⟨q, hq, hbody⟩ := bodies_runPrograms cfg fuel earlier hc
        exact ⟨q, hq, c.body, hbody, ht⟩

namespace Moved

/-! A function that fails on its second line, and a program that calls it. -/

def token (kind : Token.Kind) (lexeme : String) (line : Nat) : Token := ⟨kind, lexeme, none, line⟩

/-- `fun f(a) {` and `-a; }` on the next line. -/
def declaration (id : NodeId) (line : Nat) : Program :=
  [.funDecl id (token .identifier "f" line) [token .identifier "a" line]
    [.expression (id + 1) (.unary (id + 2) (token .minus "-" (line + 1))
      (.var (id + 3) (token .identifier "a" (line + 1))))]]

/-- `f(f);` -/
def call (id : NodeId) (line : Nat) : Program :=
  [.expression id (.call (id + 1) (.var (id + 2) (token .identifier "f" line)) (token .rightParen ")" line)
    [.var (id + 3) (token .identifier "f" line)])]

theorem relines :
    Forall₂ (Stmt.Relines (· + 10)) (declaration 0 1 ++ call 4 3) (declaration 7 11 ++ call 5 13) :=
  .cons rfl (.cons rfl .nil)

theorem relines_initial (f : Nat → Nat) : Machine.initial.Relines f .initial :=
  (Eval.relining f).machine_refl fun c hc => (Heap.not_holds_initial c hc).elim

def cfg : Config := ⟨8, fun _ => 0⟩

theorem fails : ((Session.initial.runPrograms cfg 20 [declaration 0 1]).2.runProgram cfg 20 (call 4 3)).1 =
    .failed ⟨.operandNotNumber, 2⟩ := by
  with_unfolding_all rfl

end Moved

theorem lines_show_in_faults_only_moved :
    Eval.EndsRelined (· + 10) (fun _ _ => True)
        ((evalProgram Moved.cfg 20 (Moved.declaration 0 1 ++ Moved.call 4 3)).run .initial)
        ((evalProgram Moved.cfg 20 (Moved.declaration 7 11 ++ Moved.call 5 13)).run .initial) ∧
      ((Session.initial.runPrograms Moved.cfg 20 [Moved.declaration 0 1]).2.runProgram Moved.cfg 20
        (Moved.call 4 3)).1 = .failed ⟨.operandNotNumber, 2⟩ ∧
      ∃ t : Token, t.line = 2 ∧ (t ∈ Stmt.allTokens (Moved.call 4 3) ∨
        ∃ q ∈ [Moved.declaration 0 1], ∃ body ∈ Stmt.allBodies q, t ∈ Stmt.allTokens body) := by
  have hrun := lines_show_in_faults_only Moved.cfg 20
  refine ⟨?_, Moved.fails, hrun.2 [Moved.declaration 0 1] (Moved.call 4 3) _ Moved.fails⟩
  exact ((hrun.1 (· + 10) .initial .initial (Moved.relines_initial _)).2.2 _ _ Moved.relines).2

end Lox
