import Lox.Grammar.Program

/-!
# The states that a reader passes through

A reader is known by how it ends. What it does on the way shows in how it is made: `IsStep` lists the
operations on the state of a reader, and `Passes x s l r` says that `x` is put together from these
operations, that it performs them in the states `l` one after the other if it starts at `s`, and that it
ends with `r`.

No operation goes back. The tokens left are the end of those that were left before, and the position has
gone up by the number of tokens in between (`State.Advances`). So this holds of all states that a reader
passes through.

**Results.**
* `Passes.advances`: what is known of the states on the way.
* `passes_declarations`, `traced_statement_declaration`: every reader of the grammar is put together from the
  operations.
-/
namespace Lox.Grammar

open Token (Kind)

variable {α β : Type}

/-- The operations on the state of a reader. -/
inductive IsStep : {α : Type} → Reader α → Prop where
  | giveUp {α : Type} (cause : SyntaxError.Cause) : IsStep (fail cause : Reader α)
  | peek : IsStep next?
  | peekKind : IsStep nextKind
  | take (wanted : Kind → Bool) : IsStep (accept wanted)
  | demand (kind : Kind) (what : SyntaxError.Expected) : IsStep (expect kind what)
  | blame (t : Token) (cause : SyntaxError.Cause) : IsStep (blameTaken t cause)
  | report (b : Blame) : IsStep (complain b)
  | build {α : Type} (make : NodeId → α) : IsStep (node make)
  | takeOps : IsStep takeUnaryOps
  | skip : IsStep resume

/-- Started at `s`, the reader performs operations in the states of the list, in this order, and ends
with the last argument. -/
inductive Passes : {α : Type} → Reader α → State → List State → Ending Blame State α → Prop where
  | step {α : Type} {x : Reader α} (h : IsStep x) (s : State) : Passes x s [s] (x.run s)
  | pure {α : Type} (a : α) (s : State) : Passes (pure a) s [] (.ok a s)
  | throw {α : Type} (b : Blame) (s : State) : Passes (throw b : Reader α) s [] (.error b s)
  | pause (s : State) : Passes Deep.pause s [] (.ok () s)
  | bind {α β : Type} {x : Reader α} {f : α → Reader β} {s s₁ : State} {a : α} {l l' : List State}
      {r : Ending Blame State β} (hx : Passes x s l (.ok a s₁)) (hf : Passes (f a) s₁ l' r) :
      Passes (x >>= f) s (l ++ l') r
  | bindError {α β : Type} {x : Reader α} {f : α → Reader β} {s s₁ : State} {b : Blame} {l : List State}
      (hx : Passes x s l (.error b s₁)) : Passes (x >>= f) s l (.error b s₁)
  | tryOk {α : Type} {x : Reader α} {f : Blame → Reader α} {s s₁ : State} {a : α} {l : List State}
      (hx : Passes x s l (.ok a s₁)) : Passes (tryCatch x f) s l (.ok a s₁)
  | tryError {α : Type} {x : Reader α} {f : Blame → Reader α} {s s₁ : State} {b : Blame}
      {l l' : List State} {r : Ending Blame State α} (hx : Passes x s l (.error b s₁))
      (hf : Passes (f b) s₁ l' r) : Passes (tryCatch x f) s (l ++ l') r

theorem Passes.run_eq {x : Reader α} {s : State} {l : List State} {r : Ending Blame State α}
    (h : Passes x s l r) : x.run s = r := by
  induction h with
  | step | pure | throw | pause => rfl
  | bind _ _ ihx ihf => rw [Deep.run_bind, ihx]; exact ihf
  | bindError _ ihx => rw [Deep.run_bind, ihx]; rfl
  | tryOk _ ihx => rw [Deep.run_tryCatch, ihx]; rfl
  | tryError _ _ ihx ihf => rw [Deep.run_tryCatch, ihx]; exact ihf

/-! ## Going forward -/

/-- The second state is reached from the first one by taking tokens from the front. -/
def State.Advances (s s' : State) : Prop :=
  ∃ taken, s.rest = taken ++ s'.rest ∧ s'.position = s.position + taken.length

namespace State.Advances

variable {s s' s'' : State}

theorem refl (s : State) : s.Advances s := ⟨[], rfl, rfl⟩

theorem trans (h : s.Advances s') (h' : s'.Advances s'') : s.Advances s'' := by
  obtain ⟨taken, hrest, hposition⟩ := h
  obtain ⟨taken', hrest', hposition'⟩ := h'
  refine ⟨taken ++ taken', ?_, ?_⟩
  · rw [hrest, hrest', List.append_assoc]
  · rw [hposition', hposition, List.length_append, Nat.add_assoc]

theorem behind {t : Token} {rest : List Token} (h : s.rest = t :: rest) : s.Advances (s.behind rest) :=
  ⟨[t], h, rfl⟩

theorem length_le (h : s.Advances s') : s'.rest.length ≤ s.rest.length := by
  obtain ⟨taken, hrest, -⟩ := h
  rw [hrest, List.length_append]
  omega

theorem position_add (h : s.Advances s') : s'.position + s'.rest.length = s.position + s.rest.length := by
  obtain ⟨taken, hrest, hposition⟩ := h
  rw [hrest, hposition, List.length_append]
  omega

end State.Advances

theorem unaryOps_split (taken : List Token) (ts : List Token) :
    ∃ ops, (unaryOps taken ts).1 = ops ++ taken ∧ ts = ops.reverse ++ (unaryOps taken ts).2 := by
  induction ts generalizing taken with
  | nil => exact ⟨[], rfl, rfl⟩
  | cons t ts ih =>
    rw [unaryOps]
    split
    · obtain ⟨ops, hops, hts⟩ := ih (t :: taken)
      refine ⟨ops ++ [t], ?_, ?_⟩
      · rw [hops, List.append_assoc]
        rfl
      · rw [List.reverse_append, List.append_assoc, ← hts]
        rfl
    · exact ⟨[], rfl, rfl⟩

theorem skipStatement_split (skipped : Nat) (ts : List Token) :
    ∃ passed, ts = passed ++ (skipStatement skipped ts).1 ∧
      (skipStatement skipped ts).2 = skipped + passed.length ∧ (ts ≠ [] → passed ≠ []) := by
  fun_induction skipStatement skipped ts with
  | case1 skipped => exact ⟨[], rfl, rfl, fun h => absurd rfl h⟩
  | case2 skipped t => exact ⟨[t], rfl, rfl, fun _ => List.cons_ne_nil _ _⟩
  | case3 skipped t next rest _ => exact ⟨[t], rfl, rfl, fun _ => List.cons_ne_nil _ _⟩
  | case4 skipped t next rest _ ih =>
    obtain ⟨passed, hts, hskipped, -⟩ := ih
    refine ⟨t :: passed, ?_, ?_, fun _ => List.cons_ne_nil _ _⟩
    · rw [List.cons_append, ← hts]
    · rw [hskipped, List.length_cons]
      omega

/-- Where an ending leaves off. -/
abbrev endState (r : Ending Blame State α) : State := r.fold (fun _ s => s) fun _ s => s

theorem IsStep.advances {x : Reader α} (h : IsStep x) (s : State) : s.Advances (endState (x.run s)) := by
  cases h with
  | giveUp cause =>
    rw [fail, Deep.run_of]
    exact .refl s
  | peek =>
    rw [next?, Deep.run_of]
    exact .refl s
  | peekKind =>
    rw [nextKind, Deep.run_of]
    split <;> exact .refl s
  | take wanted =>
    rw [accept, Deep.run_of]
    split
    · exact .refl s
    · next t rest hrest =>
      split
      · exact .behind hrest
      · exact .refl s
  | demand kind what =>
    rw [expect, Deep.run_of]
    split
    · exact .refl s
    · next t rest hrest =>
      split
      · exact .behind hrest
      · exact .refl s
  | blame t cause =>
    rw [blameTaken, Deep.run_of]
    exact .refl s
  | report b =>
    rw [complain, Deep.run_of]
    exact ⟨[], rfl, rfl⟩
  | build make =>
    rw [node, Deep.run_of]
    exact ⟨[], rfl, rfl⟩
  | takeOps =>
    obtain ⟨ops, hops, hrest⟩ := unaryOps_split [] s.rest
    rw [takeUnaryOps, Deep.run_of]
    refine ⟨ops.reverse, hrest, ?_⟩
    rw [List.append_nil] at hops
    simp only [endState, Ending.fold, hops, List.length_reverse]
  | skip =>
    obtain ⟨passed, hrest, hskipped, -⟩ := skipStatement_split 0 s.rest
    rw [resume, Deep.run_of]
    refine ⟨passed, hrest, ?_⟩
    simp only [endState, Ending.fold, hskipped, Nat.zero_add]

/-- A reader never goes back. -/
theorem Passes.advances {x : Reader α} {s : State} {l : List State} {r : Ending Blame State α}
    (h : Passes x s l r) : (∀ s' ∈ l, s.Advances s') ∧ s.Advances (endState r) := by
  induction h with
  | step h s => exact ⟨fun s' hs' => by rw [List.mem_singleton.1 hs']; exact .refl s, h.advances s⟩
  | pure | throw | pause => exact ⟨fun s' hs' => absurd hs' List.not_mem_nil, .refl _⟩
  | bind _ _ ihx ihf | tryError _ _ ihx ihf =>
    refine ⟨fun s' hs' => ?_, ihx.2.trans ihf.2⟩
    rcases List.mem_append.1 hs' with hs' | hs'
    · exact ihx.1 s' hs'
    · exact ihx.2.trans (ihf.1 s' hs')
  | bindError _ ihx | tryOk _ ihx => exact ihx

/-! ## Readers put together from operations -/

/-- From every state there is a way to the end. -/
def Traced (x : Reader α) : Prop := ∀ s, ∃ l, Passes x s l (x.run s)

namespace Traced

variable {x : Reader α} {f : α → Reader β}

theorem step (h : IsStep x) : Traced x := fun s => ⟨[s], .step h s⟩

theorem pure (a : α) : Traced (pure a : Reader α) := fun s => ⟨[], .pure a s⟩

theorem throw (b : Blame) : Traced (throw b : Reader α) := fun s => ⟨[], .throw b s⟩

theorem pause : Traced (Deep.pause : Reader Unit) := fun s => ⟨[], .pause s⟩

theorem bind (hx : Traced x) (hf : ∀ a, Traced (f a)) : Traced (x >>= f) := by
  intro s
  obtain ⟨l, hl⟩ := hx s
  rw [Deep.run_bind]
  cases hrun : x.run s with
  | ok a s₁ =>
    rw [hrun] at hl
    obtain ⟨l', hl'⟩ := hf a s₁
    exact ⟨l ++ l', .bind hl hl'⟩
  | error b s₁ =>
    rw [hrun] at hl
    exact ⟨l, .bindError hl⟩

/-- A way that starts with an operation goes through the state at its start. -/
theorem bindStep (hx : IsStep x) (hf : ∀ a, Traced (f a)) (s : State) :
    ∃ l, Passes (x >>= f) s (s :: l) ((x >>= f).run s) := by
  have hl := Passes.step hx s
  rw [Deep.run_bind]
  cases hrun : x.run s with
  | ok a s₁ =>
    rw [hrun] at hl
    obtain ⟨l', hl'⟩ := hf a s₁
    exact ⟨l', .bind hl hl'⟩
  | error b s₁ =>
    rw [hrun] at hl
    exact ⟨[], .bindError hl⟩

theorem tryCatch {f : Blame → Reader α} (hx : Traced x) (hf : ∀ b, Traced (f b)) :
    Traced (tryCatch x f) := by
  intro s
  obtain ⟨l, hl⟩ := hx s
  rw [Deep.run_tryCatch]
  cases hrun : x.run s with
  | ok a s₁ =>
    rw [hrun] at hl
    exact ⟨l, .tryOk hl⟩
  | error b s₁ =>
    rw [hrun] at hl
    obtain ⟨l', hl'⟩ := hf b s₁
    exact ⟨l ++ l', .tryError hl hl'⟩

theorem map {g : α → β} (hx : Traced x) : Traced (g <$> x) := by
  rw [map_eq_pure_bind]
  exact hx.bind fun a => .pure (g a)

theorem later {x : Unit → Reader α} (hx : Traced (x ())) : Traced (.later x) :=
  pause.bind fun _ => hx.bind fun _ => pause.bind fun _ => .pure _

end Traced

theorem traced_fail (cause : SyntaxError.Cause) : Traced (fail cause : Reader α) := .step (.giveUp cause)

theorem traced_expect (kind : Kind) (what : SyntaxError.Expected) : Traced (expect kind what) :=
  .step (.demand kind what)

theorem traced_node (make : NodeId → α) : Traced (node make) := .step (.build make)

theorem traced_accept {wanted : Kind → Bool} {f : Option Token → Reader α} (hnone : Traced (f none))
    (hsome : ∀ t, Traced (f (some t))) : Traced (accept wanted >>= f) := by
  refine Traced.bind (.step (.take wanted)) fun o => ?_
  cases o with
  | none => exact hnone
  | some t => exact hsome t

theorem traced_commaSeparated {item : Reader α} (hi : Traced item) (bound : Nat) (done : Array α) :
    Traced (commaSeparated item bound done) := by
  induction bound generalizing done with
  | zero => exact traced_fail _
  | succ bound ih =>
    refine hi.bind fun a => traced_accept (.pure _) fun _ => ?_
    exact Traced.pause.bind fun _ => ih _

theorem traced_parenthesized {item : Reader α} (hi : Traced item) (bound : Nat) :
    Traced (parenthesized item bound) := by
  refine Traced.bind (.step .peekKind) fun kind => ?_
  split
  · exact .pure _
  · exact traced_commaSeparated hi bound _

theorem traced_noExpression : Traced (noExpression : Reader α) := by
  refine Traced.bind (.step .peek) fun o => ?_
  cases o with
  | none => exact traced_fail _
  | some t =>
    dsimp only
    split <;> exact traced_fail _

theorem traced_wrapUnary (ops : List Token) (e : Expr) : Traced (wrapUnary ops e) := by
  induction ops generalizing e with
  | nil => exact .pure e
  | cons op ops ih => exact (traced_node _).bind fun _ => Traced.pause.bind fun _ => ih _

section
variable {nested : Reader Expr} (hn : Traced nested)
include hn

theorem traced_primary : Traced (primary nested) := by
  refine traced_accept traced_noExpression fun t => ?_
  dsimp only
  split
  · exact traced_node _
  · exact traced_node _
  · exact traced_node _
  · exact traced_node _
  · exact hn.bind fun _ => (traced_expect _ _).bind fun _ => traced_node _
  · unfold literalOf
    split
    · exact traced_node _
    · exact Traced.bind (.step (.blame t _)) fun b => .throw b

theorem traced_calls (bound : Nat) (callee : Expr) : Traced (calls nested bound callee) := by
  induction bound generalizing callee with
  | zero => exact traced_fail _
  | succ bound ih =>
    refine traced_accept (.pure _) fun _ => ?_
    refine (traced_parenthesized hn bound).bind fun _ => (traced_expect _ _).bind fun _ => ?_
    exact (traced_node _).bind fun _ => Traced.pause.bind fun _ => ih _

theorem traced_unary (bound : Nat) : Traced (unary nested bound) := by
  refine Traced.bind (.step .takeOps) fun ops => ?_
  have hcall : Traced (call nested bound) := (traced_primary hn).bind fun _ => traced_calls hn bound _
  exact hcall.bind fun _ => traced_wrapUnary ops _

theorem traced_level (isOp : Kind → Bool) (build : NodeId → Expr → Token → Expr → Expr) (bound : Nat) :
    Traced (level isOp build nested bound) := by
  refine hn.bind fun left => ?_
  generalize hbound : bound = rounds
  clear hbound
  induction rounds generalizing left with
  | zero => exact traced_fail _
  | succ rounds ih =>
    refine traced_accept (.pure _) fun _ => hn.bind fun _ => (traced_node _).bind fun _ => ?_
    exact Traced.pause.bind fun _ => ih _

theorem traced_assignment (bound : Nat) : Traced (assignment nested bound) := by
  have hdisjunction : Traced (disjunction nested bound) :=
    traced_level (traced_level (traced_level (traced_level (traced_level (traced_level
      (traced_unary hn bound) _ _ _) _ _ _) _ _ _) _ _ _) _ _ _) _ _ _
  refine hdisjunction.bind fun target => traced_accept (.pure _) fun sign => ?_
  refine Traced.bind (.step (.blame sign _)) fun blame => hn.bind fun value => ?_
  split
  · exact traced_node _
  · exact Traced.bind (.step (.report blame)) fun _ => .pure _

end

theorem traced_expression (bound : Nat) : Traced (expression bound) := by
  induction bound with
  | zero => exact traced_fail _
  | succ bound ih => exact .later (traced_assignment ih bound)

theorem traced_optionalExpression (absent : Kind) (bound : Nat) :
    Traced (optionalExpression absent bound) := by
  refine Traced.bind (.step .peekKind) fun kind => ?_
  split
  · exact .pure _
  · exact (traced_expression bound).bind fun _ => .pure _

theorem traced_variableDeclaration (bound : Nat) : Traced (variableDeclaration bound) := by
  have hend (name : Token) (init : Option Expr) : Traced (do
      let _ ← expect .semicolon .semicolonAfterDeclaration
      node (Stmt.varDecl · name init)) := (traced_expect _ _).bind fun _ => traced_node _
  refine (traced_expect _ _).bind fun name => traced_accept ?_ fun _ => ?_
  · exact Traced.bind (.pure none) fun init => hend name init
  · exact Traced.bind (traced_expression bound).map fun init => hend name init

theorem traced_expressionStatement (bound : Nat) : Traced (expressionStatement bound) :=
  (traced_expression bound).bind fun _ => (traced_expect _ _).bind fun _ => traced_node _

theorem traced_forInitializer (bound : Nat) : Traced (forInitializer bound) := by
  refine Traced.bind (.step .peekKind) fun kind => ?_
  split
  · exact Traced.bind (.step (.take _)) fun _ => .pure _
  · exact Traced.bind (.step (.take _)) fun _ => (traced_variableDeclaration bound).bind fun _ => .pure _
  · exact (traced_expressionStatement bound).bind fun _ => .pure _

theorem traced_desugarFor (init : Option Stmt) (condition increment : Option Expr) (body : Stmt) :
    Traced (desugarFor init condition increment body) := by
  have hloop (condition : Expr) (body : Stmt) : Traced (desugarFor init (some condition) none body) := by
    refine Traced.bind (.pure body) fun body => Traced.bind (.pure condition) fun condition => ?_
    refine (traced_node _).bind fun loop => ?_
    cases init with
    | none => exact .pure _
    | some init => exact traced_node _
  have hcondition (body : Stmt) : Traced (desugarFor init condition none body) := by
    cases condition with
    | none => exact Traced.bind (.pure body) fun body => (traced_node _).bind fun c => hloop c body
    | some c => exact hloop c body
  cases increment with
  | none => exact hcondition body
  | some step => exact (traced_node _).bind fun _ => (traced_node _).bind fun body => hcondition body

section
variable {declaration : Reader (Option Stmt)} {statement : Reader Stmt} (hd : Traced declaration)
  (hs : Traced statement)

section
include hd

theorem passes_declarations (closing : Kind → Bool) (bound : Nat) (done : Array Stmt) (s : State) :
    ∃ l, Passes (declarations closing declaration bound done) s (s :: l)
      ((declarations closing declaration bound done).run s) := by
  induction bound generalizing done s with
  | zero => exact ⟨[], .step (.giveUp _) s⟩
  | succ bound ih =>
    have hrounds (done : Array Stmt) : Traced (declarations closing declaration bound done) := by
      intro s
      obtain ⟨l, hl⟩ := ih done s
      exact ⟨s :: l, hl⟩
    refine Traced.bindStep .peek (fun o => ?_) s
    cases o with
    | none => exact .pure _
    | some t =>
      dsimp only
      split
      · exact .pure _
      · refine hd.bind fun o => ?_
        cases o with
        | none => exact hrounds _
        | some stmt => exact hrounds _

theorem traced_declarations (closing : Kind → Bool) (bound : Nat) (done : Array Stmt) :
    Traced (declarations closing declaration bound done) := by
  intro s
  obtain ⟨l, hl⟩ := passes_declarations hd closing bound done s
  exact ⟨s :: l, hl⟩

theorem traced_blockBody (bound : Nat) : Traced (blockBody declaration bound) :=
  (traced_declarations hd _ bound _).bind fun _ => (traced_expect _ _).bind fun _ => .pure _

theorem traced_functionDeclaration (bound : Nat) : Traced (functionDeclaration declaration bound) := by
  refine (traced_expect _ _).bind fun _ => (traced_expect _ _).bind fun _ => ?_
  refine (traced_parenthesized (traced_expect _ _) bound).bind fun _ => (traced_expect _ _).bind fun _ => ?_
  exact (traced_expect _ _).bind fun _ => (traced_blockBody hd bound).bind fun _ => traced_node _

end

section
include hs

theorem traced_whileStatement (bound : Nat) : Traced (whileStatement statement bound) :=
  (traced_expect _ _).bind fun _ => (traced_expression bound).bind fun _ =>
    (traced_expect _ _).bind fun _ => hs.bind fun _ => traced_node _

theorem traced_ifStatement (bound : Nat) : Traced (ifStatement statement bound) := by
  refine (traced_expect _ _).bind fun _ => (traced_expression bound).bind fun _ => ?_
  refine (traced_expect _ _).bind fun _ => hs.bind fun yes => traced_accept (traced_node _) fun _ => ?_
  exact hs.bind fun _ => traced_node _

theorem traced_forStatement (bound : Nat) : Traced (forStatement statement bound) := by
  refine (traced_expect _ _).bind fun _ => (traced_forInitializer bound).bind fun _ => ?_
  refine (traced_optionalExpression _ bound).bind fun _ => (traced_expect _ _).bind fun _ => ?_
  refine (traced_optionalExpression _ bound).bind fun _ => (traced_expect _ _).bind fun _ => ?_
  exact hs.bind fun body => traced_desugarFor _ _ _ body

end

include hd hs

theorem traced_statementForm (bound : Nat) : Traced (statementForm declaration statement bound) := by
  refine traced_accept (traced_expressionStatement bound) fun t => ?_
  dsimp only
  split
  · exact traced_forStatement hs bound
  · exact traced_ifStatement hs bound
  · exact (traced_expression bound).bind fun _ => (traced_expect _ _).bind fun _ => traced_node _
  · exact (traced_optionalExpression _ bound).bind fun _ => (traced_expect _ _).bind fun _ => traced_node _
  · exact traced_whileStatement hs bound
  · exact (traced_blockBody hd bound).bind fun _ => traced_node _

theorem traced_declarationForm (bound : Nat) : Traced (declarationForm declaration statement bound) := by
  refine Traced.bind (.step .peekKind) fun kind => ?_
  split
  · exact Traced.bind (.step (.take _)) fun _ => traced_functionDeclaration hd bound
  · exact Traced.bind (.step (.take _)) fun _ => traced_variableDeclaration bound
  · exact traced_noExpression
  · exact hs

end

theorem traced_statement_declaration (bound : Nat) :
    Traced (statement bound) ∧ Traced (declaration bound) := by
  induction bound with
  | zero => exact ⟨traced_fail _, traced_fail _⟩
  | succ bound ih =>
    refine ⟨.later (traced_statementForm ih.2 ih.1 bound), .later ?_⟩
    refine Traced.tryCatch (traced_declarationForm ih.2 ih.1 bound).map fun b => ?_
    exact Traced.bind (.step (.report b)) fun _ => Traced.bind (.step .skip) fun _ => .pure _

end Lox.Grammar
