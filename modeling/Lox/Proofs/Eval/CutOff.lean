import Lox.Proofs.Eval.Correspondence
import Lox.Proofs.Eval.Simulation
import Lox.Proofs.Session

/-!
# Fuel and the limit on calls only cut off

A run may end because its fuel is used up or because too many calls are under way. Apart from these two
endings nothing in a run depends on fuel or limit: with more of both, a run does the same, and where the
first one was cut off the second may go on.

**Cut off.** `Extends Q x y` says that from every machine `x` and `y` end alike, or that `x` was cut off
and `y` has printed at least as much. For the second part `y` must never take back what was printed, also
after `x` has stopped; so `Extends` says that as well, and that what `y` comes up with is related to
something on the other side, so that the rest of `y` is known to be of this kind too.

**Ending.** `Session.Ends` says that a run ends in a certain way, given enough fuel.

**Results.**
* `extends_eval`: evaluation with more fuel and a higher limit.
* `Session.Ends.unique`, `Session.Ends.eventually`: a run that ends does so in one way, and more fuel
  does not change it.
* `limit_only_cuts_off`: runs of a program under two limits.
-/
namespace Lox

/-- The second machine has printed what the first one has, and maybe more. -/
def Machine.PrintedBy (m n : Machine) : Prop := m.printed.toList <+: n.printed.toList

namespace Machine.PrintedBy

theorem refl (m : Machine) : m.PrintedBy m := List.prefix_rfl

theorem trans {l m n : Machine} (h₁ : l.PrintedBy m) (h₂ : m.PrintedBy n) : l.PrintedBy n :=
  List.IsPrefix.trans h₁ h₂

theorem of_eq {m n : Machine} (h : n.printed = m.printed) : m.PrintedBy n := by
  unfold PrintedBy
  rewrite [h]
  exact List.prefix_rfl

theorem push {m n : Machine} {line : String} (h : n.printed = m.printed.push line) : m.PrintedBy n := by
  unfold PrintedBy
  rewrite [h, Array.toList_push]
  exact List.prefix_append _ _

end Machine.PrintedBy

namespace Eval

open EvalM

variable {α β γ δ : Type}

/-- The reasons for which a run under `cfg₁` may stop although one under `cfg₂`, with more fuel, goes on. -/
def Cuts (cfg₁ cfg₂ : Config) : Stop → Prop
  | .outOfFuel => True
  | .fault f => f.cause = .stackOverflow ∧ cfg₁.maxCallDepth < cfg₂.maxCallDepth

/-- The two endings are alike, or the first computation was cut off and the second has printed more. -/
inductive CutOff (cfg₁ cfg₂ : Config) (Q : α → β → Prop) :
    Ending Stop Machine α → Ending Stop Machine β → Prop where
  | ok {a b m} (h : Q a b) : CutOff cfg₁ cfg₂ Q (.ok a m) (.ok b m)
  | error {e m} : CutOff cfg₁ cfg₂ Q (.error e m) (.error e m)
  | beforeOk {e a b m n} (he : Cuts cfg₁ cfg₂ e) (hp : m.PrintedBy n) (h : Q a b) :
      CutOff cfg₁ cfg₂ Q (.error e m) (.ok b n)
  | beforeError {e e' m n} (he : Cuts cfg₁ cfg₂ e) (hp : m.PrintedBy n) :
      CutOff cfg₁ cfg₂ Q (.error e m) (.error e' n)

/-- From every machine, `y` ends like `x` or goes on where `x` is cut off, and it takes nothing back. -/
structure Extends (cfg₁ cfg₂ : Config) (Q : α → β → Prop) (x : EvalM α) (y : EvalM β) : Prop where
  ends (m : Machine) : CutOff cfg₁ cfg₂ Q (x.run m) (y.run m)
  appends (m : Machine) : m.PrintedBy (y.after m)

namespace Extends

variable {cfg₁ cfg₂ : Config} {Q : α → β → Prop} {R : γ → δ → Prop} {x : EvalM α} {y : EvalM β}

theorem pure {a : α} {b : β} (h : Q a b) : Extends cfg₁ cfg₂ Q (pure a) (pure b) :=
  ⟨fun _ => .ok h, fun m => .refl m⟩

/-- If the first computation has been cut off already, the second one goes on. -/
theorem cut (h : Extends cfg₁ cfg₂ Q x y) {e : Stop} {m n : Machine} (he : Cuts cfg₁ cfg₂ e)
    (hp : m.PrintedBy n) : CutOff cfg₁ cfg₂ Q (.error e m) (y.run n) := by
  have hends := h.ends n
  have happends := h.appends n
  unfold Deep.after at happends
  generalize x.run n = r₁ at hends
  generalize y.run n = r₂ at hends happends ⊢
  cases hends with
  | ok hq => exact .beforeOk he (hp.trans happends) hq
  | beforeOk _ _ hq => exact .beforeOk he (hp.trans happends) hq
  | error => exact .beforeError he (hp.trans happends)
  | beforeError => exact .beforeError he (hp.trans happends)

theorem outOfFuel (h : Extends cfg₁ cfg₂ Q x y) : Extends cfg₁ cfg₂ Q outOfFuel y :=
  ⟨fun m => h.cut trivial (.refl m), h.appends⟩

theorem bind {f : α → EvalM γ} {g : β → EvalM δ} (hx : Extends cfg₁ cfg₂ Q x y)
    (hf : ∀ a b, Q a b → Extends cfg₁ cfg₂ R (f a) (g b)) :
    Extends cfg₁ cfg₂ R (x >>= f) (y >>= g) := by
  refine ⟨fun m => ?_, fun m => ?_⟩
  · have hends := hx.ends m
    rw [Deep.run_bind, Deep.run_bind]
    generalize x.run m = r₁ at hends ⊢
    generalize y.run m = r₂ at hends ⊢
    cases hends with
    | ok h => exact (hf _ _ h).ends _
    | error => exact .error
    | beforeOk he hp h => exact (hf _ _ h).cut he hp
    | beforeError he hp => exact .beforeError he hp
  · have hends := hx.ends m
    have happends := hx.appends m
    unfold Deep.after at happends ⊢
    rw [Deep.run_bind]
    generalize x.run m = r₁ at hends
    generalize y.run m = r₂ at hends happends ⊢
    -- whichever way `x` ended, a value of `y` has a counterpart
    cases hends with
    | ok h => exact happends.trans ((hf _ _ h).appends _)
    | beforeOk _ _ h => exact happends.trans ((hf _ _ h).appends _)
    | error => exact happends
    | beforeError => exact happends

theorem later {x : Unit → EvalM α} {y : Unit → EvalM β} (h : Extends cfg₁ cfg₂ Q (x ()) (y ())) :
    Extends cfg₁ cfg₂ Q (.later x) (.later y) := by
  refine ⟨fun m => ?_, fun m => ?_⟩
  · rw [Deep.run_later, Deep.run_later]
    exact h.ends m
  · unfold Deep.after
    rw [Deep.run_later]
    exact h.appends m

theorem leaving {f : Machine → Machine} (h : Extends cfg₁ cfg₂ Q x y)
    (hf : ∀ m, (f m).printed = m.printed) : Extends cfg₁ cfg₂ Q (x.leaving f) (y.leaving f) := by
  have hkeep {m n : Machine} (hp : m.PrintedBy n) : (f m).PrintedBy (f n) := by
    unfold Machine.PrintedBy
    rw [hf, hf]
    exact hp
  refine ⟨fun m => ?_, fun m => ?_⟩
  · have hends := h.ends m
    rw [Deep.run_leaving, Deep.run_leaving]
    generalize x.run m = r₁ at hends ⊢
    generalize y.run m = r₂ at hends ⊢
    cases hends with
    | ok h => exact .ok h
    | error => exact .error
    | beforeOk he hp h => exact .beforeOk he (hkeep hp) h
    | beforeError he hp => exact .beforeError he (hkeep hp)
  · have happends := h.appends m
    unfold Deep.after at happends ⊢
    rw [Deep.run_leaving]
    cases hr : y.run m with
    | ok b n => rw [hr] at happends; exact happends.trans (.of_eq (hf n))
    | error e n => rw [hr] at happends; exact happends.trans (.of_eq (hf n))

/-- A computation that depends on neither fuel nor limit. -/
theorem same {x : EvalM α} {Q : α → α → Prop} (hQ : ∀ a, Q a a)
    (happends : ∀ m : Machine, m.PrintedBy (x.after m)) : Extends cfg₁ cfg₂ Q x x := by
  refine ⟨fun m => ?_, happends⟩
  cases x.run m with
  | ok a n => exact .ok (hQ a)
  | error e n => exact .error

/-- A computation that depends on neither fuel nor limit and prints nothing. -/
theorem silent {x : EvalM α} {Q : α → α → Prop} (hQ : ∀ a, Q a a)
    (hprinted : ∀ m, (x.after m).printed = m.printed) : Extends cfg₁ cfg₂ Q x x :=
  same hQ fun m => .of_eq (hprinted m)

end Extends

theorem extends_enterCall {cfg₁ cfg₂ : Config} (hle : cfg₁.maxCallDepth ≤ cfg₂.maxCallDepth)
    (line : Nat) : Extends cfg₁ cfg₂ (fun _ _ => True) (enterCall cfg₁ line) (enterCall cfg₂ line) := by
  refine ⟨fun m => ?_, fun m => ?_⟩
  · simp only [enterCall, Deep.run_of]
    by_cases h₁ : cfg₁.maxCallDepth ≤ m.depth
    · rw [if_pos h₁]
      by_cases h₂ : cfg₂.maxCallDepth ≤ m.depth
      · rw [if_pos h₂]
        exact .error
      · rw [if_neg h₂]
        exact .beforeOk ⟨rfl, by omega⟩ (.of_eq rfl) trivial (a := ())
    · rw [if_neg h₁, if_neg (by omega)]
      exact .ok trivial
  · simp only [Deep.after, enterCall, Deep.run_of]
    split <;> exact .of_eq rfl

/-! ## Evaluation -/

section
variable {cfg₁ cfg₂ : Config} (hclock : cfg₁.clock = cfg₂.clock)
  (hle : cfg₁.maxCallDepth ≤ cfg₂.maxCallDepth)

/-- Everything belongs to itself, and a computation to those that go on where it is cut off. -/
def cutOff : Correspondence cfg₁ cfg₂ where
  Rel _ := Extends cfg₁ cfg₂
  Frames := (· = ·)
  Bodies := (· = ·)
  Tokens := (· = ·)
  Enters _ := True
  Counts _ _ := True
  kind_eq := congrArg Token.kind
  lexeme_eq := congrArg Token.lexeme
  rel_pure := .pure
  rel_bind := .bind
  rel_later := .later
  rel_fault ht _ := by
    subst ht
    exact ⟨fun _ => .error, fun m => .refl m⟩
  rel_print line := by
    refine .same (fun _ => trivial) fun m => ?_
    have hpush : ((print line).after m).printed = m.printed.push line := by
      simp only [Deep.after, print, Deep.run_of, Ending.fold]
    exact .push hpush
  rel_readVar hf ht := by
    subst hf ht
    refine .silent (fun v => Value.corr_eq.2 rfl) fun m => ?_
    simp only [Deep.after, readVar, Deep.run_of]
    split <;> rfl
  rel_defineVar hf name hv := by
    obtain rfl := Value.corr_eq.1 hv
    subst hf
    refine .silent (fun _ => trivial) fun m => ?_
    simp only [Deep.after, defineVar, Deep.run_of]
    rfl
  rel_assignVar hf ht hv := by
    obtain rfl := Value.corr_eq.1 hv
    subst hf ht
    refine .silent (fun _ => trivial) fun m => ?_
    simp only [Deep.after, assignVar, Deep.run_of]
    split <;> rfl
  rel_newFrame hf := by
    subst hf
    refine .silent (fun _ => rfl) fun m => ?_
    simp only [Deep.after, newFrame, Deep.run_of]
    rfl
  rel_bindParams hf params hvs := by
    have heq := hvs.imp fun _ _ h => Value.corr_eq.1 h
    rw [List.forall₂_eq_eq_eq] at heq
    subst hf heq
    refine .silent (fun _ => trivial) fun m => ?_
    simp only [Deep.after, bindParams, Deep.run_of]
    rfl
  rel_newFunction hf ht hp hs := by
    rw [List.forall₂_eq_eq_eq] at hp
    subst hf ht hp hs
    refine .silent (fun v => Value.corr_eq.2 rfl) fun m => ?_
    simp only [Deep.after, newFunction, Deep.run_of]
    rfl
  rel_readClock := by
    intro _
    have hsame : readClock cfg₁ = readClock cfg₂ := by rw [readClock, readClock, hclock]
    rw [hsame]
    refine .silent (fun v => Value.corr_eq.2 rfl) fun m => ?_
    rw [Deep.after, run_readClock]
    rfl
  rel_callDepth := by
    intro _
    refine .silent (fun _ => ⟨rfl, trivial⟩) fun m => ?_
    simp only [Deep.after, callDepth, Deep.run_of]
    rfl
  rel_counted ht h := by
    subst ht
    rw [counted, counted]
    exact (extends_enterCall hle _).bind fun _ _ _ => (h trivial).leaving fun _ => rfl

/-- Evaluation with fuel `k` extends evaluation with fuel `n`. -/
def ExtendsAt (n k : Nat) : Prop :=
  ∀ frame, (∀ e, Extends cfg₁ cfg₂ (cutOff hclock hle).Values (evalExpr cfg₁ n frame e)
      (evalExpr cfg₂ k frame e)) ∧
    ∀ s, Extends cfg₁ cfg₂ ((cutOff hclock hle).Flows 0) (evalStmt cfg₁ n frame s) (evalStmt cfg₂ k frame s)

variable {hclock hle}

theorem extends_runWhile {test₁ test₂ : EvalM Value} {body₁ body₂ : EvalM Flow}
    (ht : Extends cfg₁ cfg₂ (cutOff hclock hle).Values test₁ test₂)
    (hb : Extends cfg₁ cfg₂ ((cutOff hclock hle).Flows 0) body₁ body₂) {n k : Nat} (hnk : n ≤ k) :
    Extends cfg₁ cfg₂ ((cutOff hclock hle).Flows 0) (runWhile test₁ body₁ n) (runWhile test₂ body₂ k) := by
  induction n generalizing k with
  | zero =>
    have hout : Extends cfg₁ cfg₂ ((cutOff hclock hle).Flows 0) outOfFuel outOfFuel :=
      ⟨fun _ => .error, fun m => .refl m⟩
    exact ((cutOff hclock hle).rel_runWhile (d := 0) ht hb hout k).outOfFuel
  | succ n ih =>
    obtain ⟨k, rfl⟩ : ∃ l, k = l + 1 := ⟨k - 1, by omega⟩
    rw [runWhile, runWhile]
    refine ht.bind fun v w hvw => (cutOff hclock hle).rel_truthy (d := 0) hvw ?_ (.pure .normal)
    refine hb.bind fun f g hfg => ?_
    cases hfg with
    | normal => exact ih (by omega)
    | returned hr hv => exact .pure (.returned hr hv)

theorem ExtendsAt.succ {n k : Nat} (hnk : n ≤ k) (h : ExtendsAt hclock hle n k) :
    ExtendsAt hclock hle (n + 1) (k + 1) := by
  intro frame
  have hexpr : ∀ e e', e = e' → Extends cfg₁ cfg₂ (cutOff hclock hle).Values
      (evalExpr cfg₁ n frame e) (evalExpr cfg₂ k frame e') := by
    rintro e _ rfl
    exact (h frame).1 e
  have hstmt : ∀ f g, f = g → ∀ s s', s = s' → Extends cfg₁ cfg₂ ((cutOff hclock hle).Flows 0)
      (evalStmt cfg₁ n f s) (evalStmt cfg₂ k g s') := by
    rintro f _ rfl s _ rfl
    exact (h f).2 s
  refine ⟨fun e => ?_, fun s => ?_⟩
  · rw [evalExpr, evalExpr]
    refine .later ((cutOff hclock hle).rel_exprStep (d := 0) rfl hexpr ?_
      (.refl (fun _ => rfl) (fun _ => rfl) e))
    rintro _ b _ rfl f g hfg
    exact (cutOff hclock hle).rel_runAll (d := 0) (List.forall₂_same.2 fun s _ => hstmt f g hfg s s rfl)
  · rw [evalStmt, evalStmt]
    refine .later ((cutOff hclock hle).rel_stmtStep (d := 0) rfl hexpr hstmt
      (.refl (fun _ => rfl) (fun _ => rfl) (fun _ => rfl) (fun _ => rfl) s) ?_)
    rintro i c b rfl
    exact extends_runWhile ((h frame).1 c) ((h frame).2 b) hnk

theorem ExtendsAt.self (k : Nat) : ExtendsAt hclock hle k k := by
  induction k with
  | zero =>
    exact fun _ => ⟨fun _ => ⟨fun _ => .error, fun m => .refl m⟩,
      fun _ => ⟨fun _ => .error, fun m => .refl m⟩⟩
  | succ k ih => exact ih.succ (Nat.le_refl k)

theorem extends_eval {n k : Nat} (hnk : n ≤ k) : ExtendsAt hclock hle n k := by
  induction n generalizing k with
  | zero =>
    -- without fuel the first evaluation is cut off at once; that the second one takes nothing back
    -- is known from comparing it with one of the same fuel
    intro frame
    have hself : ExtendsAt hclock hle k k := .self k
    obtain ⟨hexpr, hstmt⟩ := hself frame
    exact ⟨fun e => (hexpr e).outOfFuel, fun s => (hstmt s).outOfFuel⟩
  | succ n ih =>
    obtain ⟨k, rfl⟩ : ∃ l, k = l + 1 := ⟨k - 1, by omega⟩
    exact (ih (by omega)).succ (by omega)

variable (hclock hle)
include hclock hle

theorem extends_evalProgram {n k : Nat} (hnk : n ≤ k) (p : Program) :
    Extends cfg₁ cfg₂ (fun _ _ => True) (evalProgram cfg₁ n p) (evalProgram cfg₂ k p) := by
  have heval : ExtendsAt hclock hle n k := extends_eval hnk
  rw [evalProgram_eq, evalProgram_eq]
  refine (cutOff hclock hle).rel_runEach (d := 0) (List.forall₂_same.2 fun s _ => ?_)
  exact (heval Heap.globals).2 s

end
end Eval

/-! ## Runs of programs -/

/-- The run was stopped because its fuel was used up, or at a limit on calls that is below another. -/
def Outcome.IsCut (cfg₁ cfg₂ : Config) (o : Outcome) : Prop :=
  o = .outOfFuel ∨
    ∃ line, o = .failed ⟨.stackOverflow, line⟩ ∧ cfg₁.maxCallDepth < cfg₂.maxCallDepth

theorem Outcome.isCut_ofStop {cfg₁ cfg₂ : Config} {e : Stop} (h : Eval.Cuts cfg₁ cfg₂ e) :
    (ofStop e).IsCut cfg₁ cfg₂ := by
  cases e with
  | outOfFuel => exact .inl rfl
  | fault f =>
    obtain ⟨cause, line⟩ := f
    obtain ⟨rfl, hlt⟩ := h
    exact .inr ⟨line, rfl, hlt⟩

namespace Session

/-- With more fuel and a higher limit a program runs as before, or the run before was cut off. -/
theorem runProgram_cutOff (cfg₁ cfg₂ : Config) (hclock : cfg₁.clock = cfg₂.clock)
    (hle : cfg₁.maxCallDepth ≤ cfg₂.maxCallDepth) {n k : Nat} (hnk : n ≤ k) (p : Program)
    (s : Session) : s.runProgram cfg₁ n p = s.runProgram cfg₂ k p ∨
      (s.runProgram cfg₁ n p).1.IsCut cfg₁ cfg₂ ∧
        (s.runProgram cfg₁ n p).2.machine.PrintedBy (s.runProgram cfg₂ k p).2.machine := by
  have hends := (Eval.extends_evalProgram hclock hle hnk p).ends s.machine
  rw [runProgram_eq, runProgram_eq]
  generalize (evalProgram cfg₁ n p).run s.machine = r₁ at hends ⊢
  generalize (evalProgram cfg₂ k p).run s.machine = r₂ at hends ⊢
  cases hends with
  | ok => exact .inl rfl
  | error => exact .inl rfl
  | beforeOk he hp => exact .inr ⟨Outcome.isCut_ofStop he, hp⟩
  | beforeError he hp => exact .inr ⟨Outcome.isCut_ofStop he, hp⟩

/-- Once fuel is enough for a run, more of it changes nothing. -/
theorem runProgram_of_le {cfg : Config} {n k : Nat} (hnk : n ≤ k) {p : Program} {s s' : Session}
    {o : Outcome} (h : s.runProgram cfg n p = (o, s')) (ho : o ≠ .outOfFuel) :
    s.runProgram cfg k p = (o, s') := by
  rcases runProgram_cutOff cfg cfg rfl (Nat.le_refl _) hnk p s with heq | ⟨hcut, -⟩
  · exact heq ▸ h
  · rw [h] at hcut
    rcases hcut with hout | ⟨line, -, hlt⟩
    · exact absurd hout ho
    · exact absurd hlt (Nat.lt_irrefl _)

section
variable {cfg : Config} {p : Program} {s s₁ s₂ : Session} {o₁ o₂ : Outcome}

/-- From some amount of fuel on, a run that ends comes to its end. -/
theorem Ends.eventually (h : Ends cfg p s o₁ s₁) :
    ∃ n, ∀ k, n ≤ k → s.runProgram cfg k p = (o₁, s₁) := by
  obtain ⟨ho, n, hrun⟩ := h
  exact ⟨n, fun k hnk => runProgram_of_le hnk hrun ho⟩

/-- A run ends in one way only. -/
theorem Ends.unique (h₁ : Ends cfg p s o₁ s₁) (h₂ : Ends cfg p s o₂ s₂) : o₁ = o₂ ∧ s₁ = s₂ := by
  obtain ⟨n₁, hrun₁⟩ := h₁.eventually
  obtain ⟨n₂, hrun₂⟩ := h₂.eventually
  have hsame := (hrun₁ (max n₁ n₂) (Nat.le_max_left _ _)).symm.trans
    (hrun₂ (max n₁ n₂) (Nat.le_max_right _ _))
  exact Prod.mk.inj hsame

end

/-- A run that ends without too many calls under way ends in the same way under every higher limit. One
that has too many has printed only what the run under a higher limit prints first, if that one ends. -/
theorem limit_only_cuts_off {low high : Nat} (hle : low ≤ high) (clock : Nat → Float) (p : Program)
    (s : Session) :
    (∀ o s', Ends ⟨low, clock⟩ p s o s' → (∀ line, o ≠ .failed ⟨.stackOverflow, line⟩) →
      Ends ⟨high, clock⟩ p s o s') ∧
    ∀ line s₁ o s₂, Ends ⟨low, clock⟩ p s (.failed ⟨.stackOverflow, line⟩) s₁ →
      Ends ⟨high, clock⟩ p s o s₂ → s₁.printedSince s <+: s₂.printedSince s := by
  refine ⟨?_, ?_⟩
  · intro o s' hends hline
    obtain ⟨ho, fuel, hrun⟩ := hends
    refine ⟨ho, fuel, ?_⟩
    rcases runProgram_cutOff ⟨low, clock⟩ ⟨high, clock⟩ rfl hle (Nat.le_refl fuel) p s with
      heq | ⟨hcut, -⟩
    · exact heq ▸ hrun
    · rw [hrun] at hcut
      rcases hcut with hout | ⟨line, hfailed, -⟩
      · exact absurd hout ho
      · exact absurd hfailed (hline line)
  · intro line s₁ o s₂ hlow hhigh
    obtain ⟨n₁, hrun₁⟩ := hlow.eventually
    obtain ⟨n₂, hrun₂⟩ := hhigh.eventually
    have hcut := runProgram_cutOff ⟨low, clock⟩ ⟨high, clock⟩ rfl hle (Nat.le_refl (max n₁ n₂)) p s
    rw [hrun₁ _ (Nat.le_max_left _ _), hrun₂ _ (Nat.le_max_right _ _)] at hcut
    have hprefix : s₁.machine.PrintedBy s₂.machine := by
      rcases hcut with heq | ⟨-, hp⟩
      · rw [(Prod.mk.inj heq).2]
        exact .refl _
      · exact hp
    obtain ⟨more, hmore⟩ := hprefix
    unfold printedSince printed
    rewrite [← hmore, List.drop_append]
    exact List.prefix_append _ _

/-- `fun f(x) { print "s"; if (x) f(false); } f(true);`, which has two calls under way at once. -/
def twoCalls : Program :=
  let f : Token := ⟨.identifier, "f", none, 1⟩
  let x : Token := ⟨.identifier, "x", none, 1⟩
  let paren : Token := ⟨.rightParen, ")", none, 1⟩
  let call (b : Bool) : Stmt := .expression 0 (.call 0 (.var 0 f) paren [.literal 0 (.boolean b)])
  [.funDecl 0 f [x] [.print 0 (.literal 0 (.string "s")), .ifThen 0 (.var 0 x) (call false)],
    call true]

theorem limit_only_cuts_off_two_calls :
    ∃ s₁ s₂, Ends ⟨1, fun _ => 0⟩ twoCalls .initial (.failed ⟨.stackOverflow, 1⟩) s₁ ∧
      Ends ⟨2, fun _ => 0⟩ twoCalls .initial .completed s₂ ∧
      Ends ⟨3, fun _ => 0⟩ twoCalls .initial .completed s₂ ∧
      s₁.printedSince .initial = ["s"] ∧ s₂.printedSince .initial = ["s", "s"] ∧
      s₁.printedSince .initial <+: s₂.printedSince .initial := by
  have hone : Ends ⟨1, fun _ => 0⟩ twoCalls .initial (.failed ⟨.stackOverflow, 1⟩)
      (initial.runProgram ⟨1, fun _ => 0⟩ 20 twoCalls).2 :=
    ⟨nofun, 20, Prod.ext (by with_unfolding_all rfl) rfl⟩
  have htwo : Ends ⟨2, fun _ => 0⟩ twoCalls .initial .completed
      (initial.runProgram ⟨2, fun _ => 0⟩ 20 twoCalls).2 :=
    ⟨nofun, 20, Prod.ext (by with_unfolding_all rfl) rfl⟩
  have hthree := (limit_only_cuts_off (by decide : 2 ≤ 3) _ _ _).1 _ _ htwo nofun
  have hprefix := (limit_only_cuts_off (by decide : 1 ≤ 2) _ _ _).2 _ _ _ _ hone htwo
  exact ⟨_, _, hone, htwo, hthree, by decide +kernel, by decide +kernel, hprefix⟩

end Session
end Lox
