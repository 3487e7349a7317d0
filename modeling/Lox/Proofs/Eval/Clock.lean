import Lox.Proofs.Eval.Correspondence
import Lox.Proofs.Eval.Simulation
import Lox.Proofs.Session

/-!
# A clock that is read while a program runs

A run asks for the time when it needs it and goes on from the answer, so what the clock will show need not be
known before. Nothing is lost by that: a run whose questions are answered one after the other with what the clock
shows is the run of a configuration that has this clock from the start. What the configuration of the first run
expects to be answered plays no part.

The two runs are compared as `Correspondence`s are. The first one is entered with functions for what is to be done
afterwards, and its questions are counted by the machine (`ticks`), so that the next reading is known at any time.

**Results.**
* `answers_evalProgram`: programs.
* `Session.answered_enter`: source texts, in a session that has read the clock any number of times.
-/
namespace Lox

/-- Goes on to the end. Questions are answered with reading `n` of the clock, the one behind it, and so on. -/
def Bounce.answered {R : Type} (clock : Nat → Float) : (n : Nat) → Bounce R → R
  | _, .done r => r
  | n, .more next => (next ()).answered clock n
  | n, .ask _ next => (next (clock n)).answered clock (n + 1)

namespace Eval

open EvalM

/-- With its questions answered by the clock, `x` ends as `y` does. -/
def Answers {α β : Type} (clock : Nat → Float) (Q : α → β → Prop) (x : EvalM α) (y : EvalM β) : Prop :=
  ∀ (R : Type) (k : α → Machine → Bounce R) (h : Stop → Machine → Bounce R) (k' : β → Machine → R)
    (h' : Stop → Machine → R) (m : Machine),
    (∀ a b n, Q a b → (k a n).answered clock n.ticks = k' b n) →
    (∀ e n, (h e n).answered clock n.ticks = h' e n) →
      (x.enter k h m).answered clock m.ticks = (y.run m).fold k' h'

namespace Answers

variable {α β γ δ : Type} {clock : Nat → Float} {Q : α → β → Prop} {R : γ → δ → Prop} {x : EvalM α} {y : EvalM β}

theorem pure {a : α} {b : β} (h : Q a b) : Answers clock Q (pure a) (pure b) :=
  fun _ _ _ _ _ m hk _ => hk a b m h

theorem throw (e : Stop) : Answers clock Q (throw e) (throw e) :=
  fun _ _ _ _ _ m _ hh => hh e m

theorem bind {f : α → EvalM γ} {g : β → EvalM δ} (hx : Answers clock Q x y)
    (hf : ∀ a b, Q a b → Answers clock R (f a) (g b)) : Answers clock R (x >>= f) (y >>= g) := by
  intro S k h k' h' m hk hh
  have hrest : ∀ a b n, Q a b → ((f a).enter k h n).answered clock n.ticks = ((g b).run n).fold k' h' :=
    fun a b n hab => hf a b hab S k h k' h' n hk hh
  have hends := hx S (fun a n => (f a).enter k h n) h (fun b n => ((g b).run n).fold k' h') h' m hrest hh
  rw [Deep.run_bind]
  cases hy : y.run m <;> rw [hy] at hends <;> exact hends

theorem later {x : Unit → EvalM α} {y : Unit → EvalM β} (h : Answers clock Q (x ()) (y ())) :
    Answers clock Q (.later x) (.later y) := by
  intro S k h' k' h'' m hk hh
  rw [Deep.run_later]
  exact h S (fun a n => .more fun _ => k a n) h' k' h'' m hk hh

/-- A step that asks nothing leaves the count of the readings as it is. -/
theorem of {f : Machine → Ending Stop Machine α} {Q : α → α → Prop} (hQ : ∀ a, Q a a)
    (hticks : ∀ m, ((Deep.of f).after m).ticks = m.ticks) : Answers clock Q (.of f) (.of f) := by
  intro _ k h k' h' m hk hh
  have hsame := hticks m
  unfold Deep.after at hsame
  rw [Deep.run_of] at hsame ⊢
  change ((f m).fold k h).answered clock m.ticks = _
  rw [← hsame]
  cases f m with
  | ok a n => exact hk a a n (hQ a)
  | error e n => exact hh e n

theorem leaving {f : Machine → Machine} (h : Answers clock Q x y) (hticks : ∀ m, (f m).ticks = m.ticks) :
    Answers clock Q (x.leaving f) (y.leaving f) := by
  intro S k e k' e' m hk he
  have hends := h S (fun a n => k a (f n)) (fun s n => .more fun _ => e s (f n)) (fun b n => k' b (f n))
    (fun s n => e' s (f n)) m (fun a b n hab => ?_) fun s n => ?_
  · rw [Deep.run_leaving]
    cases hy : y.run m <;> rw [hy] at hends <;> exact hends
  · rw [← hticks n]
    exact hk a b (f n) hab
  · rw [← hticks n]
    exact he s (f n)

end Answers

section
variable {cfg₁ cfg₂ : Config} (hlimit : cfg₁.maxCallDepth = cfg₂.maxCallDepth)

theorem answers_readClock {Q : Value → Value → Prop} (hQ : ∀ v, Q v v) :
    Answers cfg₂.clock Q (readClock cfg₁) (readClock cfg₂) := by
  intro _ k h k' h' m hk _
  rw [run_readClock]
  exact hk (.number (cfg₂.clock m.ticks)) _ { m with ticks := m.ticks + 1 } (hQ _)

/-- Everything belongs to itself, and a computation to the one that knows what the clock shows. -/
def answering : Correspondence cfg₁ cfg₂ where
  Rel _ := Answers cfg₂.clock
  Frames := (· = ·)
  Bodies := (· = ·)
  Tokens := (· = ·)
  Enters _ := True
  Counts _ _ := True
  kind_eq := congrArg Token.kind
  lexeme_eq := congrArg Token.lexeme
  rel_pure := .pure
  rel_bind := .bind
  rel_later := .later
  rel_fault ht _ := ht ▸ .throw _
  rel_print _ := .of (fun _ => trivial) fun _ => rfl
  rel_readVar hf ht := by
    subst hf ht
    refine .of (fun _ => Value.corr_eq.2 rfl) fun m => ?_
    rw [Deep.after, Deep.run_of]
    split <;> rfl
  rel_defineVar hf name hv := by
    obtain rfl := Value.corr_eq.1 hv
    subst hf
    exact .of (fun _ => trivial) fun _ => rfl
  rel_assignVar hf ht hv := by
    obtain rfl := Value.corr_eq.1 hv
    subst hf ht
    refine .of (fun _ => trivial) fun m => ?_
    rw [Deep.after, Deep.run_of]
    split <;> rfl
  rel_newFrame hf := by
    subst hf
    exact .of (fun _ => rfl) fun _ => rfl
  rel_bindParams hf params hvs := by
    have heq := hvs.imp fun _ _ h => Value.corr_eq.1 h
    rw [List.forall₂_eq_eq_eq] at heq
    subst hf heq
    exact .of (fun _ => trivial) fun _ => rfl
  rel_newFunction hf ht hp hs := by
    rw [List.forall₂_eq_eq_eq] at hp
    subst hf ht hp hs
    exact .of (fun _ => Value.corr_eq.2 rfl) fun _ => rfl
  rel_readClock := answers_readClock fun _ => Value.corr_eq.2 rfl
  rel_callDepth := .of (fun _ => ⟨rfl, trivial⟩) fun _ => rfl
  rel_counted {_ _ _ _ s _ _ _} ht h := by
    subst ht
    have henter : Answers cfg₂.clock (fun _ _ => True) (enterCall cfg₁ s.line) (enterCall cfg₂ s.line) := by
      rw [enterCall, enterCall, hlimit]
      refine .of (fun _ => trivial) fun m => ?_
      rw [Deep.after, Deep.run_of]
      split <;> rfl
    exact henter.bind fun _ _ _ => (h trivial).leaving fun _ => rfl

include hlimit in
theorem answers_evalProgram (fuel : Nat) (p : Program) :
    Answers cfg₂.clock (fun _ _ => True) (evalProgram cfg₁ fuel p) (evalProgram cfg₂ fuel p) := by
  have hexpr {e e' : Expr} (h : e = e') : Expr.Layer (· = ·) (· = ·) e e' :=
    h ▸ .refl (fun _ => rfl) (fun _ => rfl) e
  have hstmt {s s' : Stmt} (h : s = s') : Stmt.Layer (· = ·) (· = ·) (· = ·) (· = ·) s s' :=
    h ▸ .refl (fun _ => rfl) (fun _ => rfl) (fun _ => rfl) (fun _ => rfl) s
  have hbody {b b' : List Stmt} (h : b = b') : List.Forall₂ (· = ·) b b' := h ▸ List.forall₂_same.2 fun _ _ => rfl
  exact (answering hlimit).rel_evalProgram hexpr hstmt hbody (.throw _) rfl fuel 0 (hbody rfl)

end
end Eval

/-- A run that is told what the clock shows whenever it asks is the run under that clock. -/
theorem Session.answered_enter {R : Type} {cfg₁ cfg₂ : Config} (hlimit : cfg₁.maxCallDepth = cfg₂.maxCallDepth)
    (fuel : Nat) (source : String) (s : Session) (k : Outcome → Session → R) :
    (s.enter cfg₁ fuel source k).answered cfg₂.clock s.machine.ticks =
      k (s.run cfg₂ fuel source).1 (s.run cfg₂ fuel source).2 := by
  cases hprogram : (Program.ofSource source 0).program with
  | error errors =>
    rw [run_of_rejected hprogram, enter, hprogram]
    rfl
  | ok p =>
    rw [run_of_program hprogram, runProgram_eq, enter, hprogram]
    dsimp only
    rw [enterProgram, Eval.answers_evalProgram hlimit fuel p R _ _ (fun _ m => k .completed ⟨m⟩)
      (fun e m => k (.ofStop e) ⟨m⟩) s.machine (fun _ _ _ _ => rfl) fun _ _ => rfl]
    cases (evalProgram cfg₂ fuel p).run s.machine <;> rfl

end Lox
