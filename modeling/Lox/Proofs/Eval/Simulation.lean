import Lox.Eval.Run

/-!
# Two runs side by side

`Sim I E Q x y` says that `x` and `y`, started on machines related by `I`, both end with values or both
stop, with values related by `Q` or reasons related by `E`, and leave behind machines related by `I`
again. One lemma for each way of building a computation takes such a statement from the parts to the
whole, so a relation between runs has to be checked on the operations of a machine only.
-/
namespace Lox

namespace Deep

variable {ε σ α : Type}

/-- The value or the error with which a computation ends. -/
def result (x : Deep ε σ α) (s : σ) : Except ε α := (x.run s).fold (fun a _ => .ok a) fun e _ => .error e

/-- The state that a computation leaves behind, whichever way it ends. -/
def after (x : Deep ε σ α) (s : σ) : σ := (x.run s).fold (fun _ s => s) fun _ s => s

end Deep

namespace Eval

variable {α β γ δ : Type} {I : Machine → Machine → Prop} {E : Stop → Stop → Prop}

/-- Two endings of one kind, with related contents. -/
inductive Ends (I : Machine → Machine → Prop) (E : Stop → Stop → Prop) (Q : α → β → Prop) :
    Ending Stop Machine α → Ending Stop Machine β → Prop where
  | ok {a b m₁ m₂} (hq : Q a b) (hi : I m₁ m₂) : Ends I E Q (.ok a m₁) (.ok b m₂)
  | error {e f m₁ m₂} (he : E e f) (hi : I m₁ m₂) : Ends I E Q (.error e m₁) (.error f m₂)

/-- From related machines, the two computations end alike. -/
def Sim (I : Machine → Machine → Prop) (E : Stop → Stop → Prop) (Q : α → β → Prop) (x : EvalM α)
    (y : EvalM β) : Prop :=
  ∀ m₁ m₂, I m₁ m₂ → Ends I E Q (x.run m₁) (y.run m₂)

namespace Sim

variable {Q : α → β → Prop} {R : γ → δ → Prop} {x : EvalM α} {y : EvalM β}

theorem pure {a : α} {b : β} (h : Q a b) : Sim I E Q (pure a) (pure b) := fun _ _ hi => .ok h hi

theorem throw {e f : Stop} (h : E e f) : Sim I E Q (throw e) (throw f) := fun _ _ hi => .error h hi

theorem of {f : Machine → Ending Stop Machine α} {g : Machine → Ending Stop Machine β}
    (h : ∀ m₁ m₂, I m₁ m₂ → Ends I E Q (f m₁) (g m₂)) : Sim I E Q (.of f) (.of g) := by
  intro m₁ m₂ hi
  rw [Deep.run_of, Deep.run_of]
  exact h m₁ m₂ hi

/-- What two runs can end with. -/
theorem endings {m₁ m₂ : Machine} (h : Sim I E Q x y) (hi : I m₁ m₂) :
    (∃ a b n₁ n₂, x.run m₁ = .ok a n₁ ∧ y.run m₂ = .ok b n₂ ∧ Q a b ∧ I n₁ n₂) ∨
      ∃ e f n₁ n₂, x.run m₁ = .error e n₁ ∧ y.run m₂ = .error f n₂ ∧ E e f ∧ I n₁ n₂ := by
  have hends := h m₁ m₂ hi
  generalize x.run m₁ = r₁ at hends ⊢
  generalize y.run m₂ = r₂ at hends ⊢
  cases hends with
  | ok hq hi => exact .inl ⟨_, _, _, _, rfl, rfl, hq, hi⟩
  | error he hi => exact .inr ⟨_, _, _, _, rfl, rfl, he, hi⟩

theorem bind {f : α → EvalM γ} {g : β → EvalM δ} (hx : Sim I E Q x y)
    (hf : ∀ a b, Q a b → Sim I E R (f a) (g b)) : Sim I E R (x >>= f) (y >>= g) := by
  intro m₁ m₂ hi
  rw [Deep.run_bind, Deep.run_bind]
  rcases hx.endings hi with ⟨a, b, n₁, n₂, h₁, h₂, hq, hn⟩ | ⟨e, f, n₁, n₂, h₁, h₂, he, hn⟩
  · rw [h₁, h₂]
    exact hf a b hq n₁ n₂ hn
  · rw [h₁, h₂]
    exact .error he hn

theorem later {x : Unit → EvalM α} {y : Unit → EvalM β} (h : Sim I E Q (x ()) (y ())) :
    Sim I E Q (.later x) (.later y) := by
  intro m₁ m₂ hi
  rw [Deep.run_later, Deep.run_later]
  exact h m₁ m₂ hi

theorem leaving {f g : Machine → Machine} (h : Sim I E Q x y)
    (hfg : ∀ m₁ m₂, I m₁ m₂ → I (f m₁) (g m₂)) : Sim I E Q (x.leaving f) (y.leaving g) := by
  intro m₁ m₂ hi
  rw [Deep.run_leaving, Deep.run_leaving]
  rcases h.endings hi with ⟨a, b, n₁, n₂, h₁, h₂, hq, hn⟩ | ⟨e, f, n₁, n₂, h₁, h₂, he, hn⟩
  · rw [h₁, h₂]
    exact .ok hq (hfg n₁ n₂ hn)
  · rw [h₁, h₂]
    exact .error he (hfg n₁ n₂ hn)

/-- What is known of the values of the first computation can be used about related ones. -/
theorem also {P : α → Prop} (h : Sim I E Q x y) (hP : ∀ m a n, x.run m = .ok a n → P a) :
    Sim I E (fun a b => Q a b ∧ P a) x y := by
  intro m₁ m₂ hi
  rcases h.endings hi with ⟨a, b, n₁, n₂, h₁, h₂, hq, hn⟩ | ⟨e, f, n₁, n₂, h₁, h₂, he, hn⟩
  · rw [h₁, h₂]
    exact .ok ⟨hq, hP m₁ a n₁ h₁⟩ hn
  · rw [h₁, h₂]
    exact .error he hn

/-- The machines left behind are related. -/
theorem after {m₁ m₂ : Machine} (h : Sim I E Q x y) (hi : I m₁ m₂) : I (x.after m₁) (y.after m₂) := by
  unfold Deep.after
  rcases h.endings hi with ⟨a, b, n₁, n₂, h₁, h₂, -, hn⟩ | ⟨e, f, n₁, n₂, h₁, h₂, -, hn⟩
  · rw [h₁, h₂]
    exact hn
  · rw [h₁, h₂]
    exact hn

/-- If related values and related reasons are equal, the two computations end in the same way. -/
theorem result_eq {x y : EvalM α} {Q : α → α → Prop} {m₁ m₂ : Machine} (h : Sim I (· = ·) Q x y)
    (hQ : ∀ a b, Q a b → a = b) (hi : I m₁ m₂) : x.result m₁ = y.result m₂ := by
  unfold Deep.result
  rcases h.endings hi with ⟨a, b, n₁, n₂, h₁, h₂, hq, -⟩ | ⟨e, f, n₁, n₂, h₁, h₂, he, -⟩
  · rw [h₁, h₂]
    exact congrArg Except.ok (hQ a b hq)
  · rw [h₁, h₂]
    exact congrArg Except.error he

end Sim
end Eval
end Lox
