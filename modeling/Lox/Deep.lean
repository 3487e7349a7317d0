/-!
# Computations of any depth

Trees and call chains may be nested far deeper than a thread's stack reaches. A `Deep` computation
does not grow the stack: what is left to do is kept in two functions, one for a value and one for an
error, and at each `pause` the computation stops and hands over a `Bounce`, from which a loop goes
on. Between two pauses the stack holds no more than a fixed number of steps, provided that every
recursion passes one.

A computation can also stop with a question about a number that is found outside of it, such as the
time. The question comes with the answer that is expected, which `run` gives; a loop that can look
outside may give another one.

A `Deep` computation takes a state to a value or an error and a new state, and nothing else can be
told about it. This is the field `natural`: what it is told to do afterwards is done once, at the
end, with the value or the error that `run` shows. So `run` is all there is to know, and the lemmas
`run_*` say what it is for each way of building a computation.
-/
namespace Lox

/-- The end of a computation, or the rest of it, or a question and the rest from its answer on. -/
inductive Bounce (R : Type) where
  | done (r : R)
  | more (next : Unit → Bounce R)
  | ask (expected : Float) (next : Float → Bounce R)

/-- Goes on to the end. Questions get the expected answers. -/
def Bounce.run {R : Type} : Bounce R → R
  | done r => r
  | more next => (next ()).run
  | ask expected next => (next expected).run

/-- The end of a computation, with the state it leaves behind. -/
abbrev Ending (ε σ α : Type) := EStateM.Result ε σ α

/-- Goes on with one of two functions. -/
@[inline] def Ending.fold {ε σ α R : Type} (k : α → σ → R) (h : ε → σ → R) : Ending ε σ α → R
  | .ok a s => k a s
  | .error e s => h e s

/-- A computation on states `σ` that ends with a value of `α` or an error of `ε`. -/
structure Deep (ε σ α : Type) : Type 1 where
  /-- Runs the computation, and then the first function on a value or the second on an error. -/
  enter : {R : Type} → (α → σ → Bounce R) → (ε → σ → Bounce R) → σ → Bounce R
  natural : ∀ {R : Type} (k : α → σ → Bounce R) (h : ε → σ → Bounce R) (s : σ),
    (enter k h s).run =
      ((enter (fun a s => .done (.ok a s)) (fun e s => .done (.error e s)) s).run : Ending ε σ α).fold
        (fun a s => (k a s).run) (fun e s => (h e s).run)

namespace Deep

variable {ε σ α β : Type}

/-- How a computation ends. -/
def run (x : Deep ε σ α) (s : σ) : Ending ε σ α :=
  (x.enter (fun a s => .done (.ok a s)) (fun e s => .done (.error e s)) s).run

theorem run_enter {R : Type} (x : Deep ε σ α) (k : α → σ → Bounce R) (h : ε → σ → Bounce R) (s : σ) :
    (x.enter k h s).run = (x.run s).fold (fun a s => (k a s).run) (fun e s => (h e s).run) :=
  x.natural k h s

/-- A computation given by its endings. -/
@[inline] def of (f : σ → Ending ε σ α) : Deep ε σ α where
  enter k h s := (f s).fold k h
  natural k h s := by cases f s <;> rfl

/-- Goes on from the loop. -/
@[inline] def pause : Deep ε σ Unit where
  enter k _ s := .more fun _ => k () s
  natural _ _ _ := rfl

/-- Asks a question, with the answer that is expected in a state. -/
@[inline] def ask (expected : σ → Float) : Deep ε σ Float where
  enter k _ s := .ask (expected s) fun x => k x s
  natural _ _ _ := rfl

@[inline] protected def pure (a : α) : Deep ε σ α where
  enter k _ s := k a s
  natural _ _ _ := rfl

@[inline] protected def bind (x : Deep ε σ α) (f : α → Deep ε σ β) : Deep ε σ β where
  enter k h s := x.enter (fun a s => (f a).enter k h s) h s
  natural k h s := by
    simp only [run_enter]
    cases x.run s with
    | ok a s => cases h' : (f a).run s <;> simp [Ending.fold, Bounce.run, h']
    | error e s => rfl

@[inline] protected def throw (e : ε) : Deep ε σ α where
  enter _ h s := h e s
  natural _ _ _ := rfl

/-- Goes on with `f` after an error, in the state of the error. -/
@[inline] protected def tryCatch (x : Deep ε σ α) (f : ε → Deep ε σ α) : Deep ε σ α where
  enter k h s := x.enter k (fun e s => .more fun _ => (f e).enter k h s) s
  natural k h s := by
    simp only [run_enter, Bounce.run]
    cases x.run s with
    | ok a s => rfl
    | error e s => cases h' : (f e).run s <;> simp [Ending.fold, h']

/-- Changes the state at the end, whichever way it came. -/
@[inline] def leaving (x : Deep ε σ α) (f : σ → σ) : Deep ε σ α where
  enter k h s := x.enter (fun a s => k a (f s)) (fun e s => .more fun _ => h e (f s)) s
  natural k h s := by
    simp only [run_enter, Bounce.run]
    cases x.run s <;> rfl

@[always_inline]
instance : Monad (Deep ε σ) where
  pure := Deep.pure
  bind := Deep.bind

@[always_inline]
instance : MonadExceptOf ε (Deep ε σ) where
  throw := Deep.throw
  tryCatch := Deep.tryCatch

@[always_inline]
instance : MonadStateOf σ (Deep ε σ) where
  get := of fun s => .ok s s
  set s := of fun _ => .ok () s
  modifyGet f := of fun s => match f s with | (a, s) => .ok a s

/-- A computation of its own depth, with a pause before and after it. -/
@[inline] def later (x : Unit → Deep ε σ α) : Deep ε σ α := do
  pause
  let a ← x ()
  pause
  return a

instance : LawfulMonad (Deep ε σ) := LawfulMonad.mk' _ (fun _ => rfl) (fun _ _ => rfl)
  (fun _ _ _ => rfl)

@[simp] theorem run_of (f : σ → Ending ε σ α) (s : σ) : (of f).run s = f s := by
  show ((f s).fold (fun a s => Bounce.done (.ok a s)) (fun e s => .done (.error e s))).run = f s
  cases f s <;> rfl

@[simp] theorem run_pause (s : σ) : (pause : Deep ε σ Unit).run s = .ok () s := rfl

@[simp] theorem run_ask (expected : σ → Float) (s : σ) :
    (ask expected : Deep ε σ Float).run s = .ok (expected s) s := rfl

@[simp] theorem run_pure (a : α) (s : σ) : (pure a : Deep ε σ α).run s = .ok a s := rfl

@[simp] theorem run_bind (x : Deep ε σ α) (f : α → Deep ε σ β) (s : σ) :
    (x >>= f).run s = (x.run s).fold (fun a s => (f a).run s) .error :=
  x.run_enter _ _ s

@[simp] theorem run_throw (e : ε) (s : σ) : (throw e : Deep ε σ α).run s = .error e s := rfl

@[simp] theorem run_tryCatch (x : Deep ε σ α) (f : ε → Deep ε σ α) (s : σ) :
    (tryCatch x f).run s = (x.run s).fold .ok (fun e s => (f e).run s) :=
  x.run_enter _ _ s

@[simp] theorem run_leaving (x : Deep ε σ α) (f : σ → σ) (s : σ) :
    (x.leaving f).run s = (x.run s).fold (fun a s => .ok a (f s)) (fun e s => .error e (f s)) :=
  x.run_enter _ _ s

@[simp] theorem run_later (x : Unit → Deep ε σ α) (s : σ) : (later x).run s = (x ()).run s := by
  simp only [later, run_bind, run_pause, Ending.fold]
  cases (x ()).run s <;> rfl

@[simp] theorem run_get (s : σ) : (get : Deep ε σ σ).run s = .ok s s := rfl

@[simp] theorem run_modify (f : σ → σ) (s : σ) : (modify f : Deep ε σ PUnit).run s = .ok () (f s) := rfl

end Deep
end Lox
