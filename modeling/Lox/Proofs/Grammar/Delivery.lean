import Lox.Proofs.Grammar.Spelling

/-!
# What reading delivers

`Delivers x Q` says what can be known of a reader `x` that ends with a value and has not complained:
the tokens it took, the value, the numbers it used and the tokens that are left stand in the relation
`Q`. A reader that complained makes no promise but one, that complaints are not withdrawn. Without it
a complaint made by a part could be lost in the whole.

`Delivers.bind` composes the promises of two readers. There is one lemma for each operation on the
state of a reader; `Soundness` makes the promises of the readers of the grammar from these.
-/
namespace Lox.Grammar

open Token (Kind)

variable {α β : Type}

/-- A relation between a value, the tokens it was read from with the numbers before and after, and
the tokens behind them. -/
abbrev Promise (α : Type) := α → NodeId → List Token → NodeId → List Token → Prop

def Delivers (x : Reader α) (Q : Promise α) : Prop :=
  ∀ s, match x.run s with
    | .ok a s' => s.blames.size < s'.blames.size ∨ s'.blames = s.blames ∧
        ∃ ts, s.rest = ts ++ s'.rest ∧ Q a s.nextId ts s'.nextId s'.rest
    | .error _ s' => s.blames.size ≤ s'.blames.size

/-! ## Composing promises -/

theorem Delivers.mono {x : Reader α} {P Q : Promise α} (h : Delivers x P)
    (hpq : ∀ a i ts j rest, P a i ts j rest → Q a i ts j rest) : Delivers x Q := by
  intro s
  have hs := h s
  revert hs
  cases x.run s with
  | error e s' => exact id
  | ok a s' =>
    intro h
    rcases h with hlt | ⟨hb, ts, hr, hp⟩
    · exact .inl hlt
    · exact .inr ⟨hb, ts, hr, hpq _ _ _ _ _ hp⟩

/-- The second reader may rely on what the first one promises. -/
theorem Delivers.bind {x : Reader α} {f : α → Reader β} {P : Promise α} {Q : Promise β}
    (hx : Delivers x P)
    (hf : ∀ a, Delivers (f a) fun b j us k rest =>
      ∀ i ts, P a i ts j (us ++ rest) → Q b i (ts ++ us) k rest) : Delivers (x >>= f) Q := by
  intro s
  have hs := hx s
  rw [Deep.run_bind]
  revert hs
  cases x.run s with
  | error e s₁ => exact id
  | ok a s₁ =>
    intro hs
    have hs₁ := hf a s₁
    simp only [Ending.fold]
    revert hs₁
    cases (f a).run s₁ with
    | error e s₂ =>
      rcases hs with hlt | ⟨hb, -⟩
      · exact fun hle => Nat.le_of_lt (Nat.lt_of_lt_of_le hlt hle)
      · rw [hb]; exact id
    | ok b s₂ =>
      intro h
      rcases h with hlt₁ | ⟨hb₁, us, hr₁, hq⟩
      · rcases hs with hlt | ⟨hb, -⟩
        · exact .inl (Nat.lt_trans hlt hlt₁)
        · rw [hb] at hlt₁; exact .inl hlt₁
      · rcases hs with hlt | ⟨hb, ts, hr, hp⟩
        · rw [← hb₁] at hlt; exact .inl hlt
        · refine .inr ⟨hb₁.trans hb, ts ++ us, by rw [hr, hr₁, List.append_assoc], ?_⟩
          rw [hr₁] at hp
          exact hq _ _ hp

/-- A reader that leaves the state as it is. -/
theorem delivers_of_still {x : Reader α} (a : State → α) (hx : ∀ s, x.run s = .ok (a s) s)
    {Q : Promise α} (hq : ∀ s : State, Q (a s) s.nextId [] s.nextId s.rest) : Delivers x Q := by
  intro s
  rw [hx]
  exact .inr ⟨rfl, [], rfl, hq s⟩

theorem delivers_pure {a : α} {Q : Promise α} (hq : ∀ i rest, Q a i [] i rest) :
    Delivers (pure a : Reader α) Q :=
  delivers_of_still (fun _ => a) (fun _ => rfl) fun s => hq s.nextId s.rest

theorem Delivers.map {x : Reader α} {g : α → β} {Q : Promise β}
    (hx : Delivers x fun a => Q (g a)) : Delivers (g <$> x) Q := by
  rw [map_eq_pure_bind]
  refine hx.bind fun a => delivers_pure ?_
  intro i rest i' ts hq
  simpa using hq

theorem delivers_pause : Delivers (Deep.pause : Reader Unit) fun _ i ts j _ => ts = [] ∧ j = i :=
  delivers_of_still (fun _ => ()) (fun _ => rfl) fun _ => ⟨rfl, rfl⟩

theorem Delivers.later {x : Unit → Reader α} {Q : Promise α} (hx : Delivers (x ()) Q) :
    Delivers (.later x) Q := by
  intro s
  rw [Deep.run_later]
  exact hx s

/-! ## Single tokens -/

theorem delivers_fail {cause : SyntaxError.Cause} {Q : Promise α} : Delivers (fail cause) Q := by
  intro s
  simp [fail]

theorem delivers_throw {b : Blame} {Q : Promise α} : Delivers (throw b : Reader α) Q := by
  intro s
  simp

/-- A complaint releases a reader from its promise. -/
theorem delivers_complain {b : Blame} : Delivers (complain b) fun _ _ _ _ _ => False := by
  intro s
  simp [complain]

theorem delivers_next? :
    Delivers next? fun o i ts j rest => ts = [] ∧ j = i ∧ o = rest.head? :=
  delivers_of_still (fun s => s.rest.head?) (fun _ => by simp [next?]) fun _ => ⟨rfl, rfl, rfl⟩

/-- The kind of the next token, as a function of the tokens. -/
def headKind : List Token → Kind
  | [] => .eof
  | t :: _ => t.kind

theorem delivers_nextKind :
    Delivers nextKind fun k i ts j rest => ts = [] ∧ j = i ∧ k = headKind rest := by
  refine delivers_of_still (fun s => headKind s.rest) ?_ fun _ => ⟨rfl, rfl, rfl⟩
  intro s
  rw [nextKind, Deep.run_of]
  cases s.rest <;> rfl

theorem delivers_blameTaken {t : Token} {cause : SyntaxError.Cause} :
    Delivers (blameTaken t cause) fun _ i ts j _ => ts = [] ∧ j = i :=
  delivers_of_still (fun s => ⟨s.position - 1, some t, cause⟩) (fun _ => by simp [blameTaken])
    fun _ => ⟨rfl, rfl⟩

theorem delivers_node {build : NodeId → α} :
    Delivers (node build) fun a i ts j _ => a = build i ∧ ts = [] ∧ j = i + 1 := by
  intro s
  simp [node]

theorem delivers_expect {k : Kind} {what : SyntaxError.Expected} :
    Delivers (expect k what) fun t i ts j _ => ts = [t] ∧ j = i ∧ t.kind = k := by
  intro s
  rw [expect, Deep.run_of]
  cases hr : s.rest with
  | nil => exact Nat.le_refl _
  | cons t rest =>
    dsimp only
    by_cases hk : t.kind = k
    · rw [if_pos hk]
      exact .inr ⟨rfl, [t], rfl, rfl, rfl, hk⟩
    · rewrite [if_neg hk]
      exact Nat.le_refl _

theorem delivers_accept {wanted : Kind → Bool} :
    Delivers (accept wanted) fun o i ts j rest => j = i ∧
      match o with
      | none => ts = [] ∧ ¬ Starts wanted rest
      | some t => ts = [t] ∧ wanted t.kind = true := by
  intro s
  rw [accept, Deep.run_of]
  cases hr : s.rest with
  | nil =>
    refine .inr ⟨rfl, [], hr.symm, rfl, rfl, ?_⟩
    intro h
    obtain ⟨t, us, h, -⟩ := h
    rw [hr] at h
    cases h
  | cons t rest =>
    dsimp only
    by_cases hk : wanted t.kind = true
    · rw [if_pos hk]
      exact .inr ⟨rfl, [t], rfl, rfl, rfl, hk⟩
    · rw [if_neg hk]
      refine .inr ⟨rfl, [], hr.symm, rfl, rfl, ?_⟩
      intro h
      obtain ⟨u, us, h, hu⟩ := h
      rw [hr] at h
      cases h
      exact hk hu

/-- A token whose kind has been looked at is taken. -/
theorem delivers_accept_next {k : Kind} (hk : k ≠ .eof) :
    Delivers (accept (· == k)) fun _ i ts j rest => j = i ∧
      (k = headKind (ts ++ rest) → ∃ t, ts = [t] ∧ t.kind = k) := by
  refine delivers_accept.mono ?_
  intro o i ts j rest h
  obtain ⟨rfl, ho⟩ := h
  refine ⟨rfl, fun hhead => ?_⟩
  cases o with
  | some t => exact ⟨t, ho.1, eq_of_beq ho.2⟩
  | none =>
    obtain ⟨rfl, hstart⟩ := ho
    cases rest with
    | nil => exact absurd hhead hk
    | cons t rest => exact absurd ⟨t, rest, rfl, beq_iff_eq.2 hhead.symm⟩ hstart

/-! ## Lists -/

/-- Items with commas between them, each as `P` says. -/
inductive Separated (P : α → NodeId → List Token → NodeId → Prop) :
    List α → NodeId → List Token → NodeId → Prop where
  | one {a i ts j} (h : P a i ts j) : Separated P [a] i ts j
  | cons {a b as i ts j c us k} (h : P a i ts j) (hc : c.kind = Kind.comma)
      (hs : Separated P (b :: as) j us k) : Separated P (a :: b :: as) i (ts ++ c :: us) k

theorem delivers_commaSeparated {item : Reader α} {P : α → NodeId → List Token → NodeId → Prop}
    (hi : Delivers item fun a i ts j _ => P a i ts j) : ∀ bound (done : Array α),
    Delivers (commaSeparated item bound done) fun l i ts j _ =>
      ∃ a as, l = done.toList ++ a :: as ∧ Separated P (a :: as) i ts j
  | 0, _ => delivers_fail
  | bound + 1, done => by
    rw [commaSeparated]
    refine hi.bind fun a => ?_
    refine delivers_accept.bind fun o => ?_
    cases o with
    | none =>
      refine delivers_pure ?_
      rintro i rest i₁ ts₁ ⟨rfl, rfl, -⟩ i₂ ts₂ ha
      exact ⟨a, [], by simp, by simpa using Separated.one ha⟩
    | some c =>
      refine delivers_pause.bind fun _ => ?_
      refine (delivers_commaSeparated hi bound (done.push a)).mono ?_
      rintro l i ts j rest ⟨b, bs, rfl, hs⟩ _ _ ⟨rfl, rfl⟩ i₁ ts₁ ⟨rfl, rfl, hc⟩ i₂ ts₂ ha
      exact ⟨a, b :: bs, by simp, by simpa using Separated.cons ha (eq_of_beq hc) hs⟩

theorem delivers_parenthesized {item : Reader α} {P : α → NodeId → List Token → NodeId → Prop}
    (hi : Delivers item fun a i ts j _ => P a i ts j) (bound : Nat) :
    Delivers (parenthesized item bound) fun l i ts j _ =>
      l = [] ∧ ts = [] ∧ j = i ∨ Separated P l i ts j := by
  rw [parenthesized]
  refine delivers_nextKind.bind fun k => ?_
  split
  · refine delivers_pure ?_
    intro i rest i₁ ts₁ h
    obtain ⟨rfl, rfl, -⟩ := h
    exact .inl ⟨rfl, rfl, rfl⟩
  · refine (delivers_commaSeparated hi bound #[]).mono ?_
    rintro l i ts j rest ⟨a, as, rfl, hs⟩ i₁ ts₁ ⟨rfl, rfl, -⟩
    exact .inr (by simpa using hs)

end Lox.Grammar
