import Lox.Proofs.Grammar.Resumption

/-!
# No token is complained about twice

A reading complains in two ways. A declaration that cannot be read is given up with a complaint, and tokens are skipped.
A left side that cannot be assigned to is complained about where its `=` is, after the right side was read, and reading
goes on. Positions only grow, a complaint is about the next token or one that was just taken, and where a declaration is
given up, skipping takes the token that is complained about. So no two complaints are about the same token.

Only at the end of the input there is nothing to take, and each block that is open there complains.

**Open blocks.** `openBraces` goes through the tokens and keeps the positions of the braces that are open. It skips what
recovery skips, which it knows from the complaints.

**Segments.** `Segment s s' N E f` says what there is to say about the way from `s` to `s'`: the complaints `N` are
about different tokens on the way, the complaints `E` are about the end of the input, and `openBraces` gets from `s` to
`s'`, where it has `f opens` for `opens`. Segments can be put one behind the other (`Segment.trans`).

**Readers.** `Orderly n k x` says that `x` makes a segment in front of at most `n` tokens, at least `k` of which it
takes, or that it fails at the end of one. Bounds count for what they do in `Progress`: a bound that is used up looks
like an expression that is missing.

**Results.**
* `orderly_expression`, `orderly_statement_declaration`: every reader makes segments.
* `read_accounted`: a reading is one segment, from the first token to the end.
* `no_token_is_blamed_twice`.
-/
namespace Lox.Grammar

open Token (Kind)

variable {α β : Type}

/-! ## Open blocks -/

/-- The complaint at a position with which a declaration was given up. -/
def failureAt (blames : List Blame) (p : Nat) : Option Blame :=
  blames.find? fun b => b.position == p && b.cause != .invalidTarget

/-- An expression is missed at a token that can start one. Such a token was taken, but has no value. -/
def Blame.isTaken (b : Blame) : Bool := b.cause == .expected .expression && b.token.any (startsPrimary ·.kind)

/-- How many of the tokens behind `t` are skipped if a declaration is given up with a complaint about `t`. -/
def skippedBehind (b : Blame) (t : Token) (ts : List Token) : Nat :=
  if b.isTaken then (skipStatement 0 ts).2 else (skipStatement 0 (t :: ts)).2 - 1

/-- The positions of the braces that are open behind the tokens, the innermost one first, if those in `opens` are open
in front of them. The first token is at the position `p`, and `skip` of them are still to be skipped. -/
def openBraces (blames : List Blame) : (p skip : Nat) → (opens : List Nat) → List Token → List Nat
  | _, _, opens, [] => opens
  | p, skip + 1, opens, _ :: ts => openBraces blames (p + 1) skip opens ts
  | p, 0, opens, t :: ts =>
    match failureAt blames p with
    | some b => openBraces blames (p + 1) (skippedBehind b t ts) opens ts
    | none =>
      match t.kind with
      | .leftBrace => openBraces blames (p + 1) 0 (p :: opens) ts
      | .rightBrace => openBraces blames (p + 1) 0 opens.tail ts
      | _ => openBraces blames (p + 1) 0 opens ts

theorem failureAt_append (N M : List Blame) (p : Nat) :
    failureAt (N ++ M) p = (failureAt N p).or (failureAt M p) :=
  List.find?_append

theorem failureAt_eq_none {N : List Blame} {p : Nat} (h : ∀ b ∈ N, b.position ≠ p) : failureAt N p = none := by
  refine List.find?_eq_none.2 fun b hb => ?_
  simp [h b hb]

def isBrace (k : Kind) : Bool := k == .leftBrace || k == .rightBrace

/-- No brace is wanted. -/
def NoBrace (wanted : Kind → Bool) : Prop := wanted .leftBrace = false ∧ wanted .rightBrace = false

theorem NoBrace.isBrace_eq {wanted : Kind → Bool} (h : NoBrace wanted) {k : Kind} (hk : wanted k = true) :
    isBrace k = false := by
  have hleft : k ≠ .leftBrace := by
    rintro rfl
    rw [h.1] at hk
    cases hk
  have hright : k ≠ .rightBrace := by
    rintro rfl
    rw [h.2] at hk
    cases hk
  simp [isBrace, hleft, hright]

section
variable {S : List Blame} {p : Nat} {opens : List Nat} {t : Token} {ts : List Token}

theorem openBraces_nil (S : List Blame) (p k : Nat) (opens : List Nat) : openBraces S p k opens [] = opens := by
  cases k <;> rfl

theorem openBraces_skip (S : List Blame) (p k : Nat) (opens : List Nat) (ts : List Token) :
    openBraces S p k opens ts = openBraces S (p + k) 0 opens (ts.drop k) := by
  induction k generalizing p ts with
  | zero => rfl
  | succ k ih =>
    cases ts with
    | nil => rw [List.drop_nil, openBraces_nil, openBraces_nil]
    | cons t ts => rw [openBraces, ih, List.drop_succ_cons, Nat.add_assoc, Nat.add_comm 1 k]

theorem openBraces_plain (hp : failureAt S p = none) (ht : isBrace t.kind = false) :
    openBraces S p 0 opens (t :: ts) = openBraces S (p + 1) 0 opens ts := by
  rw [openBraces, hp]
  dsimp only
  split
  · next hk =>
    rw [hk] at ht
    cases ht
  · next hk =>
    rw [hk] at ht
    cases ht
  · rfl

theorem openBraces_open (hp : failureAt S p = none) (ht : t.kind = .leftBrace) :
    openBraces S p 0 opens (t :: ts) = openBraces S (p + 1) 0 (p :: opens) ts := by
  rw [openBraces, hp]
  simp only [ht]

theorem openBraces_close (hp : failureAt S p = none) (ht : t.kind = .rightBrace) :
    openBraces S p 0 opens (t :: ts) = openBraces S (p + 1) 0 opens.tail ts := by
  rw [openBraces, hp]
  simp only [ht]

theorem openBraces_failed {b : Blame} (hp : failureAt S p = some b) :
    openBraces S p 0 opens (t :: ts) =
      openBraces S (p + 1 + skippedBehind b t ts) 0 opens (ts.drop (skippedBehind b t ts)) := by
  rw [openBraces, hp]
  exact openBraces_skip S _ _ opens ts

end

/-! ## Segments -/

/-- The complaint is about the token at its position, which is in front of `s`. Complaints about a left side are about
its `=`. -/
structure Blame.At (b : Blame) (s : State) : Prop where
  le : s.position ≤ b.position
  token_eq : b.token = s.rest[b.position - s.position]?
  target : b.cause = .invalidTarget → ∀ t, b.token = some t → t.kind = .equal

theorem State.Advances.le {s s' : State} (h : s.Advances s') : s.position ≤ s'.position := by
  obtain ⟨taken, -, hposition⟩ := h
  omega

theorem Blame.At.before {b : Blame} {s s' : State} (h : b.At s') (hs : s.Advances s') : b.At s := by
  obtain ⟨taken, hrest, hposition⟩ := hs
  have hle := h.le
  refine ⟨by omega, ?_, h.target⟩
  rw [h.token_eq, hrest, List.getElem?_append_right (by omega)]
  congr 1
  omega

/-- The way from `s` to `s'`. -/
structure Segment (s s' : State) (N E : List Blame) (f : List Nat → List Nat) : Prop where
  advances : s.Advances s'
  blames_eq : s'.blames.toList = s.blames.toList ++ (N ++ E)
  located : ∀ b ∈ N, b.At s ∧ b.position < s'.position
  atEnd : ∀ b ∈ E, b.position = s'.position ∧ b.token = none
  distinct : (N.map (·.position)).Nodup
  /-- The complaints `S` are those of a whole reading, which are `N` here. -/
  walk (S : List Blame) (opens : List Nat) :
    (∀ p, s.position ≤ p → p < s'.position → failureAt S p = failureAt N p) →
      openBraces S s.position 0 opens s.rest = openBraces S s'.position 0 (f opens) s'.rest

namespace Segment

variable {s s₁ s' : State} {N M E : List Blame} {f g : List Nat → List Nat}

theorem trans (h : Segment s s₁ N [] f) (h' : Segment s₁ s' M E g) : Segment s s' (N ++ M) E (g ∘ f) where
  advances := h.advances.trans h'.advances
  blames_eq := by rw [h'.blames_eq, h.blames_eq, List.append_nil, List.append_assoc, List.append_assoc]
  located := by
    rw [List.forall_mem_append]
    refine ⟨fun b hb => ⟨(h.located b hb).1, Nat.lt_of_lt_of_le (h.located b hb).2 h'.advances.le⟩, fun b hb => ?_⟩
    exact ⟨(h'.located b hb).1.before h.advances, (h'.located b hb).2⟩
  atEnd := h'.atEnd
  distinct := by
    rw [List.map_append, List.nodup_append]
    refine ⟨h.distinct, h'.distinct, fun p hp q hq => ?_⟩
    obtain ⟨b, hb, rfl⟩ := List.mem_map.1 hp
    obtain ⟨c, hc, rfl⟩ := List.mem_map.1 hq
    have hlt := (h.located b hb).2
    have hle := (h'.located c hc).1.le
    omega
  walk S opens hS := by
    have hle := h.advances.le
    have hle' := h'.advances.le
    -- each half sees its own complaints only
    rw [h.walk S opens, h'.walk S (f opens)]
    · rfl
    · intro p hp hlt
      rw [hS p (by omega) hlt, failureAt_append, failureAt_eq_none fun b hb => ?_, Option.none_or]
      have hbefore := (h.located b hb).2
      omega
    · intro p hp hlt
      rw [hS p hp (by omega), failureAt_append, failureAt_eq_none (N := M) fun b hb => ?_, Option.or_none]
      have hbehind := (h'.located b hb).1.le
      omega

/-- Nothing happens but that nodes are numbered. -/
theorem still (hrest : s'.rest = s.rest) (hposition : s'.position = s.position) (hblames : s'.blames = s.blames) :
    Segment s s' [] [] id where
  advances := ⟨[], hrest.symm, hposition⟩
  blames_eq := by rw [hblames, List.append_nil, List.append_nil]
  located := by simp
  atEnd := by simp
  distinct := List.nodup_nil
  walk S opens _ := by
    rw [hrest, hposition]
    rfl

theorem refl (s : State) : Segment s s [] [] id := still rfl rfl rfl

section
variable {t : Token} {r : List Token} (hs : s.rest = t :: r)
include hs

/-- A token is taken, with whatever that does to the braces that are open. -/
theorem token (hf : ∀ S opens, failureAt S s.position = none →
    openBraces S s.position 0 opens (t :: r) = openBraces S (s.position + 1) 0 (f opens) r) :
    Segment s (s.behind r) [] [] f where
  advances := .behind hs
  blames_eq := by simp [State.behind]
  located := by simp
  atEnd := by simp
  distinct := List.nodup_nil
  walk S opens hS := by
    rw [hs]
    exact hf S opens (hS s.position (Nat.le_refl _) (Nat.lt_succ_self _))

theorem plain (ht : isBrace t.kind = false) : Segment s (s.behind r) [] [] id :=
  token hs fun _ _ hnone => openBraces_plain hnone ht

theorem opening (ht : t.kind = .leftBrace) : Segment s (s.behind r) [] [] (s.position :: ·) :=
  token hs fun _ _ hnone => openBraces_open hnone ht

theorem closing (ht : t.kind = .rightBrace) : Segment s (s.behind r) [] [] List.tail :=
  token hs fun _ _ hnone => openBraces_close hnone ht

/-- A complaint about an `=` behind which a value was read. -/
theorem complained (ht : t.kind = .equal) (h : Segment (s.behind r) s' N [] id) :
    Segment s { s' with blames := s'.blames.push ⟨s.position, some t, .invalidTarget⟩ }
      (N ++ [⟨s.position, some t, .invalidTarget⟩]) [] id := by
  have hall := (plain hs (by rw [ht]; rfl)).trans h
  have hlt : s.position < s'.position := h.advances.le
  refine ⟨hall.advances, ?_, ?_, by simp, ?_, fun S opens hS => hall.walk S opens fun p hp hp' => ?_⟩
  · simp [h.blames_eq, State.behind]
  · rw [List.forall_mem_append]
    refine ⟨hall.located, ?_⟩
    rw [List.forall_mem_singleton]
    exact ⟨⟨Nat.le_refl _, by simp [hs], fun _ u hu => Option.some.inj hu ▸ ht⟩, hlt⟩
  · rw [List.map_append, List.nodup_append]
    refine ⟨h.distinct, by simp, fun p hp q hq => ?_⟩
    obtain ⟨b, hb, rfl⟩ := List.mem_map.1 hp
    have hle : s.position + 1 ≤ b.position := (h.located b hb).1.le
    simp only [List.map_cons, List.map_nil, List.mem_singleton] at hq
    omega
  · rw [hS p hp hp', failureAt_append]
    simp [failureAt]

/-- A declaration is given up with a complaint about the next token, and tokens are skipped. -/
theorem failed {b : Blame} (hb : b.position = s.position) (htoken : b.token = some t)
    (hcause : b.cause ≠ .invalidTarget) (hrest : s'.rest = r.drop (skippedBehind b t r))
    (hposition : s'.position = s.position + 1 + skippedBehind b t r) (hblames : s'.blames = s.blames.push b)
    (hle : skippedBehind b t r ≤ r.length) : Segment s s' [b] [] id where
  advances := by
    refine ⟨t :: r.take (skippedBehind b t r), ?_, ?_⟩
    · rw [hs, hrest, List.cons_append, List.take_append_drop]
    · rw [List.length_cons, List.length_take, hposition]
      omega
  blames_eq := by rw [hblames, Array.toList_push, List.append_nil]
  located := by
    rw [List.forall_mem_singleton]
    refine ⟨⟨Nat.le_of_eq hb.symm, ?_, fun h => absurd h hcause⟩, by omega⟩
    rw [htoken, hs, hb, Nat.sub_self]
    rfl
  atEnd := by simp
  distinct := by simp
  walk S opens hS := by
    have hfailure : failureAt S s.position = some b := by
      rw [hS s.position (Nat.le_refl _) (by omega)]
      simp [failureAt, hb, hcause]
    rw [hs, openBraces_failed hfailure, hrest, hposition]
    rfl

end

theorem tokens {taken : List Token} (h : ∀ t ∈ taken, isBrace t.kind = false) (hrest : s.rest = taken ++ s'.rest)
    (hposition : s'.position = s.position + taken.length) (hblames : s'.blames = s.blames) :
    Segment s s' [] [] id := by
  induction taken generalizing s with
  | nil => exact still hrest.symm hposition hblames
  | cons t taken ih =>
    rw [List.forall_mem_cons] at h
    refine (plain hrest h.1).trans (ih h.2 rfl ?_ hblames)
    show s'.position = s.position + 1 + taken.length
    rw [hposition, List.length_cons]
    omega

/-- A complaint about the end of the input. -/
theorem missed (h : Segment s s' N E f) (hend : s'.rest = []) (cause : SyntaxError.Cause) :
    Segment s { s' with blames := s'.blames.push (s'.blame cause) } N (E ++ [s'.blame cause]) f where
  advances := h.advances
  blames_eq := by simp [h.blames_eq]
  located := h.located
  atEnd := by
    rw [List.forall_mem_append, List.forall_mem_singleton]
    exact ⟨h.atEnd, rfl, by rw [State.blame, hend]; rfl⟩
  distinct := h.distinct
  walk := h.walk

end Segment

/-! ## Readers -/

/-- A reader that set out from `s` has failed with the complaint `b` in `s'`. -/
inductive Fails (s : State) : (b : Blame) → (s' : State) → Prop where
  | next {s' N cause} (h : Segment s s' N [] id) (hcause : cause ≠ .invalidTarget)
      (ht : (s'.blame cause).isTaken = false) : Fails s (s'.blame cause) s'
  | taken {s₁ N t r} (h : Segment s s₁ N [] id) (hs : s₁.rest = t :: r) (ht : startsPrimary t.kind = true) :
      Fails s ⟨s₁.position, some t, .expected .expression⟩ (s₁.behind r)
  /-- All complaints about the end but the first one are about blocks that are open there. -/
  | unclosed {s' N E O} (h : Segment s s' N E (O ++ ·)) (hend : s'.rest = []) (hlength : E.length ≤ O.length) :
      Fails s (s'.blame (.expected .braceAfterBlock)) s'

theorem Fails.behind {s s₁ s' : State} {N : List Blame} {b : Blame} (h : Segment s s₁ N [] id) (h' : Fails s₁ b s') :
    Fails s b s' := by
  cases h' with
  | next hs hcause ht => exact .next (h.trans hs) hcause ht
  | taken hs hrest ht => exact .taken (h.trans hs) hrest ht
  | unclosed hs hend hlength => exact .unclosed (h.trans hs) hend hlength

theorem Fails.advances {s s' : State} {b : Blame} (h : Fails s b s') : s.Advances s' := by
  cases h with
  | next h => exact h.advances
  | taken h hs => exact h.advances.trans (.behind hs)
  | unclosed h => exact h.advances

/-- A reader that set out from `s` has given a value, with `k` tokens taken or more, or it has failed. -/
inductive Attempt (s : State) (k : Nat) : Ending Blame State α → Prop where
  | ok {a s' N} (h : Segment s s' N [] id) (htakes : s'.rest.length + k ≤ s.rest.length) : Attempt s k (.ok a s')
  | error {b s'} (h : Fails s b s') : Attempt s k (.error b s')

section
variable {n m j k : Nat} {s s₁ : State} {x : Reader α} {f : α → Reader β}

theorem Attempt.fewer {r : Ending Blame State α} (h : Attempt s k r) (hj : j ≤ k) : Attempt s j r := by
  cases h with
  | ok h htakes => exact .ok h (by omega)
  | error h => exact .error h

/-- What is read from `s₁` on is read behind what is between `s` and `s₁`. -/
theorem Attempt.behind {r : Ending Blame State α} {N : List Blame} (hs : Segment s s₁ N [] id)
    (hlength : s₁.rest.length + j ≤ s.rest.length) (h : Attempt s₁ k r) : Attempt s (k + j) r := by
  cases h with
  | ok h htakes => exact .ok (hs.trans h) (by omega)
  | error h => exact .error (.behind hs h)

theorem Attempt.bind {s₀ : State} (hx : Attempt s k (x.run s₀))
    (hf : ∀ a s', s'.rest.length + k ≤ s.rest.length → Attempt s' j ((f a).run s')) :
    Attempt s (j + k) ((x >>= f).run s₀) := by
  rw [Deep.run_bind]
  generalize x.run s₀ = r at hx ⊢
  cases hx with
  | ok h htakes => exact (hf _ _ htakes).behind h htakes
  | error h => exact .error h

/-- In front of at most `n` tokens the reader takes `k` of them or more, or it fails. -/
def Orderly (n k : Nat) (x : Reader α) : Prop := ∀ s, s.rest.length ≤ n → Attempt s k (x.run s)

namespace Orderly

theorem less (h : Orderly n k x) (hm : m ≤ n) : Orderly m k x := fun s hs => h s (Nat.le_trans hs hm)

theorem fewer (h : Orderly n k x) (hj : j ≤ k) : Orderly n j x := fun s hs => (h s hs).fewer hj

theorem andThen (hx : Orderly n k x) (hf : ∀ a m, m + k ≤ n → Orderly m j (f a)) : Orderly n (j + k) (x >>= f) :=
  fun s hs => (hx s hs).bind fun a s' htakes => hf a s'.rest.length (Nat.le_trans htakes hs) s' (Nat.le_refl _)

/-- The tokens that are taken first need not be counted. -/
theorem bind (hx : Orderly n k x) (hf : ∀ a, Orderly n j (f a)) : Orderly n j (x >>= f) :=
  (hx.andThen fun a m hm => (hf a).less (by omega)).fewer (Nat.le_add_right j k)

/-- Nor need those that are taken behind a first one. -/
theorem bindTaking (hx : Orderly n 1 x) (hf : ∀ a m, m < n → Orderly m 0 (f a)) : Orderly n 1 (x >>= f) :=
  (hx.andThen hf).fewer (Nat.le_refl 1)

theorem of {g : State → Ending Blame State α} (h : ∀ s, s.rest.length ≤ n → Attempt s k (g s)) :
    Orderly n k (.of g) := by
  intro s hs
  rw [Deep.run_of]
  exact h s hs

theorem pure (a : α) : Orderly n 0 (pure a : Reader α) := fun s _ => .ok (.refl s) (Nat.le_refl _)

theorem pause : Orderly n 0 (Deep.pause : Reader Unit) := fun s _ => .ok (.refl s) (Nat.le_refl _)

theorem map {g : α → β} (hx : Orderly n k x) : Orderly n k (g <$> x) := by
  rw [map_eq_pure_bind]
  exact (hx.andThen fun a _ _ => .pure (g a)).fewer (Nat.le_add_left k 0)

theorem later {x : Unit → Reader α} (h : Orderly n k (x ())) : Orderly n k (.later x) := by
  intro s hs
  rw [Deep.run_later]
  exact h s hs

end Orderly

/-- An expression is missed at the end of the input, or at a token that does not start one. -/
theorem attempt_missing (h : ∀ t ∈ s.rest.head?, startsPrimary t.kind = false) :
    Attempt s k ((fail (.expected .expression) : Reader α).run s) := by
  rw [fail, Deep.run_of]
  refine .error (.next (.refl s) (by simp) ?_)
  rw [Blame.isTaken, Bool.and_eq_false_iff]
  refine .inr ?_
  show (s.rest.head?).any (startsPrimary ·.kind) = false
  cases hs : s.rest.head? with
  | none => rfl
  | some t => exact h t hs

theorem attempt_noExpression (h : ∀ t ∈ s.rest.head?, startsPrimary t.kind = false) :
    Attempt s k ((noExpression : Reader α).run s) := by
  rw [noExpression, Deep.run_bind, next?, Deep.run_of]
  cases hs : s.rest.head? with
  | none => exact attempt_missing h
  | some t =>
    simp only [Ending.fold]
    split
    · rw [fail, Deep.run_of]
      exact .error (.next (.refl s) (by simp) rfl)
    · exact attempt_missing h

theorem orderly_node (build : NodeId → α) : Orderly n 0 (node build) :=
  .of fun s _ => .ok (.still rfl rfl rfl) (Nat.le_refl s.rest.length)

/-- The kind of the next token is known where it is asked for. -/
theorem orderly_nextKind {f : Kind → Reader α}
    (h : ∀ s, s.rest.length ≤ n → Attempt s k ((f (headKind s.rest)).run s)) : Orderly n k (nextKind >>= f) := by
  intro s hs
  rw [Deep.run_bind, nextKind, Deep.run_of]
  cases hrest : s.rest with
  | nil =>
    have hf := h s hs
    rw [hrest] at hf
    exact hf
  | cons t rest =>
    have hf := h s hs
    rw [hrest] at hf
    exact hf

theorem orderly_expect {kind : Kind} (hkind : isBrace kind = false) {what : SyntaxError.Expected}
    (hwhat : what ≠ .expression) : Orderly n 1 (expect kind what) := by
  refine .of fun s _ => ?_
  have hfails : Fails s (s.blame (.expected what)) s := by
    refine .next (.refl s) (by simp) ?_
    rw [Blame.isTaken, Bool.and_eq_false_iff]
    exact .inl (beq_eq_false_iff_ne.2 fun heq => hwhat (SyntaxError.Cause.expected.inj heq))
  split
  · exact .error hfails
  · next t rest hrest =>
    split
    · next hk =>
      refine .ok (.plain hrest (by rw [hk]; exact hkind)) ?_
      rw [hrest]
      exact Nat.le_refl _
    · exact .error hfails

/-- What comes behind a token that was taken, or in its place. -/
theorem orderly_accept {wanted : Kind → Bool} {f : Option Token → Reader α}
    (hnone : ∀ s, s.rest.length ≤ n → (∀ t ∈ s.rest.head?, wanted t.kind = false) → Attempt s k ((f none).run s))
    (hsome : ∀ s t r, s.rest = t :: r → wanted t.kind = true → r.length < n →
      Attempt s k ((f (some t)).run (s.behind r))) : Orderly n k (accept wanted >>= f) := by
  intro s hs
  rw [Deep.run_bind]
  cases hrest : s.rest with
  | nil =>
    rw [accept, Deep.run_of, hrest]
    refine hnone s hs fun t ht => ?_
    rw [hrest] at ht
    cases ht
  | cons t r =>
    rw [accept_run hrest]
    cases hk : wanted t.kind with
    | false =>
      refine hnone s hs fun u hu => ?_
      rw [hrest] at hu
      cases hu
      exact hk
    | true =>
      refine hsome s t r hrest hk ?_
      rw [hrest, List.length_cons] at hs
      omega

theorem orderly_accepting {wanted : Kind → Bool} (hwanted : NoBrace wanted) : Orderly n 0 (accept wanted) := by
  refine .of fun s _ => ?_
  split
  · exact .ok (.refl s) (Nat.le_refl _)
  · next t rest hrest =>
    split
    · next ht =>
      have hplain : Segment s (s.behind rest) [] [] id := .plain hrest (hwanted.isBrace_eq ht)
      exact .ok hplain hplain.advances.length_le
    · exact .ok (.refl s) (Nat.le_refl _)

/-- What is read behind a token that is no brace takes that one as well. -/
theorem Orderly.attempt_behind {t : Token} {r : List Token} (hx : Orderly r.length 0 x) (hs : s.rest = t :: r)
    (ht : isBrace t.kind = false) : Attempt s 1 (x.run (s.behind r)) := by
  have hlength : (s.behind r).rest.length + 1 ≤ s.rest.length := by
    rw [hs]
    exact Nat.le_refl _
  exact (hx (s.behind r) (Nat.le_refl _)).behind (.plain hs ht) hlength

/-- Where the token is no brace, it can be left out of account. -/
theorem orderly_take {wanted : Kind → Bool} {f : Option Token → Reader α} (hj : j ≤ 1)
    (hwanted : NoBrace wanted) (hnone : Orderly n j (f none))
    (hsome : ∀ t m, m < n → Orderly m 0 (f (some t))) : Orderly n j (accept wanted >>= f) := by
  refine orderly_accept (fun s hs _ => hnone s hs) fun s t r hs ht hlt => ?_
  exact ((hsome t r.length hlt).attempt_behind hs (hwanted.isBrace_eq ht)).fewer hj

end

/-! ## Expressions -/

section
variable {n k : Nat}

theorem orderly_commaSeparated {item : Reader α} {b : Nat} (hb : n < b) (hi : Orderly n k item) (done : Array α) :
    Orderly n 0 (commaSeparated item b done) := by
  induction b generalizing n done with
  | zero => exact absurd hb (Nat.not_lt_zero n)
  | succ b ih =>
    refine hi.bind fun a => orderly_take (Nat.zero_le 1) ⟨rfl, rfl⟩ (.pure _) fun _ m hm => ?_
    exact Orderly.pause.bind fun _ => ih (by omega) (hi.less (Nat.le_of_lt hm)) _

theorem orderly_parenthesized {item : Reader α} {b : Nat} (hb : n < b) (hi : Orderly n k item) :
    Orderly n 0 (parenthesized item b) := by
  refine orderly_nextKind fun s hs => ?_
  split
  · exact Orderly.pure _ s hs
  · exact orderly_commaSeparated hb hi _ s hs

variable {nested : Reader Expr} {b : Nat}

theorem orderly_calls (hb : n < b) (hn : Orderly n k nested) (callee : Expr) :
    Orderly n 0 (calls nested b callee) := by
  induction b generalizing n callee with
  | zero => exact absurd hb (Nat.not_lt_zero n)
  | succ b ih =>
    refine orderly_take (Nat.zero_le 1) ⟨rfl, rfl⟩ (.pure _) fun _ m hm => ?_
    have hb' : m < b := by omega
    have hn' := hn.less (Nat.le_of_lt hm)
    refine (orderly_parenthesized hb' hn').bind fun _ => (orderly_expect rfl (by decide)).bind fun _ => ?_
    exact (orderly_node _).bind fun _ => Orderly.pause.bind fun _ => ih hb' hn' _

theorem orderly_chain {isOp : Kind → Bool} (hop : NoBrace isOp) (hb : n < b)
    (ho : Orderly n k nested) (build : NodeId → Expr → Token → Expr → Expr) (left : Expr) :
    Orderly n 0 (chain isOp build nested b left) := by
  induction b generalizing n left with
  | zero => exact absurd hb (Nat.not_lt_zero n)
  | succ b ih =>
    refine orderly_take (Nat.zero_le 1) hop (.pure _) fun _ m hm => ?_
    have ho' := ho.less (Nat.le_of_lt hm)
    refine ho'.bind fun _ => (orderly_node _).bind fun _ => Orderly.pause.bind fun _ => ?_
    exact ih (by omega) ho' _

theorem orderly_wrapUnary (ops : List Token) (e : Expr) : Orderly n 0 (wrapUnary ops e) := by
  induction ops generalizing e with
  | nil => exact .pure e
  | cons op ops ih => exact (orderly_node _).bind fun e' => Orderly.pause.bind fun _ => ih e'

theorem isUnaryOp_of_mem {taken ts : List Token} {t : Token} (h : t ∈ (unaryOps taken ts).1) :
    t ∈ taken ∨ isUnaryOp t.kind = true := by
  induction ts generalizing taken with
  | nil => exact .inl h
  | cons u ts ih =>
    rw [unaryOps] at h
    split at h
    · next hu =>
      rcases ih h with hmem | ht
      · rcases List.mem_cons.1 hmem with rfl | hmem
        · exact .inr hu
        · exact .inl hmem
      · exact .inr ht
    · exact .inl h

theorem orderly_takeUnaryOps : Orderly n 0 takeUnaryOps := by
  refine .of fun s _ => ?_
  obtain ⟨ops, hops, hrest⟩ := unaryOps_split [] s.rest
  rw [List.append_nil] at hops
  have hplain : ∀ t ∈ ops.reverse, isBrace t.kind = false := by
    intro t ht
    have hmem : t ∈ (unaryOps [] s.rest).1 := by
      rw [hops]
      exact List.mem_reverse.1 ht
    rcases isUnaryOp_of_mem hmem with hnil | hunary
    · cases hnil
    · exact NoBrace.isBrace_eq ⟨rfl, rfl⟩ hunary
  have hsegment : Segment s
      { s with rest := (unaryOps [] s.rest).2, position := s.position + (unaryOps [] s.rest).1.length } [] [] id :=
    .tokens hplain hrest (by rw [hops, List.length_reverse]) rfl
  exact .ok hsegment hsegment.advances.length_le

-- The loops of an expression start behind its first operand.
variable (hb : n ≤ b)

include hb in
theorem orderly_level {isOp : Kind → Bool} (hop : NoBrace isOp)
    (ho : Orderly n 1 nested) (build : NodeId → Expr → Token → Expr → Expr) :
    Orderly n 1 (level isOp build nested b) :=
  ho.bindTaking fun left _ hm => orderly_chain hop (by omega) (ho.less (Nat.le_of_lt hm)) build left

variable (hn : ∀ m, m < n → Orderly m 1 nested)

include hn in
theorem orderly_primary : Orderly n 1 (primary nested) := by
  refine orderly_accept (fun s _ hnone => attempt_noExpression hnone) fun s t r hs ht hlt => ?_
  have hbehind {x : Reader Expr} (hx : Orderly r.length 0 x) : Attempt s 1 (x.run (s.behind r)) :=
    hx.attempt_behind hs (NoBrace.isBrace_eq ⟨rfl, rfl⟩ ht)
  dsimp only
  split
  · exact hbehind (orderly_node _)
  · exact hbehind (orderly_node _)
  · exact hbehind (orderly_node _)
  · exact hbehind (orderly_node _)
  · refine hbehind ((hn _ hlt).bind fun _ => ?_)
    exact (orderly_expect rfl (by decide)).bind fun _ => orderly_node _
  · unfold literalOf
    split
    · exact hbehind (orderly_node _)
    · rw [Deep.run_bind, blameTaken, Deep.run_of]
      exact .error (.taken (.refl s) hs ht)

include hb hn

theorem orderly_unary : Orderly n 1 (unary nested b) := by
  have hcall : Orderly n 1 (call nested b) :=
    (orderly_primary hn).bindTaking fun callee m hm => orderly_calls (by omega) (hn m hm) callee
  exact orderly_takeUnaryOps.bind fun ops => hcall.bindTaking fun operand _ _ => orderly_wrapUnary ops operand

theorem orderly_assignment : Orderly n 1 (assignment nested b) := by
  have hdisjunction : Orderly n 1 (disjunction nested b) :=
    orderly_level hb ⟨rfl, rfl⟩ (orderly_level hb ⟨rfl, rfl⟩ (orderly_level hb ⟨rfl, rfl⟩ (orderly_level hb ⟨rfl, rfl⟩
      (orderly_level hb ⟨rfl, rfl⟩ (orderly_level hb ⟨rfl, rfl⟩ (orderly_unary hb hn) _) _) _) _) _) _
  refine hdisjunction.bindTaking fun target m hm => ?_
  refine orderly_accept (fun s hs _ => Orderly.pure target s hs) fun s sign r hs hsign hlt => ?_
  have hequal : sign.kind = .equal := beq_iff_eq.1 hsign
  have hplain : Segment s (s.behind r) [] [] id := .plain hs (by rw [hequal]; rfl)
  have hlength : (s.behind r).rest.length + 1 ≤ s.rest.length := by
    rw [hs]
    exact Nat.le_refl _
  have hvalue := hn r.length (Nat.lt_trans hlt hm) (s.behind r) (Nat.le_refl _)
  rw [Deep.run_bind, blameTaken, Deep.run_of]
  simp only [Ending.fold]
  rw [Deep.run_bind]
  generalize nested.run (s.behind r) = result at hvalue ⊢
  cases hvalue with
  | error h => exact .error (.behind hplain h)
  | @ok value s' N h htakes =>
    have hless : s'.rest.length + 0 ≤ s.rest.length := by omega
    simp only [Ending.fold]
    split
    · exact (orderly_node _ s' (Nat.le_refl _)).behind (hplain.trans h) hless
    · rw [Deep.run_bind, complain, Deep.run_of]
      exact .ok (.complained hs hequal h) hless

end

theorem orderly_expression {n b : Nat} (hb : n = 0 ∨ n < b) : Orderly n 1 (expression b) := by
  induction b generalizing n with
  | zero =>
    intro s hs
    obtain rfl : n = 0 := by omega
    refine attempt_missing fun t ht => ?_
    rw [List.eq_nil_of_length_eq_zero (Nat.le_zero.1 hs)] at ht
    cases ht
  | succ b ih => exact .later (orderly_assignment (by omega) fun m hm => ih (by omega))

/-! ## Statements -/

theorem orderly_desugarFor (n : Nat) (init : Option Stmt) (condition increment : Option Expr) (body : Stmt) :
    Orderly n 0 (desugarFor init condition increment body) := by
  intro s _
  rw [run_desugarFor]
  exact .ok (.still rfl rfl rfl) (Nat.le_refl _)

section
variable {n b : Nat} (hb : n = 0 ∨ n < b)
include hb

theorem orderly_optionalExpression (absent : Kind) : Orderly n 0 (optionalExpression absent b) := by
  refine orderly_nextKind fun s hs => ?_
  split
  · exact Orderly.pure _ s hs
  · exact ((orderly_expression hb).bind fun _ => .pure _) s hs

theorem orderly_variableDeclaration : Orderly n 1 (variableDeclaration b) := by
  have hend (m : Nat) (name : Token) (init : Option Expr) : Orderly m 0 (do
      let _ ← expect .semicolon .semicolonAfterDeclaration
      node (Stmt.varDecl · name init)) := (orderly_expect rfl (by decide)).bind fun _ => orderly_node _
  refine (orderly_expect rfl (by decide)).bindTaking fun name m hm => ?_
  refine orderly_take (Nat.zero_le 1) ⟨rfl, rfl⟩ ?_ fun _ m' hm' => ?_
  · exact Orderly.bind (.pure none) fun init => hend m name init
  · have hb' : m' = 0 ∨ m' < b := by omega
    exact Orderly.bind (orderly_expression hb').map fun init => hend m' name init

theorem orderly_expressionStatement : Orderly n 1 (expressionStatement b) :=
  (orderly_expression hb).bindTaking fun _ _ _ => (orderly_expect rfl (by decide)).bind fun _ => orderly_node _

theorem orderly_forInitializer : Orderly n 0 (forInitializer b) := by
  refine orderly_nextKind fun s hs => ?_
  split
  · exact ((orderly_accepting ⟨rfl, rfl⟩).bind fun _ => .pure _) s hs
  · refine ((orderly_accepting ⟨rfl, rfl⟩).bind fun _ => ?_) s hs
    exact (orderly_variableDeclaration hb).bind fun _ => .pure _
  · exact ((orderly_expressionStatement hb).bind fun _ => .pure _) s hs

section
variable {statement : Reader Stmt} (hs : Orderly n 1 statement)
include hs

theorem orderly_whileStatement : Orderly n 0 (whileStatement statement b) :=
  (orderly_expect rfl (by decide)).bind fun _ => (orderly_expression hb).bind fun _ =>
    (orderly_expect rfl (by decide)).bind fun _ => hs.bind fun _ => orderly_node _

theorem orderly_ifStatement : Orderly n 0 (ifStatement statement b) := by
  refine (orderly_expect rfl (by decide)).bind fun _ => (orderly_expression hb).bind fun _ => ?_
  refine (orderly_expect rfl (by decide)).bind fun _ => hs.bind fun yes => ?_
  refine orderly_take (Nat.zero_le 1) ⟨rfl, rfl⟩ (orderly_node _) fun _ m hm => ?_
  exact (hs.less (Nat.le_of_lt hm)).bind fun _ => orderly_node _

theorem orderly_forStatement : Orderly n 0 (forStatement statement b) := by
  refine (orderly_expect rfl (by decide)).bind fun _ => (orderly_forInitializer hb).bind fun _ => ?_
  refine (orderly_optionalExpression hb _).bind fun _ => (orderly_expect rfl (by decide)).bind fun _ => ?_
  refine (orderly_optionalExpression hb _).bind fun _ => (orderly_expect rfl (by decide)).bind fun _ => ?_
  exact hs.bind fun body => orderly_desugarFor n _ _ _ body

end

end

/-! ## Blocks and declarations -/

/-- A declaration that set out from `s` has left off at `s'`: on the way, or at the end of the input, where there is at
most one complaint that is not about an open block. -/
inductive Settled (s s' : State) : Prop where
  | onward {N} (h : Segment s s' N [] id) : Settled s s'
  | atEnd {N E O} (h : Segment s s' N E (O ++ ·)) (hend : s'.rest = []) (hlength : E.length ≤ O.length + 1) :
      Settled s s'

/-- In front of at most `n` tokens the reader gets over with a declaration. -/
def Recovers (n : Nat) (x : Reader (Option Stmt)) : Prop :=
  ∀ s, s.rest.length ≤ n → ∃ o s', x.run s = .ok o s' ∧ Settled s s' ∧ s'.rest.length ≤ s.rest.length - 1

theorem Settled.behind {s s₁ s' : State} {N : List Blame} (h : Segment s s₁ N [] id) (h' : Settled s₁ s') :
    Settled s s' := by
  cases h' with
  | onward hs => exact .onward (h.trans hs)
  | atEnd hs hend hlength => exact .atEnd (h.trans hs) hend hlength

theorem skipStatement_eq (ts : List Token) :
    ∃ k ≤ ts.length, skipStatement 0 ts = (ts.drop k, k) ∧ (ts ≠ [] → 0 < k) := by
  obtain ⟨passed, hts, hskipped, hne⟩ := skipStatement_split 0 ts
  have hlength := congrArg List.length hts
  have hdrop := congrArg (List.drop passed.length) hts
  rw [List.length_append] at hlength
  rw [List.drop_left] at hdrop
  refine ⟨passed.length, by omega, ?_, fun h => List.length_pos_iff.2 (hne h)⟩
  rw [hdrop, ← Nat.zero_add passed.length, ← hskipped]

/-- Where a declaration is given up, tokens are skipped and a complaint is made. -/
theorem settled_of_fails {s s' : State} {b : Blame} (h : Fails s b s') :
    Settled s { s' with
      rest := (skipStatement 0 s'.rest).1, position := s'.position + (skipStatement 0 s'.rest).2,
      blames := s'.blames.push b } := by
  cases h with
  | @next _ _ cause h hcause ht =>
    cases hrest : s'.rest with
    | nil =>
      have hmissed := h.missed hrest cause
      rw [hrest] at hmissed
      exact .atEnd (O := []) hmissed rfl (Nat.le_refl 1)
    | cons t r =>
      obtain ⟨k, hk, hskip, hpos⟩ := skipStatement_eq (t :: r)
      obtain ⟨k, rfl⟩ : ∃ j, k = j + 1 := ⟨k - 1, by have := hpos (List.cons_ne_nil t r); omega⟩
      have hbehind : skippedBehind (s'.blame cause) t r = k := by
        rw [skippedBehind, if_neg (by rw [ht]; exact Bool.false_ne_true), hskip, Nat.add_sub_cancel]
      have htoken : (s'.blame cause).token = some t := by
        rw [State.blame, hrest]
        rfl
      refine .onward (h.trans (.failed hrest rfl htoken hcause ?_ ?_ rfl ?_))
      · rw [hbehind, hskip]
        rfl
      · rw [hbehind, hskip]
        show s'.position + (k + 1) = s'.position + 1 + k
        omega
      · rw [hbehind]
        exact Nat.le_of_succ_le_succ hk
  | @taken s₁ _ t r h hs ht =>
    obtain ⟨k, hk, hskip, -⟩ := skipStatement_eq r
    have hbehind : skippedBehind ⟨s₁.position, some t, .expected .expression⟩ t r = k := by
      rw [skippedBehind, if_pos (by simp [Blame.isTaken, ht]), hskip]
    refine .onward (h.trans (.failed hs rfl rfl (by simp) ?_ ?_ rfl ?_))
    · rw [hbehind]
      exact congrArg Prod.fst hskip
    · rw [hbehind]
      exact congrArg (fun cut => s₁.position + 1 + cut.2) hskip
    · omega
  | @unclosed _ N E O h hend hlength =>
    have hmissed := h.missed hend (.expected .braceAfterBlock)
    rw [hend] at hmissed ⊢
    refine .atEnd hmissed rfl ?_
    rw [List.length_append]
    exact Nat.succ_le_succ hlength

theorem recovers_recovering {n : Nat} {x : Reader Stmt} (hx : Orderly n 1 x) : Recovers n (recovering x) := by
  intro s hs
  have hattempt := hx s hs
  cases hrun : x.run s with
  | ok stmt s' =>
    rw [hrun] at hattempt
    cases hattempt with
    | ok h htakes =>
      refine ⟨some stmt, s', ?_, .onward h, by omega⟩
      rw [recovering, Deep.run_tryCatch, map_eq_pure_bind, Deep.run_bind, hrun]
      rfl
  | error b s' =>
    rw [hrun] at hattempt
    cases hattempt with
    | error h =>
      obtain ⟨k, -, hskip, hpos⟩ := skipStatement_eq s'.rest
      have hless := h.advances.length_le
      refine ⟨none, _, recovering_error hrun, settled_of_fails h, ?_⟩
      show (skipStatement 0 s'.rest).1.length ≤ s.rest.length - 1
      rw [hskip, List.length_drop]
      by_cases hnil : s'.rest = []
      · rw [hnil]
        exact Nat.le_trans (Nat.sub_le _ _) (Nat.zero_le _)
      · have htaken := hpos hnil
        omega

section
variable {declaration : Reader (Option Stmt)} {n b : Nat}

/-- The loop over declarations comes to its exit, and at the end of the input nothing more is complained about. -/
theorem settled_declarations (closing : Kind → Bool) (hd : Recovers n declaration) (done : Array Stmt) (s : State)
    (hs : s.rest.length ≤ n) (hb : s.rest.length < b) :
    ∃ body s', (declarations closing declaration b done).run s = .ok body s' ∧ Settled s s' ∧
      ∀ t ∈ s'.rest.head?, closing t.kind = true := by
  induction b generalizing s done with
  | zero => exact absurd hb (Nat.not_lt_zero _)
  | succ b ih =>
    rw [declarations, Deep.run_bind, next?, Deep.run_of]
    cases hrest : s.rest with
    | nil =>
      refine ⟨done.toList, s, rfl, .onward (.refl s), fun t ht => ?_⟩
      rw [hrest] at ht
      cases ht
    | cons t rest =>
      simp only [Ending.fold, List.head?_cons]
      split
      · next hclosing =>
        refine ⟨done.toList, s, rfl, .onward (.refl s), fun t' ht' => ?_⟩
        rw [hrest, List.head?_cons] at ht'
        cases ht'
        exact hclosing
      · obtain ⟨o, s₁, hrun, hsettled, hless⟩ := hd s hs
        have hlength : s.rest.length = rest.length + 1 := by rw [hrest, List.length_cons]
        have hrounds (done : Array Stmt) : ∃ body s', (declarations closing declaration b done).run s₁ = .ok body s' ∧
            Settled s s' ∧ ∀ t ∈ s'.rest.head?, closing t.kind = true := by
          cases hsettled with
          | onward h =>
            obtain ⟨body, s', hrun', hsettled', hexit⟩ := ih done s₁ (by omega) (by omega)
            exact ⟨body, s', hrun', .behind h hsettled', hexit⟩
          | atEnd h hend hE =>
            obtain ⟨c, rfl⟩ : ∃ c, b = c + 1 := ⟨b - 1, by omega⟩
            refine ⟨done.toList, s₁, ?_, .atEnd h hend hE, by simp [hend]⟩
            rw [declarations, Deep.run_bind, next?, Deep.run_of, hend]
            rfl
        rw [Deep.run_bind, hrun]
        cases o with
        | none => exact hrounds done
        | some stmt => exact hrounds (done.push stmt)

/-- A block is read from its opening brace on, and either closed or open at the end of the input. -/
theorem attempt_blockBody (hd : Recovers n declaration) (hb : n < b) {s : State} {t : Token} {r : List Token}
    (hs : s.rest = t :: r) (ht : t.kind = .leftBrace) (hr : r.length ≤ n) :
    Attempt s 1 ((blockBody declaration b).run (s.behind r)) := by
  have hopening := Segment.opening hs ht
  obtain ⟨body, s', hrun, hsettled, hexit⟩ := settled_declarations (· == .rightBrace) hd #[] (s.behind r) hr
    (Nat.lt_of_le_of_lt hr hb)
  rw [blockBody, Deep.run_bind, hrun]
  simp only [Ending.fold]
  rw [Deep.run_bind]
  cases hrest : s'.rest with
  | nil =>
    have hfails : Fails s (s'.blame (.expected .braceAfterBlock)) s' := by
      cases hsettled with
      | onward h => exact .unclosed (O := [s.position]) (hopening.trans h) hrest (Nat.zero_le _)
      | @atEnd N E O h hend hlength =>
        have hopens : (O ++ ·) ∘ (s.position :: ·) = (O ++ [s.position] ++ ·) := by
          funext opens
          simp
        have hall := hopening.trans h
        rw [hopens] at hall
        exact .unclosed hall hrest (by simpa using hlength)
    rw [expect_none_run (by rw [hrest]; exact not_starts_nil)]
    exact .error hfails
  | cons u r' =>
    have hu : u.kind = .rightBrace := beq_iff_eq.1 (hexit u (by rw [hrest]; rfl))
    rw [expect_run hrest, if_pos hu]
    cases hsettled with
    | onward h =>
      have hclosed := (hopening.trans h).trans (Segment.closing hrest hu)
      have hless : s'.rest.length ≤ r.length := h.advances.length_le
      refine .ok hclosed ?_
      show r'.length + 1 ≤ s.rest.length
      rw [hrest] at hless
      rw [hs, List.length_cons]
      exact Nat.le_trans hless (Nat.le_succ _)
    | atEnd h hend =>
      rw [hend] at hrest
      cases hrest

variable (hb : n = 0 ∨ n < b) (hd : ∀ m, m < n → Recovers m declaration)
include hb hd

theorem orderly_block {m : Nat} (hm : m < n) :
    Orderly m 1 (expect .leftBrace .braceBeforeBody >>= fun _ => blockBody declaration b) := by
  intro s hs
  rw [Deep.run_bind]
  by_cases hstarts : Starts (· == .leftBrace) s.rest
  · obtain ⟨t, r, hrest, ht⟩ := hstarts
    have hbrace : t.kind = .leftBrace := beq_iff_eq.1 ht
    rw [hrest, List.length_cons] at hs
    rw [expect_run hrest, if_pos hbrace]
    exact attempt_blockBody (hd m hm) (by omega) hrest hbrace (by omega)
  · rw [expect_none_run hstarts]
    exact .error (.next (.refl s) (by simp) rfl)

theorem orderly_functionDeclaration : Orderly n 1 (functionDeclaration declaration b) := by
  refine (orderly_expect rfl (by decide)).bindTaking fun name m hm => ?_
  have hb' : m < b := by omega
  refine (orderly_expect rfl (by decide)).bind fun _ => ?_
  refine (orderly_parenthesized hb' (orderly_expect rfl (by decide))).bind fun params => ?_
  refine (orderly_expect rfl (by decide)).bind fun _ => ?_
  have hbody : Orderly m 0 (do
      let _ ← expect .leftBrace .braceBeforeBody
      let body ← blockBody declaration b
      node (Stmt.funDecl · name params body)) := by
    rw [← bind_assoc]
    exact (orderly_block hb hd hm).bind fun body => orderly_node _
  exact hbody

variable {statement : Reader Stmt}

theorem orderly_statementForm (hs : ∀ m, m < n → Orderly m 1 statement) :
    Orderly n 1 (statementForm declaration statement b) := by
  refine orderly_accept (fun s hs _ => orderly_expressionStatement hb s hs) fun s t r hrest ht hlt => ?_
  have hb' : r.length = 0 ∨ r.length < b := by omega
  have hbehind {x : Reader Stmt} (hx : Orderly r.length 0 x) (hplain : isBrace t.kind = false) :
      Attempt s 1 (x.run (s.behind r)) := hx.attempt_behind hrest hplain
  dsimp only
  split
  · next hk => exact hbehind (orderly_forStatement hb' (hs _ hlt)) (by rw [hk]; rfl)
  · next hk => exact hbehind (orderly_ifStatement hb' (hs _ hlt)) (by rw [hk]; rfl)
  · next hk =>
    refine hbehind ?_ (by rw [hk]; rfl)
    exact (orderly_expression hb').bind fun _ => (orderly_expect rfl (by decide)).bind fun _ => orderly_node _
  · next hk =>
    refine hbehind ?_ (by rw [hk]; rfl)
    exact (orderly_optionalExpression hb' _).bind fun _ => (orderly_expect rfl (by decide)).bind fun _ => orderly_node _
  · next hk => exact hbehind (orderly_whileStatement hb' (hs _ hlt)) (by rw [hk]; rfl)
  · next hfor hif hprint hreturn hwhile =>
    have hbrace : t.kind = .leftBrace := by
      cases hk : t.kind with
      | leftBrace => rfl
      | kwFor => exact absurd hk hfor
      | kwIf => exact absurd hk hif
      | kwPrint => exact absurd hk hprint
      | kwReturn => exact absurd hk hreturn
      | kwWhile => exact absurd hk hwhile
      | _ =>
        rw [hk] at ht
        cases ht
    exact (attempt_blockBody (hd _ hlt) (by omega) hrest hbrace (Nat.le_refl _)).bind fun body s' _ =>
      orderly_node _ s' (Nat.le_refl _)

theorem orderly_declarationForm (hs : Orderly n 1 statement) :
    Orderly n 1 (declarationForm declaration statement b) := by
  refine orderly_nextKind fun s hlength => ?_
  split
  · exact ((orderly_accepting ⟨rfl, rfl⟩).bind fun _ => orderly_functionDeclaration hb hd) s hlength
  · exact ((orderly_accepting ⟨rfl, rfl⟩).bind fun _ => orderly_variableDeclaration hb) s hlength
  · next hk =>
    refine attempt_noExpression fun t ht => ?_
    obtain ⟨rest, hrest⟩ := List.head?_eq_some_iff.1 ht
    rw [hrest] at hk
    have hclass : t.kind = .kwClass := hk
    rw [hclass]
    rfl
  · exact hs s hlength

end

/-- A declaration and the statement in its place use up two levels with each token. -/
theorem orderly_statement_declaration (b : Nat) :
    (∀ n, n = 0 ∨ 2 * n < b → Orderly n 1 (statement b)) ∧ ∀ n, 2 * n + 1 < b → Recovers n (declaration b) := by
  induction b with
  | zero =>
    refine ⟨fun n hn => ?_, fun n hn => absurd hn (Nat.not_lt_zero _)⟩
    intro s hs
    have hnil : s.rest = [] := List.eq_nil_of_length_eq_zero (by omega)
    rw [statement]
    refine attempt_missing fun t ht => ?_
    rw [hnil] at ht
    cases ht
  | succ b ih =>
    obtain ⟨ihs, ihd⟩ := ih
    refine ⟨fun n hn => ?_, fun n hn => ?_⟩
    · rw [statement]
      have hb : n = 0 ∨ n < b := by omega
      exact .later (orderly_statementForm hb (fun m hm => ihd m (by omega)) fun m hm => ihs m (by omega))
    · have hform : Orderly n 1 (declarationForm (declaration b) (statement b) b) :=
        orderly_declarationForm (by omega) (fun m hm => ihd m (by omega)) (ihs n (by omega))
      intro s hs
      rw [declaration, Deep.run_later]
      exact recovers_recovering hform s hs

/-! ## Readings -/

/-- Only braces that nothing is skipped at are kept. -/
theorem mem_openBraces {S : List Blame} {p k : Nat} {opens : List Nat} {ts : List Token} {q : Nat}
    (h : q ∈ openBraces S p k opens ts) :
    q ∈ opens ∨ p ≤ q ∧ failureAt S q = none ∧ ∃ t, ts[q - p]? = some t ∧ t.kind = .leftBrace := by
  have hlater {p : Nat} {t : Token} {ts : List Token} (h : p + 1 ≤ q ∧ failureAt S q = none ∧
      ∃ t, ts[q - (p + 1)]? = some t ∧ t.kind = .leftBrace) :
      p ≤ q ∧ failureAt S q = none ∧ ∃ u, (t :: ts)[q - p]? = some u ∧ u.kind = .leftBrace := by
    obtain ⟨hle, hnone, u, hu, hkind⟩ := h
    have hindex : q - p = q - (p + 1) + 1 := by omega
    refine ⟨by omega, hnone, u, ?_, hkind⟩
    rw [hindex, List.getElem?_cons_succ, hu]
  fun_induction openBraces S p k opens ts with
  | case1 => exact .inl h
  | case2 p k opens t ts ih => exact (ih h).imp_right hlater
  | case3 p opens t ts b hb ih => exact (ih h).imp_right hlater
  | case4 p opens t ts hp ht ih =>
    rcases ih h with hmem | hbehind
    · rcases List.mem_cons.1 hmem with rfl | hmem
      · exact .inr ⟨Nat.le_refl _, hp, t, by rw [Nat.sub_self]; rfl, ht⟩
      · exact .inl hmem
    · exact .inr (hlater hbehind)
  | case5 p opens t ts hp ht ih => exact (ih h).imp List.mem_of_mem_tail hlater
  | case6 p opens t ts hp hleft hright ih => exact (ih h).imp_right hlater

theorem nodup_openBraces {S : List Blame} {p k : Nat} {opens : List Nat} {ts : List Token} (hn : opens.Nodup)
    (hlt : ∀ q ∈ opens, q < p) : (openBraces S p k opens ts).Nodup := by
  fun_induction openBraces S p k opens ts with
  | case1 => exact hn
  | case2 p k opens t ts ih => exact ih hn fun q hq => Nat.lt_succ_of_lt (hlt q hq)
  | case3 p opens t ts b hb ih => exact ih hn fun q hq => Nat.lt_succ_of_lt (hlt q hq)
  | case4 p opens t ts hp ht ih =>
    refine ih (List.nodup_cons.2 ⟨fun hmem => Nat.lt_irrefl p (hlt p hmem), hn⟩) ?_
    rw [List.forall_mem_cons]
    exact ⟨Nat.lt_succ_self p, fun q hq => Nat.lt_succ_of_lt (hlt q hq)⟩
  | case5 p opens t ts hp ht ih =>
    refine ih (hn.sublist (List.tail_sublist opens)) fun q hq => ?_
    exact Nat.lt_succ_of_lt (hlt q (List.mem_of_mem_tail hq))
  | case6 p opens t ts hp hleft hright ih => exact ih hn fun q hq => Nat.lt_succ_of_lt (hlt q hq)

/-- What there is to say about the complaints of a reading, `N` of which are about tokens and `E` about the end. -/
structure Accounted (ts : List Token) (N E : List Blame) : Prop where
  before : ∀ b ∈ N, b.position < ts.length
  atEnd : ∀ b ∈ E, b.position = ts.length
  located : ∀ b ∈ N ++ E, b.token = ts[b.position]? ∧
    (b.cause = .invalidTarget → ∀ t, b.token = some t → t.kind = .equal)
  distinct : (N.map (·.position)).Nodup
  length_le : E.length ≤ (openBraces (N ++ E) 0 0 [] ts).length + 1

theorem Segment.accounted {ts : List Token} {i : NodeId} {s' : State} {N E : List Blame} {O : List Nat}
    (h : Segment (.start ts i) s' N E (O ++ ·)) (hend : s'.rest = []) (hlength : E.length ≤ O.length + 1) :
    Accounted ts N E := by
  have hposition : s'.position = ts.length := by
    have hadd := h.advances.position_add
    rw [hend] at hadd
    exact hadd.trans (Nat.zero_add _)
  have hatEnd : ∀ b ∈ E, b.position = ts.length := fun b hb => hposition ▸ (h.atEnd b hb).1
  have hopens : openBraces (N ++ E) 0 0 [] ts = O := by
    have hwalk := h.walk (N ++ E) [] fun p _ hp => ?_
    · rw [hend, openBraces_nil, List.append_nil] at hwalk
      exact hwalk
    · rw [failureAt_append, failureAt_eq_none (N := E) fun b hb => ?_, Option.or_none]
      have hlast := hatEnd b hb
      omega
  refine ⟨fun b hb => hposition ▸ (h.located b hb).2, hatEnd, ?_, h.distinct, by rw [hopens]; exact hlength⟩
  rw [List.forall_mem_append]
  refine ⟨fun b hb => ⟨(h.located b hb).1.token_eq, (h.located b hb).1.target⟩, fun b hb => ?_⟩
  rw [(h.atEnd b hb).2, hatEnd b hb, List.getElem?_eq_none (Nat.le_refl _)]
  exact ⟨rfl, fun _ t ht => absurd ht (by simp)⟩

/-- A reading is one segment, from the first token to the end. -/
theorem read_accounted (ts : List Token) (i : NodeId) : ∃ N E, (read ts i).blames = N ++ E ∧ Accounted ts N E := by
  have hd : Recovers ts.length (declaration (2 * ts.length + 2)) := (orderly_statement_declaration _).2 _ (by omega)
  have hb : (State.start ts i).rest.length < 2 * ts.length + 2 := by
    show ts.length < _
    omega
  obtain ⟨body, s', hrun, hsettled, hexit⟩ := settled_declarations (fun _ => false) hd #[] _ (Nat.le_refl _) hb
  have hrest : s'.rest = [] := by
    cases hs : s'.rest with
    | nil => rfl
    | cons t r =>
      have hfalse := hexit t (by rw [hs]; rfl)
      cases hfalse
  have hblames : (read ts i).blames = s'.blames.toList := by
    rw [read_blames_eq, toEnd, hrun]
    rfl
  cases hsettled with
  | @onward N h => exact ⟨N, [], hblames.trans h.blames_eq, Segment.accounted (O := []) h hrest (Nat.zero_le _)⟩
  | @atEnd N E O h _ hlength => exact ⟨N, E, hblames.trans h.blames_eq, h.accounted hrest hlength⟩

theorem countP_position_eq_zero {blames : List Blame} {p : Nat} (h : ∀ b ∈ blames, b.position ≠ p) :
    blames.countP (·.position == p) = 0 :=
  List.countP_eq_zero.2 fun b hb => by simp [h b hb]

namespace Accounted

variable {ts : List Token} {N E : List Blame} (h : Accounted ts N E)
include h

theorem countP_le_one {p : Nat} (hp : p < ts.length) : (N ++ E).countP (·.position == p) ≤ 1 := by
  have hcount := List.nodup_iff_count.1 h.distinct p
  rw [List.count_eq_countP, List.countP_map] at hcount
  have hnone : E.countP (·.position == p) = 0 :=
    countP_position_eq_zero fun b hb => (h.atEnd b hb).symm ▸ Nat.ne_of_gt hp
  rw [List.countP_append, hnone]
  exact hcount

theorem countP_end_le : (N ++ E).countP (·.position == ts.length) ≤ (openBraces (N ++ E) 0 0 [] ts).length + 1 := by
  have hnone := countP_position_eq_zero fun b hb => Nat.ne_of_lt (h.before b hb)
  rw [List.countP_append, hnone, Nat.zero_add]
  exact Nat.le_trans List.countP_le_length h.length_le

omit h in
theorem brace_of_mem {p : Nat} (hp : p ∈ openBraces (N ++ E) 0 0 [] ts) :
    ∃ t, ts[p]? = some t ∧ t.kind = .leftBrace ∧ failureAt (N ++ E) p = none := by
  rcases mem_openBraces hp with hnil | ⟨-, hnone, t, ht, hkind⟩
  · cases hnil
  · exact ⟨t, ht, hkind, hnone⟩

/-- A brace that is open is not complained about: nothing was given up there, and it is no `=`. -/
theorem ne_of_mem {p : Nat} (hp : p ∈ openBraces (N ++ E) 0 0 [] ts) : ∀ b ∈ N ++ E, b.position ≠ p := by
  obtain ⟨t, ht, hkind, hnone⟩ := brace_of_mem hp
  intro b hb heq
  obtain ⟨htoken, htarget⟩ := h.located b hb
  by_cases hcause : b.cause = .invalidTarget
  · have hequal := htarget hcause t (by rw [htoken, heq, ht])
    cases hkind.symm.trans hequal
  · have hfailure := List.find?_eq_none.1 hnone b hb
    simp [heq, hcause] at hfailure

/-- The tokens that are complained about and the open braces are different tokens. -/
theorem length_add_le : N.length + (openBraces (N ++ E) 0 0 [] ts).length ≤ ts.length := by
  have hnodup : (N.map (·.position) ++ openBraces (N ++ E) 0 0 [] ts).Nodup := by
    refine List.nodup_append.2 ⟨h.distinct, nodup_openBraces List.nodup_nil (by simp), fun p hp q hq => ?_⟩
    obtain ⟨b, hb, rfl⟩ := List.mem_map.1 hp
    exact h.ne_of_mem hq b (List.mem_append_left E hb)
  have hsubset : N.map (·.position) ++ openBraces (N ++ E) 0 0 [] ts ⊆ List.range ts.length := by
    intro p hp
    rw [List.mem_range]
    rcases List.mem_append.1 hp with hp | hp
    · obtain ⟨b, hb, rfl⟩ := List.mem_map.1 hp
      exact h.before b hb
    · obtain ⟨t, ht, -⟩ := brace_of_mem hp
      exact (List.getElem?_eq_some_iff.1 ht).1
  have hroom := hnodup.length_le_of_subset hsubset
  rw [List.length_append, List.length_map, List.length_range] at hroom
  exact hroom

end Accounted

/-- No token is complained about twice, be it by giving up a declaration or because of a left side. At the end of the
input there is at most one complaint more than there are open blocks, and the braces of these are different tokens that
nothing is complained about. So there is at most one complaint more than there are tokens. -/
theorem no_token_is_blamed_twice (tokens : List Token) (i : NodeId) :
    let front := (splitEnd tokens).1
    let blames := (read front i).blames
    let opens := openBraces blames 0 0 [] front
    Program.syntaxErrors tokens = blames.map (·.toError (splitEnd tokens).2) ∧
    (∀ b ∈ blames, b.position ≤ front.length ∧ b.token = front[b.position]?) ∧
    (∀ p < front.length, blames.countP (·.position == p) ≤ 1) ∧
    blames.countP (·.position == front.length) ≤ opens.length + 1 ∧
    (opens.Nodup ∧ ∀ p ∈ opens, (∃ t, front[p]? = some t ∧ t.kind = .leftBrace) ∧ ∀ b ∈ blames, b.position ≠ p) ∧
    blames.length ≤ front.length + 1 := by
  intro front blames opens
  obtain ⟨N, E, hread, h⟩ := read_accounted front i
  have hblames : blames = N ++ E := hread
  have hopens : opens = openBraces (N ++ E) 0 0 [] front := by rw [← hblames]
  have herrors : Program.syntaxErrors tokens = blames.map (·.toError (splitEnd tokens).2) := by
    rw [syntaxErrors_splitEnd, (read_renumber front 0 i).1]
  refine ⟨herrors, ?_⟩
  rw [hopens, hblames]
  refine ⟨fun b hb => ⟨?_, (h.located b hb).1⟩, fun p hp => h.countP_le_one hp, h.countP_end_le,
    ⟨?_, fun p hp => ?_⟩, ?_⟩
  · rcases List.mem_append.1 hb with hb | hb
    · exact Nat.le_of_lt (h.before b hb)
    · exact Nat.le_of_eq (h.atEnd b hb)
  · exact nodup_openBraces List.nodup_nil (by simp)
  · obtain ⟨t, ht, hkind, -⟩ := Accounted.brace_of_mem hp
    exact ⟨⟨t, ht, hkind⟩, h.ne_of_mem hp⟩
  · have hroom := h.length_add_le
    have hend := h.length_le
    rw [List.length_append]
    omega

end Lox.Grammar
