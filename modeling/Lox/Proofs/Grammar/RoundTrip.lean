import Lox.Proofs.Grammar.Completeness

/-!
# Reading and writing out undo each other

Written out, a canonical program is read back as itself, up to the numbers of its nodes. And what is
read is canonical; unless it has a `for` loop, which is read as other statements, it is written out as
the tokens it was read from, each token that the tree keeps being the one at its place.

Both go through `Spells`. `canonical_of_spells` and `fits_of_spells` are inductions on what is
spelled, `respells_expr` and `respells_stmt` are inductions on the tree.

**Open statements.** `Spells` marks a statement as open if an `else` behind it would go to an `if` in
it, and `Stmt.endsOpen` looks for that `if` in the tree. The two agree but for loops: the tree of a
`for` loop may hide an open body in a block. So a statement that is not marked does not end open, and
for trees that are written out the converse holds as well.

**Results.**
* `ofTokens_flatten`: reading undoes writing out.
* `canonical_ofTokens`: what is read is canonical, and writing out undoes reading.
-/
namespace Lox.Grammar

open Token (Kind)
open List (Forall₂)

/-! ## What is read is canonical -/

/-- What `Canonical` asks of a part of a tree, by the place where it stands. -/
def Form.Canonical : Form → Prop
  | .expr e => e.Canonical
  | .args es => Expr.AllCanonical es
  | .params ps => ∀ p ∈ ps, p.kind = .identifier
  | .maybe o => ∀ e ∈ o, e.Canonical
  | .varDecl s | .decl s => s.Canonical
  | .exprStmt s => s.Canonical ∧ s.isDeclaration = false ∧ s.endsOpen = false
  | .start o => ∀ s ∈ o, s.Canonical
  | .stmt isOpen s => s.Canonical ∧ s.isDeclaration = false ∧ (s.endsOpen = true → isOpen = true)
  | .body ss => Stmt.AllCanonical ss

theorem canonical_forTree {o : Option Stmt} {c x : Option Expr} {b : Bool} {s : Stmt} (n : NodeId)
    (ho : (Form.start o).Canonical) (hc : (Form.maybe c).Canonical) (hx : (Form.maybe x).Canonical)
    (hs : (Form.stmt b s).Canonical) : (Form.stmt b (forTree o c x s n).1).Canonical := by
  obtain ⟨hs, hd, hopen⟩ := hs
  cases o <;> cases c <;> cases x <;>
    simp_all [Form.Canonical, forTree, Stmt.Canonical, Stmt.AllCanonical, Expr.Canonical,
      Stmt.isDeclaration, Stmt.endsOpen]

theorem canonical_of_spells {f : Form} {i j : NodeId} {ts : List Token} (h : Spells f i ts j) :
    f.Canonical := by
  induction h with
  | literal => trivial
  | var h => exact h
  | grouping _ _ _ ih => exact ih
  | call hl _ _ _ hr ih iha => exact ⟨hl, ih, hr, iha⟩
  | @unary _ _ _ _ op hop hl _ ih =>
    refine ⟨?_, hl, ih⟩
    cases hk : op.kind <;> simp_all [isUnaryOp]
  | binary hm hll hlr _ _ ihl ihr =>
    exact ⟨⟨hm, Level.ofOperator_le_factor _⟩, hll, hlr, ihl, ihr⟩
  | logical hp hm hll hlr _ _ ihl ihr => exact ⟨⟨hp, Nat.le_of_lt_succ hm⟩, hll, hlr, ihl, ihr⟩
  | assign hn _ _ ih => exact ⟨hn, ih⟩
  | argsNil | bodyNil => trivial
  | argsOne _ ih => exact ⟨ih, trivial⟩
  | argsCons _ _ _ ih ihs | bodyCons _ _ ih ihs => exact ⟨ih, ihs⟩
  | paramsNil | absent | startNone => nofun
  | paramsOne hp => simpa [Form.Canonical] using hp
  | paramsCons hp _ _ ih => exact List.forall_mem_cons.2 ⟨hp, ih⟩
  | present _ ih => simpa [Form.Canonical] using ih
  | varBare _ hn => exact ⟨hn, by simp⟩
  | varInit _ hn _ _ _ ih => exact ⟨hn, by simpa [Form.Canonical] using ih⟩
  | exprStmt _ _ ih => exact ⟨ih, rfl, rfl⟩
  | startVar _ ih => simpa [Form.Canonical] using ih
  | startExpr _ ih => simpa [Form.Canonical] using ih.1
  | expression _ ih => exact ⟨ih.1, ih.2.1, by simp [ih.2.2]⟩
  | print _ _ _ ih | block _ _ _ ih => exact ⟨ih, rfl, nofun⟩
  | ret ht _ _ ih => exact ⟨⟨ht, ih⟩, rfl, nofun⟩
  | whileLoop _ _ _ _ _ ihc ihs => exact ⟨⟨ihc, ihs.2.1, ihs.1⟩, rfl, ihs.2.2⟩
  | ifThen _ _ _ _ _ ihc ihs => exact ⟨⟨ihc, ihs.2.1, ihs.1⟩, rfl, fun _ => rfl⟩
  | ifElse _ _ _ _ _ _ _ ihc ihs ihs' =>
    have hclosed := Bool.eq_false_iff.2 fun h => Bool.false_ne_true (ihs.2.2 h)
    exact ⟨⟨ihc, ihs.2.1, hclosed, ihs.1, ihs'.2.1, ihs'.1⟩, rfl, ihs'.2.2⟩
  | forLoop _ _ _ _ _ _ _ _ iho ihc ihx ihs => exact canonical_forTree _ iho ihc ihx ihs
  | «variable» _ ih => exact ih
  | statement _ ih => exact ih.1
  | function _ hn _ _ _ _ _ _ ihp ihs => exact ⟨hn, ihp, ihs⟩

/-! ## What is read is written out as it was -/

/-- What a part of a tree says about the tokens of its text. -/
def Form.slots : Form → List Slot
  | .expr e => e.slots
  | .args es => Expr.argSlots es
  | .params ps => Stmt.paramSlots ps
  | .maybe o => Expr.optionSlots o
  | .varDecl s | .exprStmt s | .stmt _ s | .decl s | .start (some s) => s.slots
  | .start none => [.plain .semicolon]
  | .body ss => Stmt.bodySlots ss

/-- The tokens are as the slots say. -/
abbrev Fit : List Slot → List Token → Prop := Forall₂ Slot.Fits

theorem fit_append {as bs : List Slot} {ts : List Token} :
    Fit (as ++ bs) ts ↔ ∃ us vs, ts = us ++ vs ∧ Fit as us ∧ Fit bs vs := by
  constructor
  · intro h
    induction as generalizing ts with
    | nil => exact ⟨[], ts, rfl, .nil, h⟩
    | cons a as ih =>
      cases h with
      | cons ha h =>
        obtain ⟨us, vs, rfl, hus, hvs⟩ := ih h
        exact ⟨_ :: us, vs, rfl, .cons ha hus, hvs⟩
  · intro h
    obtain ⟨us, vs, rfl, hus, hvs⟩ := h
    exact List.rel_append hus hvs

theorem Fit.append {as bs : List Slot} {us vs : List Token} (hus : Fit as us) (hvs : Fit bs vs) :
    Fit (as ++ bs) (us ++ vs) :=
  fit_append.2 ⟨us, vs, rfl, hus, hvs⟩

theorem Fit.one {a : Slot} {t : Token} (h : a.Fits t) : Fit [a] [t] := .cons h .nil

theorem fits_of_spells {f : Form} {i j : NodeId} {ts : List Token} (h : Spells f i ts j)
    (hfor : ∀ t ∈ ts, t.kind ≠ .kwFor) : Fit f.slots ts := by
  induction h with
  | literal h => exact .one h
  | var | paramsOne => exact .one rfl
  | grouping hl _ hr ih =>
    have he := ih fun t ht => hfor t (by simp [ht])
    exact .cons hl (he.append (.one hr))
  | call _ _ hl _ _ ih iha =>
    have hcallee := ih fun t ht => hfor t (by simp [ht])
    have hargs := iha fun t ht => hfor t (by simp [ht])
    exact hcallee.append (.cons hl (hargs.append (.one rfl)))
  | unary _ _ _ ih => exact .cons rfl (ih fun t ht => hfor t (by simp [ht]))
  | binary _ _ _ _ _ ihl ihr | logical _ _ _ _ _ _ ihl ihr =>
    have hl := ihl fun t ht => hfor t (by simp [ht])
    have hr := ihr fun t ht => hfor t (by simp [ht])
    exact hl.append (.cons rfl hr)
  | assign _ hs _ ih => exact .cons rfl (.cons hs (ih fun t ht => hfor t (by simp [ht])))
  | argsNil | paramsNil | absent | bodyNil => exact .nil
  | argsOne _ ih | present _ ih | startVar _ ih | startExpr _ ih | expression _ ih | «variable» _ ih
  | statement _ ih => exact ih hfor
  | argsCons _ hc _ ih ihs =>
    have he := ih fun t ht => hfor t (by simp [ht])
    have hes := ihs fun t ht => hfor t (by simp [ht])
    exact he.append (.cons hc hes)
  | paramsCons _ hc _ ih => exact .cons rfl (.cons hc (ih fun t ht => hfor t (by simp [ht])))
  | varBare hv _ hc => exact .cons hv (.cons rfl (Fit.one hc))
  | varInit hv _ hs _ hc ih =>
    have he := ih fun t ht => hfor t (by simp [ht])
    exact .cons hv (.cons rfl (.cons hs (he.append (.one hc))))
  | exprStmt _ hc ih => exact (ih fun t ht => hfor t (by simp [ht])).append (.one hc)
  | startNone hc => exact .one hc
  | print hp _ hc ih =>
    have he := ih fun t ht => hfor t (by simp [ht])
    exact .cons hp (he.append (.one hc))
  | ret _ _ hc ih =>
    have ho := ih fun t ht => hfor t (by simp [ht])
    exact .cons rfl (ho.append (.one hc))
  | block hl _ hr ih =>
    have hs := ih fun t ht => hfor t (by simp [ht])
    exact .cons hl (hs.append (.one hr))
  | whileLoop hw hl _ hr _ ihc ihs | ifThen hw hl _ hr _ ihc ihs =>
    have hc := ihc fun t ht => hfor t (by simp [ht])
    have hs := ihs fun t ht => hfor t (by simp [ht])
    exact .cons hw (.cons hl (hc.append (.cons hr hs)))
  | ifElse hf hl _ hr _ hx _ ihc ihs ihs' =>
    have hc := ihc fun t ht => hfor t (by simp [ht])
    have hs := ihs fun t ht => hfor t (by simp [ht])
    have hs' := ihs' fun t ht => hfor t (by simp [ht])
    exact .cons hf (.cons hl (hc.append (.cons hr (hs.append (.cons hx hs')))))
  | forLoop hf => exact absurd hf (hfor _ (by simp))
  | function hf _ hl _ hr hlb _ hrb ihp ihs =>
    have hp := ihp fun t ht => hfor t (by simp [ht])
    have hs := ihs fun t ht => hfor t (by simp [ht])
    exact .cons hf (.cons rfl (.cons hl (hp.append (.cons hr (.cons hlb (hs.append (.one hrb)))))))
  | bodyCons _ _ ih ihs =>
    have hs := ih fun t ht => hfor t (by simp [ht])
    exact hs.append (ihs fun t ht => hfor t (by simp [ht]))

/-! ## What is written out is read -/

theorem fit_nil {ts : List Token} : Fit [] ts ↔ ts = [] := List.forall₂_nil_left_iff

theorem fit_cons {a : Slot} {as : List Slot} {ts : List Token} :
    Fit (a :: as) ts ↔ ∃ t us, ts = t :: us ∧ a.Fits t ∧ Fit as us := by
  constructor
  · intro h
    cases h with
    | cons ht hus => exact ⟨_, _, rfl, ht, hus⟩
  · intro h
    obtain ⟨t, us, rfl, ht, hus⟩ := h
    exact .cons ht hus

/-- From every number on, the tokens of an expression's text spell it, but for the numbers. -/
def RespellsExpr (e : Expr) : Prop :=
  ∀ ⦃ts⦄ i, Fit e.slots ts → ∃ e' j, Spells (.expr e') i ts j ∧ e'.eraseIds = e.eraseIds

theorem respells_args {es : List Expr} (h : ∀ e ∈ es, RespellsExpr e) {ts : List Token} (i : NodeId)
    (hts : Fit (Expr.argSlots es) ts) :
    ∃ es' j, Spells (.args es') i ts j ∧ es'.map Expr.eraseIds = es.map Expr.eraseIds := by
  induction es generalizing i ts with
  | nil => cases hts; exact ⟨[], i, .argsNil, rfl⟩
  | cons e es ih =>
    rw [List.forall_mem_cons] at h
    cases es with
    | nil =>
      obtain ⟨e', j, he, heq⟩ := h.1 i hts
      exact ⟨[e'], j, .argsOne he, by simp [heq]⟩
    | cons =>
      simp only [Expr.argSlots, fit_append, fit_cons] at hts
      obtain ⟨us, _, rfl, hus, c, vs, rfl, hc, hvs⟩ := hts
      obtain ⟨e', j, he, heq⟩ := h.1 i hus
      obtain ⟨es', k, hes, heqs⟩ := ih h.2 j hvs
      cases es' with
      | nil => cases heqs
      | cons => exact ⟨_, k, .argsCons he hc hes, by rw [List.map_cons, heq, heqs]; rfl⟩

theorem level_eq_of_eraseIds {e e' : Expr} (h : e'.eraseIds = e.eraseIds) : e'.level = e.level := by
  rw [← e'.level_eraseIds, h, e.level_eraseIds]

theorem respells_expr {e : Expr} (h : e.Canonical) : RespellsExpr e := by
  induction e with
  | literal id value =>
    intro ts i hts
    simp only [Expr.slots, fit_cons, fit_nil] at hts
    obtain ⟨t, _, rfl, ht, rfl⟩ := hts
    exact ⟨_, _, .literal ht, rfl⟩
  | var id name =>
    intro ts i hts
    simp only [Expr.slots, fit_cons, fit_nil] at hts
    obtain ⟨name, _, rfl, rfl, rfl⟩ := hts
    exact ⟨_, _, .var h, rfl⟩
  | assign id name value ih =>
    intro ts i hts
    simp only [Expr.slots, fit_cons] at hts
    obtain ⟨name, _, rfl, rfl, sign, us, rfl, hs, hus⟩ := hts
    obtain ⟨e', j, he, heq⟩ := ih h.2 (i + 1) hus
    exact ⟨_, _, .assign h.1 hs he, by simp [heq]⟩
  | unary id op operand ih =>
    intro ts i hts
    simp only [Expr.slots, fit_cons] at hts
    obtain ⟨op, us, rfl, rfl, hus⟩ := hts
    obtain ⟨e', j, he, heq⟩ := ih h.2.2 i hus
    have hop : isUnaryOp op.kind = true := by rcases h.1 with hk | hk <;> rw [hk] <;> rfl
    have hl := level_eq_of_eraseIds heq
    exact ⟨_, _, .unary hop (hl ▸ h.2.1) he, by simp [heq]⟩
  | binary id left op right ihl ihr =>
    intro ts i hts
    simp only [Expr.slots, fit_append, fit_cons] at hts
    obtain ⟨us, _, rfl, hus, op, vs, rfl, rfl, hvs⟩ := hts
    obtain ⟨⟨hm, -⟩, hll, hlr, hl, hr⟩ := h
    obtain ⟨l', j, hl', heql⟩ := ihl hl i hus
    obtain ⟨r', k, hr', heqr⟩ := ihr hr j hvs
    rw [← level_eq_of_eraseIds heql] at hll
    rw [← level_eq_of_eraseIds heqr] at hlr
    exact ⟨_, _, .binary hm hll hlr hl' hr', by simp [heql, heqr]⟩
  | logical id left op right ihl ihr =>
    intro ts i hts
    simp only [Expr.slots, fit_append, fit_cons] at hts
    obtain ⟨us, _, rfl, hus, op, vs, rfl, rfl, hvs⟩ := hts
    obtain ⟨⟨hp, hm⟩, hll, hlr, hl, hr⟩ := h
    obtain ⟨l', j, hl', heql⟩ := ihl hl i hus
    obtain ⟨r', k, hr', heqr⟩ := ihr hr j hvs
    rw [← level_eq_of_eraseIds heql] at hll
    rw [← level_eq_of_eraseIds heqr] at hlr
    exact ⟨_, _, .logical hp (Nat.lt_succ_of_le hm) hll hlr hl' hr', by simp [heql, heqr]⟩
  | grouping id inner ih =>
    intro ts i hts
    simp only [Expr.slots, fit_append, fit_cons, fit_nil] at hts
    obtain ⟨l, _, rfl, hl, us, _, rfl, hus, r, _, rfl, hr, rfl⟩ := hts
    obtain ⟨e', j, he, heq⟩ := ih h i hus
    exact ⟨_, _, .grouping hl he hr, by simp [heq]⟩
  | call id callee paren args ihc iha =>
    intro ts i hts
    simp only [Expr.slots, fit_append, fit_cons, fit_nil] at hts
    obtain ⟨us, _, rfl, hus, l, _, rfl, hl, vs, _, rfl, hvs, paren, _, rfl, rfl, rfl⟩ := hts
    obtain ⟨hlc, hc, hr, hargs⟩ := h
    obtain ⟨f', j, hf, heq⟩ := ihc hc i hus
    rw [Expr.allCanonical_iff] at hargs
    obtain ⟨es', k, hes, heqs⟩ := respells_args (fun a ha => iha a ha (hargs a ha)) j hvs
    rw [← level_eq_of_eraseIds heq] at hlc
    exact ⟨_, _, .call hlc hf hl hes hr, by simp [heq, heqs]⟩

theorem respells_maybe {o : Option Expr} (h : ∀ e ∈ o, e.Canonical) {ts : List Token} (i : NodeId)
    (hts : Fit (Expr.optionSlots o) ts) :
    ∃ o' j, Spells (.maybe o') i ts j ∧ o'.map Expr.eraseIds = o.map Expr.eraseIds := by
  cases o with
  | none => cases hts; exact ⟨none, i, .absent, rfl⟩
  | some e =>
    obtain ⟨e', j, he, heq⟩ := respells_expr (h e rfl) i hts
    exact ⟨some e', j, .present he, congrArg some heq⟩

theorem spells_params {ps : List Token} (h : ∀ p ∈ ps, p.kind = .identifier) {ts : List Token}
    (i : NodeId) (hts : Fit (Stmt.paramSlots ps) ts) : Spells (.params ps) i ts i := by
  induction ps generalizing ts with
  | nil => cases hts; exact .paramsNil
  | cons p ps ih =>
    rw [List.forall_mem_cons] at h
    cases ps with
    | nil =>
      simp only [Stmt.paramSlots, fit_cons, fit_nil] at hts
      obtain ⟨p, _, rfl, rfl, rfl⟩ := hts
      exact .paramsOne h.1
    | cons =>
      simp only [Stmt.paramSlots, fit_cons] at hts
      obtain ⟨p, _, rfl, rfl, c, us, rfl, hc, hus⟩ := hts
      exact .paramsCons h.1 hc (ih h.2 hus)

def RespellsStmt (s : Stmt) : Prop :=
  ∀ ⦃ts⦄ i, Fit s.slots ts → ∃ b s' j, Spells (.stmt b s') i ts j ∧ s'.eraseIds = s.eraseIds ∧
    (b = true → s.endsOpen = true)

def RespellsDecl (s : Stmt) : Prop :=
  ∀ ⦃ts⦄ i, Fit s.slots ts → ∃ s' j, Spells (.decl s') i ts j ∧ s'.eraseIds = s.eraseIds

theorem RespellsStmt.decl {s : Stmt} (h : RespellsStmt s) : RespellsDecl s := by
  intro ts i hts
  obtain ⟨b, s', j, hs, heq, -⟩ := h i hts
  exact ⟨s', j, .statement hs, heq⟩

theorem respells_body {ss : List Stmt} (h : ∀ s ∈ ss, RespellsDecl s) {ts : List Token} (i : NodeId)
    (hts : Fit (Stmt.bodySlots ss) ts) :
    ∃ ss' j, Spells (.body ss') i ts j ∧ ss'.map Stmt.eraseIds = ss.map Stmt.eraseIds := by
  induction ss generalizing i ts with
  | nil => cases hts; exact ⟨[], i, .bodyNil, rfl⟩
  | cons s ss ih =>
    rw [List.forall_mem_cons] at h
    simp only [Stmt.bodySlots, fit_append] at hts
    obtain ⟨us, vs, rfl, hus, hvs⟩ := hts
    obtain ⟨s', j, hs, heq⟩ := h.1 i hus
    obtain ⟨ss', k, hss, heqs⟩ := ih h.2 j hvs
    exact ⟨s' :: ss', k, .bodyCons hs hss, by simp [heq, heqs]⟩

/-- What the induction over statements carries: a declaration is spelled as one, and all else as a
statement. -/
theorem respells_stmt {s : Stmt} (h : s.Canonical) :
    (s.isDeclaration = false → RespellsStmt s) ∧ RespellsDecl s := by
  have of_stmt {s : Stmt} (hs : RespellsStmt s) :
      (s.isDeclaration = false → RespellsStmt s) ∧ RespellsDecl s := ⟨fun _ => hs, hs.decl⟩
  induction s with
  | expression id value =>
    refine of_stmt fun ts i hts => ?_
    simp only [Stmt.slots, fit_append, fit_cons, fit_nil] at hts
    obtain ⟨us, _, rfl, hus, c, _, rfl, hc, rfl⟩ := hts
    obtain ⟨e', j, he, heq⟩ := respells_expr h i hus
    exact ⟨false, _, _, .expression (.exprStmt he hc), by simp [heq], nofun⟩
  | print id value =>
    refine of_stmt fun ts i hts => ?_
    simp only [Stmt.slots, fit_append, fit_cons, fit_nil] at hts
    obtain ⟨p, _, rfl, hp, us, _, rfl, hus, c, _, rfl, hc, rfl⟩ := hts
    obtain ⟨e', j, he, heq⟩ := respells_expr h i hus
    exact ⟨false, _, _, .print hp he hc, by simp [heq], nofun⟩
  | ret id keyword value =>
    refine of_stmt fun ts i hts => ?_
    simp only [Stmt.slots, fit_append, fit_cons, fit_nil] at hts
    obtain ⟨keyword, _, rfl, rfl, us, _, rfl, hus, c, _, rfl, hc, rfl⟩ := hts
    obtain ⟨o', j, ho, heq⟩ := respells_maybe h.2 i hus
    exact ⟨false, _, _, .ret h.1 ho hc, by simp [heq], nofun⟩
  | block id body ih =>
    refine of_stmt fun ts i hts => ?_
    simp only [Stmt.slots, fit_append, fit_cons, fit_nil] at hts
    obtain ⟨l, _, rfl, hl, us, _, rfl, hus, r, _, rfl, hr, rfl⟩ := hts
    rw [Stmt.Canonical, Stmt.allCanonical_iff] at h
    obtain ⟨ss', j, hss, heq⟩ := respells_body (fun s hs => (ih s hs (h s hs)).2) i hus
    exact ⟨false, _, _, .block hl hss hr, by simp [heq], nofun⟩
  | ifThen id condition yes ih =>
    refine of_stmt fun ts i hts => ?_
    simp only [Stmt.slots, fit_append, fit_cons] at hts
    obtain ⟨f, _, rfl, hf, l, _, rfl, hl, cs, _, rfl, hcs, r, us, rfl, hr, hus⟩ := hts
    obtain ⟨hc, hd, hyes⟩ := h
    obtain ⟨c', j, hc', heqc⟩ := respells_expr hc i hcs
    obtain ⟨b, s', k, hs', heqs, -⟩ := (ih hyes).1 hd j hus
    exact ⟨true, _, _, .ifThen hf hl hc' hr hs', by simp [heqc, heqs], fun _ => rfl⟩
  | ifElse id condition yes no ihy ihn =>
    refine of_stmt fun ts i hts => ?_
    simp only [Stmt.slots, fit_append, fit_cons] at hts
    obtain ⟨f, _, rfl, hf, l, _, rfl, hl, cs, _, rfl, hcs, r, _, rfl, hr, us, _, rfl, hus, x, vs, rfl,
      hx, hvs⟩ := hts
    obtain ⟨hc, hdy, hopen, hyes, hdn, hno⟩ := h
    obtain ⟨c', j, hc', heqc⟩ := respells_expr hc i hcs
    obtain ⟨b, y', k, hy', heqy, hb⟩ := (ihy hyes).1 hdy j hus
    obtain ⟨b', n', m, hn', heqn, hb'⟩ := (ihn hno).1 hdn k hvs
    have hclosed : b = false := Bool.eq_false_iff.2 fun h => by rw [hb h] at hopen; cases hopen
    subst hclosed
    exact ⟨b', _, _, .ifElse hf hl hc' hr hy' hx hn', by simp [heqc, heqy, heqn], hb'⟩
  | whileLoop id condition body ih =>
    refine of_stmt fun ts i hts => ?_
    simp only [Stmt.slots, fit_append, fit_cons] at hts
    obtain ⟨w, _, rfl, hw, l, _, rfl, hl, cs, _, rfl, hcs, r, us, rfl, hr, hus⟩ := hts
    obtain ⟨hc, hd, hbody⟩ := h
    obtain ⟨c', j, hc', heqc⟩ := respells_expr hc i hcs
    obtain ⟨b, s', k, hs', heqs, hb⟩ := (ih hbody).1 hd j hus
    exact ⟨b, _, _, .whileLoop hw hl hc' hr hs', by simp [heqc, heqs], hb⟩
  | varDecl id name init =>
    refine ⟨nofun, fun ts i hts => ?_⟩
    cases init with
    | none =>
      simp only [Stmt.slots, fit_cons, fit_nil] at hts
      obtain ⟨v, _, rfl, hv, name, _, rfl, rfl, c, _, rfl, hc, rfl⟩ := hts
      exact ⟨_, _, .variable (.varBare hv h.1 hc), rfl⟩
    | some e =>
      simp only [Stmt.slots, fit_append, fit_cons, fit_nil] at hts
      obtain ⟨v, _, rfl, hv, name, _, rfl, rfl, sign, _, rfl, hs, us, _, rfl, hus, c, _, rfl, hc,
        rfl⟩ := hts
      obtain ⟨e', j, he, heq⟩ := respells_expr (h.2 e rfl) i hus
      exact ⟨_, _, .variable (.varInit hv h.1 hs he hc), by simp [heq]⟩
  | funDecl id name params body ih =>
    refine ⟨nofun, fun ts i hts => ?_⟩
    simp only [Stmt.slots, fit_append, fit_cons, fit_nil] at hts
    obtain ⟨f, _, rfl, hf, name, _, rfl, rfl, l, _, rfl, hl, us, _, rfl, hus, r, _, rfl, hr, lb, _,
      rfl, hlb, vs, _, rfl, hvs, rb, _, rfl, hrb, rfl⟩ := hts
    obtain ⟨hn, hparams, hbody⟩ := h
    rw [Stmt.allCanonical_iff] at hbody
    have hps := spells_params hparams i hus
    obtain ⟨ss', j, hss, heq⟩ := respells_body (fun s hs => (ih s hs (hbody s hs)).2) i hvs
    exact ⟨_, _, .function hf hn hl hps hr hlb hss hrb, by simp [heq]⟩

/-! ## Programs -/

theorem ne_eof_of_spells {f : Form} {i j : NodeId} {ts : List Token} (h : Spells f i ts j) :
    ∀ t ∈ ts, t.kind ≠ .eof := by
  induction h with
  | @literal _ _ t h =>
    intro _ ht hk
    cases List.mem_singleton.1 ht
    simp [Token.constant?, hk] at h
  | @unary _ _ _ _ op hop _ _ ih =>
    have hne : op.kind ≠ .eof := fun hk => by rw [hk] at hop; cases hop
    exact List.forall_mem_cons.2 ⟨hne, ih⟩
  | @binary _ _ _ _ _ _ _ op hm _ _ _ _ ihl ihr =>
    have hne : op.kind ≠ .eof := fun hk => by rw [hk] at hm; exact absurd hm (by decide)
    exact List.forall_mem_append.2 ⟨ihl, List.forall_mem_cons.2 ⟨hne, ihr⟩⟩
  | @logical _ _ _ _ _ _ _ op hp _ _ _ _ _ ihl ihr =>
    have hne : op.kind ≠ .eof := fun hk => by rw [hk] at hp; cases hp
    exact List.forall_mem_append.2 ⟨ihl, List.forall_mem_cons.2 ⟨hne, ihr⟩⟩
  | _ => simp_all [or_imp]

/-- The tokens in front of the first one that marks the end. -/
theorem takeWhile_ne_eof {ts more : List Token} {last : Token} (hts : ∀ t ∈ ts, t.kind ≠ .eof)
    (hlast : last.kind = .eof) : (ts ++ last :: more).takeWhile (·.kind != .eof) = ts := by
  rw [List.takeWhile_append_of_pos (by simpa using hts), List.takeWhile_cons_of_neg (by simp [hlast]),
    List.append_nil]

theorem ofTokens_of_writtenAs {p : Program} (hp : p.Canonical) {ts : List Token}
    (hts : p.WrittenAs ts) {last : Token} (hlast : last.kind = .eof) (more : List Token)
    (firstId : NodeId) : ∃ p', (Program.ofTokens (ts ++ last :: more) firstId).program = .ok p' ∧
      p'.eraseIds = p.eraseIds := by
  have hall := Stmt.allCanonical_iff.1 hp
  obtain ⟨p', j, hs, heq⟩ := respells_body (fun s hs => (respells_stmt (hall s hs)).2) firstId hts
  refine ⟨p', ofTokens_eq_ok_iff.2 ⟨j, ?_⟩, heq⟩
  rwa [takeWhile_ne_eof (ne_eof_of_spells hs) hlast]

/-- A canonical program is read back from the tokens it is written out to, and from all others that
differ from them only where the tree keeps nothing but the kind. -/
theorem ofTokens_flatten {p : Program} (hp : p.Canonical) {last : Token} (hlast : last.kind = .eof)
    (more : List Token) (firstId : NodeId) :
    (∃ p', (Program.ofTokens (p.flatten ++ last :: more) firstId).program = .ok p' ∧
      p'.eraseIds = p.eraseIds) ∧
    ∀ ts, p.WrittenAs ts →
      ∃ p', (Program.ofTokens (ts ++ last :: more) firstId).program = .ok p' ∧
        p'.eraseIds = p.eraseIds :=
  ⟨ofTokens_of_writtenAs hp p.writtenAs_flatten hlast more firstId,
    fun _ hts => ofTokens_of_writtenAs hp hts hlast more firstId⟩

/-- `if (x) while (x) x = -x or x(x, "s"); else { if (x) return nil; }` -/
theorem ofTokens_flatten_nested :
    let x : Token := ⟨.identifier, "x", none, 1⟩
    let value : Expr := .logical 7 (.unary 7 ⟨.minus, "-", none, 1⟩ (.var 7 x)) ⟨.kwOr, "or", none, 1⟩
      (.call 7 (.var 7 x) ⟨.rightParen, ")", none, 1⟩ [.var 7 x, .literal 7 (.string "s")])
    let p : Program := [.ifElse 7 (.var 7 x)
      (.whileLoop 7 (.var 7 x) (.expression 7 (.assign 7 x value)))
      (.block 7 [.ifThen 7 (.var 7 x) (.ret 7 ⟨.kwReturn, "return", none, 1⟩
        (some (.literal 7 .nil)))])]
    p.Canonical ∧ ∃ p', (Program.ofTokens (p.flatten ++ [⟨.eof, "", none, 1⟩]) 0).program = .ok p' ∧
      p'.eraseIds = p.eraseIds := by
  intro x value p
  have hp : p.Canonical := by
    simp [p, value, x, Program.Canonical, Stmt.AllCanonical, Stmt.Canonical, Expr.Canonical,
      Expr.AllCanonical, Expr.level, Level.ofOperator, Stmt.isDeclaration, Stmt.endsOpen]
    decide
  exact ⟨hp, (ofTokens_flatten hp rfl [] 0).1⟩

/-- What is read is canonical. Without `for` loops it is written out as tokens of the kinds that were
read, and each token that the tree keeps is the one at its place. -/
theorem canonical_ofTokens {tokens : List Token} {firstId : NodeId} {p : Program}
    (hproper : ∀ t ∈ tokens, t.Proper) (h : (Program.ofTokens tokens firstId).program = .ok p) :
    p.Canonical ∧ ((∀ t ∈ tokens.takeWhile (·.kind != .eof), t.kind ≠ .kwFor) →
      p.flatten.map (·.kind) = (tokens.takeWhile (·.kind != .eof)).map (·.kind) ∧
        p.WrittenAs (tokens.takeWhile (·.kind != .eof))) := by
  obtain ⟨j, hs⟩ := ofTokens_eq_ok_iff.1 h
  refine ⟨canonical_of_spells hs, fun hfor => ?_⟩
  have hfit : p.WrittenAs (tokens.takeWhile (·.kind != .eof)) := fits_of_spells hs hfor
  exact ⟨hfit.kinds_flatten fun t ht => hproper t ((List.takeWhile_sublist _).subset ht), hfit⟩

/-- `if (x) if (x) print "s"; else x = -x;` -/
theorem canonical_ofTokens_dangling_else :
    let tokens : List Token := [.kwIf, .leftParen, .identifier, .rightParen, .kwIf, .leftParen,
      .identifier, .rightParen, .kwPrint, .string, .semicolon, .kwElse, .identifier, .equal, .minus,
      .identifier, .semicolon].map fun k => ⟨k, "x", some (.string "s"), 1⟩
    ∃ p, (Program.ofTokens tokens 0).program = .ok p ∧ p.Canonical ∧
      p.flatten.map (·.kind) = tokens.map (·.kind) ∧ p.WrittenAs tokens := by
  intro tokens
  have hproper : ∀ t ∈ tokens, t.Proper := by simp [tokens, Token.Proper, Literal.kind]
  have hfront : tokens.takeWhile (·.kind != .eof) = tokens := rfl
  have hread : (Program.ofTokens tokens 0).program = .ok _ := rfl
  obtain ⟨hp, hwritten⟩ := canonical_ofTokens hproper hread
  rw [hfront] at hwritten
  exact ⟨_, hread, hp, hwritten (by simp [tokens])⟩

end Lox.Grammar
