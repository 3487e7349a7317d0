import Lox.Proofs.Eval.Ancestry
import Lox.Proofs.Eval.Binding
import Lox.Proofs.Eval.Simulation

/-!
# Reading, assigning and defining a name

What a name means in a frame depends on the chain of the frame: itself, its parent, the parent of that and so
on. The first frame on the chain that binds the name is its owner. A read gives the value that the owner
binds. An assignment changes this value, and with it what all frames see for which the name has the same
owner, those of other scopes and of functions included. A definition is about one frame, and is seen from
where that frame comes before all others on the chain that bind the name.

**Chains.** `Heap.Chain` (module `Ancestry`) follows parents and nothing else. In a forest every frame has one
chain. What the search for an owner and the look-up of a value come to is said by `Forest.owner?_eq` and
`Forest.get?_eq`: they are searches in this list. Runs make no other heaps (`Machine.Reached.forest`).

**One binding.** Both an assignment and a definition are of the kind `Heap.Rebinds`, the change of a single
name in a single frame. How this shows in look-ups is proved once for both, for every name and from every
frame (`Rebinds.get?_of_sees`, `Rebinds.get?_of_not_sees`).

**Result.** `names_resolve_to_owners`.
-/
namespace Lox

open EvalM

namespace Heap

/-! ## Owners -/

/-- A parent is older than its children. Frames are numbered as they are made, each inside one that is there. -/
def Forest (h : Heap) : Prop :=
  ∀ (i : FrameId) (f : Frame) (p : FrameId), h.frames[i]? = some f → f.parent = some p → p < i

/-- The value that a frame itself binds a name to. -/
def bound (h : Heap) (i : FrameId) (name : String) : Option Value := h.frames[i]?.bind (·.get? name)

/-- The first frame on the chain of `g` that binds the name. -/
def Owner (h : Heap) (g : FrameId) (name : String) (o : Option FrameId) : Prop :=
  ∃ l, h.Chain g l ∧ l.find? (h.binds · name) = o

/-- The chain of `g` comes to `f`, and to no frame before that binds the name. -/
def Sees (h : Heap) (g : FrameId) (name : String) (f : FrameId) : Prop :=
  ∃ inner outer, h.Chain g (inner ++ f :: outer) ∧ ∀ i ∈ inner, h.binds i name = false

variable {h k : Heap} {g i : FrameId} {l l' : List FrameId} {name : String} {v : Value}

theorem binds_eq_isSome (h : Heap) (i : FrameId) (name : String) :
    h.binds i name = (h.bound i name).isSome := by
  unfold binds bound
  cases h.frames[i]? <;> rfl

theorem Chain.unique (hl : h.Chain g l) (hl' : h.Chain g l') : l = l' := by
  induction hl generalizing l' with
  | root hf hp =>
    cases hl' with
    | root => rfl
    | inner hf' hp' => simp_all
  | inner hf hp _ ih =>
    cases hl' with
    | root hf' hp' => simp_all
    | inner hf' hp' hl' =>
      cases hf.symm.trans hf'
      cases hp.symm.trans hp'
      rw [ih hl']

theorem Chain.lt_size (hl : h.Chain g l) : g < h.frames.size := by
  cases hl with
  | root hf | inner hf => exact (Array.getElem?_eq_some_iff.1 hf).1

/-- The value at the first place where there is one. -/
theorem bind_find?_isSome {α β : Type} (b : α → Option β) (as : List α) :
    (as.find? fun a => (b a).isSome).bind b = as.findSome? b := by
  induction as with
  | nil => rfl
  | cons a as ih =>
    rw [List.find?_cons, List.findSome?_cons]
    cases hb : b a with
    | none => exact ih
    | some v => exact hb

namespace Forest

theorem chain (hh : h.Forest) (hg : g < h.frames.size) : ∃ l, h.Chain g l := by
  induction g using Nat.strongRecOn with
  | ind g ih =>
    have hf := Array.getElem?_eq_getElem hg
    cases hp : h.frames[g].parent with
    | none => exact ⟨_, .root hf hp⟩
    | some p =>
      have hlt := hh g _ p hf hp
      obtain ⟨l, hl⟩ := ih p hlt (Nat.lt_trans hlt hg)
      exact ⟨_, .inner hf hp hl⟩

/-- The search for an owner goes through the chain. -/
theorem owner?_eq (hh : h.Forest) (hl : h.Chain g l) (name : String) :
    h.owner? name g = l.find? (h.binds · name) := by
  induction hl with
  | @root i f hf hp =>
    have hb : h.binds i name = f.binds name := by rw [binds, hf, Option.any_some]
    rw [owner?, hf, List.find?_cons, hb]
    cases hname : f.binds name <;> simp [hp, hname]
  | @inner i f p l hf hp _ ih =>
    have hb : h.binds i name = f.binds name := by rw [binds, hf, Option.any_some]
    rw [owner?, hf, List.find?_cons, hb]
    cases hname : f.binds name with
    | true => simp [hname]
    | false => simpa [hp, hname, hh i f p hf hp] using ih

/-- A look-up gives the first value on the chain. -/
theorem get?_eq (hh : h.Forest) (hl : h.Chain g l) (name : String) :
    h.get? g name = l.findSome? (h.bound · name) := by
  rw [← bind_find?_isSome]
  simp only [← binds_eq_isSome, ← hh.owner?_eq hl]
  rfl

theorem owner (hh : h.Forest) (hl : h.Chain g l) (name : String) : h.Owner g name (h.owner? name g) :=
  ⟨l, hl, (hh.owner?_eq hl name).symm⟩

end Forest

theorem Owner.owner?_eq {o : Option FrameId} (ho : h.Owner g name o) (hh : h.Forest) : h.owner? name g = o := by
  obtain ⟨l, hl, hfind⟩ := ho
  rw [hh.owner?_eq hl, hfind]

/-- The owner is the one frame that binds the name among those that are seen through frames that do not. -/
theorem owner_some_iff {o : FrameId} : h.Owner g name (some o) ↔ h.Sees g name o ∧ h.binds o name = true := by
  constructor
  · rintro ⟨l, hl, hfind⟩
    obtain ⟨hb, inner, outer, rfl, hinner⟩ := List.find?_eq_some_iff_append.1 hfind
    exact ⟨⟨inner, outer, hl, fun i hi => Bool.not_eq_true' _ ▸ hinner i hi⟩, hb⟩
  · rintro ⟨⟨inner, outer, hl, hinner⟩, hb⟩
    refine ⟨_, hl, List.find?_eq_some_iff_append.2 ⟨hb, inner, outer, rfl, fun i hi => ?_⟩⟩
    rw [hinner i hi, Bool.not_false]

/-! ## One binding -/

/-- The frame at `i` now binds the name to `v`, and nothing else is changed. -/
structure Rebinds (h : Heap) (i : FrameId) (name : String) (v : Value) (k : Heap) : Prop where
  functions_eq : k.functions = h.functions
  size_eq : k.frames.size = h.frames.size
  parent_eq (j : FrameId) : k.frames[j]?.map (·.parent) = h.frames[j]?.map (·.parent)
  bound_eq (j : FrameId) (other : String) :
    k.bound j other = if j = i ∧ other = name then some v else h.bound j other

theorem rebinds_define (hi : i < h.frames.size) (name : String) (v : Value) :
    h.Rebinds i name v (h.define i name v) where
  functions_eq := rfl
  size_eq := size_define h i name v
  parent_eq j := by
    unfold define
    rw [Array.getElem?_modify]
    split
    · rw [Option.map_map]
      rfl
    · rfl
  bound_eq j other := by
    unfold bound define
    rw [Array.getElem?_modify]
    by_cases hij : i = j
    · subst hij
      simp [Array.getElem?_eq_getElem hi]
    · simp [hij, Ne.symm hij]

namespace Rebinds

theorem symm_parent (hk : h.Rebinds i name v k) {j : FrameId} {f : Frame} (hf : k.frames[j]? = some f) :
    ∃ f', h.frames[j]? = some f' ∧ f'.parent = f.parent := by
  have hparent := hk.parent_eq j
  rw [hf, Option.map_some] at hparent
  exact Option.map_eq_some_iff.1 hparent.symm

theorem forest (hk : h.Rebinds i name v k) (hh : h.Forest) : k.Forest := by
  intro j f p hf hp
  obtain ⟨f', hf', hparent⟩ := hk.symm_parent hf
  exact hh j f' p hf' (hparent.trans hp)

theorem chain (hk : h.Rebinds i name v k) (hl : k.Chain g l) : h.Chain g l := by
  induction hl with
  | root hf hp =>
    obtain ⟨f', hf', hparent⟩ := hk.symm_parent hf
    exact .root hf' (hparent.trans hp)
  | inner hf hp _ ih =>
    obtain ⟨f', hf', hparent⟩ := hk.symm_parent hf
    exact .inner hf' (hparent.trans hp) ih

/-- A search that finds nothing before it comes to the frame finds the new value. -/
theorem findSome?_bound (hk : h.Rebinds i name v k) {inner : List FrameId}
    (hinner : ∀ j ∈ inner, h.binds j name = false) (outer : List FrameId) :
    (inner ++ i :: outer).findSome? (k.bound · name) = some v := by
  induction inner with
  | nil => simp [hk.bound_eq]
  | cons j inner ih =>
    rw [List.forall_mem_cons, binds_eq_isSome, Option.isSome_eq_false_iff, Option.isNone_iff_eq_none] at hinner
    rw [List.cons_append, List.findSome?_cons, hk.bound_eq, hinner.1]
    by_cases hj : j = i
    · simp [hj]
    · simpa [hj] using ih hinner.2

/-- Where the frame is seen, so is its new value. -/
theorem get?_of_sees (hk : h.Rebinds i name v k) (hh : h.Forest) (hs : h.Sees g name i) :
    k.get? g name = some v := by
  obtain ⟨inner, outer, hl, hinner⟩ := hs
  have hforest := hk.forest hh
  obtain ⟨l, hkl⟩ := hforest.chain (hk.size_eq ▸ hl.lt_size)
  obtain rfl := (hk.chain hkl).unique hl
  rw [hforest.get?_eq hkl, hk.findSome?_bound hinner]

/-- A search that comes to `i` only after it has found something does not depend on what is there. -/
theorem findSome?_congr {b b' : FrameId → Option Value} (hb : ∀ j, j ≠ i → b' j = b j)
    (hl : ∀ inner outer, l = inner ++ i :: outer → ∃ j ∈ inner, (b j).isSome = true) :
    l.findSome? b' = l.findSome? b := by
  induction l with
  | nil => rfl
  | cons j l ih =>
    have hj : j ≠ i := by
      rintro rfl
      obtain ⟨_, hmem, -⟩ := hl [] l rfl
      cases hmem
    rw [List.findSome?_cons, List.findSome?_cons, hb j hj]
    cases hbj : b j with
    | some _ => rfl
    | none =>
      refine ih fun inner outer hsplit => ?_
      obtain ⟨j', hmem, hsome⟩ := hl (j :: inner) outer (congrArg (j :: ·) hsplit)
      rcases List.mem_cons.1 hmem with rfl | hmem
      · rw [hbj] at hsome
        cases hsome
      · exact ⟨j', hmem, hsome⟩

/-- All other look-ups give what they gave before. -/
theorem get?_of_not_sees (hk : h.Rebinds i name v k) (hh : h.Forest) (hg : g < h.frames.size) {other : String}
    (hs : ¬ (other = name ∧ h.Sees g name i)) : k.get? g other = h.get? g other := by
  have hforest := hk.forest hh
  obtain ⟨l, hkl⟩ := hforest.chain (hk.size_eq ▸ hg)
  rw [hforest.get?_eq hkl, hh.get?_eq (hk.chain hkl)]
  by_cases hname : other = name
  · subst hname
    refine findSome?_congr (i := i) (fun j hj => ?_) fun inner outer hsplit => ?_
    · rw [hk.bound_eq, if_neg fun h => hj h.1]
    · by_contra hnone
      refine hs ⟨rfl, inner, outer, hsplit ▸ hk.chain hkl, fun j hj => ?_⟩
      rw [binds_eq_isSome]
      exact Bool.eq_false_iff.2 fun hsome => hnone ⟨j, hj, hsome⟩
  · simp only [hk.bound_eq, hname, and_false, if_false]

end Rebinds
end Heap

/-! ## Operations of a machine -/

/-- The frames of every machine that can be reached form a forest. -/
theorem Machine.Reached.forest {m : Machine} {vs : List Value} (h : m.Reached vs) : m.heap.Forest :=
  fun i f p hf hp => (h.sound.heap i f hf).1 p hp

/-- Reading the name from a frame in `S` now gives `v`, and every other read from a frame what it gave before.
-/
structure Machine.Redirects (m : Machine) (S : FrameId → Prop) (name : String) (v : Value) (n : Machine) :
    Prop where
  hit (g : FrameId) (t : Token) (hg : S g) (ht : t.lexeme = name) : (readVar g t).result n = .ok v
  miss (g : FrameId) (t : Token) (hg : g < m.heap.frames.size) (hs : ¬ (t.lexeme = name ∧ S g)) :
    (readVar g t).result n = (readVar g t).result m

section
variable {m : Machine} {g o : FrameId} {t : Token} {v : Value}

theorem run_readVar_some (h : m.heap.get? g t.lexeme = some v) : (readVar g t).run m = .ok v m := by
  rw [readVar, Deep.run_of, h]

theorem result_readVar_congr {n : Machine} (h : n.heap.get? g t.lexeme = m.heap.get? g t.lexeme) :
    (readVar g t).result n = (readVar g t).result m := by
  rw [Deep.result, Deep.result, readVar, Deep.run_of, Deep.run_of, h]
  cases m.heap.get? g t.lexeme <;> rfl

theorem Heap.Rebinds.redirects {i : FrameId} {name : String} {k : Heap} (hk : m.heap.Rebinds i name v k)
    (hm : m.heap.Forest) : m.Redirects (m.heap.Sees · name i) name v { m with heap := k } where
  hit g t hg ht := by
    subst ht
    rw [Deep.result, run_readVar_some (hk.get?_of_sees hm hg)]
    rfl
  miss g t hg hs := result_readVar_congr (hk.get?_of_not_sees hm hg hs)

end

/-- Reading, assigning and defining a name go by its owner, the first frame on the chain that binds it.

A read succeeds if and only if there is an owner, with the value that is bound there. So does an assignment,
and it changes this one binding: the frames with that owner see the new value, and nothing else is seen to
change. Without an owner, both end with a fault that names the variable and its line, and no frame is changed.
A definition changes the binding in its own frame. It is seen from the frames that have this frame on their
chain and no nearer one that binds the name, and all other look-ups stay as they are. -/
theorem names_resolve_to_owners (m : Machine) (hm : m.heap.Forest) :
    (∀ g < m.heap.frames.size, ∀ name, ∃! o, m.heap.Owner g name o) ∧
    (∀ g (t : Token),
      (m.heap.Owner g t.lexeme none →
        (readVar g t).run m = .error (.fault ⟨.undefinedVariable t.lexeme, t.line⟩) m) ∧
      ∀ o, m.heap.Owner g t.lexeme (some o) →
        ∃ v, m.heap.bound o t.lexeme = some v ∧ (readVar g t).run m = .ok v m) ∧
    (∀ f (t : Token) v,
      (m.heap.Owner f t.lexeme none →
        (assignVar f t v).run m = .error (.fault ⟨.undefinedVariable t.lexeme, t.line⟩) m) ∧
      ∀ o, m.heap.Owner f t.lexeme (some o) →
        ∃ h, (assignVar f t v).run m = .ok () { m with heap := h } ∧ m.heap.Rebinds o t.lexeme v h ∧
          m.Redirects (m.heap.Owner · t.lexeme (some o)) t.lexeme v { m with heap := h }) ∧
    ∀ f < m.heap.frames.size, ∀ name v,
      ∃ h, (defineVar f name v).run m = .ok () { m with heap := h } ∧ m.heap.Rebinds f name v h ∧
        m.Redirects (m.heap.Sees · name f) name v { m with heap := h } := by
  refine ⟨fun g hg name => ?_, fun g t => ⟨fun ho => ?_, fun o ho => ?_⟩,
    fun f t v => ⟨fun ho => ?_, fun o ho => ?_⟩, fun f hf name v => ?_⟩
  · obtain ⟨l, hl⟩ := hm.chain hg
    exact ⟨_, hm.owner hl name, fun o ho => (ho.owner?_eq hm).symm⟩
  · have hget : m.heap.get? g t.lexeme = none := by
      rw [Heap.get?, ho.owner?_eq hm]
      rfl
    rw [readVar, Deep.run_of, hget]
  · have hget : m.heap.get? g t.lexeme = m.heap.bound o t.lexeme := by
      rw [Heap.get?, ho.owner?_eq hm]
      rfl
    have hbinds := (Heap.owner_some_iff.1 ho).2
    rw [Heap.binds_eq_isSome, Option.isSome_iff_exists] at hbinds
    obtain ⟨v, hv⟩ := hbinds
    exact ⟨v, hv, run_readVar_some (hget.trans hv)⟩
  · rw [assignVar, Deep.run_of, ho.owner?_eq hm]
  · have hbinds := (Heap.owner_some_iff.1 ho).2
    obtain ⟨_, hframe, -⟩ := Heap.binds_iff.1 hbinds
    have hk := Heap.rebinds_define (Array.getElem?_eq_some_iff.1 hframe).1 t.lexeme v
    refine ⟨_, ?_, hk, ?_⟩
    · rw [assignVar, Deep.run_of, ho.owner?_eq hm]
    · have hsees : (m.heap.Owner · t.lexeme (some o)) = (m.heap.Sees · t.lexeme o) :=
        funext fun g => propext (by rw [Heap.owner_some_iff, and_iff_left hbinds])
      rw [hsees]
      exact hk.redirects hm
  · have hk := Heap.rebinds_define hf name v
    exact ⟨_, by rw [defineVar, Deep.run_of], hk, hk.redirects hm⟩

namespace Shadowed

/-! The frames at 1 and 2 are siblings, and that at 2 has a binding of its own that the one at 3 sees. -/

def x : Token := ⟨.identifier, "x", none, 1⟩

def machine : Machine :=
  ⟨⟨#[⟨none, [("x", .nil)]⟩, ⟨some 0, []⟩, ⟨some 0, [("x", .boolean true)]⟩, ⟨some 2, []⟩], 0⟩, 0, 0, #[]⟩

theorem forest : machine.heap.Forest := by
  intro i f p hf hp
  rcases i with _ | _ | _ | _ | i <;> cases hf <;> cases hp <;> decide

theorem owner_outside : machine.heap.Owner 1 "x" (some 0) :=
  ⟨[1, 0], .inner rfl rfl (.root rfl rfl), by decide⟩

theorem owner_inside : machine.heap.Owner 3 "x" (some 2) :=
  ⟨[3, 2, 0], .inner rfl rfl (.inner rfl rfl (.root rfl rfl)), by decide⟩

end Shadowed

theorem names_resolve_to_owners_shadowed :
    Shadowed.machine.heap.Forest ∧ Shadowed.machine.heap.Owner 1 "x" (some 0) ∧
      Shadowed.machine.heap.Owner 3 "x" (some 2) ∧
      ∃ h, (assignVar 1 Shadowed.x (.boolean false)).run Shadowed.machine =
          .ok () { Shadowed.machine with heap := h } ∧
        (readVar 1 Shadowed.x).result { Shadowed.machine with heap := h } = .ok (.boolean false) ∧
        (readVar 3 Shadowed.x).result { Shadowed.machine with heap := h } = .ok (.boolean true) := by
  obtain ⟨howner, hread, hassign, -⟩ := names_resolve_to_owners Shadowed.machine Shadowed.forest
  obtain ⟨h, hrun, -, hredirects⟩ := (hassign 1 Shadowed.x (.boolean false)).2 0 Shadowed.owner_outside
  refine ⟨Shadowed.forest, Shadowed.owner_outside, Shadowed.owner_inside, h, hrun,
    hredirects.hit 1 Shadowed.x Shadowed.owner_outside rfl, ?_⟩
  have hinside : ¬ (Shadowed.x.lexeme = "x" ∧ Shadowed.machine.heap.Owner 3 "x" (some 0)) := by
    rintro ⟨-, ho⟩
    cases (howner 3 (by decide) "x").unique ho Shadowed.owner_inside
  obtain ⟨v, hv, hvalue⟩ := (hread 3 Shadowed.x).2 2 Shadowed.owner_inside
  cases hv
  rw [hredirects.miss 3 Shadowed.x (by decide) hinside, Deep.result, hvalue]
  rfl

end Lox
