import Lox.Proofs.Eval.Growth
import Mathlib.Logic.Function.Basic

/-!
# Heaps with extra frames

Two heaps may differ by empty frames that one of them has in addition, all of them inside one frame.
`Heap.Without` says that the second heap is the first one without its extra frames: the others are all
there, in the same order, and what led to an extra frame leads to the frame around it. Names are looked
up through an empty frame as if it were not there, so evaluation goes on alike on such heaps. That the
extra frames stay empty is asked for by `Homes`: declarations do not bind names there.

**Results.**
* `Heap.Without`, with one lemma for each operation of a heap, and `Heap.Without.pushExtra` for a new frame
  of the first heap only.
* `trimming`: this relation as a `Growth`, so that trees are evaluated alike (`Growth.sim_eval`).
-/
namespace Lox

/-- What has become of the frames of a heap in another one that lacks some of them. -/
structure Removal where
  /-- The number of frames of the first heap. -/
  size : Nat
  /-- Where a frame is in the second heap, or what is there instead of an extra one. -/
  place : FrameId → FrameId
  extra : FrameId → Prop

namespace Removal

/-- In a later state there are more frames. -/
instance : Preorder Removal where
  le w w' := w.size ≤ w'.size ∧ ∀ i, i < w.size → w'.place i = w.place i ∧ (w'.extra i ↔ w.extra i)
  le_refl _ := ⟨Nat.le_refl _, fun _ _ => ⟨rfl, Iff.rfl⟩⟩
  le_trans w₁ w₂ w₃ h₁ h₂ := by
    refine ⟨Nat.le_trans h₁.1 h₂.1, fun i hi => ?_⟩
    obtain ⟨hplace, hextra⟩ := h₂.2 i (Nat.lt_of_lt_of_le hi h₁.1)
    rw [hplace, hextra]
    exact h₁.2 i hi

/-- The frame of the first heap, and what it is in the second one. -/
def Frames (w : Removal) (i j : FrameId) : Prop := i < w.size ∧ j = w.place i

/-- No frame is extra. -/
def none (size : Nat) : Removal := ⟨size, id, fun _ => False⟩

/-- One more frame in both heaps, at `j` in the second one. -/
def keep (w : Removal) (j : FrameId) : Removal := ⟨w.size + 1, Function.update w.place w.size j, w.extra⟩

/-- One more frame in the first heap only, inside the frame of the loop. -/
def drop (w : Removal) (loop : FrameId) : Removal :=
  ⟨w.size + 1, Function.update w.place w.size (w.place loop), fun i => w.extra i ∨ i = w.size⟩

variable {w w' : Removal} {i j : FrameId}

theorem frames_mono (hw : w ≤ w') (h : w.Frames i j) : w'.Frames i j :=
  ⟨Nat.lt_of_lt_of_le h.1 hw.1, h.2.trans (hw.2 i h.1).1.symm⟩

theorem not_extra_mono (hw : w ≤ w') (hi : i < w.size) (h : ¬ w.extra i) : ¬ w'.extra i :=
  fun he => h ((hw.2 i hi).2.1 he)

theorem le_keep (w : Removal) (j : FrameId) : w ≤ w.keep j :=
  ⟨Nat.le_succ _, fun _ hi => ⟨Function.update_of_ne (Nat.ne_of_lt hi) _ _, Iff.rfl⟩⟩

theorem le_drop (w : Removal) (loop : FrameId) : w ≤ w.drop loop :=
  ⟨Nat.le_succ _, fun _ hi => ⟨Function.update_of_ne (Nat.ne_of_lt hi) _ _,
    or_iff_left (Nat.ne_of_lt hi)⟩⟩

theorem place_keep_self (w : Removal) (j : FrameId) : (w.keep j).place w.size = j :=
  Function.update_self _ _ _

theorem place_drop_self (w : Removal) (loop : FrameId) : (w.drop loop).place w.size = w.place loop :=
  Function.update_self _ _ _

end Removal

/-- The frame at `i` and what it is in the second heap: parent and values are moved along. -/
structure Frame.Moved (w : Removal) (i : FrameId) (f g : Frame) : Prop where
  parent : Option.Rel (fun p q => p < i ∧ q = w.place p) f.parent g.parent
  value (name : String) : Option.Rel (Value.Moved w.Frames) (f.get? name) (g.get? name)

/-- The second heap is the first one without its extra frames. These are not older than `base` and empty,
and they are inside the frame `loop`. -/
structure Heap.Without (base loop : FrameId) (w : Removal) (h k : Heap) : Prop where
  size_eq : h.frames.size = w.size
  functions_eq : h.functions = k.functions
  empty (i : FrameId) : w.extra i → base ≤ i ∧ h.frames[i]? = some ⟨some loop, []⟩ ∧ loop < i ∧
    ¬ w.extra loop ∧ w.place i = w.place loop
  increasing (i j : FrameId) : i < j → j < w.size → ¬ w.extra i → ¬ w.extra j → w.place i < w.place j
  onto (j : FrameId) : j < k.frames.size → ∃ i, i < w.size ∧ ¬ w.extra i ∧ w.place i = j
  frame (i : FrameId) (f : Frame) : h.frames[i]? = some f → ¬ w.extra i →
    ∃ g, k.frames[w.place i]? = some g ∧ f.Moved w i g

/-- Parents are older than their children, and functions see frames that are there. -/
def Heap.WellFormed (h : Heap) : Prop :=
  ∀ (i : FrameId) (f : Frame), h.frames[i]? = some f →
    (∀ p, f.parent = some p → p < i) ∧
      ∀ name c, f.get? name = some (.function c) → c.frame < h.frames.size

theorem Heap.WellFormed.initial : Heap.initial.WellFormed := by
  intro i f hf
  have hi : i < 1 := (Array.getElem?_eq_some_iff.1 hf).1
  obtain rfl : i = 0 := Nat.lt_one_iff.1 hi
  obtain rfl : Heap.globalFrame = f := Option.some.inj hf
  refine ⟨nofun, fun name c hc => ?_⟩
  simp only [Heap.globalFrame, Frame.get?, Bindings.get?] at hc
  split at hc <;> cases hc

theorem Heap.WellFormed.push {h : Heap} (hh : h.WellFormed) {parent : FrameId}
    (hp : parent < h.frames.size) : (h.push ⟨some parent, []⟩).WellFormed := by
  intro i f hf
  unfold Heap.push at hf
  rw [Array.getElem?_push] at hf
  rw [Heap.size_push]
  split at hf
  · next hi =>
    cases hf
    exact ⟨fun p hpp => by cases hpp; rw [hi]; exact hp, nofun⟩
  · obtain ⟨hparent, hvalue⟩ := hh i f hf
    exact ⟨hparent, fun name c hc => Nat.lt_succ_of_lt (hvalue name c hc)⟩

namespace Frame.Moved

variable {w w' : Removal} {i : FrameId} {f g : Frame}

theorem mono (hw : w ≤ w') (hi : i ≤ w.size) (h : f.Moved w i g) : f.Moved w' i g where
  parent := by
    have hparent := h.parent
    generalize f.parent = o at hparent ⊢
    generalize g.parent = o' at hparent ⊢
    cases hparent with
    | none => exact .none
    | some hpq => exact .some ⟨hpq.1, hpq.2.trans (hw.2 _ (Nat.lt_of_lt_of_le hpq.1 hi)).1.symm⟩
  value name := by
    have hvalue := h.value name
    generalize f.get? name = o at hvalue ⊢
    generalize g.get? name = o' at hvalue ⊢
    cases hvalue with
    | none => exact .none
    | some hv => exact .some (hv.mono fun _ _ => Removal.frames_mono hw)

theorem binds_eq (h : f.Moved w i g) (name : String) : f.binds name = g.binds name := by
  have hvalue := h.value name
  unfold binds
  generalize f.get? name = o at hvalue ⊢
  generalize g.get? name = o' at hvalue ⊢
  cases hvalue <;> rfl

theorem define (h : f.Moved w i g) (name : String) {v v' : Value} (hv : Value.Moved w.Frames v v') :
    (f.define name v).Moved w i (g.define name v') where
  parent := h.parent
  value other := by
    rw [get?_define, get?_define]
    split
    · exact .some hv
    · exact h.value other

/-- New frames inside frames that belong together. -/
theorem new {p q : FrameId} (hp : p < i) (hq : q = w.place p) : Frame.Moved w i ⟨some p, []⟩ ⟨some q, []⟩ :=
  ⟨.some ⟨hp, hq⟩, fun _ => .none⟩

end Frame.Moved

namespace Heap.Without

variable {base loop : FrameId} {w : Removal} {h k : Heap}

/-- A heap as it is, without taking anything away. -/
theorem refl (hh : h.WellFormed) : Without base loop (.none h.frames.size) h h where
  size_eq := rfl
  functions_eq := rfl
  empty _ := False.elim
  increasing _ _ hij _ _ _ := hij
  onto j hj := ⟨j, hj, id, rfl⟩
  frame i f hf _ := by
    obtain ⟨hparent, hvalue⟩ := hh i f hf
    refine ⟨f, hf, ?_, fun name => ?_⟩
    · cases hp : f.parent with
      | none => exact .none
      | some p => exact .some ⟨hparent p hp, rfl⟩
    · cases hv : f.get? name with
      | none => exact .none
      | some v =>
        refine .some ?_
        by_cases hc : ∃ c, v = .function c
        · obtain ⟨c, rfl⟩ := hc
          exact .function ⟨rfl, rfl, rfl, ⟨hvalue name c hv, rfl⟩, rfl⟩
        · exact .same fun c hvc => hc ⟨c, hvc⟩

section
variable (hw : Without base loop w h k) {i : FrameId}
include hw

theorem getElem?_of_lt (hi : i < w.size) : ∃ f, h.frames[i]? = some f :=
  ⟨_, Array.getElem?_eq_getElem (hw.size_eq ▸ hi)⟩

theorem extra_lt (hi : w.extra i) : i < w.size := by
  obtain ⟨-, hframe, -⟩ := hw.empty i hi
  exact hw.size_eq ▸ (Array.getElem?_eq_some_iff.1 hframe).1

theorem place_lt (hi : i < w.size) (hextra : ¬ w.extra i) : w.place i < k.frames.size := by
  obtain ⟨f, hf⟩ := hw.getElem?_of_lt hi
  obtain ⟨g, hg, -⟩ := hw.frame i f hf hextra
  exact (Array.getElem?_eq_some_iff.1 hg).1

theorem place_ne {j : FrameId} (hi : i < w.size) (hj : j < w.size) (hei : ¬ w.extra i) (hej : ¬ w.extra j)
    (hij : i ≠ j) : w.place i ≠ w.place j := by
  rcases Nat.lt_or_gt_of_ne hij with hlt | hlt
  · exact Nat.ne_of_lt (hw.increasing i j hlt hj hei hej)
  · exact Nat.ne_of_gt (hw.increasing j i hlt hi hej hei)

/-- What is there instead of an older frame is older, too. -/
theorem place_lt_place {p : FrameId} (hp : p < i) (hi : i < w.size) (hextra : ¬ w.extra i) :
    w.place p < w.place i := by
  by_cases hep : w.extra p
  · obtain ⟨-, -, hlt, hloop, hplace⟩ := hw.empty p hep
    rw [hplace]
    exact hw.increasing loop i (Nat.lt_trans hlt hp) hi hloop hextra
  · exact hw.increasing p i hp hi hep hextra

/-- Owners belong together, and they are never extra. -/
theorem owner? (name : String) (hi : i < w.size) :
    Option.Rel (fun o o' => o < w.size ∧ o' = w.place o ∧ ¬ w.extra o) (h.owner? name i)
      (k.owner? name (w.place i)) := by
  induction i using Nat.strongRecOn with
  | ind i ih =>
    by_cases hextra : w.extra i
    · -- an extra frame binds nothing, and in its place is the frame that it is in
      obtain ⟨-, hframe, hlt, -, hplace⟩ := hw.empty i hextra
      have hskip : h.owner? name i = h.owner? name loop := by
        rw [Heap.owner?, hframe]
        exact if_pos hlt
      rw [hskip, hplace]
      exact ih loop hlt (Nat.lt_trans hlt hi)
    · obtain ⟨f, hf⟩ := hw.getElem?_of_lt hi
      obtain ⟨g, hg, hfg⟩ := hw.frame i f hf hextra
      have hparent := hfg.parent
      rw [Heap.owner?, Heap.owner?]
      simp only [hf, hg, hfg.binds_eq name]
      split
      · exact .some ⟨hi, rfl, hextra⟩
      · generalize f.parent = o at hparent ⊢
        generalize g.parent = o' at hparent ⊢
        cases hparent with
        | none => exact .none
        | @some p q hpq =>
          obtain ⟨hp, rfl⟩ := hpq
          dsimp only
          rw [if_pos hp, if_pos (hw.place_lt_place hp hi hextra)]
          exact ih p hp (Nat.lt_trans hp hi)

theorem get? (name : String) (hi : i < w.size) :
    Option.Rel (Value.Moved w.Frames) (h.get? i name) (k.get? (w.place i) name) := by
  have howner := hw.owner? name hi
  unfold Heap.get?
  generalize h.owner? name i = o at howner ⊢
  generalize k.owner? name (w.place i) = o' at howner ⊢
  cases howner with
  | none => exact .none
  | @some o _ ho =>
    obtain ⟨holt, rfl, hextra⟩ := ho
    obtain ⟨f, hf⟩ := hw.getElem?_of_lt holt
    obtain ⟨g, hg, hfg⟩ := hw.frame o f hf hextra
    simp only [Option.bind_eq_bind, Option.bind_some, hf, hg]
    exact hfg.value name

theorem define (hi : i < w.size) (hextra : ¬ w.extra i) (name : String) {v v' : Value}
    (hv : Value.Moved w.Frames v v') :
    Without base loop w (h.define i name v) (k.define (w.place i) name v') where
  size_eq := by rw [size_define, hw.size_eq]
  functions_eq := hw.functions_eq
  empty j hj := by
    have hij : i ≠ j := fun heq => hextra (heq ▸ hj)
    unfold Heap.define
    rw [Array.getElem?_modify, if_neg hij]
    exact hw.empty j hj
  increasing := hw.increasing
  onto j hj := hw.onto j (by rwa [size_define] at hj)
  frame j f hf hej := by
    unfold Heap.define at hf ⊢
    rw [Array.getElem?_modify] at hf ⊢
    by_cases hij : i = j
    · subst hij
      rw [if_pos rfl] at hf ⊢
      obtain ⟨f', hf', rfl⟩ := Option.map_eq_some_iff.1 hf
      obtain ⟨g, hg, hfg⟩ := hw.frame i f' hf' hej
      exact ⟨_, by rw [hg]; rfl, hfg.define name hv⟩
    · rw [if_neg hij] at hf
      have hj : j < w.size := hw.size_eq ▸ (Array.getElem?_eq_some_iff.1 hf).1
      rw [if_neg (hw.place_ne hi hj hextra hej hij)]
      exact hw.frame j f hf hej

/-- A new frame in both heaps. -/
theorem push (hi : i < w.size) : Without base loop (w.keep k.frames.size) (h.push ⟨some i, []⟩)
    (k.push ⟨some (w.place i), []⟩) := by
  have hle := w.le_keep k.frames.size
  have hself := w.place_keep_self k.frames.size
  have hold {j : FrameId} (hj : j < w.size) : (w.keep k.frames.size).place j = w.place j := (hle.2 j hj).1
  refine ⟨?_, hw.functions_eq, fun j hj => ?_, fun j l hjl hl hej hel => ?_, fun j hj => ?_,
    fun j f hf hej => ?_⟩
  · rw [size_push, hw.size_eq]
    rfl
  · obtain ⟨hbase, hframe, hlt, hloop, hplace⟩ := hw.empty j hj
    have hjlt := hw.extra_lt hj
    refine ⟨hbase, ?_, hlt, hloop, ?_⟩
    · unfold Heap.push
      rw [Array.getElem?_push, if_neg (hw.size_eq ▸ Nat.ne_of_lt hjlt)]
      exact hframe
    · rw [hold hjlt, hold (Nat.lt_trans hlt hjlt)]
      exact hplace
  · have hjlt : j < w.size := Nat.lt_of_lt_of_le hjl (Nat.le_of_lt_succ hl)
    rcases Nat.lt_or_eq_of_le (Nat.le_of_lt_succ hl) with hllt | rfl
    · rw [hold hjlt, hold hllt]
      exact hw.increasing j l hjl hllt hej hel
    · rw [hold hjlt, hself]
      exact hw.place_lt hjlt hej
  · rw [size_push] at hj
    rcases Nat.lt_or_eq_of_le (Nat.le_of_lt_succ hj) with hjlt | rfl
    · obtain ⟨l, hl, hel, hplace⟩ := hw.onto j hjlt
      exact ⟨l, Nat.lt_succ_of_lt hl, hel, by rw [hold hl, hplace]⟩
    · exact ⟨w.size, Nat.lt_succ_self _, fun he => Nat.lt_irrefl _ (hw.extra_lt he), hself⟩
  · unfold Heap.push at hf ⊢
    rw [Array.getElem?_push] at hf ⊢
    rw [hw.size_eq] at hf
    split at hf
    · next heq =>
      cases hf
      rw [heq, hself, if_pos rfl]
      exact ⟨_, rfl, .new hi (hold hi).symm⟩
    · have hjlt : j < w.size := hw.size_eq ▸ (Array.getElem?_eq_some_iff.1 hf).1
      rw [hold hjlt, if_neg (Nat.ne_of_lt (hw.place_lt hjlt hej))]
      obtain ⟨g, hg, hfg⟩ := hw.frame j f hf hej
      exact ⟨g, hg, hfg.mono hle (Nat.le_of_lt hjlt)⟩

/-- A new frame in the first heap only, which makes it an extra one. -/
theorem pushExtra (hbase : base ≤ w.size) (hloop : loop < w.size) (hextra : ¬ w.extra loop) :
    Without base loop (w.drop loop) (h.push ⟨some loop, []⟩) k := by
  have hle := w.le_drop loop
  have hself := w.place_drop_self loop
  have hold {j : FrameId} (hj : j < w.size) : (w.drop loop).place j = w.place j := (hle.2 j hj).1
  have hloop' := Removal.not_extra_mono hle hloop hextra
  refine ⟨?_, hw.functions_eq, fun j hj => ?_, fun j l hjl hl hej hel => ?_, fun j hj => ?_,
    fun j f hf hej => ?_⟩
  · rw [size_push, hw.size_eq]
    rfl
  · unfold Heap.push
    rw [Array.getElem?_push, hw.size_eq]
    rcases hj with hj | rfl
    · obtain ⟨hbase, hframe, hlt, -, hplace⟩ := hw.empty j hj
      have hjlt := hw.extra_lt hj
      rw [if_neg (Nat.ne_of_lt hjlt), hold hjlt, hold (Nat.lt_trans hlt hjlt)]
      exact ⟨hbase, hframe, hlt, hloop', hplace⟩
    · rw [if_pos rfl, hself, hold hloop]
      exact ⟨hbase, rfl, hloop, hloop', rfl⟩
  · have hllt : l < w.size := by
      rcases Nat.lt_or_eq_of_le (Nat.le_of_lt_succ hl) with hllt | rfl
      · exact hllt
      · exact absurd (.inr rfl) hel
    rw [hold (Nat.lt_trans hjl hllt), hold hllt]
    exact hw.increasing j l hjl hllt (fun he => hej (.inl he)) (fun he => hel (.inl he))
  · obtain ⟨l, hl, hel, hplace⟩ := hw.onto j hj
    refine ⟨l, Nat.lt_succ_of_lt hl, Removal.not_extra_mono hle hl hel, ?_⟩
    rw [hold hl, hplace]
  · unfold Heap.push at hf
    rw [Array.getElem?_push, hw.size_eq] at hf
    split at hf
    · next heq => exact absurd (.inr heq) hej
    · have hjlt : j < w.size := hw.size_eq ▸ (Array.getElem?_eq_some_iff.1 hf).1
      obtain ⟨g, hg, hfg⟩ := hw.frame j f hf fun he => hej (.inl he)
      rw [hold hjlt]
      exact ⟨g, hg, hfg.mono hle (Nat.le_of_lt hjlt)⟩

end
end Heap.Without

namespace Eval

open EvalM

/-- Heaps of which the first has extra frames. A declaration may bind names in the others. -/
def trimming (base loop : FrameId) : Growth Removal where
  Heaps := Heap.Without base loop
  Frames := Removal.Frames
  Homes w i j _ := w.Frames i j ∧ ¬ w.extra i
  frames_mono hw _ _ := Removal.frames_mono hw
  homes_mono hw _ _ _ h := ⟨Removal.frames_mono hw h.1, Removal.not_extra_mono hw h.1.1 h.2⟩
  get hh _ _ hf name := by
    rw [hf.2]
    exact hh.get? name hf.1
  assign hh i _ hf name := by
    have howner := hh.owner? name hf.1
    rw [hf.2]
    generalize Heap.owner? _ name i = o at howner ⊢
    generalize Heap.owner? _ name _ = o' at howner ⊢
    cases howner with
    | none => exact .none
    | some ho =>
      obtain ⟨hlt, rfl, hextra⟩ := ho
      exact .some fun v v' hv => hh.define hlt hextra name hv
  define hh _ _ name hf _ _ hv := by
    rw [hf.1.2]
    exact hh.define hf.1.1 hf.2 name hv
  push {w h k} hh _ _ hf := by
    rw [hf.2]
    have hself := w.place_keep_self k.frames.size
    have hframes : (w.keep k.frames.size).Frames h.frames.size k.frames.size := by
      rw [hh.size_eq]
      exact ⟨Nat.lt_succ_self _, hself.symm⟩
    refine ⟨_, w.le_keep _, hh.push hf.1, hframes, fun _ => ⟨hframes, fun he => ?_⟩⟩
    rw [hh.size_eq] at he
    exact Nat.lt_irrefl _ (hh.extra_lt he)
  functions hh := ⟨hh.functions_eq, { hh with functions_eq := by rw [hh.functions_eq] }⟩

section
variable {base loop : FrameId}

theorem machines_none {m : Machine} (hm : m.heap.WellFormed) :
    (trimming base loop).Machines (.none m.heap.frames.size) m m :=
  ⟨.refl hm, rfl, rfl, rfl⟩

/-- An extra frame is made on one side, and from there both sides go on alike. -/
theorem sim_newFrame_extra {w : Removal} {α β : Type} {Q : Removal → α → β → Prop}
    {f : FrameId → EvalM α} {y : EvalM β} {j : FrameId} (hbase : base ≤ w.size)
    (hloop : w.Frames loop j) (hextra : ¬ w.extra loop)
    (h : ∀ w', w ≤ w' → ∀ i, w'.Frames i j → (trimming base loop).Sim w' Q (f i) y) :
    (trimming base loop).Sim w Q (newFrame loop >>= f) y := by
  intro w₁ hw₁ m n hmn
  have hloop₁ := Removal.frames_mono hw₁ hloop
  have hextra₁ := Removal.not_extra_mono hw₁ hloop.1 hextra
  have hheap : Heap.Without base loop w₁ m.heap n.heap := hmn.heap
  have hnew : (w₁.drop loop).Frames m.heap.frames.size j := by
    rw [hheap.size_eq, hloop₁.2]
    exact ⟨Nat.lt_succ_self _, (w₁.place_drop_self loop).symm⟩
  have hpushed := hheap.pushExtra (Nat.le_trans hbase hw₁.1) hloop₁.1 hextra₁
  rw [Deep.run_bind, newFrame, Deep.run_of]
  have hle := w₁.le_drop loop
  obtain ⟨w₂, hw₂, hends⟩ := h _ (le_trans hw₁ hle) _ hnew _ (le_refl _)
    { m with heap := m.heap.push ⟨some loop, []⟩ } n { hmn with heap := hpushed }
  exact ⟨w₂, le_trans hle hw₂, hends⟩

end
end Eval
end Lox
