import Lox.Proofs.Eval.Growth
import Lox.Proofs.Grammar.Stacked
import Lox.Proofs.Session

/-!
# Only declarations bind names

Evaluation binds names in frames that were there before only by declarations, and only in the frame that
a declaration is executed in. An expression can call any function that it finds, and these can declare and
assign as they like, but a function declares in frames of its own and an assignment needs a name that is
bound already. So which frame a name belongs to is not changed by an expression or a block.

`Heap.Grows D h k` compares two heaps of a run: the frames of `h` are still there, with the parents and
names they had, and a frame at `i` binds a new name only if `D i name`.

**Results.**
* `grows_eval`: evaluation of a tree, whichever way it ends.
* `binds_evalProgram`: the global names after a program.
* `only_declarations_bind`: both, the second one for sessions.
-/
namespace Lox

/-! ## Names of a heap -/

namespace Frame

/-- The second frame is the first one with more names, of which `D` holds. -/
structure Grows (D : String → Prop) (f g : Frame) : Prop where
  parent_eq : g.parent = f.parent
  keeps (name : String) : f.binds name = true → g.binds name = true
  adds (name : String) : g.binds name = true → f.binds name = true ∨ D name

theorem binds_define (f : Frame) (name other : String) (v : Value) :
    (f.define name v).binds other = true ↔ other = name ∨ f.binds other = true := by
  unfold binds
  rw [get?_define]
  split <;> simp [*]

theorem Grows.define {D : String → Prop} {f g : Frame} (h : f.Grows D g) {name : String}
    (hname : f.binds name = true ∨ D name) (v : Value) : f.Grows D (g.define name v) where
  parent_eq := h.parent_eq
  keeps other ho := (binds_define g name other v).2 (.inr (h.keeps other ho))
  adds other ho := by
    rcases (binds_define g name other v).1 ho with rfl | ho
    · exact hname
    · exact h.adds other ho

end Frame

namespace Heap

/-- The frame at a place binds the name. -/
def binds (h : Heap) (i : FrameId) (name : String) : Bool := h.frames[i]?.any (·.binds name)

theorem binds_iff {h : Heap} {i : FrameId} {name : String} :
    h.binds i name = true ↔ ∃ f, h.frames[i]? = some f ∧ f.binds name = true := by
  simp [binds, Option.any_eq_true]

theorem binds_define_self {h : Heap} {i : FrameId} (hi : i < h.frames.size) (name other : String)
    (v : Value) :
    (h.define i name v).binds i other = true ↔ other = name ∨ h.binds i other = true := by
  unfold binds define
  rw [Array.getElem?_modify, if_pos rfl, Array.getElem?_eq_getElem hi]
  exact Frame.binds_define _ name other v

theorem owner?_binds {h : Heap} {name : String} {i o : FrameId} (ho : h.owner? name i = some o) :
    h.binds o name = true := by
  induction i using Nat.strongRecOn with
  | ind i ih =>
    rw [owner?] at ho
    split at ho
    · cases ho
    · next f hf =>
      split at ho
      · cases ho
        exact binds_iff.2 ⟨f, hf, ‹_›⟩
      · split at ho
        · cases ho
        · split at ho
          · exact ih _ ‹_› ho
          · cases ho

/-- The frames of the first heap are still there in the second one, and those at `i` have got only names
of which `D i` holds. -/
def Grows (D : FrameId → String → Prop) (h k : Heap) : Prop :=
  ∀ (i : FrameId) (f : Frame), h.frames[i]? = some f → ∃ g, k.frames[i]? = some g ∧ f.Grows (D i) g

namespace Grows

variable {D D' : FrameId → String → Prop} {h k : Heap}

theorem refl (h : Heap) : h.Grows D h := fun _ f hf => ⟨f, hf, rfl, fun _ => id, fun _ => .inl⟩

theorem mono (hg : h.Grows D k) (hD : ∀ i name, D i name → D' i name) : h.Grows D' k := by
  intro i f hf
  obtain ⟨g, hk, hfg⟩ := hg i f hf
  exact ⟨g, hk, { hfg with adds := fun name hn => (hfg.adds name hn).imp_right (hD i name) }⟩

theorem size_le (hg : h.Grows D k) : h.frames.size ≤ k.frames.size := by
  apply Nat.le_of_not_lt
  intro hlt
  obtain ⟨g, hk, -⟩ := hg k.frames.size _ (Array.getElem?_eq_getElem hlt)
  rw [Array.getElem?_eq_none (Nat.le_refl _)] at hk
  cases hk

theorem define (hg : h.Grows D k) {i : FrameId} {name : String}
    (hname : ∀ f, h.frames[i]? = some f → f.binds name = true ∨ D i name) (v : Value) :
    h.Grows D (k.define i name v) := by
  intro j f hf
  obtain ⟨g, hk, hfg⟩ := hg j f hf
  unfold Heap.define
  rw [Array.getElem?_modify, hk]
  split
  · next hij =>
    subst hij
    exact ⟨_, rfl, hfg.define (hname f hf) v⟩
  · exact ⟨g, rfl, hfg⟩

theorem push (hg : h.Grows D k) (f : Frame) : h.Grows D (k.push f) := by
  intro i f hf
  obtain ⟨g, hk, hfg⟩ := hg i f hf
  refine ⟨g, ?_, hfg⟩
  obtain ⟨hi, -⟩ := Array.getElem?_eq_some_iff.1 hk
  unfold Heap.push
  rw [Array.getElem?_push, if_neg (Nat.ne_of_lt hi), hk]

/-- What a frame of the first heap binds in the second one. -/
theorem binds (hg : h.Grows D k) {i : FrameId} (hi : i < h.frames.size) (name : String) :
    (h.binds i name = true → k.binds i name = true) ∧
      (k.binds i name = true → h.binds i name = true ∨ D i name) := by
  obtain ⟨g, hk, hfg⟩ := hg i _ (Array.getElem?_eq_getElem hi)
  unfold Heap.binds
  rw [hk, Array.getElem?_eq_getElem hi]
  exact ⟨hfg.keeps name, hfg.adds name⟩

theorem binds_iff (hg : h.Grows (fun _ _ => False) k) {i : FrameId} (hi : i < h.frames.size)
    (name : String) : k.binds i name = true ↔ h.binds i name = true :=
  ⟨fun hn => ((hg.binds hi name).2 hn).resolve_right id, (hg.binds hi name).1⟩

/-- If no frame has got new names, names have the owners that they had. -/
theorem owner?_eq (hg : h.Grows (fun _ _ => False) k) (name : String) {i : FrameId}
    (hi : i < h.frames.size) : k.owner? name i = h.owner? name i := by
  induction i using Nat.strongRecOn with
  | ind i ih =>
    obtain ⟨g, hk, hfg⟩ := hg i _ (Array.getElem?_eq_getElem hi)
    have hbinds : g.binds name = h.frames[i].binds name := by
      rw [Bool.eq_iff_iff]
      exact ⟨fun hn => (hfg.adds name hn).resolve_right id, hfg.keeps name⟩
    rw [Heap.owner?, Heap.owner?]
    simp only [hk, Array.getElem?_eq_getElem hi, hbinds, hfg.parent_eq]
    split
    · rfl
    · split
      · rfl
      · split
        · next p _ hp => exact ih p hp (Nat.lt_trans hp hi)
        · rfl

end Grows
end Heap

/-- The frames of the first heap bind the same names in the second one, and names seen from them have the
same owners. -/
def Heap.SameNames (h k : Heap) : Prop :=
  ∀ i, i < h.frames.size → ∀ name, (k.binds i name = true ↔ h.binds i name = true) ∧
    k.owner? name i = h.owner? name i

theorem Heap.Grows.sameNames {h k : Heap} (hg : h.Grows (fun _ _ => False) k) : h.SameNames k :=
  fun _ hi name => ⟨hg.binds_iff hi name, hg.owner?_eq name hi⟩

/-! ## Evaluation -/

namespace Eval

/-- Where a run is compared with itself, nothing has to be known about the places of frames. -/
inductive OneWorld where
  | only

instance : Preorder OneWorld where
  le _ _ := True
  le_refl _ := trivial
  le_trans _ _ _ _ _ := trivial

/-- One run, seen from an earlier heap of it. A declaration may bind a name in a frame that was not there
then, or if `D` allows it. -/
def naming (start : Heap) (D : FrameId → String → Prop) : Growth OneWorld where
  Heaps _ h k := h = k ∧ start.Grows D h
  Frames _ i j := i = j
  Homes _ i j name := i = j ∧ (i < start.frames.size → D i name)
  frames_mono _ _ _ := id
  homes_mono _ _ _ _ := id
  get := by
    rintro _ h _ ⟨rfl, -⟩ i _ rfl name
    cases h.get? i name with
    | none => exact .none
    | some v => exact .some (Value.corr_eq.2 rfl)
  assign := by
    rintro _ h _ ⟨rfl, hg⟩ i _ rfl name
    cases ho : h.owner? name i with
    | none => exact .none
    | some o =>
      refine .some fun v v' hv => ?_
      obtain rfl := Value.corr_eq.1 hv
      refine ⟨rfl, hg.define (fun f hf => ?_) v⟩
      -- the owner binds the name now, so it did so at the start or was allowed to get it
      obtain ⟨g, hk, hfg⟩ := hg o f hf
      obtain ⟨g', hk', hname⟩ := Heap.binds_iff.1 (Heap.owner?_binds ho)
      obtain rfl := Option.some.inj (hk.symm.trans hk')
      exact hfg.adds name hname
  define := by
    rintro _ h _ ⟨rfl, hg⟩ i _ name ⟨rfl, hhome⟩ v v' hv
    obtain rfl := Value.corr_eq.1 hv
    refine ⟨rfl, hg.define (fun f hf => .inr (hhome ?_)) v⟩
    exact (Array.getElem?_eq_some_iff.1 hf).1
  push := by
    rintro _ h _ ⟨rfl, hg⟩ i _ rfl
    refine ⟨.only, le_refl _, ⟨rfl, hg.push _⟩, rfl, fun name => ⟨rfl, fun hlt => ?_⟩⟩
    exact absurd hlt (Nat.not_lt.2 hg.size_le)
  functions := by
    rintro _ h _ ⟨rfl, hg⟩
    exact ⟨rfl, rfl, hg⟩

section
variable (cfg : Config) (fuel : Nat) (frame : FrameId) (m : Machine)

/-- An expression binds no names in frames that were there before, and a statement only those that it
declares, in its own frame. -/
theorem grows_eval :
    (∀ e, m.heap.Grows (fun _ _ => False) ((evalExpr cfg fuel frame e).after m).heap) ∧
      ∀ s, m.heap.Grows (fun i name => i = frame ∧ name ∈ s.declared)
        ((evalStmt cfg fuel frame s).after m).heap := by
  have hstart (D : FrameId → String → Prop) : (naming m.heap D).Machines .only m m :=
    ⟨⟨rfl, .refl _⟩, rfl, rfl, rfl⟩
  have hsame {D : FrameId → String → Prop} : (naming m.heap D).Frames .only frame frame := rfl
  refine ⟨fun e => ?_, fun s => ?_⟩
  · have hsim := ((naming m.heap fun _ _ => False).sim_eval cfg fuel hsame).1 e
    obtain ⟨_, -, hafter⟩ := hsim.after (hstart _)
    exact hafter.heap.2
  · have hsim := ((naming m.heap fun i name => i = frame ∧ name ∈ s.declared).sim_eval cfg fuel hsame).2 s
      fun name hname => ⟨rfl, fun _ => ⟨rfl, hname⟩⟩
    obtain ⟨_, -, hafter⟩ := hsim.after (hstart _)
    exact hafter.heap.2

theorem grows_evalStmt_of_declared {s : Stmt} (hs : s.declared = []) :
    m.heap.Grows (fun _ _ => False) ((evalStmt cfg fuel frame s).after m).heap := by
  refine ((grows_eval cfg fuel frame m).2 s).mono fun i name h => ?_
  rw [hs] at h
  exact absurd h.2 List.not_mem_nil

end

/-! ## Declarations -/

/-- A declaration that comes to its end binds the name it declares, and one that does not binds nothing. -/
theorem binds_declaration (cfg : Config) (fuel : Nat) {frame : FrameId} {m : Machine}
    (hframe : frame < m.heap.frames.size) {s : Stmt} (hs : s.isDeclaration = true) (name : String) :
    ((evalStmt cfg fuel frame s).after m).heap.binds frame name = true ↔
      m.heap.binds frame name = true ∨
        ((evalStmt cfg fuel frame s).result m).isOk = true ∧ name ∈ s.declared := by
  cases fuel with
  | zero => simp [evalStmt, EvalM.outOfFuel, Deep.after, Deep.result, Ending.fold, Except.isOk, Except.toBool]
  | succ fuel =>
    cases s with
    | varDecl id x init =>
      have hgrows : m.heap.Grows (fun _ _ => False)
          ((optionalStep (evalExpr cfg fuel frame) init).after m).heap := by
        cases init with
        | none => exact .refl _
        | some e => exact (grows_eval cfg fuel frame m).1 e
      unfold Deep.after at hgrows
      simp only [evalStmt, stmtStep, Deep.after, Deep.result, Deep.run_later, Deep.run_bind,
        EvalM.defineVar, Deep.run_of, Deep.run_pure, Stmt.declared, List.mem_singleton]
      cases hinit : (optionalStep (evalExpr cfg fuel frame) init).run m with
      | ok v m' =>
        rw [hinit] at hgrows
        have hexists := Nat.lt_of_lt_of_le hframe hgrows.size_le
        have hbinds := hgrows.binds_iff hframe name
        simp only [Ending.fold, Except.isOk, Except.toBool] at hbinds hexists ⊢
        rw [Heap.binds_define_self hexists, hbinds]
        simp [or_comm]
      | error e m' =>
        rw [hinit] at hgrows
        have hbinds := hgrows.binds_iff hframe name
        simp only [Ending.fold, Except.isOk, Except.toBool] at hbinds ⊢
        simp [hbinds]
    | funDecl id f params body =>
      simp only [evalStmt, stmtStep, Deep.after, Deep.result, Deep.run_later, Deep.run_bind,
        EvalM.newFunction, EvalM.defineVar, Deep.run_of, Deep.run_pure, Ending.fold, Except.isOk,
        Except.toBool, Stmt.declared, List.mem_singleton, true_and]
      rw [or_comm]
      exact Heap.binds_define_self hframe _ name _
    | _ => cases hs

/-- Of the statements that a program is made of, only declarations declare something in its frame. -/
theorem declared_of_canonical {s : Stmt} (h : s.Canonical) (hs : s.isDeclaration = false) :
    s.declared = [] := by
  induction s with
  | varDecl | funDecl => cases hs
  | ifThen id condition yes ih => exact ih h.2.2 h.2.1
  | ifElse id condition yes no ihy ihn =>
    obtain ⟨-, hyes, -, hyesc, hno, hnoc⟩ := h
    rw [Stmt.declared, ihy hyesc hyes, ihn hnoc hno]
    rfl
  | whileLoop id condition body ih => exact ih h.2.2 h.2.1
  | expression | print | block | ret => rfl

/-- What a statement of a program binds in its frame. -/
theorem binds_evalStmt (cfg : Config) (fuel : Nat) {frame : FrameId} {m : Machine}
    (hframe : frame < m.heap.frames.size) {s : Stmt} (hs : s.Canonical) (name : String) :
    ((evalStmt cfg fuel frame s).after m).heap.binds frame name = true ↔
      m.heap.binds frame name = true ∨ ((evalStmt cfg fuel frame s).result m).isOk = true ∧
        s.isDeclaration = true ∧ name ∈ s.declared := by
  cases hd : s.isDeclaration with
  | true => simpa using binds_declaration cfg fuel hframe hd name
  | false =>
    have hgrows := grows_evalStmt_of_declared cfg fuel frame m (declared_of_canonical hs hd)
    simpa using hgrows.binds_iff hframe name

end Eval

/-! ## Programs and sessions -/

/-- The statements of a program that come to their ends when it is run on `m`. -/
def Program.completed (cfg : Config) (fuel : Nat) : Program → Machine → List Stmt
  | [], _ => []
  | s :: rest, m => ((evalStmt cfg fuel Heap.globals s).run m).fold
    (fun _ m' => s :: Program.completed cfg fuel rest m') fun _ _ => []

namespace Eval

/-- The global names after a program, all of whose statements are as texts have them. -/
theorem binds_evalProgram (cfg : Config) (fuel : Nat) {p : Program} (hp : ∀ s ∈ p, s.Canonical)
    {m : Machine} (hm : Heap.globals < m.heap.frames.size) :
    Heap.globals < ((evalProgram cfg fuel p).after m).heap.frames.size ∧
      ∀ name, ((evalProgram cfg fuel p).after m).heap.binds Heap.globals name = true ↔
        m.heap.binds Heap.globals name = true ∨
          ∃ s ∈ p.completed cfg fuel m, s.isDeclaration = true ∧ name ∈ s.declared := by
  induction p generalizing m with
  | nil => exact ⟨hm, fun name => by simp [evalProgram, Deep.after, Ending.fold, Program.completed]⟩
  | cons s p ih =>
    rw [List.forall_mem_cons] at hp
    have hsize := ((grows_eval cfg fuel Heap.globals m).2 s).size_le
    have hbinds := binds_evalStmt cfg fuel hm hp.1
    unfold Deep.after Deep.result at hbinds
    unfold Deep.after at hsize ⊢
    rw [evalProgram, Deep.run_bind, Program.completed]
    cases hrun : (evalStmt cfg fuel Heap.globals s).run m with
    | ok flow m' =>
      rw [hrun] at hsize hbinds
      obtain ⟨hlast, hrest⟩ := ih hp.2 (Nat.lt_of_lt_of_le hm hsize)
      refine ⟨hlast, fun name => ?_⟩
      have hname := hrest name
      unfold Deep.after at hname
      simp only [Ending.fold, Except.isOk, Except.toBool, true_and] at hname hbinds ⊢
      rw [hname, hbinds, List.exists_mem_cons_iff, or_assoc]
    | error e m' =>
      rw [hrun] at hsize hbinds
      refine ⟨Nat.lt_of_lt_of_le hm hsize, fun name => ?_⟩
      simpa [Ending.fold, Except.isOk, Except.toBool] using hbinds name

end Eval

namespace Session

/-- The statements that come to their ends in the runs of a session. A text that is rejected has none. -/
def completed (cfg : Config) (fuel : Nat) : List String → Session → List Stmt
  | [], _ => []
  | source :: rest, s =>
    (match (Program.ofSource source 0).program with
      | .error _ => []
      | .ok p => p.completed cfg fuel s.machine) ++ completed cfg fuel rest (s.run cfg fuel source).2

variable (cfg : Config) (fuel : Nat)

theorem canonical_of_ofSource {source : String} {p : Program}
    (h : (Program.ofSource source 0).program = .ok p) : ∀ s ∈ p, s.Canonical := by
  obtain ⟨-, j, hspells⟩ := Grammar.ofSource_eq_ok_iff.1 h
  exact Stmt.allCanonical_iff.1 (Grammar.canonical_of_spells hspells)

theorem run_machine (source : String) (s : Session) : (s.run cfg fuel source).2.machine =
    match (Program.ofSource source 0).program with
    | .error _ => s.machine
    | .ok p => (evalProgram cfg fuel p).after s.machine := by
  rw [run_eq]
  unfold runBy Deep.after
  cases (Program.ofSource source 0).program with
  | error errors => rfl
  | ok p =>
    dsimp only
    cases (evalProgram cfg fuel p).run s.machine <;> rfl

/-- The global names after a session. -/
theorem binds_inTurn (sources : List String) {s : Session}
    (hs : Heap.globals < s.machine.heap.frames.size) (name : String) :
    (inTurn (run cfg fuel) sources s).2.machine.heap.binds Heap.globals name = true ↔
      s.machine.heap.binds Heap.globals name = true ∨
        ∃ st ∈ completed cfg fuel sources s, st.isDeclaration = true ∧ name ∈ st.declared := by
  induction sources generalizing s with
  | nil => simp [inTurn, completed]
  | cons source rest ih =>
    have hmachine := run_machine cfg fuel source s
    rw [completed]
    cases hp : (Program.ofSource source 0).program with
    | error errors =>
      rw [hp] at hmachine
      dsimp only at hmachine ⊢
      rw [List.nil_append, ← hmachine]
      exact ih (hmachine ▸ hs)
    | ok p =>
      rw [hp] at hmachine
      dsimp only at hmachine ⊢
      obtain ⟨hsize, hbinds⟩ := Eval.binds_evalProgram cfg fuel (canonical_of_ofSource hp) hs
      rw [← hmachine] at hsize hbinds
      refine (ih hsize).trans ?_
      rw [hbinds, or_assoc]
      simp only [List.mem_append, or_and_right, exists_or]

/-- Expressions and blocks bind no names in frames that were there before. A statement binds there only
names that it declares, in its own frame, and no name is ever unbound. So the global names after a session
are `clock` and what the declarations that came to their ends have declared. -/
theorem only_declarations_bind (cfg : Config) (fuel : Nat) :
    (∀ (frame : FrameId) (m : Machine),
      (∀ e, m.heap.SameNames ((evalExpr cfg fuel frame e).after m).heap) ∧
      ∀ id body, m.heap.SameNames ((evalStmt cfg fuel frame (.block id body)).after m).heap) ∧
    (∀ (frame : FrameId) (s : Stmt) (m : Machine) (i : FrameId), i < m.heap.frames.size → ∀ name,
      (m.heap.binds i name = true → ((evalStmt cfg fuel frame s).after m).heap.binds i name = true) ∧
      (((evalStmt cfg fuel frame s).after m).heap.binds i name = true →
        m.heap.binds i name = true ∨ i = frame ∧ name ∈ s.declared)) ∧
    ∀ sources name,
      (inTurn (run cfg fuel) sources initial).2.machine.heap.binds Heap.globals name = true ↔
        name = Native.clock.name ∨
          ∃ s ∈ completed cfg fuel sources initial, s.isDeclaration = true ∧ name ∈ s.declared := by
  refine ⟨fun frame m => ⟨fun e => ?_, fun id body => ?_⟩, fun frame s m i hi name => ?_,
    fun sources name => ?_⟩
  · exact ((Eval.grows_eval cfg fuel frame m).1 e).sameNames
  · exact (Eval.grows_evalStmt_of_declared cfg fuel frame m rfl).sameNames
  · exact ((Eval.grows_eval cfg fuel frame m).2 s).binds hi name
  · have hclock : initial.machine.heap.binds Heap.globals name = true ↔ name = Native.clock.name := by
      show (Heap.initial.binds Heap.globals name = true) ↔ _
      unfold Heap.binds Heap.initial Heap.globalFrame Frame.binds Frame.get? Bindings.get?
      by_cases hname : Native.clock.name = name
      · simp [hname, Heap.globals]
      · simp [hname, Ne.symm hname, Heap.globals, Bindings.get?]
    rw [← hclock]
    exact binds_inTurn cfg fuel sources (by decide) name

/-- Calls and blocks that declare and assign, a declaration that fails, and a text that is rejected. -/
def namingTexts : List String :=
  ["var g; fun f() \x7b var a = 1; g = a; \x7d f(); \x7b var b = g; \x7d var c = d; var e;", "var h", "h = 2;",
    "fun g() \x7b\x7d"]

theorem only_declarations_bind_four_texts :
    (∀ name, (inTurn (run ⟨8, fun _ => 0⟩ 20) namingTexts initial).2.machine.heap.binds Heap.globals name
      = true ↔ name ∈ ["clock", "g", "f"]) ∧
    Heap.globals < Machine.initial.heap.frames.size ∧
    ((evalStmt ⟨8, fun _ => 0⟩ 20 Heap.globals (.varDecl 0 ⟨.identifier, "x", none, 1⟩ none)).after
      .initial).heap.binds Heap.globals "clock" = true := by
  obtain ⟨-, hstmt, hsession⟩ := only_declarations_bind ⟨8, fun _ => 0⟩ 20
  refine ⟨fun name => ?_, by decide, ?_⟩
  · have hnames : ((completed ⟨8, fun _ => 0⟩ 20 namingTexts initial).filter (·.isDeclaration)).flatMap
        (·.declared) = ["g", "f", "g"] := by decide +kernel
    have hmem : name ∈ ["g", "f", "g"] ↔ ∃ s ∈ completed ⟨8, fun _ => 0⟩ 20 namingTexts initial,
        s.isDeclaration = true ∧ name ∈ s.declared := by
      rw [← hnames]
      simp only [List.mem_flatMap, List.mem_filter, and_assoc]
    rw [hsession, ← hmem]
    simp only [Native.name, List.mem_cons, List.not_mem_nil]
    grind
  · exact (hstmt _ _ _ _ (by decide) "clock").1 (by decide +kernel)

end Session
end Lox
