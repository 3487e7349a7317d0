import Lox.Proofs.Eval.Likeness
import Lox.Proofs.Grammar.Numbering
import Lox.Proofs.Session

/-!
# Rejected texts leave no trace

A text that is no program is not run: it prints nothing, changes nothing, and has its errors as its outcome. The
only thing that it uses up are numbers. Nodes are numbered on and on while texts are read, so the programs behind a
rejected text have other numbers than they would have without it, and so have the functions that they leave in the
heap. But evaluation never looks at a number, and neither does reading (`Grammar.Numbering`).

**Histories.** `Session.history` runs texts one after the other and keeps what each run came to. From which number
the nodes of a text are numbered on is left open: it is given for each run, and the result holds for all choices.

**Results.**
* `renumbers_evalProgram`: trees that differ in their identifiers only do the same.
* `Session.history_filter`: texts that are left out of a history.
* `Session.rejected_runs_leave_no_trace`.
-/
namespace Lox

open List (Forall₂)

/-! ## Trees with other identifiers -/

/-- The expressions differ in their identifiers only. -/
def Expr.Renumbers (e e' : Expr) : Prop := e.eraseIds = e'.eraseIds

/-- The statements differ in their identifiers only. -/
def Stmt.Renumbers (s s' : Stmt) : Prop := s.eraseIds = s'.eraseIds

theorem Expr.Renumbers.layer {e e' : Expr} (h : e.Renumbers e') :
    Expr.Layer (· = ·) Expr.Renumbers e e' := by
  cases e <;> cases e' <;> simp [Expr.Renumbers] at h
  case literal.literal => subst h; exact .literal
  case var.var => exact .var h
  case assign.assign => exact .assign h.1 h.2
  case unary.unary => exact .unary h.1 h.2
  case binary.binary => exact .binary h.1 h.2.1 h.2.2
  case logical.logical => exact .logical h.1 h.2.1 h.2.2
  case grouping.grouping => exact .grouping h
  case call.call => exact .call h.1 h.2.1 (map_eq_iff_forall₂.1 h.2.2)

theorem Stmt.Renumbers.layer {s s' : Stmt} (h : s.Renumbers s') :
    Stmt.Layer (· = ·) Expr.Renumbers Stmt.Renumbers (Forall₂ Stmt.Renumbers) s s' := by
  cases s <;> cases s' <;> simp [Stmt.Renumbers] at h
  case expression.expression => exact .expression h
  case print.print => exact .print h
  case varDecl.varDecl => exact .varDecl h.1 (map_eq_iff_rel.1 h.2)
  case block.block => exact .block (map_eq_iff_forall₂.1 h)
  case ifThen.ifThen => exact .ifThen h.1 h.2
  case ifElse.ifElse => exact .ifElse h.1 h.2.1 h.2.2
  case whileLoop.whileLoop => exact .whileLoop h.1 h.2
  case funDecl.funDecl =>
    obtain ⟨hname, rfl, hbody⟩ := h
    exact .funDecl hname (List.forall₂_same.2 fun _ _ => rfl) (map_eq_iff_forall₂.1 hbody)
  case ret.ret => exact .ret h.1 (map_eq_iff_rel.1 h.2)

namespace Eval

/-- Functions whose bodies differ in identifiers only. -/
def renumbering : Likeness where
  Bodies := Forall₂ Stmt.Renumbers
  Tokens := (· = ·)
  Stops _ := (· = ·)
  kind_eq h := congrArg Token.kind h
  lexeme_eq h := congrArg Token.lexeme h
  stops_fault {_ _ _ cause} h _ := congrArg (fun t : Token => Stop.fault ⟨cause, t.line⟩) h
  stops_caller h := h

theorem renumbers_evalProgram (cfg : Config) (fuel d : Nat) {p p' : Program} (h : Forall₂ Stmt.Renumbers p p') :
    renumbering.Rel d (fun _ _ => True) (evalProgram cfg fuel p) (evalProgram cfg fuel p') :=
  renumbering.rel_evalProgram Expr.Renumbers.layer Stmt.Renumbers.layer id (fun _ => rfl) cfg fuel d h

end Eval

theorem Value.renumbers_refl (v : Value) : Eval.renumbering.Values v v := by
  cases v with
  | function c => exact .function ⟨rfl, rfl, rfl, rfl, List.forall₂_same.2 fun _ _ => rfl⟩
  | _ => exact .same nofun

namespace Session

/-! ## Histories -/

/-- The sessions are the same, up to the identifiers in bodies of functions. -/
def Renumbers (s s' : Session) : Prop :=
  Machine.Corr Eval.renumbering.Values s.machine.depth s.machine s'.machine

theorem Renumbers.refl (s : Session) : s.Renumbers s :=
  ⟨.refl fun _ _ _ v _ _ => v.renumbers_refl, rfl, rfl, rfl, rfl⟩

/-- Runs a source text with nodes numbered from `firstId` on. -/
def runFrom (cfg : Config) (fuel : Nat) (firstId : NodeId) (source : String) (s : Session) :
    Outcome × Session :=
  match (Program.ofSource source firstId).program with
  | .error errors => (.rejected errors, s)
  | .ok p => s.runProgram cfg fuel p

/-- What a run came to. -/
structure Entry where
  source : String
  before : Session
  outcome : Outcome
  after : Session

/-- The lines that the run printed. -/
def Entry.printed (e : Entry) : List String := e.after.printedSince e.before

/-- The runs came to the same, up to identifiers. -/
structure Entry.Same (e e' : Entry) : Prop where
  source_eq : e.source = e'.source
  outcome_eq : e.outcome = e'.outcome
  printed_eq : e.printed = e'.printed
  after : e.after.Renumbers e'.after

/-- Runs source texts one after the other, the `k`-th one with nodes numbered from `ids k` on. -/
def history (cfg : Config) (fuel : Nat) : (ids : Nat → NodeId) → List String → Session → List Entry
  | _, [], _ => []
  | ids, source :: rest, s =>
    let r := s.runFrom cfg fuel (ids 0) source
    ⟨source, s, r.1, r.2⟩ :: history cfg fuel (fun k => ids (k + 1)) rest r.2

/-- The text is a program. -/
def isProgram (source : String) : Bool := (Program.ofSource source 0).program.isOk

variable (cfg : Config) (fuel : Nat) {s s' : Session}

/-- Programs whose evaluations end alike are run alike. -/
theorem runProgram_of_sim {I : Machine → Machine → Prop} {p p' : Program}
    (h : Eval.Sim I (· = ·) (fun _ _ => True) (evalProgram cfg fuel p) (evalProgram cfg fuel p'))
    (hs : I s.machine s'.machine) :
    (s.runProgram cfg fuel p).1 = (s'.runProgram cfg fuel p').1 ∧
      I (s.runProgram cfg fuel p).2.machine (s'.runProgram cfg fuel p').2.machine := by
  rw [runProgram_eq, runProgram_eq]
  rcases h.endings hs with ⟨_, _, m, n, hx, hy, -, hmn⟩ | ⟨e, f, m, n, hx, hy, he, hmn⟩
  · rw [hx, hy]
    exact ⟨rfl, hmn⟩
  · rw [hx, hy]
    exact ⟨congrArg Outcome.ofStop he, hmn⟩

theorem runProgram_renumbers {p p' : Program} (hp : Forall₂ Stmt.Renumbers p p') (hs : s.Renumbers s') :
    (s.runProgram cfg fuel p).1 = (s'.runProgram cfg fuel p').1 ∧
      (s.runProgram cfg fuel p).2.Renumbers (s'.runProgram cfg fuel p').2 := by
  obtain ⟨houtcome, hafter⟩ :=
    runProgram_of_sim cfg fuel (Eval.renumbers_evalProgram cfg fuel s.machine.depth hp) hs
  refine ⟨houtcome, ?_⟩
  rw [← hafter.left_depth] at hafter
  exact hafter

theorem run_eq_runFrom (source : String) : s.run cfg fuel source = s.runFrom cfg fuel 0 source := by
  unfold runFrom
  cases h : (Program.ofSource source 0).program with
  | error errors => exact run_of_rejected h cfg fuel s
  | ok p => exact run_of_program h cfg fuel s

/-- Numbered from wherever, a text comes to the same. -/
theorem runFrom_renumbers (i j : NodeId) (source : String) (hs : s.Renumbers s') :
    (s.runFrom cfg fuel i source).1 = (s'.runFrom cfg fuel j source).1 ∧
      (s.runFrom cfg fuel i source).2.Renumbers (s'.runFrom cfg fuel j source).2 := by
  unfold runFrom
  rcases except_map_eq (Grammar.ofSource_renumber source i j) with ⟨errors, hi, hj⟩ | ⟨p, p', hi, hj, hp⟩
  · rw [hi, hj]
    exact ⟨rfl, hs⟩
  · rw [hi, hj]
    exact runProgram_renumbers cfg fuel (map_eq_iff_forall₂.1 hp) hs

/-- A text that is no program is not run. -/
theorem runFrom_rejected (i : NodeId) {source : String} (h : isProgram source = false) :
    s.runFrom cfg fuel i source =
      (.rejected ((scan source).2 ++ Program.syntaxErrors (scan source).1), s) := by
  rcases except_map_eq (Grammar.ofSource_renumber source i 0) with ⟨errors, hi, -⟩ | ⟨p, p', -, hzero, -⟩
  · unfold runFrom
    rw [hi, Grammar.ofSource_error hi]
  · unfold isProgram at h
    rw [hzero] at h
    cases h

/-- Texts that are no programs can be left out of a history: the entries of the others stay the same. -/
theorem history_filter {keep : String → Bool} (hkeep : ∀ source, isProgram source = true → keep source = true)
    (ids ids' : Nat → NodeId) (sources : List String) (hs : s.Renumbers s') :
    Forall₂ Entry.Same ((history cfg fuel ids sources s).filter fun e => keep e.source)
      (history cfg fuel ids' (sources.filter keep) s') := by
  induction sources generalizing ids ids' s s' with
  | nil => exact .nil
  | cons source rest ih =>
    by_cases hk : keep source = true
    · obtain ⟨houtcome, hafter⟩ := runFrom_renumbers cfg fuel (ids 0) (ids' 0) source hs
      have hprinted : (s.runFrom cfg fuel (ids 0) source).2.printedSince s =
          (s'.runFrom cfg fuel (ids' 0) source).2.printedSince s' := by
        unfold printedSince printed
        rw [hafter.printed_eq, hs.printed_eq]
      simp only [history, List.filter_cons, hk, if_true]
      exact .cons ⟨rfl, houtcome, hprinted, hafter⟩ (ih _ _ hafter)
    · have hrejected : isProgram source = false := eq_false_of_ne_true (mt (hkeep source) hk)
      simp only [history, List.filter_cons, hk, runFrom_rejected cfg fuel _ hrejected]
      exact ih _ _ hs

/-- The entry of a text that is no program. -/
theorem history_rejected (ids : Nat → NodeId) (sources : List String) {e : Entry}
    (he : e ∈ history cfg fuel ids sources s) (h : isProgram e.source = false) :
    e.outcome = .rejected ((scan e.source).2 ++ Program.syntaxErrors (scan e.source).1) ∧
      e.after = e.before := by
  induction sources generalizing ids s with
  | nil => cases he
  | cons source rest ih =>
    rw [history] at he
    rcases List.mem_cons.1 he with rfl | hrest
    · dsimp only at h ⊢
      rw [runFrom_rejected cfg fuel _ h]
      exact ⟨rfl, rfl⟩
    · exact ih _ hrest

/-- Each run numbers from 0 on. -/
theorem history_zero (sources : List String) :
    (history cfg fuel (fun _ => 0) sources s).map (·.outcome) = (inTurn (run cfg fuel) sources s).1 := by
  induction sources generalizing s with
  | nil => rfl
  | cons source rest ih =>
    rw [history, List.map_cons, ih, ← run_eq_runFrom]
    rfl

theorem inTurn_filter (sources : List String) :
    (inTurn (run cfg fuel) (sources.filter isProgram) s).2 = (inTurn (run cfg fuel) sources s).2 := by
  induction sources generalizing s with
  | nil => rfl
  | cons source rest ih =>
    by_cases h : isProgram source = true
    · rw [List.filter_cons_of_pos h]
      exact ih
    · rw [List.filter_cons_of_neg h, ih]
      simp only [inTurn, run_eq_runFrom, runFrom_rejected cfg fuel 0 (eq_false_of_ne_true h)]

/-- Leaving out the texts that are no programs changes nothing for the others: each has the same outcome, prints
the same lines and leaves the same state behind, whatever the nodes are numbered from in either case. A text
that is left out printed nothing, its outcome are its lexical errors and then those of its tokens, and it left
everything as it was. Texts numbered from 0 on each time have the outcomes of all these histories, and the session
is left in the very same state. -/
theorem rejected_runs_leave_no_trace (s : Session) (sources : List String) (ids ids' : Nat → NodeId) :
    Forall₂ Entry.Same ((history cfg fuel ids sources s).filter fun e => isProgram e.source)
      (history cfg fuel ids' (sources.filter isProgram) s) ∧
    (∀ e ∈ history cfg fuel ids sources s, isProgram e.source = false →
      e.outcome = .rejected ((scan e.source).2 ++ Program.syntaxErrors (scan e.source).1) ∧
        e.outcome.exitCode = 65 ∧ e.printed = [] ∧ e.after = e.before) ∧
    (inTurn (run cfg fuel) sources s).1 = (history cfg fuel ids sources s).map (·.outcome) ∧
    (inTurn (run cfg fuel) (sources.filter isProgram) s).2 = (inTurn (run cfg fuel) sources s).2 := by
  refine ⟨history_filter cfg fuel (fun _ => id) ids ids' sources (.refl s), fun e he hrejected => ?_, ?_,
    inTurn_filter cfg fuel sources⟩
  · obtain ⟨houtcome, hafter⟩ := history_rejected cfg fuel ids sources he hrejected
    refine ⟨houtcome, by rw [houtcome]; rfl, ?_, hafter⟩
    rw [Entry.printed, hafter, printedSince, ← Array.length_toList]
    exact List.drop_length
  · have hsame := history_filter cfg fuel (fun _ _ => rfl) (fun _ => 0) ids sources (.refl s)
    rw [List.filter_true, List.filter_true] at hsame
    rw [← history_zero]
    exact map_eq_iff_forall₂.2 (hsame.imp fun _ _ h => h.outcome_eq)

namespace LeftOut

/-- The second text is no program, and the third one calls the function of the first. -/
def texts : List String := ["fun f() \x7b print \"a\"; \x7d", "print (;", "f();"]

/-- Nodes are numbered on from text to text. -/
def ids (k : Nat) : NodeId := 10 * k

end LeftOut

open LeftOut in
/-- The rejected text has used up ten numbers. Without it the call prints the same. -/
theorem rejected_runs_leave_no_trace_of_a_call :
    (texts.map isProgram = [true, false, true] ∧
      ((history ⟨8, fun _ => 0⟩ 20 ids texts initial).map fun e => (e.outcome.exitCode, e.printed)) =
        [(0, []), (65, []), (0, ["a"])]) ∧
    Forall₂ Entry.Same ((history ⟨8, fun _ => 0⟩ 20 ids texts initial).filter fun e => isProgram e.source)
      (history ⟨8, fun _ => 0⟩ 20 ids [texts[0], texts[2]] initial) ∧
    (∀ e, (history ⟨8, fun _ => 0⟩ 20 ids texts initial)[1]? = some e →
      e.outcome = .rejected ((scan "print (;").2 ++ Program.syntaxErrors (scan "print (;").1)) := by
  have hprograms : texts.map isProgram = [true, false, true] := by decide +kernel
  have hkept : texts.filter isProgram = [texts[0], texts[2]] := by decide +kernel
  obtain ⟨hsame, hrejected, -, -⟩ :=
    rejected_runs_leave_no_trace ⟨8, fun _ => 0⟩ 20 initial texts ids ids
  rw [hkept] at hsame
  refine ⟨⟨hprograms, by decide +kernel⟩, hsame, fun e he => ?_⟩
  have hsource : e.source = "print (;" := (Option.some.inj he) ▸ rfl
  rw [← hsource]
  refine (hrejected e (List.mem_of_getElem? he) ?_).1
  rw [hsource]
  decide +kernel

end Session
end Lox
