import Lox.Proofs.Eval.Relabel
import Lox.Proofs.Grammar.Stacked
import Lox.Proofs.Session

/-!
# A script and its lines at the prompt

Texts can be run one after the other, as lines at a prompt are, or all at once as a script in which they
stand below each other. If all of them are programs, the script is the program of their statements, and
running it does what the runs one after the other do, up to the first that fails.

The script differs from the texts in the numbers of nodes and in lines, which matter for nothing but the
line of a fault (`Eval.Relabel`). A program in two parts is run by running the parts, with the frames and
functions of the first at hand in the second.

**Results.** `runUpTo_eq`: texts one after the other run as their statements. `script_agrees_with_prompt`:
the script does the same.
-/
namespace Lox

open List (Forall₂)

/-- Both runs completed, both failed for one reason and with one message, or both lacked fuel. -/
inductive Outcome.Alike : Outcome → Outcome → Prop where
  | completed : Alike .completed .completed
  | failed {f g} (hcause : f.cause = g.cause) (hmessage : f.message = g.message) :
      Alike (.failed f) (.failed g)
  | outOfFuel : Alike .outOfFuel .outOfFuel

theorem Outcome.Alike.symm {o o' : Outcome} (h : o.Alike o') : o'.Alike o := by
  cases h with
  | completed => exact .completed
  | failed hcause hmessage => exact .failed hcause.symm hmessage.symm
  | outOfFuel => exact .outOfFuel

theorem Outcome.alike_ofStop {e f : Stop} (h : e.Like f) : (ofStop e).Alike (ofStop f) := by
  cases h with
  | fault h => exact .failed h (congrArg Fault.Cause.message h)
  | outOfFuel => exact .outOfFuel

theorem Outcome.Alike.completed_iff {o o' : Outcome} (h : o.Alike o') :
    o = .completed ↔ o' = .completed := by
  cases h <;> simp

namespace Session

/-- Goes on with `next` if a run has completed. -/
def goOn (next : Session → Outcome × Session) : Outcome × Session → Outcome × Session
  | (.completed, s) => next s
  | r => r

/-- Runs texts one after the other, up to and including the first that does not complete. -/
def runUpTo (cfg : Config) (fuel : Nat) : List String → Session → Outcome × Session
  | [], s => (.completed, s)
  | source :: rest, s => goOn (runUpTo cfg fuel rest) (s.run cfg fuel source)

variable {cfg : Config} {fuel : Nat} {s : Session}

/-- The last of the runs completes if and only if all do when each text is run. -/
theorem runUpTo_completed_iff {sources : List String} : (runUpTo cfg fuel sources s).1 = .completed ↔
    ∀ o ∈ (inTurn (run cfg fuel) sources s).1, o = .completed := by
  induction sources generalizing s with
  | nil => simp [runUpTo, inTurn]
  | cons source rest ih =>
    simp only [runUpTo, inTurn, List.forall_mem_cons]
    rcases s.run cfg fuel source with ⟨o, s'⟩
    cases o with
    | completed => simpa [goOn] using ih
    | _ => simp [goOn]

theorem evalProgram_append (p q : Program) (m : Machine) :
    (evalProgram cfg fuel (p ++ q)).run m =
      ((evalProgram cfg fuel p).run m).fold (fun _ m => (evalProgram cfg fuel q).run m) .error := by
  induction p generalizing m with
  | nil => rfl
  | cons st p ih =>
    rw [List.cons_append, evalProgram, evalProgram, Deep.run_bind, Deep.run_bind]
    cases (evalStmt cfg fuel Heap.globals st).run m with
    | ok flow m => exact ih m
    | error e m => rfl

/-- A program in two parts goes on with the second if the first completes. -/
theorem runProgram_append (p q : Program) : s.runProgram cfg fuel (p ++ q) =
    goOn (fun s => s.runProgram cfg fuel q) (s.runProgram cfg fuel p) := by
  simp only [runProgram_eq, evalProgram_append]
  cases (evalProgram cfg fuel p).run s.machine with
  | ok _ m => rfl
  | error e m => cases e <;> rfl

/-- Programs one after the other are run as one. -/
theorem runUpTo_eq {sources : List String} {programs : List Program}
    (h : Forall₂ (fun source p => (Program.ofSource source 0).program = .ok p) sources programs) :
    runUpTo cfg fuel sources s = s.runProgram cfg fuel programs.flatten := by
  induction h generalizing s with
  | nil => rfl
  | @cons source p sources programs hp _ ih =>
    rw [List.flatten_cons, runProgram_append, runUpTo, run_of_program hp]
    exact congrArg (goOn · _) (funext fun _ => ih)

/-- Programs that differ in identifiers and lines print the same and end alike. -/
theorem runProgram_relabels (cfg : Config) (fuel : Nat) (s : Session) {p p' : Program}
    (h : Forall₂ Stmt.Relabels p p') :
    (s.runProgram cfg fuel p').2.printed = (s.runProgram cfg fuel p).2.printed ∧
      (s.runProgram cfg fuel p').1.Alike (s.runProgram cfg fuel p).1 := by
  have hsim := Eval.relabels_evalProgram cfg fuel s.machine.depth h
  rw [runProgram_eq, runProgram_eq]
  rcases hsim.endings (Eval.relabelling_refl s.machine) with ⟨_, _, m, n, hx, hy, -, hmn⟩ |
    ⟨e, f, m, n, hx, hy, he, hmn⟩
  · rw [hx, hy]
    exact ⟨hmn.printed_eq.symm, .completed⟩
  · rw [hx, hy]
    exact ⟨hmn.printed_eq.symm, (Outcome.alike_ofStop he).symm⟩

/-- Texts that are programs can be run below each other as a script. What is read from it are the
statements of the texts with their lines counted on. It prints what the runs of the texts one after the
other print up to the first that does not complete; it completes if and only if all of them do, and
otherwise it fails as the first of them that fails. -/
theorem script_agrees_with_prompt (cfg : Config) (fuel : Nat) (s : Session) {sources : List String}
    {programs : List Program}
    (h : Forall₂ (fun source p => (Program.ofSource source 0).program = .ok p) sources programs) :
    (∃ p, (Program.ofSource ("\n".intercalate sources) 0).program = .ok p ∧
      Program.eraseIds p = (Program.stack 0 sources programs).eraseIds) ∧
    (s.run cfg fuel ("\n".intercalate sources)).2.printed = (runUpTo cfg fuel sources s).2.printed ∧
    ((s.run cfg fuel ("\n".intercalate sources)).1 = .completed ↔
      ∀ o ∈ (inTurn (run cfg fuel) sources s).1, o = .completed) ∧
    (s.run cfg fuel ("\n".intercalate sources)).1.Alike (runUpTo cfg fuel sources s).1 := by
  obtain ⟨p, hp, herase, hrelabels⟩ := Grammar.ofSource_stack h
  have hscript := run_of_program hp cfg fuel s
  obtain ⟨hprinted, halike⟩ := runProgram_relabels cfg fuel s hrelabels
  rw [← runUpTo_eq h, ← hscript] at hprinted halike
  exact ⟨⟨p, hp, herase⟩, hprinted, halike.completed_iff.trans runUpTo_completed_iff, halike⟩

/-- Lines of which the third fails. The second ends in a comment and an `if` without `else`. -/
def fourLines : List String :=
  ["fun f() \x7b return \"a\"; \x7d", "if (true) print f(); // \"b\"", "print g;", "print f();"]

theorem script_agrees_with_prompt_four_lines :
    (initial.run ⟨8, fun _ => 0⟩ 20 ("\n".intercalate fourLines)).2.printed = #["a"] ∧
    (initial.run ⟨8, fun _ => 0⟩ 20 ("\n".intercalate fourLines)).1 ≠ .completed ∧
    (initial.run ⟨8, fun _ => 0⟩ 20 ("\n".intercalate fourLines)).1.Alike
      (runUpTo ⟨8, fun _ => 0⟩ 20 fourLines initial).1 := by
  have haccepted : ∀ source ∈ fourLines, (Program.ofSource source 0).program.toOption.isSome = true := by
    decide +kernel
  have hprograms : Forall₂ (fun source p => (Program.ofSource source 0).program = .ok p) fourLines
      (fourLines.map fun source => (Program.ofSource source 0).program.toOption.getD []) := by
    refine List.forall₂_map_right_iff.2 (List.forall₂_same.2 fun source hsource => ?_)
    have hsome := haccepted source hsource
    cases hp : (Program.ofSource source 0).program with
    | error errors =>
      rw [hp] at hsome
      cases hsome
    | ok p => rfl
  obtain ⟨-, hprinted, hcompleted, halike⟩ :=
    script_agrees_with_prompt ⟨8, fun _ => 0⟩ 20 initial hprograms
  refine ⟨?_, ?_, halike⟩
  · rw [hprinted]
    decide +kernel
  · rw [Ne, hcompleted, ← runUpTo_completed_iff]
    intro hall
    have hcode : (runUpTo ⟨8, fun _ => 0⟩ 20 fourLines initial).1.exitCode = 70 := by decide +kernel
    rw [hall] at hcode
    cases hcode

end Session
end Lox
