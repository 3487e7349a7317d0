import Lox.Proofs.Grammar.RoundTrip
import Lox.Proofs.Token.Stacked
import Mathlib.Data.List.Forall2

/-!
# Programs below each other

Texts that are programs make up one program if they stand below each other, and it consists of the
statements of the texts, with their lines counted on and their nodes numbered on.

What tokens spell depends on their kinds and constants only, and the numbers of nodes can start anywhere
(`Spells.move`). Declarations that follow each other are spelled by tokens that follow each other
(`Spells.append`). An `else` cannot come in between: it does not start a declaration.

**Results.**
* `ofSource_eq_ok_iff`: which programs are read from a text.
* `ofSource_stack`: what is read from texts below each other.
-/
namespace Lox

open List (Forall₂)
open Token (Kind)

/-- The program, `k` lines further down. -/
def Program.shift (k : Nat) (p : Program) : Program := p.map (Stmt.map (fun i => i) (Token.shift k))

/-- The programs of texts below each other, the first of which has `k` line feeds before it. -/
def Program.stack : (k : Nat) → List String → List Program → Program
  | k, source :: sources, p :: ps =>
    p.shift k ++ Program.stack (k + source.toList.count '\n' + 1) sources ps
  | _, _, _ => []

namespace Grammar

/-! ## Moving -/

/-- Changes identifiers by `f` and tokens by `g`. -/
def Form.map (f : NodeId → NodeId) (g : Token → Token) : Form → Form
  | .expr e => .expr (e.map f g)
  | .args es => .args (Expr.mapAll f g es)
  | .params ps => .params (ps.map g)
  | .maybe o => .maybe (o.map (·.map f g))
  | .varDecl s => .varDecl (s.map f g)
  | .exprStmt s => .exprStmt (s.map f g)
  | .start o => .start (o.map (·.map f g))
  | .stmt isOpen s => .stmt isOpen (s.map f g)
  | .decl s => .decl (s.map f g)
  | .body ss => .body (Stmt.mapAll f g ss)

theorem forTree_move (n : Nat) (g : Token → Token) (init : Option Stmt)
    (condition increment : Option Expr) (body : Stmt) (i : NodeId) :
    forTree (init.map (·.map (n + ·) g)) (condition.map (·.map (n + ·) g))
        (increment.map (·.map (n + ·) g)) (body.map (n + ·) g) (n + i) =
      ((forTree init condition increment body i).1.map (n + ·) g,
        n + (forTree init condition increment body i).2) := by
  cases init <;> cases condition <;> cases increment <;> rfl

section
variable {g : Token → Token} (hkind : ∀ t, (g t).kind = t.kind)
include hkind

theorem level_move (f : NodeId → NodeId) (e : Expr) : (e.map f g).level = e.level := by
  cases e with
  | binary id left op right => exact congrArg Level.ofOperator (hkind op)
  | logical id left op right => exact congrArg Level.ofOperator (hkind op)
  | _ => rfl

/-- Numbering may start anywhere, and tokens may be replaced by others of the same kinds and with the
same constants. -/
theorem Spells.move (hconstant : ∀ t, (g t).constant? = t.constant?) (n : Nat) {f : Form} {i j : NodeId}
    {ts : List Token} (h : Spells f i ts j) :
    Spells (f.map (n + ·) g) (n + i) (ts.map g) (n + j) := by
  have hkind' {t : Token} {k : Kind} (h : t.kind = k) : (g t).kind = k := (hkind t).trans h
  induction h with
  | literal h => exact .literal ((hconstant _).trans h)
  | var h => exact .var (hkind' h)
  | grouping hl _ hr ih =>
    simp only [List.map_cons, List.map_append]
    exact .grouping (hkind' hl) ih (hkind' hr)
  | call hf _ hl _ hr ihf iha =>
    simp only [List.map_cons, List.map_append]
    exact .call ((level_move hkind _ _).symm ▸ hf) ihf (hkind' hl) iha (hkind' hr)
  | unary hop hl _ ih =>
    refine .unary ?_ ?_ ih
    · rwa [hkind]
    · rwa [level_move hkind]
  | binary hm hll hlr _ _ ihl ihr =>
    simp only [List.map_cons, List.map_append]
    refine .binary ?_ ?_ ?_ ihl ihr
    · rwa [hkind]
    · rwa [hkind, level_move hkind]
    · rwa [hkind, level_move hkind]
  | logical hp hm hll hlr _ _ ihl ihr =>
    simp only [List.map_cons, List.map_append]
    refine .logical ?_ ?_ ?_ ?_ ihl ihr
    · rwa [hkind]
    · rwa [hkind]
    · rwa [hkind, level_move hkind]
    · rwa [hkind, level_move hkind]
  | assign hn hs _ ih => exact .assign (hkind' hn) (hkind' hs) ih
  | argsNil => exact .argsNil
  | argsOne _ ih => exact .argsOne ih
  | argsCons _ hc _ ih ihs =>
    simp only [List.map_cons, List.map_append]
    exact .argsCons ih (hkind' hc) ihs
  | paramsNil => exact .paramsNil
  | paramsOne hp => exact .paramsOne (hkind' hp)
  | paramsCons hp hc _ ih => exact .paramsCons (hkind' hp) (hkind' hc) ih
  | absent => exact .absent
  | present _ ih => exact .present ih
  | varBare hv hn hc => exact .varBare (hkind' hv) (hkind' hn) (hkind' hc)
  | varInit hv hn hs _ hc ih =>
    simp only [List.map_cons, List.map_append]
    exact .varInit (hkind' hv) (hkind' hn) (hkind' hs) ih (hkind' hc)
  | exprStmt _ hc ih =>
    rw [List.map_append]
    exact .exprStmt ih (hkind' hc)
  | startNone hc => exact .startNone (hkind' hc)
  | startVar _ ih => exact .startVar ih
  | startExpr _ ih => exact .startExpr ih
  | expression _ ih => exact .expression ih
  | print hp _ hc ih =>
    simp only [List.map_cons, List.map_append]
    exact .print (hkind' hp) ih (hkind' hc)
  | ret ht _ hc ih =>
    simp only [List.map_cons, List.map_append]
    exact .ret (hkind' ht) ih (hkind' hc)
  | block hl _ hr ih =>
    simp only [List.map_cons, List.map_append]
    exact .block (hkind' hl) ih (hkind' hr)
  | whileLoop hw hl _ hr _ ihc ihs =>
    simp only [List.map_cons, List.map_append]
    exact .whileLoop (hkind' hw) (hkind' hl) ihc (hkind' hr) ihs
  | ifThen hf hl _ hr _ ihc ihs =>
    simp only [List.map_cons, List.map_append]
    exact .ifThen (hkind' hf) (hkind' hl) ihc (hkind' hr) ihs
  | ifElse hf hl _ hr _ hx _ ihc ihs ihs' =>
    simp only [List.map_cons, List.map_append]
    exact .ifElse (hkind' hf) (hkind' hl) ihc (hkind' hr) ihs (hkind' hx) ihs'
  | forLoop hf hl _ _ hd _ hr _ iho ihc ihx ihs =>
    simp only [List.map_cons, List.map_append]
    have hfor := Spells.forLoop (hkind' hf) (hkind' hl) iho ihc (hkind' hd) ihx (hkind' hr) ihs
    rw [forTree_move] at hfor
    exact hfor
  | «variable» _ ih => exact .variable ih
  | statement _ ih => exact .statement ih
  | function hf hn hl _ hr hlb _ hrb ihp ihs =>
    simp only [List.map_cons, List.map_append]
    exact .function (hkind' hf) (hkind' hn) (hkind' hl) ihp (hkind' hr) (hkind' hlb) ihs (hkind' hrb)
  | bodyNil => exact .bodyNil
  | bodyCons _ _ ih ihs =>
    rw [List.map_append]
    exact .bodyCons ih ihs

end

/-! ## Programs -/

/-- Declarations one after the other, in two parts. -/
theorem Spells.append {p q : List Stmt} {i j k : NodeId} {ts us : List Token}
    (hp : Spells (.body p) i ts j) (hq : Spells (.body q) j us k) :
    Spells (.body (p ++ q)) i (ts ++ us) k := by
  induction p generalizing i ts with
  | nil =>
    cases hp
    exact hq
  | cons s p ih =>
    cases hp with
    | bodyCons hs hss =>
      rw [List.append_assoc]
      exact .bodyCons hs (ih hss)

/-- A program is read from a text if and only if the text has no errors and its tokens spell the
program. -/
theorem ofSource_eq_ok_iff {source : String} {i : NodeId} {p : Program} :
    (Program.ofSource source i).program = .ok p ↔
      (∀ q ∈ pieces source.toList, q.isFaulty = false) ∧
        ∃ j, Spells (.body p) i (tokensFrom 1 (pieces source.toList)) j := by
  obtain ⟨line, htokens⟩ := scan_tokens source
  have hfront : (scan source).1.takeWhile (·.kind != .eof) = tokensFrom 1 (pieces source.toList) := by
    rw [htokens]
    exact takeWhile_ne_eof (tokensFrom_ne_eof _ _) rfl
  rw [← scan_eq_nil_iff, ← hfront, ← ofTokens_eq_ok_iff]
  unfold Program.ofSource
  dsimp only
  cases (scan source).2 with
  | nil => simp
  | cons e es => cases (Program.ofTokens (scan source).1 i).program <;> simp

/-- The tokens of programs below each other spell the statements of all of them. -/
theorem spells_stack {sources : List String} {programs : List Program}
    (h : Forall₂ (fun source p => ∃ j, Spells (.body p) 0 (tokensFrom 1 (pieces source.toList)) j) sources
      programs) (i k : Nat) :
    ∃ q j, Spells (.body q) i (stackTokens (1 + k) sources) j ∧
      Program.eraseIds q = (Program.stack k sources programs).eraseIds ∧
      Forall₂ Stmt.Relabels programs.flatten q := by
  induction h generalizing i k with
  | nil => exact ⟨[], i, .bodyNil, rfl, .nil⟩
  | @cons source p sources programs hp _ ih =>
    obtain ⟨j, hp⟩ := hp
    obtain ⟨q, l, hq, herase, hrelabels⟩ := ih (i + j) (k + source.toList.count '\n' + 1)
    have hmoved := hp.move (g := Token.shift k) (fun _ => rfl) (fun _ => rfl) i
    refine ⟨Stmt.mapAll (i + ·) (Token.shift k) p ++ q, l, ?_, ?_, ?_⟩
    · rw [stackTokens, tokensFrom_shift]
      have hline : 1 + k + source.toList.count '\n' + 1 = 1 + (k + source.toList.count '\n' + 1) := by
        omega
      rw [hline]
      exact hmoved.append hq
    · rw [Program.stack, Program.eraseIds, Program.eraseIds, List.map_append, List.map_append]
      refine congrArg₂ _ ?_ herase
      rw [Stmt.mapAll_eq_map, Program.shift, List.map_map, List.map_map]
      refine List.map_congr_left fun s _ => ?_
      simp only [Function.comp_apply, Stmt.eraseIds, Stmt.map_map]
    · rw [List.flatten_cons]
      refine List.rel_append ?_ hrelabels
      rw [Stmt.mapAll_eq_map, List.forall₂_map_right_iff]
      exact List.forall₂_same.2 fun s _ => ⟨(i + ·), Token.shift k, fun _ => ⟨rfl, rfl⟩, rfl⟩

/-- From texts that are programs, one below the other, the programs are read one after the other. -/
theorem ofSource_stack {sources : List String} {programs : List Program}
    (h : Forall₂ (fun source p => (Program.ofSource source 0).program = .ok p) sources programs) :
    ∃ q, (Program.ofSource ("\n".intercalate sources) 0).program = .ok q ∧
      Program.eraseIds q = (Program.stack 0 sources programs).eraseIds ∧
      Forall₂ Stmt.Relabels programs.flatten q := by
  have hclean : ∀ source ∈ sources, ∀ p ∈ pieces source.toList, p.isFaulty = false := by
    induction h with
    | nil => simp
    | cons hp _ ih => exact List.forall_mem_cons.2 ⟨(ofSource_eq_ok_iff.1 hp).1, ih⟩
  obtain ⟨hjoined, htokens⟩ := pieces_stack hclean
  obtain ⟨q, j, hq, herase, hrelabels⟩ := spells_stack (h.imp fun _ _ h => (ofSource_eq_ok_iff.1 h).2) 0 0
  refine ⟨q, ofSource_eq_ok_iff.2 ⟨hjoined, j, ?_⟩, herase, hrelabels⟩
  rw [htokens]
  exact hq

end Grammar
end Lox
