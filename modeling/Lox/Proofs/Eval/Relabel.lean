import Lox.Proofs.Eval.Likeness
import Lox.Proofs.Tree

/-!
# Identifiers and lines do not matter

Evaluation looks at the kinds and the texts of tokens only. Identifiers of nodes have no effect at all,
and the line of a token shows in nothing but the line of a fault. So trees that differ in these do the
same: they print the same, and if they fail they fail for the same reason.

**Results.** `relabels_evalProgram`.
-/
namespace Lox

open List (Forall₂)

/-- The reasons are the same, up to the line of a fault. -/
inductive Stop.Like : Stop → Stop → Prop where
  | fault {f g} (h : f.cause = g.cause) : Like (.fault f) (.fault g)
  | outOfFuel : Like .outOfFuel .outOfFuel

/-! ## Parts of relabelled trees -/

theorem Expr.Relabels.layer {e e' : Expr} (h : e.Relabels e') :
    Expr.Layer Token.Like Expr.Relabels e e' := by
  obtain ⟨f, g, hg, rfl⟩ := h
  have hexpr (e : Expr) : e.Relabels (e.map f g) := ⟨f, g, hg, rfl⟩
  cases e with
  | literal => exact .literal
  | var => exact .var (hg _)
  | assign => exact .assign (hg _) (hexpr _)
  | unary => exact .unary (hg _) (hexpr _)
  | binary => exact .binary (hexpr _) (hg _) (hexpr _)
  | logical => exact .logical (hexpr _) (hg _) (hexpr _)
  | grouping => exact .grouping (hexpr _)
  | call id callee paren args =>
    rw [Expr.map, Expr.mapAll_eq_map]
    refine .call (hexpr _) (hg _) (List.forall₂_map_right_iff.2 ?_)
    exact List.forall₂_same.2 fun a _ => hexpr a

theorem Stmt.Relabels.layer {s s' : Stmt} (h : s.Relabels s') :
    Stmt.Layer Token.Like Expr.Relabels Stmt.Relabels (Forall₂ Stmt.Relabels) s s' := by
  obtain ⟨f, g, hg, rfl⟩ := h
  have hexpr (e : Expr) : e.Relabels (e.map f g) := ⟨f, g, hg, rfl⟩
  have hstmt (s : Stmt) : s.Relabels (s.map f g) := ⟨f, g, hg, rfl⟩
  have hoption (o : Option Expr) : Option.Rel Expr.Relabels o (o.map (·.map f g)) := by
    cases o with
    | none => exact .none
    | some e => exact .some (hexpr e)
  have hbody (ss : List Stmt) : Forall₂ Stmt.Relabels ss (Stmt.mapAll f g ss) := by
    rw [Stmt.mapAll_eq_map]
    exact List.forall₂_map_right_iff.2 (List.forall₂_same.2 fun s _ => hstmt s)
  cases s with
  | expression => exact .expression (hexpr _)
  | print => exact .print (hexpr _)
  | varDecl => exact .varDecl (hg _) (hoption _)
  | block => exact .block (hbody _)
  | ifThen => exact .ifThen (hexpr _) (hstmt _)
  | ifElse => exact .ifElse (hexpr _) (hstmt _) (hstmt _)
  | whileLoop => exact .whileLoop (hexpr _) (hstmt _)
  | funDecl id name params body =>
    refine .funDecl (hg _) (List.forall₂_map_right_iff.2 ?_) (hbody _)
    exact List.forall₂_same.2 fun t _ => hg t
  | ret => exact .ret (hg _) (hoption _)

namespace Eval

open EvalM

/-! ## Evaluation -/

/-- Functions whose bodies differ in identifiers and lines. -/
def relabelling : Likeness where
  Bodies := Forall₂ Stmt.Relabels
  Tokens := Token.Like
  Stops _ := Stop.Like
  kind_eq h := h.1
  lexeme_eq h := h.2
  stops_fault _ _ := .fault rfl
  stops_caller h := h

/-- A machine is alike itself. -/
theorem relabelling_refl (m : Machine) : Machine.Corr relabelling.Values m.depth m m := by
  refine ⟨.refl fun _ _ _ v _ _ => ?_, rfl, rfl, rfl, rfl⟩
  cases v with
  | function c => exact .function ⟨rfl, rfl, rfl, rfl, List.forall₂_same.2 fun s _ => .refl s⟩
  | _ => exact .same nofun

theorem relabels_evalProgram (cfg : Config) (fuel d : Nat) {p p' : Program}
    (h : Forall₂ Stmt.Relabels p p') :
    relabelling.Rel d (fun _ _ => True) (evalProgram cfg fuel p) (evalProgram cfg fuel p') :=
  relabelling.rel_evalProgram Expr.Relabels.layer Stmt.Relabels.layer id (fun _ => .outOfFuel) cfg fuel d h

end Eval
end Lox
