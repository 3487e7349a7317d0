import Lox.Grammar.Expression
import Lox.Proofs.Tree
import Mathlib.Data.List.Forall2

/-!
# Canonical trees and how they are written out

A tree is canonical if it is one that reading can give: operands bind at least as tightly as their
place asks for, tokens have the kinds that the grammar gives them, a branch or a loop body is no
declaration, and an `else` belongs to the nearest `if`.

**Levels.** Expressions are ordered by how tightly they bind, from assignments (0) over `or`, `and`,
equality, comparison, sums, products, unary operators and calls to primary expressions (9).

**Writing out.** `Stmt.slots` lists what a tree says about each token of its text, from left to
right: the token itself where the tree keeps it (`kept`), only its kind where it does not (`plain`),
or the constant it stands for. A token `Fits` a slot if it is as the slot says. `Program.flatten`
puts a token in each slot.
-/
namespace Lox

open Token (Kind)

/-! ## Levels -/

namespace Level

abbrev assignment : Nat := 0
abbrev disjunction : Nat := 1
abbrev conjunction : Nat := 2
abbrev equality : Nat := 3
abbrev comparison : Nat := 4
abbrev term : Nat := 5
abbrev factor : Nat := 6
abbrev unary : Nat := 7
abbrev call : Nat := 8
abbrev primary : Nat := 9

/-- The level at which an operator stands between two operands; 0 if it never does. -/
def ofOperator : Kind → Nat
  | .kwOr => disjunction
  | .kwAnd => conjunction
  | .bangEqual | .equalEqual => equality
  | .less | .lessEqual | .greater | .greaterEqual => comparison
  | .minus | .plus => term
  | .slash | .star => factor
  | _ => 0

theorem ofOperator_le_factor (k : Kind) : ofOperator k ≤ factor := by cases k <;> decide

end Level

/-- How tightly an expression binds. -/
def Expr.level : Expr → Nat
  | .literal .. | .var .. | .grouping .. => Level.primary
  | .call .. => Level.call
  | .unary .. => Level.unary
  | .binary _ _ op _ | .logical _ _ op _ => Level.ofOperator op.kind
  | .assign .. => Level.assignment

theorem Expr.level_le_primary (e : Expr) : e.level ≤ Level.primary := by
  cases e with
  | binary | logical => exact Nat.le_trans (Level.ofOperator_le_factor _) (by decide)
  | _ => rewrite [Expr.level]; decide

@[simp] theorem Expr.level_map (f : NodeId → NodeId) (e : Expr) :
    (e.map f fun t => t).level = e.level := by
  cases e <;> rfl

@[simp] theorem Expr.level_eraseIds (e : Expr) : e.eraseIds.level = e.level := e.level_map _

/-! ## Canonical trees -/

mutual

def Expr.Canonical : Expr → Prop
  | .literal .. => True
  | .var _ name => name.kind = .identifier
  | .assign _ name value => name.kind = .identifier ∧ value.Canonical
  | .unary _ op operand =>
    (op.kind = .bang ∨ op.kind = .minus) ∧ Level.unary ≤ operand.level ∧ operand.Canonical
  | .binary _ left op right =>
    (Level.equality ≤ Level.ofOperator op.kind ∧ Level.ofOperator op.kind ≤ Level.factor) ∧
      Level.ofOperator op.kind ≤ left.level ∧ Level.ofOperator op.kind < right.level ∧
      left.Canonical ∧ right.Canonical
  | .logical _ left op right =>
    (Level.disjunction ≤ Level.ofOperator op.kind ∧ Level.ofOperator op.kind ≤ Level.conjunction) ∧
      Level.ofOperator op.kind ≤ left.level ∧ Level.ofOperator op.kind < right.level ∧
      left.Canonical ∧ right.Canonical
  | .grouping _ inner => inner.Canonical
  | .call _ callee paren args =>
    Level.call ≤ callee.level ∧ callee.Canonical ∧ paren.kind = .rightParen ∧ Expr.AllCanonical args

def Expr.AllCanonical : List Expr → Prop
  | [] => True
  | e :: es => e.Canonical ∧ Expr.AllCanonical es

end

theorem Expr.allCanonical_iff {es : List Expr} :
    Expr.AllCanonical es ↔ ∀ e ∈ es, e.Canonical := by
  induction es with
  | nil => simp [Expr.AllCanonical]
  | cons e es ih => rw [Expr.AllCanonical, ih, List.forall_mem_cons]

/-- Declarations stand only in programs, blocks and function bodies. -/
def Stmt.isDeclaration : Stmt → Bool
  | .varDecl .. | .funDecl .. => true
  | _ => false

/-- The statement ends in an `if` without `else`, so that an `else` behind it would belong there. -/
def Stmt.endsOpen : Stmt → Bool
  | .ifThen .. => true
  | .ifElse _ _ _ no => no.endsOpen
  | .whileLoop _ _ body => body.endsOpen
  | _ => false

mutual

def Stmt.Canonical : Stmt → Prop
  | .expression _ value | .print _ value => value.Canonical
  | .varDecl _ name init => name.kind = .identifier ∧ ∀ e ∈ init, e.Canonical
  | .block _ body => Stmt.AllCanonical body
  | .ifThen _ condition yes => condition.Canonical ∧ yes.isDeclaration = false ∧ yes.Canonical
  | .ifElse _ condition yes no =>
    condition.Canonical ∧ yes.isDeclaration = false ∧ yes.endsOpen = false ∧ yes.Canonical ∧
      no.isDeclaration = false ∧ no.Canonical
  | .whileLoop _ condition body => condition.Canonical ∧ body.isDeclaration = false ∧ body.Canonical
  | .funDecl _ name params body =>
    name.kind = .identifier ∧ (∀ p ∈ params, p.kind = .identifier) ∧ Stmt.AllCanonical body
  | .ret _ keyword value => keyword.kind = .kwReturn ∧ ∀ e ∈ value, e.Canonical

def Stmt.AllCanonical : List Stmt → Prop
  | [] => True
  | s :: ss => s.Canonical ∧ Stmt.AllCanonical ss

end

theorem Stmt.allCanonical_iff {ss : List Stmt} :
    Stmt.AllCanonical ss ↔ ∀ s ∈ ss, s.Canonical := by
  induction ss with
  | nil => simp [Stmt.AllCanonical]
  | cons s ss ih => rw [Stmt.AllCanonical, ih, List.forall_mem_cons]

/-- All statements of a program are canonical. -/
def Program.Canonical (p : Program) : Prop := Stmt.AllCanonical p

/-! ## Slots -/

/-- What a tree says about one token of its text. -/
inductive Slot where
  | kept (t : Token)
  | plain (k : Kind)
  | constant (value : Literal)

/-- The constant that a token stands for. A number or a string is what the token carries. -/
def Token.constant? (t : Token) : Option Literal :=
  match t.kind with
  | .kwFalse => some (.boolean false)
  | .kwTrue => some (.boolean true)
  | .kwNil => some .nil
  | .number | .string => t.literal
  | _ => none

/-- A number or string token carries a constant. -/
def Token.CarriesLiteral (t : Token) : Prop :=
  t.kind = .number ∨ t.kind = .string → t.literal.isSome = true

/-- The kind of token that stands for a constant. -/
def Literal.kind : Literal → Kind
  | .number _ => .number
  | .string _ => .string
  | .boolean true => .kwTrue
  | .boolean false => .kwFalse
  | .nil => .kwNil

/-- A number or string token carries a constant of its own kind. -/
def Token.Proper (t : Token) : Prop :=
  t.kind = .number ∨ t.kind = .string → ∃ value, t.literal = some value ∧ value.kind = t.kind

namespace Slot

def Fits : Slot → Token → Prop
  | kept t, u => u = t
  | plain k, u => u.kind = k
  | constant value, u => u.constant? = some value

/-- A token for a slot. -/
def token : Slot → Token
  | kept t => t
  | plain k => ⟨k, "", none, 1⟩
  | constant value => ⟨value.kind, "", some value, 1⟩

theorem fits_token (s : Slot) : s.Fits s.token := by
  cases s with
  | kept t => rfl
  | plain k => rfl
  | constant value =>
    cases value with
    | boolean b => cases b <;> rfl
    | number | string | nil => rfl

/-- A proper token has the kind that is written in its slot. -/
theorem Fits.kind_token {s : Slot} {t : Token} (h : s.Fits t) (ht : t.Proper) :
    s.token.kind = t.kind := by
  cases s with
  | kept u => exact congrArg Token.kind h.symm
  | plain k => exact h.symm
  | constant value =>
    have hv : t.constant? = some value := h
    have carried (hk : t.kind = .number ∨ t.kind = .string) (hl : t.literal = some value) :
        value.kind = t.kind := by
      obtain ⟨v, hlit, hkind⟩ := ht hk
      rw [hl] at hlit
      cases hlit
      exact hkind
    unfold Token.constant? at hv
    split at hv
    case h_1 hk | h_2 hk | h_3 hk => cases hv; exact hk.symm
    case h_4 hk => exact carried (.inl hk) hv
    case h_5 hk => exact carried (.inr hk) hv
    case h_6 => cases hv

end Slot

mutual

/-- What an expression says about the tokens of its text. -/
def Expr.slots : Expr → List Slot
  | .literal _ value => [.constant value]
  | .var _ name => [.kept name]
  | .assign _ name value => .kept name :: .plain .equal :: value.slots
  | .unary _ op operand => .kept op :: operand.slots
  | .binary _ left op right | .logical _ left op right => left.slots ++ .kept op :: right.slots
  | .grouping _ inner => .plain .leftParen :: (inner.slots ++ [.plain .rightParen])
  | .call _ callee paren args =>
    callee.slots ++ .plain .leftParen :: (Expr.argSlots args ++ [.kept paren])

/-- Expressions with commas between them. -/
def Expr.argSlots : List Expr → List Slot
  | [] => []
  | [e] => e.slots
  | e :: e' :: es => e.slots ++ .plain .comma :: Expr.argSlots (e' :: es)

end

/-- An expression that may be missing. -/
def Expr.optionSlots : Option Expr → List Slot
  | none => []
  | some e => e.slots

/-- Names with commas between them. -/
def Stmt.paramSlots : List Token → List Slot
  | [] => []
  | [p] => [.kept p]
  | p :: p' :: ps => .kept p :: .plain .comma :: Stmt.paramSlots (p' :: ps)

mutual

/-- What a statement says about the tokens of its text. -/
def Stmt.slots : Stmt → List Slot
  | .expression _ value => value.slots ++ [.plain .semicolon]
  | .print _ value => .plain .kwPrint :: (value.slots ++ [.plain .semicolon])
  | .varDecl _ name none => [.plain .kwVar, .kept name, .plain .semicolon]
  | .varDecl _ name (some init) =>
    .plain .kwVar :: .kept name :: .plain .equal :: (init.slots ++ [.plain .semicolon])
  | .block _ body => .plain .leftBrace :: (Stmt.bodySlots body ++ [.plain .rightBrace])
  | .ifThen _ condition yes =>
    .plain .kwIf :: .plain .leftParen :: (condition.slots ++ .plain .rightParen :: yes.slots)
  | .ifElse _ condition yes no =>
    .plain .kwIf :: .plain .leftParen ::
      (condition.slots ++ .plain .rightParen :: (yes.slots ++ .plain .kwElse :: no.slots))
  | .whileLoop _ condition body =>
    .plain .kwWhile :: .plain .leftParen :: (condition.slots ++ .plain .rightParen :: body.slots)
  | .funDecl _ name params body =>
    .plain .kwFun :: .kept name :: .plain .leftParen :: (Stmt.paramSlots params ++
      .plain .rightParen :: .plain .leftBrace :: (Stmt.bodySlots body ++ [.plain .rightBrace]))
  | .ret _ keyword value => .kept keyword :: (Expr.optionSlots value ++ [.plain .semicolon])

def Stmt.bodySlots : List Stmt → List Slot
  | [] => []
  | s :: ss => s.slots ++ Stmt.bodySlots ss

end

namespace Program

def slots (p : Program) : List Slot := Stmt.bodySlots p

/-- The tokens of a program's text. -/
def flatten (p : Program) : List Token := p.slots.map Slot.token

/-- The tokens are as the program says. -/
def WrittenAs (p : Program) (ts : List Token) : Prop := List.Forall₂ Slot.Fits p.slots ts

theorem writtenAs_flatten (p : Program) : p.WrittenAs p.flatten := by
  unfold WrittenAs flatten
  rw [List.forall₂_map_right_iff, List.forall₂_same]
  exact fun s _ => s.fits_token

theorem WrittenAs.kinds_flatten {p : Program} {ts : List Token} (h : p.WrittenAs ts)
    (ht : ∀ t ∈ ts, t.Proper) : p.flatten.map (·.kind) = ts.map (·.kind) := by
  unfold WrittenAs at h
  unfold flatten
  generalize p.slots = slots at h ⊢
  induction h with
  | nil => rfl
  | cons hs _ ih =>
    rw [List.forall_mem_cons] at ht
    rw [List.map_cons, List.map_cons, List.map_cons, hs.kind_token ht.1, ih ht.2]

end Program
end Lox
