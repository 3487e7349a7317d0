import Lox.Tree.Basic

/-!
# Induction over trees, and trees without identifiers

`Expr.induct` and `Stmt.induct` are the induction principles of trees, with one hypothesis for each
kind of node; the parts that a node keeps in a list are covered by `∀ a ∈ args`. They stand in for
the generated ones, which do not look into lists.

`map` changes the identifiers and the tokens of a tree and leaves its shape. Two trees that differ
in identifiers only have the same `eraseIds`; `Relabels` allows for different tokens as well.
-/
namespace Lox

/-! ## Induction -/

@[induction_eliminator]
theorem Expr.induct {motive : Expr → Prop}
    (literal : ∀ id value, motive (.literal id value))
    (var : ∀ id name, motive (.var id name))
    (assign : ∀ id name value, motive value → motive (.assign id name value))
    (unary : ∀ id op operand, motive operand → motive (.unary id op operand))
    (binary : ∀ id left op right, motive left → motive right → motive (.binary id left op right))
    (logical : ∀ id left op right, motive left → motive right → motive (.logical id left op right))
    (grouping : ∀ id inner, motive inner → motive (.grouping id inner))
    (call : ∀ id callee paren args, motive callee → (∀ a ∈ args, motive a) →
      motive (.call id callee paren args)) (e : Expr) : motive e := by
  refine @Expr.rec motive (fun es => ∀ a ∈ es, motive a) literal var assign unary binary logical
    grouping call ?_ ?_ e
  · simp
  · intro e es he hes a ha
    rcases List.mem_cons.1 ha with rfl | ha
    · exact he
    · exact hes a ha

@[induction_eliminator]
theorem Stmt.induct {motive : Stmt → Prop}
    (expression : ∀ id value, motive (.expression id value))
    (print : ∀ id value, motive (.print id value))
    (varDecl : ∀ id name init, motive (.varDecl id name init))
    (block : ∀ id body, (∀ s ∈ body, motive s) → motive (.block id body))
    (ifThen : ∀ id condition yes, motive yes → motive (.ifThen id condition yes))
    (ifElse : ∀ id condition yes no, motive yes → motive no → motive (.ifElse id condition yes no))
    (whileLoop : ∀ id condition body, motive body → motive (.whileLoop id condition body))
    (funDecl : ∀ id name params body, (∀ s ∈ body, motive s) →
      motive (.funDecl id name params body))
    (ret : ∀ id keyword value, motive (.ret id keyword value)) (s : Stmt) : motive s := by
  refine @Stmt.rec motive (fun ss => ∀ s ∈ ss, motive s) expression print varDecl block ifThen ifElse
    whileLoop funDecl ret ?_ ?_ s
  · simp
  · intro s ss hs hss a ha
    rcases List.mem_cons.1 ha with rfl | ha
    · exact hs
    · exact hss a ha

/-! ## Changing identifiers and tokens -/

mutual

/-- Changes each identifier by `f` and each token by `g`. -/
def Expr.map (f : NodeId → NodeId) (g : Token → Token) : Expr → Expr
  | .literal id value => .literal (f id) value
  | .var id name => .var (f id) (g name)
  | .assign id name value => .assign (f id) (g name) (value.map f g)
  | .unary id op operand => .unary (f id) (g op) (operand.map f g)
  | .binary id left op right => .binary (f id) (left.map f g) (g op) (right.map f g)
  | .logical id left op right => .logical (f id) (left.map f g) (g op) (right.map f g)
  | .grouping id inner => .grouping (f id) (inner.map f g)
  | .call id callee paren args => .call (f id) (callee.map f g) (g paren) (Expr.mapAll f g args)

def Expr.mapAll (f : NodeId → NodeId) (g : Token → Token) : List Expr → List Expr
  | [] => []
  | e :: es => e.map f g :: Expr.mapAll f g es

end

mutual

@[inherit_doc Expr.map]
def Stmt.map (f : NodeId → NodeId) (g : Token → Token) : Stmt → Stmt
  | .expression id value => .expression (f id) (value.map f g)
  | .print id value => .print (f id) (value.map f g)
  | .varDecl id name init => .varDecl (f id) (g name) (init.map (·.map f g))
  | .block id body => .block (f id) (Stmt.mapAll f g body)
  | .ifThen id condition yes => .ifThen (f id) (condition.map f g) (yes.map f g)
  | .ifElse id condition yes no => .ifElse (f id) (condition.map f g) (yes.map f g) (no.map f g)
  | .whileLoop id condition body => .whileLoop (f id) (condition.map f g) (body.map f g)
  | .funDecl id name params body => .funDecl (f id) (g name) (params.map g) (Stmt.mapAll f g body)
  | .ret id keyword value => .ret (f id) (g keyword) (value.map (·.map f g))

def Stmt.mapAll (f : NodeId → NodeId) (g : Token → Token) : List Stmt → List Stmt
  | [] => []
  | s :: ss => s.map f g :: Stmt.mapAll f g ss

end

/-- The tree with all identifiers made equal. -/
def Expr.eraseIds (e : Expr) : Expr := e.map (fun _ => 0) fun t => t

@[inherit_doc Expr.eraseIds]
def Stmt.eraseIds (s : Stmt) : Stmt := s.map (fun _ => 0) fun t => t

@[inherit_doc Expr.eraseIds]
def Program.eraseIds (p : Program) : Program := p.map Stmt.eraseIds

theorem Expr.mapAll_eq_map (f : NodeId → NodeId) (g : Token → Token) (es : List Expr) :
    Expr.mapAll f g es = es.map (Expr.map f g) := by
  induction es with
  | nil => rfl
  | cons e es ih => rw [Expr.mapAll, ih, List.map_cons]

theorem Stmt.mapAll_eq_map (f : NodeId → NodeId) (g : Token → Token) (ss : List Stmt) :
    Stmt.mapAll f g ss = ss.map (Stmt.map f g) := by
  induction ss with
  | nil => rfl
  | cons s ss ih => rw [Stmt.mapAll, ih, List.map_cons]

/-- Two changes one after the other are one change. -/
theorem Expr.map_map (f f' : NodeId → NodeId) (g g' : Token → Token) (e : Expr) :
    (e.map f g).map f' g' = e.map (fun i => f' (f i)) fun t => g' (g t) := by
  induction e with
  | call id callee paren args ihc iha =>
    simp only [Expr.map, Expr.mapAll_eq_map, List.map_map, ihc]
    exact congrArg _ (List.map_congr_left iha)
  | _ => simp_all [Expr.map]

@[inherit_doc Expr.map_map]
theorem Stmt.map_map (f f' : NodeId → NodeId) (g g' : Token → Token) (s : Stmt) :
    (s.map f g).map f' g' = s.map (fun i => f' (f i)) fun t => g' (g t) := by
  have hoption (o : Option Expr) : (o.map (·.map f g)).map (·.map f' g') =
      o.map (·.map (fun i => f' (f i)) fun t => g' (g t)) := by
    cases o with
    | none => rfl
    | some e => exact congrArg some (e.map_map f f' g g')
  induction s with
  | block id body ih =>
    simp only [Stmt.map, Stmt.mapAll_eq_map, List.map_map]
    exact congrArg _ (List.map_congr_left ih)
  | funDecl id name params body ih =>
    simp only [Stmt.map, Stmt.mapAll_eq_map, List.map_map]
    exact congrArg _ (List.map_congr_left ih)
  | varDecl id name init => simp only [Stmt.map, hoption]
  | ret id keyword value => simp only [Stmt.map, hoption]
  | _ => simp_all [Stmt.map, Expr.map_map]

theorem Expr.map_same (e : Expr) : e.map (fun i => i) (fun t => t) = e := by
  induction e with
  | call id callee paren args ihc iha =>
    simp only [Expr.map, Expr.mapAll_eq_map, ihc]
    rw [List.map_congr_left iha, List.map_id']
  | _ => simp_all [Expr.map]

theorem Stmt.map_same (s : Stmt) : s.map (fun i => i) (fun t => t) = s := by
  have hoption (o : Option Expr) : o.map (·.map (fun i => i) fun t => t) = o := by
    cases o with
    | none => rfl
    | some e => exact congrArg some e.map_same
  induction s with
  | block id body ih =>
    simp only [Stmt.map, Stmt.mapAll_eq_map]
    rw [List.map_congr_left ih, List.map_id']
  | funDecl id name params body ih =>
    simp only [Stmt.map, Stmt.mapAll_eq_map, List.map_id']
    rw [List.map_congr_left ih, List.map_id']
  | varDecl id name init => simp only [Stmt.map, hoption]
  | ret id keyword value => simp only [Stmt.map, hoption]
  | _ => simp_all [Stmt.map, Expr.map_same]

/-- The tokens read the same. They may stand on different lines. -/
def Token.Like (s t : Token) : Prop := s.kind = t.kind ∧ s.lexeme = t.lexeme

/-- The second tree is the first one with other identifiers, and with other tokens that read the same. -/
def Expr.Relabels (e e' : Expr) : Prop := ∃ f g, (∀ t : Token, t.Like (g t)) ∧ e' = e.map f g

@[inherit_doc Expr.Relabels]
def Stmt.Relabels (s s' : Stmt) : Prop := ∃ f g, (∀ t : Token, t.Like (g t)) ∧ s' = s.map f g

theorem Stmt.Relabels.refl (s : Stmt) : s.Relabels s :=
  ⟨fun i => i, fun t => t, fun _ => ⟨rfl, rfl⟩, s.map_same.symm⟩

section
variable (id : NodeId) (t : Token) (e e' : Expr) (s s' : Stmt)

@[simp] theorem Expr.eraseIds_literal (value : Literal) :
    (Expr.literal id value).eraseIds = .literal 0 value := rfl

@[simp] theorem Expr.eraseIds_var : (Expr.var id t).eraseIds = .var 0 t := rfl

@[simp] theorem Expr.eraseIds_assign :
    (Expr.assign id t e).eraseIds = .assign 0 t e.eraseIds := rfl

@[simp] theorem Expr.eraseIds_unary : (Expr.unary id t e).eraseIds = .unary 0 t e.eraseIds := rfl

@[simp] theorem Expr.eraseIds_binary :
    (Expr.binary id e t e').eraseIds = .binary 0 e.eraseIds t e'.eraseIds := rfl

@[simp] theorem Expr.eraseIds_logical :
    (Expr.logical id e t e').eraseIds = .logical 0 e.eraseIds t e'.eraseIds := rfl

@[simp] theorem Expr.eraseIds_grouping :
    (Expr.grouping id e).eraseIds = .grouping 0 e.eraseIds := rfl

@[simp] theorem Expr.eraseIds_call (es : List Expr) :
    (Expr.call id e t es).eraseIds = .call 0 e.eraseIds t (es.map Expr.eraseIds) :=
  congrArg (Expr.call 0 e.eraseIds t) (Expr.mapAll_eq_map _ _ es)

@[simp] theorem Stmt.eraseIds_expression :
    (Stmt.expression id e).eraseIds = .expression 0 e.eraseIds := rfl

@[simp] theorem Stmt.eraseIds_print : (Stmt.print id e).eraseIds = .print 0 e.eraseIds := rfl

@[simp] theorem Stmt.eraseIds_varDecl (o : Option Expr) :
    (Stmt.varDecl id t o).eraseIds = .varDecl 0 t (o.map Expr.eraseIds) := rfl

@[simp] theorem Stmt.eraseIds_block (ss : List Stmt) :
    (Stmt.block id ss).eraseIds = .block 0 (ss.map Stmt.eraseIds) :=
  congrArg (Stmt.block 0) (Stmt.mapAll_eq_map _ _ ss)

@[simp] theorem Stmt.eraseIds_ifThen :
    (Stmt.ifThen id e s).eraseIds = .ifThen 0 e.eraseIds s.eraseIds := rfl

@[simp] theorem Stmt.eraseIds_ifElse :
    (Stmt.ifElse id e s s').eraseIds = .ifElse 0 e.eraseIds s.eraseIds s'.eraseIds := rfl

@[simp] theorem Stmt.eraseIds_whileLoop :
    (Stmt.whileLoop id e s).eraseIds = .whileLoop 0 e.eraseIds s.eraseIds := rfl

@[simp] theorem Stmt.eraseIds_funDecl (ps : List Token) (ss : List Stmt) :
    (Stmt.funDecl id t ps ss).eraseIds = .funDecl 0 t ps (ss.map Stmt.eraseIds) := by
  have hbody := Stmt.mapAll_eq_map (fun _ => 0) (fun t => t) ss
  simp only [Stmt.eraseIds, Stmt.map, hbody, List.map_id']
  rfl

@[simp] theorem Stmt.eraseIds_ret (o : Option Expr) :
    (Stmt.ret id t o).eraseIds = .ret 0 t (o.map Expr.eraseIds) := rfl

end

end Lox
