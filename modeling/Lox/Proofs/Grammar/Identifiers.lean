import Lox.Proofs.Grammar.Completeness

/-!
# How nodes are numbered

Each node gets the next number when it is built, and a node is built when all its parts are. So the numbers of a
tree tell its nodes apart and grow towards the root, and if no `for` loop is rewritten they grow from left to right
as well. A number is lost only by an assignment: its target is read as a variable first, and that node is thrown
away.

**Nodes.** `Node` keeps of a tree what matters here: the identifiers, which nodes are assignments, and which nodes
are below which. All is said about the list of nodes in post-order.

**Loops.** The parts of a `for` loop are read in another order than they stand in the tree, the increment before the
body and a condition that is missing after it. So for loops the order of the parts is given up (`Numbered.swap`),
and with it the last of the results.

**Results.**
* `Numbered.append`, `Numbered.wrap`, `Numbered.assign`: what building a node does to the numbers handed out so far.
* `numbered_of_spells`: the numbers of what is read.
* `identifiers_number_the_tree`.
-/
namespace Lox

/-! ## Nodes -/

/-- A node of a tree with the nodes below it, from left to right. -/
inductive Node where
  | mk (id : NodeId) (isAssign : Bool) (parts : List Node)

namespace Node

def id : Node → Nat
  | mk id _ _ => id

def isAssign : Node → Bool
  | mk _ isAssign _ => isAssign

/-- The nodes right below. -/
def parts : Node → List Node
  | mk _ _ parts => parts

mutual

/-- All nodes of a tree, those below a node from left to right and then the node itself. -/
def postOrder : Node → List Node
  | mk id isAssign parts => postOrderAll parts ++ [mk id isAssign parts]

def postOrderAll : List Node → List Node
  | [] => []
  | n :: ns => n.postOrder ++ postOrderAll ns

end

/-- The identifiers of trees side by side, in post-order. -/
def ids (ns : List Node) : List Nat := (postOrderAll ns).map (·.id)

/-- How many nodes there are. -/
def count (ns : List Node) : Nat := (postOrderAll ns).length

/-- How many of the nodes are assignments. -/
def assigns (ns : List Node) : Nat := (postOrderAll ns).countP (·.isAssign)

theorem postOrderAll_eq_flatMap (ns : List Node) : postOrderAll ns = ns.flatMap postOrder := by
  induction ns with
  | nil => rfl
  | cons n ns ih => rw [postOrderAll, ih, List.flatMap_cons]

@[simp] theorem postOrderAll_append (ns ms : List Node) :
    postOrderAll (ns ++ ms) = postOrderAll ns ++ postOrderAll ms := by
  simp only [postOrderAll_eq_flatMap, List.flatMap_append]

@[simp] theorem postOrderAll_mk (id : NodeId) (isAssign : Bool) (parts : List Node) :
    postOrderAll [mk id isAssign parts] = postOrderAll parts ++ [mk id isAssign parts] := by
  rw [postOrderAll, postOrder, postOrderAll, List.append_nil]

end Node

mutual

def Expr.node : Expr → Node
  | .literal id _ | .var id _ => .mk id false []
  | .assign id _ value => .mk id true [value.node]
  | .unary id _ operand => .mk id false [operand.node]
  | .binary id left _ right | .logical id left _ right => .mk id false [left.node, right.node]
  | .grouping id inner => .mk id false [inner.node]
  | .call id callee _ args => .mk id false (callee.node :: Expr.nodes args)

def Expr.nodes : List Expr → List Node
  | [] => []
  | e :: es => e.node :: Expr.nodes es

end

mutual

def Stmt.node : Stmt → Node
  | .expression id value | .print id value => .mk id false [value.node]
  | .varDecl id _ init => .mk id false (Expr.nodes init.toList)
  | .block id body => .mk id false (Stmt.nodes body)
  | .ifThen id condition yes => .mk id false [condition.node, yes.node]
  | .ifElse id condition yes no => .mk id false [condition.node, yes.node, no.node]
  | .whileLoop id condition body => .mk id false [condition.node, body.node]
  | .funDecl id _ _ body => .mk id false (Stmt.nodes body)
  | .ret id _ value => .mk id false (Expr.nodes value.toList)

def Stmt.nodes : List Stmt → List Node
  | [] => []
  | s :: ss => s.node :: Stmt.nodes ss

end

namespace Grammar

/-! ## Numbers handed out -/

/-- The nodes have been numbered from `i` up to `j`. If `inOrder`, numbers grow from left to right. -/
structure Numbered (inOrder : Prop) (i : Nat) (ns : List Node) (j : Nat) : Prop where
  range : ∀ n ∈ Node.postOrderAll ns, i ≤ n.id ∧ n.id < j
  distinct : (Node.ids ns).Nodup
  above : ∀ n ∈ Node.postOrderAll ns, ∀ m ∈ Node.postOrderAll n.parts, m.id < n.id
  next_eq : j = i + Node.count ns + Node.assigns ns
  sorted : inOrder → (Node.ids ns).Pairwise (· < ·)

namespace Numbered

variable {P : Prop} {i j k : Nat} {ns ms : List Node}

theorem nil (P : Prop) (i : Nat) : Numbered P i [] i where
  range := nofun
  distinct := .nil
  above := nofun
  next_eq := rfl
  sorted _ := .nil

theorem mem_ids {n : Nat} (h : Numbered P i ns j) (hn : n ∈ Node.ids ns) : i ≤ n ∧ n < j := by
  obtain ⟨m, hm, rfl⟩ := List.mem_map.1 hn
  exact h.range m hm

/-- Trees that are read one after the other. -/
theorem append (h : Numbered P i ns j) (h' : Numbered P j ms k) : Numbered P i (ns ++ ms) k := by
  have hi := h.next_eq
  have hj := h'.next_eq
  have hlt {a b : Nat} (ha : a ∈ Node.ids ns) (hb : b ∈ Node.ids ms) : a < b :=
    Nat.lt_of_lt_of_le (h.mem_ids ha).2 (h'.mem_ids hb).1
  have hids : Node.ids (ns ++ ms) = Node.ids ns ++ Node.ids ms := by simp [Node.ids]
  refine ⟨fun n hn => ?_, ?_, fun n hn => ?_, ?_, fun hP => ?_⟩
  · rw [Node.postOrderAll_append, List.mem_append] at hn
    rcases hn with hn | hn
    · have := h.range n hn
      omega
    · have := h'.range n hn
      omega
  · rw [hids, List.nodup_append]
    exact ⟨h.distinct, h'.distinct, fun a ha b hb => Nat.ne_of_lt (hlt ha hb)⟩
  · rw [Node.postOrderAll_append, List.mem_append] at hn
    exact hn.elim (h.above n) (h'.above n)
  · simp only [Node.count, Node.assigns, Node.postOrderAll_append, List.length_append,
      List.countP_append] at hi hj ⊢
    omega
  · rw [hids, List.pairwise_append]
    exact ⟨h.sorted hP, h'.sorted hP, fun a ha b hb => hlt ha hb⟩

/-- The last trees become the parts of a new node, which gets the next number. If it is an assignment, its target
has used up a number before. -/
theorem build (isAssign : Bool) (h : Numbered P (i + isAssign.toNat) (ns ++ ms) j) :
    Numbered P i (ns ++ [.mk j isAssign ms]) (j + 1) := by
  have hnext := h.next_eq
  have hids : Node.ids (ns ++ [.mk j isAssign ms]) = Node.ids (ns ++ ms) ++ [j] := by
    simp [Node.ids, Node.id]
  have hmem {n : Node} (hn : n ∈ Node.postOrderAll (ns ++ [.mk j isAssign ms])) :
      n ∈ Node.postOrderAll (ns ++ ms) ∨ n = .mk j isAssign ms := by
    simpa [or_assoc] using hn
  have hlt {a : Nat} (ha : a ∈ Node.ids (ns ++ ms)) : a < j := (h.mem_ids ha).2
  refine ⟨fun n hn => ?_, ?_, fun n hn m hm => ?_, ?_, fun hP => ?_⟩
  · rcases hmem hn with hn | rfl
    · have := h.range n hn
      omega
    · show i ≤ j ∧ j < j + 1
      omega
  · rw [hids, List.nodup_append]
    exact ⟨h.distinct, List.pairwise_singleton _ j,
      fun a ha b hb => List.mem_singleton.1 hb ▸ Nat.ne_of_lt (hlt ha)⟩
  · rcases hmem hn with hn | rfl
    · exact h.above n hn m hm
    · refine (h.range m ?_).2
      rw [Node.postOrderAll_append, List.mem_append]
      exact .inr hm
  · simp only [Node.count, Node.assigns, Node.postOrderAll_append, Node.postOrderAll_mk, List.length_append,
      List.countP_append, List.length_singleton, List.countP_singleton, Node.isAssign] at hnext ⊢
    cases isAssign with
    | false => simp only [Bool.toNat_false, Bool.false_eq_true, if_false] at hnext ⊢; omega
    | true => simp only [Bool.toNat_true, if_true] at hnext ⊢; omega
  · rw [hids, List.pairwise_append]
    exact ⟨h.sorted hP, List.pairwise_singleton _ j,
      fun a ha b hb => List.mem_singleton.1 hb ▸ hlt ha⟩

theorem wrap (h : Numbered P i (ns ++ ms) j) : Numbered P i (ns ++ [.mk j false ms]) (j + 1) :=
  build false h

theorem node (h : Numbered P i ns j) : Numbered P i [.mk j false ns] (j + 1) := by
  rw [← List.nil_append ns] at h
  exact h.wrap

theorem assign (h : Numbered P (i + 1) ns j) : Numbered P i [.mk j true ns] (j + 1) := by
  rw [← List.nil_append ns] at h
  exact build true h

/-- Where numbers do not grow from left to right, the last two trees may change places. -/
theorem swap {a b : Node} (h : Numbered P i (ns ++ [a, b]) j) (hP : ¬ P) : Numbered P i (ns ++ [b, a]) j := by
  have hperm : (Node.postOrderAll (ns ++ [a, b])).Perm (Node.postOrderAll (ns ++ [b, a])) := by
    rw [Node.postOrderAll_eq_flatMap, Node.postOrderAll_eq_flatMap]
    exact ((List.Perm.swap b a []).append_left ns).flatMap_right _
  refine ⟨fun n hn => h.range n (hperm.mem_iff.2 hn), (hperm.map _).nodup_iff.1 h.distinct,
    fun n hn => h.above n (hperm.mem_iff.2 hn), ?_, fun h => absurd h hP⟩
  rw [Node.count, Node.assigns, ← hperm.length_eq, ← hperm.countP_eq]
  exact h.next_eq

end Numbered

/-! ## What is read -/

/-- The nodes of a part of a tree. -/
def Form.nodes : Form → List Node
  | .expr e => [e.node]
  | .args es => Expr.nodes es
  | .params _ => []
  | .maybe o => Expr.nodes o.toList
  | .varDecl s | .exprStmt s | .stmt _ s | .decl s => [s.node]
  | .start o => Stmt.nodes o.toList
  | .body ss => Stmt.nodes ss

section
variable {P : Prop} {i n : NodeId} {o : Option Stmt} {c x : Option Expr} {s : Stmt}

/-- An increment becomes a statement behind the body, in a block with it. -/
theorem numbered_increment (hP : ¬ P)
    (h : Numbered P i (Stmt.nodes o.toList ++ Expr.nodes c.toList ++ Expr.nodes x.toList ++ [s.node]) n) :
    ∃ body n', forTree o c x s n = forTree o c none body n' ∧
      Numbered P i (Stmt.nodes o.toList ++ Expr.nodes c.toList ++ [body.node]) n' := by
  cases x with
  | none => exact ⟨s, n, rfl, by simpa [Expr.nodes] using h⟩
  | some e =>
    refine ⟨.block (n + 1) [s, .expression n e], n + 2, rfl, ?_⟩
    rw [List.append_assoc] at h
    have hswap : Numbered P i (Stmt.nodes o.toList ++ Expr.nodes c.toList ++ [s.node] ++ [e.node]) n := by
      rw [List.append_assoc]
      exact h.swap hP
    have hstep := hswap.wrap
    rw [List.append_assoc] at hstep
    exact hstep.wrap

/-- A condition that is missing is built behind the body. -/
theorem numbered_condition (hP : ¬ P)
    (h : Numbered P i (Stmt.nodes o.toList ++ Expr.nodes c.toList ++ [s.node]) n) :
    ∃ condition n', forTree o c none s n = forTree o (some condition) none s n' ∧
      Numbered P i (Stmt.nodes o.toList ++ [condition.node, s.node]) n' := by
  cases c with
  | some e => exact ⟨e, n, rfl, by simpa [Expr.nodes] using h⟩
  | none =>
    refine ⟨.literal n (.boolean true), n + 1, rfl, ?_⟩
    have hliteral := h.append (Numbered.nil P n).node
    rw [List.append_assoc] at hliteral
    have hbehind : Numbered P i (Stmt.nodes o.toList ++ [s.node, .mk n false []]) (n + 1) := by
      simpa [Expr.nodes] using hliteral
    exact hbehind.swap hP

theorem numbered_forTree (hP : ¬ P)
    (h : Numbered P i (Stmt.nodes o.toList ++ Expr.nodes c.toList ++ Expr.nodes x.toList ++ [s.node]) n) :
    Numbered P i [(forTree o c x s n).1.node] (forTree o c x s n).2 := by
  obtain ⟨body, n₁, hbody, h₁⟩ := numbered_increment hP h
  obtain ⟨condition, n₂, hcondition, h₂⟩ := numbered_condition hP h₁
  rw [hbody, hcondition]
  have hloop := h₂.wrap
  cases o with
  | none => exact hloop
  | some init => exact hloop.node

end

/-- The nodes of what is read are numbered, from left to right if there is no `for`. -/
theorem numbered_of_spells {f : Form} {i j : NodeId} {ts : List Token} (h : Spells f i ts j) {P : Prop}
    (hP : P → ∀ t ∈ ts, t.kind ≠ .kwFor) : Numbered P i f.nodes j := by
  have hcons {us vs : List Token} (hP : P → ∀ t ∈ us, t.kind ≠ .kwFor) (hs : ∀ t ∈ vs, t ∈ us) :
      P → ∀ t ∈ vs, t.kind ≠ .kwFor := fun hp t ht => hP hp t (hs t ht)
  induction h with
  | literal | var | varBare => exact (Numbered.nil P _).node
  | grouping _ _ _ ih | unary _ _ _ ih => exact (ih (hcons hP (by simp_all))).node
  | call _ _ _ _ _ ihc iha =>
    exact ((ihc (hcons hP (by simp_all))).append (iha (hcons hP (by simp_all)))).node
  | binary _ _ _ _ _ ihl ihr | logical _ _ _ _ _ _ ihl ihr =>
    exact ((ihl (hcons hP (by simp_all))).append (ihr (hcons hP (by simp_all)))).node
  | assign _ _ _ ih => exact (ih (hcons hP (by simp_all))).assign
  | argsNil | paramsNil | paramsOne | paramsCons | absent | startNone | bodyNil => exact .nil P _
  | argsOne _ ih | present _ ih | startVar _ ih | startExpr _ ih | expression _ ih | «variable» _ ih
  | statement _ ih => exact ih hP
  | argsCons _ _ _ ih ihs => exact (ih (hcons hP (by simp_all))).append (ihs (hcons hP (by simp_all)))
  | varInit _ _ _ _ _ ih | exprStmt _ _ ih | print _ _ _ ih | ret _ _ _ ih | block _ _ _ ih =>
    exact (ih (hcons hP (by simp_all))).node
  | whileLoop _ _ _ _ _ ihc ihs | ifThen _ _ _ _ _ ihc ihs =>
    exact ((ihc (hcons hP (by simp_all))).append (ihs (hcons hP (by simp_all)))).node
  | ifElse _ _ _ _ _ _ _ ihc ihs ihs' =>
    have hbranches := (ihs (hcons hP (by simp_all))).append (ihs' (hcons hP (by simp_all)))
    exact ((ihc (hcons hP (by simp_all))).append hbranches).node
  | forLoop hf _ _ _ _ _ _ _ iho ihc ihx ihs =>
    have hnot : ¬ P := fun hp => hP hp _ List.mem_cons_self hf
    have hall {us : List Token} : P → ∀ t ∈ us, t.kind ≠ .kwFor := fun hp => absurd hp hnot
    exact numbered_forTree hnot ((((iho hall).append (ihc hall)).append (ihx hall)).append (ihs hall))
  | function _ _ _ _ _ _ _ _ _ ih => exact (ih (hcons hP (by simp_all))).node
  | bodyCons _ _ ih ihs => exact (ih (hcons hP (by simp_all))).append (ihs (hcons hP (by simp_all)))

/-- The tokens that a program was read from, with the numbers of its nodes. -/
theorem spells_ofTokens {tokens : List Token} {firstId : NodeId} {p : Program}
    (h : (Program.ofTokens tokens firstId).program = .ok p) :
    Spells (.body p) firstId (tokens.takeWhile (·.kind != .eof)) (Program.ofTokens tokens firstId).nextId := by
  obtain ⟨j, hp⟩ := ofTokens_eq_ok_iff.1 h
  have hnext : (Program.ofTokens tokens firstId).nextId = j := by
    simp only [Program.ofTokens, splitEnd, read_of_spells hp]
    rfl
  rw [hnext]
  exact hp

/-- The identifiers of a program that has been read number its nodes. They are all different and lie between the
first number and the next one, and a node has a greater one than all nodes below it. Every number is used for a
node of the program, but for one that each assignment loses. And if there is no `for`, the numbers grow in
post-order. -/
theorem identifiers_number_the_tree (tokens : List Token) (firstId : NodeId) (p : Program)
    (h : (Program.ofTokens tokens firstId).program = .ok p) :
    (Node.ids (Stmt.nodes p)).Nodup ∧
      (∀ n ∈ Node.ids (Stmt.nodes p), firstId ≤ n ∧ n < (Program.ofTokens tokens firstId).nextId) ∧
      (∀ n ∈ Node.postOrderAll (Stmt.nodes p), ∀ m ∈ Node.postOrderAll n.parts, m.id < n.id) ∧
      (Program.ofTokens tokens firstId).nextId =
        firstId + Node.count (Stmt.nodes p) + Node.assigns (Stmt.nodes p) ∧
      ((∀ t ∈ tokens, t.kind ≠ .kwFor) → (Node.ids (Stmt.nodes p)).Pairwise (· < ·)) := by
  have hnumbered : Numbered (∀ t ∈ tokens, t.kind ≠ .kwFor) firstId (Stmt.nodes p)
      (Program.ofTokens tokens firstId).nextId :=
    numbered_of_spells (spells_ofTokens h) fun hfor t ht => hfor t ((List.takeWhile_sublist _).subset ht)
  exact ⟨hnumbered.distinct, fun n hn => hnumbered.mem_ids hn, hnumbered.above, hnumbered.next_eq,
    hnumbered.sorted⟩

namespace CountingLoop

/-! `for (var x = x; ; x = x + x) print x;`, where the numbers do not grow from left to right. -/

def token (kind : Token.Kind) : Token := ⟨kind, "x", none, 1⟩

def tokens : List Token :=
  [.kwFor, .leftParen, .kwVar, .identifier, .equal, .identifier, .semicolon, .semicolon, .identifier, .equal,
    .identifier, .plus, .identifier, .rightParen, .kwPrint, .identifier, .semicolon].map token

def program : Program :=
  let x : Token := token .identifier
  let step : Expr := .assign 13 x (.binary 12 (.var 10 x) (token .plus) (.var 11 x))
  let body : Stmt := .block 17 [.print 15 (.var 14 x), .expression 16 step]
  [.block 20 [.varDecl 8 x (some (.var 7 x)), .whileLoop 19 (.literal 18 (.boolean true)) body]]

theorem read : (Program.ofTokens tokens 7).program = .ok program := rfl

end CountingLoop

theorem identifiers_number_the_tree_loop :
    (Program.ofTokens CountingLoop.tokens 7).program = .ok CountingLoop.program ∧
      Node.ids (Stmt.nodes CountingLoop.program) = [7, 8, 18, 14, 15, 10, 11, 12, 13, 16, 17, 19, 20] ∧
      (Node.ids (Stmt.nodes CountingLoop.program)).Nodup ∧
      (Program.ofTokens CountingLoop.tokens 7).nextId = 7 + 13 + 1 := by
  obtain ⟨hdistinct, -, -, hnext, -⟩ := identifiers_number_the_tree _ _ _ CountingLoop.read
  exact ⟨CountingLoop.read, rfl, hdistinct, hnext⟩

end Grammar
end Lox
