import Lox.Proofs.Grammar.Acceptance
import Lox.Proofs.Grammar.Stacked

/-!
# A `for` loop and the `while` loop in its place

There is no tree for a `for` loop: reading one gives the tree of the `while` loop that a programmer
without `for` would write. `ForParts` holds the tokens of the four parts of a loop, `asFor` puts them
together as a `for` loop, and `asWhile` as a `while` loop by three steps: the increment goes into a block
behind the body, a missing condition becomes `true`, and what the loop starts with goes into a block
around it.

The two texts put the parts in a different order, so their nodes have different numbers. A part is spelled
once, with its nodes numbered from zero on, and then moved to where each text has it (`Spells.at`).

**Results.**
* `spells_asFor`, `spells_asWhile`: what the two loops spell.
* `ofTokens_for_eq_while`: both are read as the tree of the `while` loop, made of what the parts spell, and the
  two readings differ in their identifiers only.
-/
namespace Lox

open Token (Kind)

/-! ## Numbers that differ -/

@[simp] theorem Expr.eraseIds_map_ids (f : NodeId → NodeId) (e : Expr) :
    (e.map f fun t => t).eraseIds = e.eraseIds :=
  Expr.map_map f (fun _ => 0) (fun t => t) (fun t => t) e

@[simp] theorem Stmt.eraseIds_map_ids (f : NodeId → NodeId) (s : Stmt) :
    (s.map f fun t => t).eraseIds = s.eraseIds :=
  Stmt.map_map f (fun _ => 0) (fun t => t) (fun t => t) s

namespace Grammar

/-- What is spelled with numbers from zero on is spelled with numbers from `n` on. -/
theorem Spells.at {f : Form} {j : Nat} {ts : List Token} (h : Spells f 0 ts j) (n : Nat) :
    Spells (f.map (n + ·) fun t => t) n ts (n + j) := by
  have hmoved := h.move (fun _ => rfl) (fun _ => rfl) n
  rwa [List.map_id'] at hmoved

/-- Two declarations one after the other. -/
theorem Spells.pair {s s' : Stmt} {i j k : NodeId} {ts us : List Token}
    (hs : Spells (.decl s) i ts j) (hs' : Spells (.decl s') j us k) :
    Spells (.body [s, s']) i (ts ++ us) k := by
  have hbody := Spells.bodyCons hs (.bodyCons hs' .bodyNil)
  rwa [List.append_nil] at hbody

/-! ## Two ways to write a loop -/

/-- A token of the given kind, whatever its text and line. -/
abbrev Mark (k : Kind) : Type := { t : Token // t.kind = k }

/-- The tokens of the parts of a loop. A missing condition or increment has none, and a loop that starts
with nothing has a semicolon there. -/
structure ForParts where
  init : List Token
  condition : List Token
  increment : List Token
  body : List Token

/-- The tokens of a `for` loop around its parts. -/
structure ForMarks where
  keyword : Mark .kwFor
  left : Mark .leftParen
  semicolon : Mark .semicolon
  right : Mark .rightParen

/-- The tokens of a `while` loop around the parts, and those of the two blocks. -/
structure WhileMarks where
  keyword : Mark .kwWhile
  left : Mark .leftParen
  always : Mark .kwTrue
  right : Mark .rightParen
  semicolon : Mark .semicolon
  openBody : Mark .leftBrace
  closeBody : Mark .rightBrace
  openLoop : Mark .leftBrace
  closeLoop : Mark .rightBrace

namespace ForParts

/-- Each part can be derived from what the grammar has in its place. -/
structure Accepted (p : ForParts) : Prop where
  init : Matches ((Nonterminal.varDecl : Rule) ||| Nonterminal.exprStmt ||| Kind.semicolon) p.init
  condition : Matches (.maybe Nonterminal.expression) p.condition
  increment : Matches (.maybe Nonterminal.expression) p.increment
  body : Matches Nonterminal.statement p.body
  carries : ∀ t ∈ p.init ++ p.condition ++ p.increment ++ p.body, t.CarriesLiteral

/-- `for ( init condition ; increment ) body` -/
def asFor (p : ForParts) (m : ForMarks) : List Token :=
  m.keyword.1 :: m.left.1 :: (p.init ++ (p.condition ++ m.semicolon.1 ::
    (p.increment ++ m.right.1 :: p.body)))

/-- `{ body increment ; }`, or the body if there is no increment. -/
def repeated (p : ForParts) (m : WhileMarks) : List Token :=
  if p.increment = [] then p.body
  else m.openBody.1 :: (p.body ++ (p.increment ++ [m.semicolon.1]) ++ [m.closeBody.1])

/-- The condition, or `true` if there is none. -/
def tested (p : ForParts) (m : WhileMarks) : List Token :=
  if p.condition = [] then [m.always.1] else p.condition

/-- `while ( tested ) repeated` -/
def loop (p : ForParts) (m : WhileMarks) : List Token :=
  m.keyword.1 :: m.left.1 :: (p.tested m ++ m.right.1 :: p.repeated m)

/-- `{ init loop }`, or the loop if it starts with a mere semicolon. -/
def asWhile (p : ForParts) (m : WhileMarks) : List Token :=
  if p.init.map (·.kind) = [.semicolon] then p.loop m
  else m.openLoop.1 :: (p.init ++ p.loop m ++ [m.closeLoop.1])

end ForParts

/-! ## What the loops spell -/

/-- The body with the increment behind it. -/
def repeatedTree (body : Stmt) : Option Expr → Stmt
  | none => body
  | some step => .block 0 [body, .expression 0 step]

/-- The loop itself. -/
def whileTree (condition increment : Option Expr) (body : Stmt) : Stmt :=
  .whileLoop 0 (condition.getD (.literal 0 (.boolean true))) (repeatedTree body increment)

/-- The loop with what it starts with before it. -/
def startedTree (loop : Stmt) : Option Stmt → Stmt
  | none => loop
  | some init => .block 0 [init, loop]

/-- The tree of a `for` loop is built by the same three steps. -/
theorem eraseIds_forTree (init : Option Stmt) (condition increment : Option Expr) (body : Stmt)
    (n : NodeId) : (forTree init condition increment body n).1.eraseIds =
      (startedTree (whileTree condition increment body) init).eraseIds := by
  cases init <;> cases condition <;> cases increment <;> rfl

/-- The parts spell these trees, each with its nodes numbered from zero on. -/
structure ForParts.Spell (p : ForParts) (init : Option Stmt) (condition increment : Option Expr)
    (body : Stmt) : Prop where
  init : ∃ j, Spells (.start init) 0 p.init j
  condition : ∃ j, Spells (.maybe condition) 0 p.condition j
  increment : ∃ j, Spells (.maybe increment) 0 p.increment j
  body : ∃ isOpen j, Spells (.stmt isOpen body) 0 p.body j

theorem ForParts.Accepted.spell {p : ForParts} (h : p.Accepted) :
    ∃ init condition increment body, p.Spell init condition increment body := by
  have hcarries := h.carries
  rw [List.forall_mem_append, List.forall_mem_append, List.forall_mem_append] at hcarries
  obtain ⟨⟨⟨hinit, hcondition⟩, hincrement⟩, hbody⟩ := hcarries
  obtain ⟨o, hstart⟩ := spells_start (h.init.holds spelled_of_rule hinit) 0
  obtain ⟨c, htest⟩ := spells_maybe (h.condition.holds spelled_of_rule hcondition) 0
  obtain ⟨x, hstep⟩ := spells_maybe (h.increment.holds spelled_of_rule hincrement) 0
  have hstmt : SpellsStmt p.body := h.body.holds spelled_of_rule hbody
  obtain ⟨b, s, j, hs⟩ := hstmt 0
  exact ⟨o, c, x, s, hstart, htest, hstep, b, j, hs⟩

/-- What a `for` loop starts with is a declaration, unless it is a mere semicolon. -/
theorem spells_start_cases {o : Option Stmt} {i j : NodeId} {ts : List Token}
    (h : Spells (.start o) i ts j) :
    o = none ∧ ts.map (·.kind) = [.semicolon] ∨
      ∃ s, o = some s ∧ Spells (.decl s) i ts j ∧ ts.map (·.kind) ≠ [.semicolon] := by
  have hlone {wanted : Kind → Bool} (hstarts : Starts wanted ts) (hw : wanted .semicolon = false) :
      ts.map (·.kind) ≠ [.semicolon] := by
    obtain ⟨t, us, rfl, ht⟩ := hstarts
    intro hkinds
    rw [List.map_cons, List.cons.injEq] at hkinds
    rw [hkinds.1, hw] at ht
    cases ht
  cases h with
  | startNone hc => exact .inl ⟨rfl, by rw [List.map_singleton, hc]⟩
  | startVar hs =>
    have hstarts : Starts (· == .kwVar) ts := spells_first hs
    exact .inr ⟨_, rfl, .variable hs, hlone hstarts rfl⟩
  | startExpr hs =>
    have hstarts : Starts startsExpression ts := spells_first hs
    exact .inr ⟨_, rfl, .statement (.expression hs), hlone hstarts rfl⟩

section
variable {p : ForParts} {init : Option Stmt} {condition increment : Option Expr} {body : Stmt}
  (h : p.Spell init condition increment body) (n : Nat)
include h

theorem spells_asFor (m : ForMarks) :
    ∃ isOpen s j, Spells (.stmt isOpen s) n (p.asFor m) j ∧
      s.eraseIds = (startedTree (whileTree condition increment body) init).eraseIds := by
  obtain ⟨⟨_, hinit⟩, ⟨_, hcondition⟩, ⟨_, hincrement⟩, _, _, hbody⟩ := h
  refine ⟨_, _, _, .forLoop m.keyword.2 m.left.2 (hinit.at n) (hcondition.at _) m.semicolon.2
    (hincrement.at _) m.right.2 (hbody.at _), ?_⟩
  rw [eraseIds_forTree]
  cases init <;> cases condition <;> cases increment <;> simp [startedTree, whileTree, repeatedTree]

theorem spells_repeated (m : WhileMarks) :
    ∃ isOpen s j, Spells (.stmt isOpen s) n (p.repeated m) j ∧
      s.eraseIds = (repeatedTree body increment).eraseIds := by
  obtain ⟨-, -, ⟨k, hincrement⟩, _, j, hbody⟩ := h
  unfold ForParts.repeated
  generalize p.increment = us at hincrement ⊢
  cases hincrement with
  | absent => exact ⟨_, _, _, hbody.at n, by simp [repeatedTree]⟩
  | present hstep =>
    obtain ⟨t, vs, rfl, -⟩ := spells_first hstep
    have hbehind := Spells.exprStmt (hstep.at (n + j)) m.semicolon.2
    refine ⟨false, _, _, .block m.openBody.2
      (.pair (.statement (hbody.at n)) (.statement (.expression hbehind))) m.closeBody.2, ?_⟩
    simp [repeatedTree]

theorem spells_tested (m : WhileMarks) :
    ∃ e j, Spells (.expr e) n (p.tested m) j ∧
      e.eraseIds = (condition.getD (.literal 0 (.boolean true))).eraseIds := by
  obtain ⟨-, ⟨k, hcondition⟩, -, -⟩ := h
  unfold ForParts.tested
  generalize p.condition = us at hcondition ⊢
  cases hcondition with
  | absent =>
    have htrue : m.always.1.constant? = some (.boolean true) := by
      rw [Token.constant?, m.always.2]
    exact ⟨_, _, .literal htrue, rfl⟩
  | present htest =>
    obtain ⟨t, vs, rfl, -⟩ := spells_first htest
    exact ⟨_, _, htest.at n, by simp⟩

theorem spells_loop (m : WhileMarks) :
    ∃ isOpen s j, Spells (.stmt isOpen s) n (p.loop m) j ∧
      s.eraseIds = (whileTree condition increment body).eraseIds := by
  obtain ⟨e, j, htest, he⟩ := spells_tested h n m
  obtain ⟨b, s, k, hbody, hs⟩ := spells_repeated h j m
  refine ⟨b, _, _, .whileLoop m.keyword.2 m.left.2 htest m.right.2 hbody, ?_⟩
  rw [Stmt.eraseIds_whileLoop, he, hs]
  rfl

theorem spells_asWhile (m : WhileMarks) :
    ∃ isOpen s j, Spells (.stmt isOpen s) n (p.asWhile m) j ∧
      s.eraseIds = (startedTree (whileTree condition increment body) init).eraseIds := by
  obtain ⟨j, hinit⟩ := h.init
  unfold ForParts.asWhile
  rcases spells_start_cases hinit with ⟨rfl, hlone⟩ | ⟨first, rfl, hfirst, hlone⟩
  · rw [if_pos hlone]
    exact spells_loop h n m
  · obtain ⟨_, s, k, hloop, hs⟩ := spells_loop h (n + j) m
    rw [if_neg hlone]
    refine ⟨false, _, _, .block m.openLoop.2 (.pair (hfirst.at n) (.statement hloop)) m.closeLoop.2, ?_⟩
    simp [startedTree, hs]

end

/-! ## Reading -/

/-- A statement that is spelled is read as a program. -/
theorem ofTokens_of_spells {isOpen : Bool} {s : Stmt} {i j : NodeId} {ts : List Token}
    (h : Spells (.stmt isOpen s) i ts j) (last : Mark .eof) (more : List Token) :
    (Program.ofTokens (ts ++ last.1 :: more) i).program = .ok [s] := by
  have hbody := Spells.bodyCons (.statement h) .bodyNil
  rw [List.append_nil] at hbody
  rw [ofTokens_eq_ok_iff, takeWhile_ne_eof (ne_eof_of_spells h) last.2]
  exact ⟨j, hbody⟩

/-- A `for` loop is read as the `while` loop in its place. Apart from identifiers, the tree of both is the loop made
of what the four parts spell. -/
theorem ofTokens_for_eq_while (p : ForParts) (hp : p.Accepted) (m : ForMarks) (m' : WhileMarks)
    (last last' : Mark .eof) (more more' : List Token) (i i' : NodeId) :
    ∃ init condition increment body q q', p.Spell init condition increment body ∧
      (Program.ofTokens (p.asFor m ++ last.1 :: more) i).program = .ok q ∧
      (Program.ofTokens (p.asWhile m' ++ last'.1 :: more') i').program = .ok q' ∧
      q.eraseIds = q'.eraseIds ∧
      q.eraseIds = Program.eraseIds [startedTree (whileTree condition increment body) init] := by
  obtain ⟨init, condition, increment, body, hspell⟩ := hp.spell
  obtain ⟨_, s, _, hfor, hs⟩ := spells_asFor hspell i m
  obtain ⟨_, s', _, hwhile, hs'⟩ := spells_asWhile hspell i' m'
  refine ⟨init, condition, increment, body, [s], [s'], hspell, ofTokens_of_spells hfor last more,
    ofTokens_of_spells hwhile last' more', ?_, ?_⟩
  · exact congrArg (fun t => [t]) (hs.trans hs'.symm)
  · exact congrArg (fun t => [t]) hs

/-- `for (var x = 1; x; x = x) if (x) for (;;) print "s";` -/
theorem ofTokens_for_eq_while_nested :
    let x : Token := ⟨.identifier, "x", none, 1⟩
    let mark (k : Kind) : Mark k := ⟨⟨k, "", none, 1⟩, rfl⟩
    let p : ForParts := {
      init := [(mark .kwVar).1, x, (mark .equal).1, ⟨.number, "1", some (.number 1), 1⟩,
        (mark .semicolon).1]
      condition := [x]
      increment := [x, (mark .equal).1, x]
      body := [(mark .kwIf).1, (mark .leftParen).1, x, (mark .rightParen).1, (mark .kwFor).1,
        (mark .leftParen).1, (mark .semicolon).1, (mark .semicolon).1, (mark .rightParen).1,
        (mark .kwPrint).1, ⟨.string, "s", some (.string "s"), 2⟩, (mark .semicolon).1] }
    let m : ForMarks := ⟨mark _, mark _, mark _, mark _⟩
    let m' : WhileMarks := ⟨mark _, mark _, mark _, mark _, mark _, mark _, mark _, mark _, mark _⟩
    let inner : Stmt := .whileLoop 0 (.literal 0 (.boolean true)) (.print 0 (.literal 0 (.string "s")))
    let outer : Stmt := .whileLoop 0 (.var 0 x)
      (.block 0 [.ifThen 0 (.var 0 x) inner, .expression 0 (.assign 0 x (.var 0 x))])
    p.Accepted ∧ ∃ q q',
      (Program.ofTokens (p.asFor m ++ [(mark .eof).1]) 0).program = .ok q ∧
      (Program.ofTokens (p.asWhile m' ++ [(mark .eof).1]) 7).program = .ok q' ∧
      q.eraseIds = [.block 0 [.varDecl 0 x (some (.literal 0 (.number 1))), outer]] ∧
      q'.eraseIds = [.block 0 [.varDecl 0 x (some (.literal 0 (.number 1))), outer]] := by
  intro x mark p m m' inner outer
  have hx (i : NodeId) : Spells (.expr (.var i x)) i [x] (i + 1) := .var rfl
  have hprint := Spells.print (i := 1) (mark .kwPrint).2
    (.literal (v := .string "s") (t := ⟨.string, "s", some (.string "s"), 2⟩) rfl) (mark .semicolon).2
  have hinner := Spells.forLoop (mark .kwFor).2 (mark .leftParen).2 (.startNone (mark .semicolon).2)
    .absent (mark .semicolon).2 .absent (mark .rightParen).2 hprint
  have hp : p.Accepted := {
    init := .left (.left (matches_of_spells (i := 0) (.varInit (mark .kwVar).2 rfl (mark .equal).2
      (.literal (v := .number 1) rfl) (mark .semicolon).2)))
    condition := matches_of_spells (.present (hx 0))
    increment := matches_of_spells (.present (.assign rfl (mark .equal).2 (hx 1)))
    body := matches_of_spells (.ifThen (mark .kwIf).2 (mark .leftParen).2 (hx 0)
      (mark .rightParen).2 hinner)
    carries := by simp [p, mark, x, Token.CarriesLiteral] }
  obtain ⟨_, _, _, _, q, q', -, hfor, hwhile, herase, -⟩ :=
    ofTokens_for_eq_while p hp m m' (mark .eof) (mark .eof) [] [] 0 7
  have htree : q.eraseIds = [.block 0 [.varDecl 0 x (some (.literal 0 (.number 1))), outer]] := by
    cases hfor
    rfl
  exact ⟨hp, q, q', hfor, hwhile, htree, herase.symm.trans htree⟩

end Grammar
end Lox
