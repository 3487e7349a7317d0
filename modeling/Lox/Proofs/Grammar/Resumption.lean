import Lox.Proofs.Grammar.Isolation

/-!
# What a missing semicolon costs

A statement without its semicolon is found out at the token behind it. That token is blamed, and skipping starts with
it. Where it is a keyword at which the next statement starts, the keyword is lost and the statement with it: reading
goes on behind the semicolon or at the keyword that comes next. So the errors are the one for the semicolon and those of
the tokens from there on, and errors of the statement that was skipped are never seen.

**Readings that fail.** A reader that leads to `fail` takes some tokens and blames the next one (`leads_missing`).

**The rest of a reading.** What the loop complains about from a state on is what a reading of the tokens that are left
complains about, at positions that are moved (`blames_from`).

**Results.**
* `exists_skips`: where skipping stops.
* `PassesOver.read_append`: the complaints of a reading, once the loop has passed over some tokens.
* `missing_semicolon_hides_a_statement`, and `missing_semicolon_hides_an_error` for an error that is lost.
-/
namespace Lox

open Token (Kind)

/-- What is missed if another statement comes in place of the semicolon of this one. For a bare `return` it is a value.
A statement that does not end with a semicolon of its own misses nothing. -/
def Stmt.missing? : Stmt → Option SyntaxError.Expected
  | .varDecl .. => some .semicolonAfterDeclaration
  | .print .. => some .semicolonAfterValue
  | .ret _ _ (some _) => some .semicolonAfterReturnValue
  | .ret _ _ none => some .expression
  | .expression .. => some .semicolonAfterExpression
  | _ => none

theorem Stmt.missing?_eraseIds (s : Stmt) : s.eraseIds.missing? = s.missing? := by
  cases s with
  | ret id t o => cases o <;> rfl
  | _ => simp [missing?]

namespace Grammar

variable {α β : Type}

/-! ## Where skipping stops -/

/-- Skipping passes over `skipped` in front of `behind`: a token, and those behind it up to a semicolon, which is
skipped, or to a keyword, which is not. -/
structure Skips (skipped behind : List Token) : Prop where
  ne_nil : skipped ≠ []
  noSemicolon : ∀ t ∈ skipped.dropLast, t.kind ≠ .semicolon
  noKeyword : ∀ t ∈ skipped.tail, startsStatement t.kind = false
  stops : behind = [] ∨ skipped.getLast?.map (·.kind) = some .semicolon ∨ Starts startsStatement behind

theorem Skips.cons {t u : Token} {skipped behind : List Token} (h : Skips (u :: skipped) behind)
    (ht : t.kind ≠ .semicolon) (hu : startsStatement u.kind = false) : Skips (t :: u :: skipped) behind where
  ne_nil := List.cons_ne_nil _ _
  noSemicolon := by
    rw [List.dropLast_cons_cons, List.forall_mem_cons]
    exact ⟨ht, h.noSemicolon⟩
  noKeyword := List.forall_mem_cons.2 ⟨hu, h.noKeyword⟩
  stops := by
    rw [List.getLast?_cons_cons]
    exact h.stops

theorem skips_singleton {t : Token} {behind : List Token}
    (h : behind = [] ∨ t.kind = .semicolon ∨ Starts startsStatement behind) : Skips [t] behind where
  ne_nil := List.cons_ne_nil _ _
  noSemicolon := by simp
  noKeyword := by simp
  stops := by simpa using h

theorem exists_skips (n : Nat) {ts : List Token} (hne : ts ≠ []) : ∃ skipped behind, ts = skipped ++ behind ∧
    Skips skipped behind ∧ skipStatement n ts = (behind, n + skipped.length) := by
  fun_induction skipStatement n ts with
  | case1 => exact absurd rfl hne
  | case2 n t => exact ⟨[t], [], rfl, skips_singleton (.inl rfl), rfl⟩
  | case3 n t next rest hstop =>
    exact ⟨[t], next :: rest, rfl, skips_singleton (.inr (hstop.imp_right fun h => ⟨next, rest, rfl, h⟩)), rfl⟩
  | case4 n t next rest hgoes ih =>
    obtain ⟨skipped, behind, hsplit, hskips, hrun⟩ := ih (List.cons_ne_nil _ _)
    rw [not_or] at hgoes
    cases skipped with
    | nil => exact absurd rfl hskips.ne_nil
    | cons u skipped =>
      cases hsplit
      refine ⟨t :: next :: skipped, behind, rfl, hskips.cons hgoes.1 (eq_false_of_ne_true hgoes.2), ?_⟩
      rw [hrun]
      simp only [List.length_cons]
      congr 1
      omega

/-! ## The rest of a reading -/

/-- A failure is reported, and tokens are skipped. -/
theorem recovering_error {x : Reader Stmt} {s s' : State} {b : Blame} (h : x.run s = .error b s') :
    (recovering x).run s = .ok none { s' with
      rest := (skipStatement 0 s'.rest).1, position := s'.position + (skipStatement 0 s'.rest).2,
      blames := s'.blames.push b } := by
  rw [recovering, Deep.run_tryCatch, map_eq_pure_bind, Deep.run_bind, h]
  simp only [Ending.fold, Deep.run_bind, complain, resume, Deep.run_of, Deep.run_pure]

/-- Two states in front of the same tokens. Before the second one there are `offset` tokens and the complaints
`earlier` more. -/
structure State.Moved (offset : Nat) (earlier : List Blame) (s s' : State) : Prop where
  rest_eq : s'.rest = s.rest
  position_eq : s'.position = s.position + offset
  blames_eq : s'.blames.toList = earlier ++ s.blames.toList.map (.shift offset)

/-- The next tokens are the same, and complaints about them differ by the offset. -/
theorem State.Moved.heads {offset : Nat} {earlier : List Blame} {s s' : State} (h : s.Moved offset earlier s') :
    Heads upToIds (State.Moved offset earlier) (fun b b' => b' = b.shift offset) (fun _ => false) s s' := by
  have hblame (o : Option Token) (cause : SyntaxError.Cause) :
      (⟨s'.position, o, cause⟩ : Blame) = Blame.shift offset ⟨s.position, o, cause⟩ := by
    rw [h.position_eq]
    rfl
  cases hs : s.rest with
  | nil =>
    have hs' := h.rest_eq.trans hs
    refine .border ?_ ?_ fun cause _ => ?_
    · rw [hs]
      trivial
    · rw [hs']
      trivial
    · rw [State.blame, State.blame, hs, hs']
      exact hblame none cause
  | cons t r =>
    refine .token hs (h.rest_eq.trans hs) rfl ⟨rfl, ?_, h.blames_eq⟩ (fun _ _ => hblame _ _) (hblame _ _)
    show s'.position + 1 = s.position + 1 + offset
    rw [h.position_eq]
    omega

/-- Readings of the same tokens, with more before them on the one side. -/
def moving (offset : Nat) (earlier : List Blame) : Parallel upToIds where
  States := State.Moved offset earlier
  Blames b b' := b' = b.shift offset
  ends _ := false
  heads := State.Moved.heads
  ids _ := trivial
  numbered h := ⟨h.rest_eq, h.position_eq, h.blames_eq⟩
  complained h hb := by
    refine ⟨h.rest_eq, h.position_eq, ?_⟩
    simp [h.blames_eq, hb]

/-- What was read before does not matter to where the loop comes. -/
theorem declarations_endState (closing : Kind → Bool) (declaration : Reader (Option Stmt)) (n : Nat)
    (done done' : Array Stmt) (s : State) :
    endState ((declarations closing declaration n done).run s) =
      endState ((declarations closing declaration n done').run s) := by
  induction n generalizing done done' s with
  | zero => rfl
  | succ n ih =>
    rw [declarations, declarations, Deep.run_bind, Deep.run_bind, next?, Deep.run_of]
    cases s.rest.head? with
    | none => rfl
    | some t =>
      simp only [Ending.fold]
      split
      · rfl
      · rw [Deep.run_bind, Deep.run_bind]
        cases declaration.run s with
        | ok o s' =>
          cases o with
          | none => exact ih done done' s'
          | some stmt => exact ih (done.push stmt) (done'.push stmt) s'
        | error blame s' => rfl

/-- A reading comes to the end of the tokens, so its complaints are those that were made on the way. -/
theorem read_blames_eq (ts : List Token) (i : NodeId) :
    (read ts i).blames = (endState ((toEnd (2 * ts.length + 2)).run (.start ts i))).blames.toList := by
  have hlength : (State.start ts i).rest.length < 2 * ts.length + 2 := by
    show ts.length < _
    omega
  obtain ⟨body, s', hrun, -⟩ := declarations_end (declaration_run (2 * ts.length + 1)) (fun _ => false)
    (2 * ts.length + 2) (.start ts i) #[] hlength
  rw [toEnd, hrun, read, hrun]
  rfl

/-- From any state on, the loop complains about what a reading of the tokens that are left complains about. -/
theorem blames_from {b n : Nat} {s : State} (hb : 2 * s.rest.length + 2 ≤ b) (hn : 2 * s.rest.length + 2 ≤ n)
    (done : Array Stmt) :
    (endState ((declarations (fun _ => false) (declaration b) n done).run s)).blames.toList =
      s.blames.toList ++ (read s.rest 0).blames.map (.shift s.position) := by
  obtain ⟨-, hd, hf⟩ := alike_statement_declaration b
  let bound := 2 * s.rest.length + 2
  have hbound : Above s.rest.length n bound := by omega
  have halike := alike_declarations hbound (hd s.rest.length bound (by omega)) hf (fun _ => false) done s
    (Nat.le_refl _)
  let P := moving s.position s.blames.toList
  have hends := P.rel_declarations (fun _ => rfl) (P.rel_statement_declaration (fun _ => rfl) bound).2
    (fun _ => false) bound #[] #[] .nil (.start s.rest 0) s
    ⟨rfl, (Nat.zero_add _).symm, (List.append_nil _).symm⟩
  rw [halike.run_eq, declarations_endState _ _ _ done #[], read_blames_eq]
  generalize (toEnd (2 * s.rest.length + 2)).run (.start s.rest 0) = r at hends ⊢
  generalize (declarations (fun _ => false) (declaration bound) bound #[]).run s = r' at hends ⊢
  cases hends with
  | ok _ hs => exact hs.blames_eq
  | error _ hs => exact hs.blames_eq

/-- Once the loop has passed over some tokens, the complaints about the others are those that they have on their own. -/
theorem PassesOver.read_append {ts rest : List Token} {blames : List Blame}
    (h : PassesOver (2 * (ts ++ rest).length + 2) ts rest blames) (i : NodeId) :
    (read (ts ++ rest) i).blames = blames ++ (read rest 0).blames.map (.shift ts.length) := by
  obtain ⟨s', k, hk, hrest, hposition, hblames, hloop⟩ := h (.start (ts ++ rest) i) rfl
  have hlength : (ts ++ rest).length = ts.length + rest.length := List.length_append
  obtain ⟨n, hn⟩ : ∃ n, 2 * (ts ++ rest).length + 2 = n + k := ⟨2 * (ts ++ rest).length + 2 - k, by omega⟩
  obtain ⟨done', hrun⟩ := hloop n #[]
  have hzero : Blame.shift 0 = id := rfl
  rw [read_blames_eq, toEnd]
  nth_rewrite 2 [hn]
  rw [hrun, blames_from (by rw [hrest]; omega) (by rw [hrest]; omega), hblames, hrest, hposition]
  show [] ++ blames.map (Blame.shift 0) ++ (read rest 0).blames.map (Blame.shift (0 + ts.length)) = _
  rw [hzero, List.map_id, List.nil_append, Nat.zero_add]

/-! ## A statement without its semicolon -/

/-- Keywords at which a statement starts, apart from the one of a statement that is not supported. -/
def startsSupported (k : Kind) : Bool := startsStatement k && k != .kwClass

/-- No such keyword is a part of an expression, or what may come behind one. -/
theorem startsSupported.stops {k : Kind} (h : startsSupported k = true) :
    continues 0 k = false ∧ k ≠ .semicolon ∧ k ≠ .equal ∧ k ≠ .kwElse ∧ startsPrimary k = false ∧
      isUnaryOp k = false ∧ k.isReserved = false := by
  cases k with
  | kwFun | kwVar | kwFor | kwIf | kwWhile | kwPrint | kwReturn => decide
  | _ => cases h

section
variable {i j : NodeId} {ts us rest : List Token} {cause : SyntaxError.Cause}

theorem Leads.later {x : Unit → Reader α} {y : Reader α} (h : Leads (x ()) i ts rest y j) :
    Leads (.later x) i ts rest y j := by
  intro p bs
  rw [Deep.run_later, h]

/-- What is to come behind a failure does not. -/
theorem Leads.failed {x : Reader α} {f : α → Reader β} (h : Leads x i ts rest (fail cause) j) :
    Leads (x >>= f) i ts rest (fail cause) j := by
  intro p bs
  rw [Deep.run_bind, h, fail, fail, Deep.run_of, Deep.run_of]
  rfl

theorem leads_expect {k : Kind} {what : SyntaxError.Expected} {f : Token → Reader α}
    (h : ¬ Starts (· == k) rest) : Leads (expect k what >>= f) i [] rest (fail (.expected what)) i := by
  have hexpect : Leads (expect k what) i [] rest (fail (.expected what)) i := by
    intro p bs
    rw [List.nil_append, expect_none_run h, fail, Deep.run_of]
    rfl
  exact hexpect.failed

/-- The failure is reported, and skipping starts at the token that is blamed. -/
theorem run_recovering {x : Reader Stmt} (h : Leads x i ts rest (fail cause) j) (p : Nat) (bs : Array Blame) :
    (recovering x).run ⟨ts ++ rest, p, i, bs⟩ =
      .ok none ⟨(skipStatement 0 rest).1, p + ts.length + (skipStatement 0 rest).2, j,
        bs.push ⟨p + ts.length, rest.head?, cause⟩⟩ := by
  have hrun : x.run ⟨ts ++ rest, p, i, bs⟩ =
      .error ⟨p + ts.length, rest.head?, cause⟩ ⟨rest, p + ts.length, j, bs⟩ := by
    rw [h, fail, Deep.run_of]
    rfl
  exact recovering_error hrun

end

section
variable {i j : NodeId} {ts : List Token} {t : Token} {bound : Nat} (ht : startsSupported t.kind = true)
  (more : List Token)
include ht

theorem not_starts_semicolon : ¬ Starts (· == .semicolon) (t :: more) :=
  not_starts_cons (beq_eq_false_iff_ne.2 (startsSupported.stops ht).2.1)

/-- A value is read up to the keyword, where the semicolon is missed. -/
theorem leads_value {e : Expr} {what : SyntaxError.Expected} {f : Expr → Token → Reader α}
    (he : Spells (.expr e) i ts j) (hlt : ts.length < bound) :
    Leads (expression bound >>= fun e => expect .semicolon what >>= f e) i ts (t :: more) (fail (.expected what)) j :=
  (reads_expression he hlt (startsSupported.stops ht).1).last (leads_expect (not_starts_semicolon ht more))

/-- There is no expression at the keyword. -/
theorem leads_expression : Leads (expression bound) i [] (t :: more) (fail (.expected .expression)) i := by
  obtain ⟨-, -, -, -, hprimary, hunary, hreserved⟩ := startsSupported.stops ht
  intro p bs
  have hmissing : Missing ⟨t :: more, p, i, bs⟩ (expression bound) := by
    refine missing_expression ?_ bound
    intro u hu
    cases hu
    exact ⟨hprimary, hunary, hreserved⟩
  exact hmissing.trans (missing_fail _).symm

theorem leads_variableDeclaration {s : Stmt} (h : Spells (.varDecl s) i ts j) (hlt : ts.length ≤ bound) :
    ∃ v front c k, ts = v :: front ++ [c] ∧ v.kind = .kwVar ∧ s.missing? = some .semicolonAfterDeclaration ∧
      Leads (variableDeclaration bound) i front (t :: more) (fail (.expected .semicolonAfterDeclaration)) k := by
  have hnone : ¬ Starts (· == .equal) (t :: more) :=
    not_starts_cons (beq_eq_false_iff_ne.2 (startsSupported.stops ht).2.2.1)
  simp only [variableDeclaration]
  cases h with
  | @varBare _ v name c hv hn hc =>
    refine ⟨v, [name], c, i, rfl, hv, rfl, (reads_expect hn).cons ((reads_accept_none hnone).still ?_)⟩
    exact Reads.still (Leads.refl (pure none) _ _) (leads_expect (not_starts_semicolon ht more))
  | @varInit _ j v name sign e ts c hv hn hsign he hc =>
    simp only [List.length_append, List.length_cons] at hlt
    refine ⟨v, name :: sign :: ts, c, j, rfl, hv, rfl, (reads_expect hn).cons ?_⟩
    refine (reads_accept (by simp [hsign])).cons ?_
    refine (reads_expression he (by omega) (startsSupported.stops ht).1).map.last ?_
    exact leads_expect (not_starts_semicolon ht more)

theorem leads_returnStatement {r : Token} {o : Option Expr} {id : NodeId} {what : SyntaxError.Expected}
    (h : Spells (.maybe o) i ts j) (hw : (Stmt.ret id r o).missing? = some what) (hlt : ts.length < bound) :
    Leads (returnStatement r bound) i ts (t :: more) (fail (.expected what)) j := by
  rw [returnStatement, optionalExpression]
  have hfirst := spells_first h
  cases h with
  | absent =>
    cases hw
    refine Leads.failed (reads_nextKind.still ?_)
    have hhead : headKind ([] ++ t :: more) ≠ .semicolon := (startsSupported.stops ht).2.1
    rw [if_neg fun hk => hhead (beq_iff_eq.1 hk)]
    exact (leads_expression ht more).failed
  | @present _ _ e _ he =>
    cases hw
    obtain ⟨u, us, rfl, hu⟩ : Starts startsExpression ts := hfirst
    have hhead : headKind (u :: us ++ t :: more) ≠ .semicolon := by
      intro hsemicolon
      have hkind : u.kind = .semicolon := hsemicolon
      rw [hkind] at hu
      cases hu
    have hvalue : Reads (expression bound >>= fun e => pure (some e)) i (u :: us) (t :: more) (some e) j :=
      (reads_expression he hlt (startsSupported.stops ht).1).last (Leads.refl _ _ _)
    rw [bind_assoc]
    refine reads_nextKind.still ?_
    rw [if_neg fun hk => hhead (beq_iff_eq.1 hk)]
    exact hvalue.last (leads_expect (not_starts_semicolon ht more))

theorem leads_statement {b : Bool} {s : Stmt} {what : SyntaxError.Expected} (h : Spells (.stmt b s) i ts j)
    (hw : s.missing? = some what) (hlt : ts.length ≤ bound) :
    ∃ front c k, ts = front ++ [c] ∧ Starts startsPlainStatement front ∧
      Leads (statement (bound + 1)) i front (t :: more) (fail (.expected what)) k := by
  rw [statement]
  cases h with
  | expression hs =>
    cases hs with
    | @exprStmt _ j e ts c he hc =>
      rw [List.length_append, List.length_singleton] at hlt
      cases hw
      have hfirst : Starts startsExpression ts := spells_first he
      have hnone : ¬ Starts startsKeywordStatement (ts ++ t :: more) :=
        hfirst.not_append (fun k hk => by cases k <;> first | rfl | cases hk) _
      refine ⟨ts, c, j, rfl, hfirst.imp fun k hk => ?_, .later ((reads_accept_none hnone).still ?_)⟩
      · rw [startsPlainStatement, hk, Bool.true_or]
      · exact leads_value ht more he (by omega)
  | @print _ j p e ts c hp he hc =>
    simp only [List.length_cons, List.length_append] at hlt
    cases hw
    refine ⟨p :: ts, c, j, rfl, ⟨p, ts, rfl, by rw [hp]; rfl⟩, .later ((reads_accept (by rw [hp]; rfl)).cons ?_)⟩
    simp only [hp]
    exact leads_value ht more he (by omega)
  | @ret _ j r o ts c hr ho hc =>
    simp only [List.length_cons, List.length_append] at hlt
    refine ⟨r :: ts, c, j, rfl, ⟨r, ts, rfl, by rw [hr]; rfl⟩, .later ((reads_accept (by rw [hr]; rfl)).cons ?_)⟩
    simp only [hr]
    exact leads_returnStatement ht more ho hw (by omega)
  | block | whileLoop | ifThen | ifElse => cases hw
  | @forLoop _ _ _ _ n _ _ o _ cond _ _ x _ _ _ body _ =>
    -- what a loop stands for is a loop or a block
    have hnone : (forTree o cond x body n).1.missing? = none := by
      cases o <;> cases cond <;> cases x <;> rfl
    rw [hnone] at hw
    cases hw

/-- A declaration that ends with a semicolon, read without it, fails at the keyword. -/
theorem leads_missing {s : Stmt} {what : SyntaxError.Expected} (h : Spells (.decl s) i ts j)
    (hw : s.missing? = some what) (hlt : ts.length ≤ bound) (declaration : Reader (Option Stmt)) :
    ∃ front c k, ts = front ++ [c] ∧
      Leads (declarationForm declaration (statement (bound + 1)) (bound + 1)) i front (t :: more)
        (fail (.expected what)) k := by
  rw [declarationForm]
  cases h with
  | «variable» hv =>
    obtain ⟨v, front, c, k, rfl, hk, hmissing, hleads⟩ := leads_variableDeclaration ht more hv (Nat.le_succ_of_le hlt)
    cases hmissing.symm.trans hw
    refine ⟨v :: front, c, k, rfl, reads_nextKind.still ?_⟩
    simp only [List.cons_append, headKind, hk]
    exact (reads_accept (by simp [hk])).cons hleads
  | function => cases hw
  | statement hstmt =>
    obtain ⟨front, c, k, rfl, ⟨u, us, rfl, hu⟩, hleads⟩ := leads_statement ht more hstmt hw hlt
    refine ⟨u :: us, c, k, rfl, reads_nextKind.still ?_⟩
    split
    case h_1 hk | h_2 hk | h_3 hk =>
      have hkind : u.kind = _ := hk
      rw [hkind] at hu
      cases hu
    · exact hleads

end

/-! ## The last statement of a program -/

theorem spells_concat {ss : List Stmt} {s : Stmt} {i j : NodeId} {ts : List Token}
    (h : Spells (.body (ss ++ [s])) i ts j) :
    ∃ us vs k, ts = us ++ vs ∧ Spells (.body ss) i us k ∧ Spells (.decl s) k vs j := by
  induction ss generalizing i ts with
  | nil =>
    cases h with
    | bodyCons hs hnil =>
      cases hnil
      exact ⟨[], _, i, List.append_nil _, .bodyNil, hs⟩
  | cons s' ss ih =>
    cases h with
    | bodyCons hs hss =>
      obtain ⟨us, vs, k, rfl, hus, hvs⟩ := ih hss
      exact ⟨_ ++ us, vs, k, (List.append_assoc _ _ _).symm, .bodyCons hs hus, hvs⟩

/-- The last token of a body is the last one of its last statement. -/
theorem spells_concat_token {ss : List Stmt} {s : Stmt} {i j : NodeId} {front : List Token} {c : Token}
    (h : Spells (.body (ss ++ [s])) i (front ++ [c]) j) :
    ∃ us vs k, front = us ++ vs ∧ Spells (.body ss) i us k ∧ Spells (.decl s) k (vs ++ [c]) j := by
  obtain ⟨us, vs, k, hts, hss, hs⟩ := spells_concat h
  have hfirst : Starts startsDeclaration vs := spells_first hs
  rcases List.eq_nil_or_concat vs with rfl | ⟨vs, d, rfl⟩
  · exact absurd hfirst not_starts_nil
  · rw [List.concat_eq_append, ← List.append_assoc] at hts
    rw [List.concat_eq_append] at hs
    obtain ⟨rfl, hc⟩ := List.append_inj' hts rfl
    cases hc
    exact ⟨us, vs, k, rfl, hss, hs⟩

/-- The same tokens spell a body whatever the numbers of its nodes. -/
theorem spells_renumber {ss : List Stmt} {i j : NodeId} {ts : List Token} (h : Spells (.body ss) i ts j)
    (i' : NodeId) : ∃ ss' j', Spells (.body ss') i' ts j' ∧ Program.eraseIds ss' = Program.eraseIds ss := by
  have hfront : (ts ++ [Token.endOfInput 0]).takeWhile (·.kind != .eof) = ts :=
    takeWhile_ne_eof (ne_eof_of_spells h) rfl
  have hok : (Program.ofTokens (ts ++ [.endOfInput 0]) i).program = .ok ss := by
    rw [ofTokens_eq_ok_iff, hfront]
    exact ⟨j, h⟩
  rcases except_map_eq (ofTokens_renumber (ts ++ [.endOfInput 0]) i' i) with
    ⟨errors, -, herror⟩ | ⟨ss', q, hok', hq, hids⟩
  · cases hok.symm.trans herror
  · cases hok.symm.trans hq
    rw [ofTokens_eq_ok_iff, hfront] at hok'
    obtain ⟨j', hspells⟩ := hok'
    exact ⟨ss', j', hspells, hids⟩

theorem spells_decl_renumber {s : Stmt} {i j : NodeId} {ts : List Token} (h : Spells (.decl s) i ts j)
    (i' : NodeId) : ∃ s' j', Spells (.decl s') i' ts j' ∧ s'.missing? = s.missing? := by
  have hbody := Spells.bodyCons h .bodyNil
  rw [List.append_nil] at hbody
  obtain ⟨ss, j', hss, hids⟩ := spells_renumber hbody i'
  obtain ⟨s', rfl, hs'⟩ := List.map_eq_singleton_iff.1 hids
  cases hss with
  | bodyCons hs hnil =>
    cases hnil
    rw [List.append_nil]
    refine ⟨s', j', hs, ?_⟩
    rw [← Stmt.missing?_eraseIds, hs', Stmt.missing?_eraseIds]

/-- The loop passes over a statement without its semicolon and what is skipped behind it. -/
theorem passesOver_missing {s : Stmt} {what : SyntaxError.Expected} {i j : NodeId} {front more skipped : List Token}
    {behind : List Token} {semicolon t : Token} {b : Nat} (h : Spells (.decl s) i (front ++ [semicolon]) j)
    (hw : s.missing? = some what) (ht : startsSupported t.kind = true) (hmore : t :: more = skipped ++ behind)
    (hskip : skipStatement 0 (t :: more) = (behind, 0 + skipped.length)) (hne : skipped ≠ [])
    (hb : front.length + 3 ≤ b) :
    PassesOver b (front ++ skipped) behind [⟨front.length, some t, .expected what⟩] := by
  obtain ⟨bound, rfl⟩ : ∃ bound, b = bound + 1 + 1 := ⟨b - 2, by omega⟩
  refine .of_declaration (fun hnil => hne (List.append_eq_nil_iff.1 hnil).2) fun s₀ hs₀ => ?_
  obtain ⟨rest, p, id, bs⟩ := s₀
  obtain ⟨s', k, hs', hmissing⟩ := spells_decl_renumber h id
  have hbound : (front ++ [semicolon]).length ≤ bound := by
    rw [List.length_append, List.length_singleton]
    omega
  obtain ⟨front', c, k', hfront, hleads⟩ := leads_missing ht more hs' (hmissing.trans hw) hbound
    (declaration (bound + 1))
  obtain ⟨rfl, -⟩ := List.append_inj' hfront rfl
  have hrest : rest = front ++ t :: more := by
    rw [hmore, ← List.append_assoc]
    exact hs₀
  have hrun := run_recovering hleads p bs
  rw [hskip] at hrun
  refine ⟨none, ⟨behind, p + front.length + (0 + skipped.length), k',
    bs.push ⟨p + front.length, some t, .expected what⟩⟩, ?_, rfl, ?_, ?_⟩
  · rw [hrest, declaration, Deep.run_later, hrun]
    rfl
  · simp [Nat.add_assoc]
  · simp [Blame.shift, Nat.add_comm]

/-- The same for a body, whose other statements are passed over without a complaint. -/
theorem passesOver_body_missing {ss : List Stmt} {s : Stmt} {what : SyntaxError.Expected} {i j k : NodeId}
    {us vs more skipped behind : List Token} {semicolon t : Token} {b : Nat} (hss : Spells (.body ss) i us j)
    (hs : Spells (.decl s) j (vs ++ [semicolon]) k) (hw : s.missing? = some what)
    (ht : startsSupported t.kind = true) (hmore : t :: more = skipped ++ behind)
    (hskip : skipStatement 0 (t :: more) = (behind, 0 + skipped.length)) (hne : skipped ≠ [])
    (hb : 2 * us.length + vs.length + 3 ≤ b) :
    PassesOver b (us ++ (vs ++ skipped)) behind [⟨vs.length + us.length, some t, .expected what⟩] := by
  have hlast := passesOver_missing hs hw ht hmore hskip hne (b := b) (by omega)
  refine PassesOver.append (passesOver_of_spells ?_ (by omega) fun i => ?_) hlast
  · -- an `else` behind the first part would belong to it
    rw [List.append_assoc, ← hmore]
    cases vs with
    | nil => exact not_starts_cons (beq_eq_false_iff_ne.2 (startsSupported.stops ht).2.2.2.1)
    | cons u vs =>
      obtain ⟨_, _, hcons, hu⟩ : Starts startsDeclaration (u :: vs ++ [semicolon]) := spells_first hs
      cases hcons
      exact not_starts_cons (by revert hu; cases u.kind <;> decide)
  · obtain ⟨ss', j', hss', -⟩ := spells_renumber hss i
    exact ⟨ss', j', hss'⟩

/-- A program whose last statement lacks its semicolon, in front of a statement that starts with a keyword, has the
error for the semicolon, which blames the keyword, and the errors of what is behind the tokens that are skipped. The
keyword is the first of these, so that the statement it starts is lost. -/
theorem missing_semicolon_hides_a_statement {front rest : List Token} {semicolon t : Token} {p : Program}
    {what : SyntaxError.Expected} (i j : NodeId) (endLine line : Nat)
    (hread : (Program.ofTokens (front ++ [semicolon, .endOfInput endLine]) j).program = .ok p)
    (hlast : p.getLast?.bind Stmt.missing? = some what)
    (hnoEnd : ∀ u ∈ front ++ semicolon :: rest, u.kind ≠ .eof) (ht : startsSupported t.kind = true) :
    ∃ skipped behind, t :: rest = skipped ++ behind ∧ Skips skipped behind ∧
      (read (front ++ t :: rest) i).blames = ⟨front.length, some t, .expected what⟩ ::
        (read behind 0).blames.map (.shift (front.length + skipped.length)) ∧
      Program.syntaxErrors (front ++ t :: rest ++ [.endOfInput line]) =
        ⟨t.line, .token t.lexeme, .expected what⟩ :: Program.syntaxErrors (behind ++ [.endOfInput line]) := by
  obtain ⟨hfront, hrest⟩ := List.forall_mem_append.1 hnoEnd
  obtain ⟨hsemicolon, hrest⟩ := List.forall_mem_cons.1 hrest
  have hprogram : ∀ u ∈ front ++ [semicolon], u.kind ≠ .eof :=
    List.forall_mem_append.2 ⟨hfront, List.forall_mem_singleton.2 hsemicolon⟩
  have hsplit : front ++ [semicolon, .endOfInput endLine] = front ++ [semicolon] ++ [.endOfInput endLine] := by simp
  rw [hsplit, ofTokens_eq_ok_iff, takeWhile_ne_eof hprogram rfl] at hread
  obtain ⟨k, hspells⟩ := hread
  obtain ⟨last, hp, hmissing⟩ := Option.bind_eq_some_iff.1 hlast
  obtain ⟨earlier, rfl⟩ := List.getLast?_eq_some_iff.1 hp
  obtain ⟨us, statement, k', rfl, hbody, hdecl⟩ := spells_concat_token hspells
  obtain ⟨skipped, behind, hmore, hskips, hskip⟩ := exists_skips 0 (List.cons_ne_nil t rest)
  have hall : us ++ (statement ++ skipped) ++ behind = us ++ statement ++ t :: rest := by
    rw [hmore]
    simp only [List.append_assoc]
  have hbound : 2 * us.length + statement.length + 3 ≤ 2 * (us ++ (statement ++ skipped) ++ behind).length + 2 := by
    rw [hall, List.length_append, List.length_append, List.length_cons]
    omega
  have hpasses := passesOver_body_missing hbody hdecl hmissing ht hmore hskip hskips.ne_nil hbound
  have hblames (i : NodeId) : (read (us ++ statement ++ t :: rest) i).blames =
      ⟨(us ++ statement).length, some t, .expected what⟩ ::
        (read behind 0).blames.map (.shift ((us ++ statement).length + skipped.length)) := by
    have hposition : (us ++ statement).length = statement.length + us.length := by
      rw [List.length_append, Nat.add_comm]
    have hoffset : (us ++ (statement ++ skipped)).length = (us ++ statement).length + skipped.length := by
      rw [← List.append_assoc, List.length_append]
    have hread := hpasses.read_append i
    rw [hall, hoffset, hposition] at hread
    rw [hread, hposition]
    rfl
  refine ⟨skipped, behind, hmore, hskips, hblames i, ?_⟩
  have hkeyword : t.kind ≠ .eof := by
    intro hkind
    rw [hkind] at ht
    cases ht
  have hbehind : ∀ u ∈ skipped ++ behind, u.kind ≠ .eof := hmore ▸ List.forall_mem_cons.2 ⟨hkeyword, hrest⟩
  rw [syntaxErrors_eq (List.forall_mem_append.2 ⟨hfront, hmore ▸ hbehind⟩),
    syntaxErrors_eq (List.forall_mem_append.1 hbehind).2, hblames 0, List.map_cons, List.map_map]
  rfl

/-- Three statements with errors. The second one is lost, and the third one is read where it stands. -/
theorem missing_semicolon_hides_a_statement_between :
    let front := (scan "var a; print 1").1.dropLast
    let keyword : Token := ⟨.kwPrint, "print", none, 1⟩
    let rest := (scan "); var 2;").1.dropLast
    (read (front ++ keyword :: rest) 0).blames.map (·.position) = [5, 9] ∧
    ∃ skipped behind, keyword :: rest = skipped ++ behind ∧ Skips skipped behind ∧
      (read (front ++ keyword :: rest) 0).blames = ⟨5, some keyword, .expected .semicolonAfterValue⟩ ::
        (read behind 0).blames.map (.shift (5 + skipped.length)) ∧
      Program.syntaxErrors (front ++ keyword :: rest ++ [.endOfInput 1]) =
        ⟨1, .token "print", .expected .semicolonAfterValue⟩ ::
          Program.syntaxErrors (behind ++ [.endOfInput 1]) := by
  intro front keyword rest
  let parsed := Program.ofTokens (front ++ [⟨.semicolon, ";", none, 1⟩, .endOfInput 1]) 0
  have hparsed : (parsed.program.toOption.bind fun p => p.getLast?.bind Stmt.missing?) =
      some .semicolonAfterValue := by decide +kernel
  have hnoEnd : ∀ u ∈ front ++ ⟨.semicolon, ";", none, 1⟩ :: rest, u.kind ≠ .eof := by decide +kernel
  have hlength : front.length = 5 := by decide +kernel
  obtain ⟨p, hp, hlast⟩ := Option.bind_eq_some_iff.1 hparsed
  have hread : parsed.program = .ok p := by
    cases hprogram : parsed.program with
    | ok q =>
      rw [hprogram] at hp
      cases hp
      rfl
    | error errors =>
      rw [hprogram] at hp
      cases hp
  refine ⟨by decide +kernel, ?_⟩
  have hresult := missing_semicolon_hides_a_statement (t := keyword) 0 0 1 1 hread hlast hnoEnd rfl
  rw [hlength] at hresult
  exact hresult

/-- The statement behind the missing semicolon has an error on its own, which is not among the errors of both. -/
theorem missing_semicolon_hides_an_error :
    Program.syntaxErrors (scan "print 1;").1 = [] ∧
    Program.syntaxErrors (scan "print );").1 = [⟨1, .token ")", .expected .expression⟩] ∧
    Program.syntaxErrors (scan "print 1 print );").1 = [⟨1, .token "print", .expected .semicolonAfterValue⟩] := by
  decide +kernel

end Grammar
end Lox
