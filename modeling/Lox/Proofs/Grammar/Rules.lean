import Lox.Token.Basic

/-!
# The grammar of programs

The grammar as data: a rule for each nonterminal, made of tokens, nonterminals, sequence (`++`),
choice (`|||`), repetition and option. `Derives r ks` says that the kinds `ks` can be derived from
`r`, and `Matches r ts` says it of the kinds of the tokens `ts`.

The grammar is ambiguous: in `if (a) if (b) x; else y;` it leaves open to which `if` the `else`
belongs. What reading makes of it is the subject of `Spelling`.

**Results.**
* One `matches_*` lemma for each way of building a rule; by `matches_many_iff` a repetition is a list
  of parts.
* `Matches.holds`: the induction over derivations, with one case for each nonterminal.
-/
namespace Lox.Grammar

open Token (Kind)

inductive Nonterminal where
  | program | declaration | funDecl | parameters | varDecl
  | statement | exprStmt | forStmt | ifStmt | printStmt | returnStmt | whileStmt | block
  | expression | assignment | logicOr | logicAnd | equality | comparison | term | factor
  | unary | call | arguments | primary
  deriving DecidableEq, Repr

/-- The right side of a rule. -/
inductive Rule where
  | token (k : Kind)
  | nonterminal (n : Nonterminal)
  | seq (a b : Rule)
  | alt (a b : Rule)
  | many (a : Rule)
  | maybe (a : Rule)
  deriving DecidableEq, Repr

instance : Coe Kind Rule := ⟨.token⟩
instance : Coe Nonterminal Rule := ⟨.nonterminal⟩
instance : OrOp Rule := ⟨.alt⟩

/-- One rule behind the other. Sequences are grouped to the right, however they are written. -/
def Rule.append : Rule → Rule → Rule
  | .seq a b, c => .seq a (b.append c)
  | a, c => .seq a c

instance : Append Rule := ⟨.append⟩

namespace Nonterminal

open Token.Kind Rule

/-- The rule of a nonterminal. -/
def rule : Nonterminal → Rule
  | program => many declaration ++ eof
  | declaration => (funDecl : Rule) ||| varDecl ||| statement
  | funDecl => (kwFun : Rule) ++ identifier ++ leftParen ++ maybe parameters ++ rightParen ++ block
  | parameters => identifier ++ many ((comma : Rule) ++ identifier)
  | varDecl => (kwVar : Rule) ++ identifier ++ maybe ((equal : Rule) ++ expression) ++ semicolon
  | statement => (exprStmt : Rule) ||| forStmt ||| ifStmt ||| printStmt ||| returnStmt |||
      whileStmt ||| block
  | exprStmt => (expression : Rule) ++ semicolon
  | forStmt => (kwFor : Rule) ++ leftParen ++ ((varDecl : Rule) ||| exprStmt ||| semicolon) ++
      maybe expression ++ semicolon ++ maybe expression ++ rightParen ++ statement
  | ifStmt => (kwIf : Rule) ++ leftParen ++ expression ++ rightParen ++ statement ++
      maybe ((kwElse : Rule) ++ statement)
  | printStmt => (kwPrint : Rule) ++ expression ++ semicolon
  | returnStmt => (kwReturn : Rule) ++ maybe expression ++ semicolon
  | whileStmt => (kwWhile : Rule) ++ leftParen ++ expression ++ rightParen ++ statement
  | block => (leftBrace : Rule) ++ many declaration ++ rightBrace
  | expression => assignment
  | assignment => (identifier : Rule) ++ equal ++ assignment ||| logicOr
  | logicOr => (logicAnd : Rule) ++ many ((kwOr : Rule) ++ logicAnd)
  | logicAnd => (equality : Rule) ++ many ((kwAnd : Rule) ++ equality)
  | equality => (comparison : Rule) ++ many (((bangEqual : Rule) ||| equalEqual) ++ comparison)
  | comparison => (term : Rule) ++
      many (((greater : Rule) ||| greaterEqual ||| less ||| lessEqual) ++ term)
  | term => (factor : Rule) ++ many (((minus : Rule) ||| plus) ++ factor)
  | factor => (unary : Rule) ++ many (((slash : Rule) ||| star) ++ unary)
  | unary => ((bang : Rule) ||| minus) ++ unary ||| call
  | call => (primary : Rule) ++ many ((leftParen : Rule) ++ maybe arguments ++ rightParen)
  | arguments => (expression : Rule) ++ many ((comma : Rule) ++ expression)
  | primary => (number : Rule) ||| string ||| kwTrue ||| kwFalse ||| kwNil |||
      (leftParen : Rule) ++ expression ++ rightParen ||| identifier

end Nonterminal

inductive Derives : Rule → List Kind → Prop where
  | token (k : Kind) : Derives k [k]
  | rule {n : Nonterminal} {ks : List Kind} (h : Derives n.rule ks) : Derives n ks
  | seq {a b : Rule} {ks ls : List Kind} (ha : Derives a ks) (hb : Derives b ls) :
      Derives (a.seq b) (ks ++ ls)
  | left {a b : Rule} {ks : List Kind} (h : Derives a ks) : Derives (a ||| b) ks
  | right {a b : Rule} {ks : List Kind} (h : Derives b ks) : Derives (a ||| b) ks
  | manyNil {a : Rule} : Derives a.many []
  | manyCons {a : Rule} {ks ls : List Kind} (ha : Derives a ks) (hs : Derives a.many ls) :
      Derives a.many (ks ++ ls)
  | absent {a : Rule} : Derives a.maybe []
  | present {a : Rule} {ks : List Kind} (h : Derives a ks) : Derives a.maybe ks

/-- The kinds of the tokens can be derived from a rule. -/
def Matches (r : Rule) (ts : List Token) : Prop := Derives r (ts.map (·.kind))

variable {a b r : Rule} {n : Nonterminal} {k : Kind} {ts : List Token}

theorem matches_token : Matches k ts ↔ ∃ t, ts = [t] ∧ t.kind = k := by
  constructor
  · intro h
    unfold Matches at h
    generalize hks : ts.map (·.kind) = ks at h
    cases h
    obtain ⟨t, rfl, ht⟩ := List.map_eq_singleton_iff.1 hks
    exact ⟨t, rfl, ht⟩
  · intro h
    obtain ⟨t, rfl, rfl⟩ := h
    exact .token _

theorem matches_rule : Matches n ts ↔ Matches n.rule ts :=
  ⟨fun h => by cases h; assumption, .rule⟩

theorem matches_seq : Matches (a.seq b) ts ↔ ∃ us vs, ts = us ++ vs ∧ Matches a us ∧ Matches b vs := by
  constructor
  · intro h
    unfold Matches at h
    generalize hks : ts.map (·.kind) = ks at h
    cases h with
    | seq ha hb =>
      obtain ⟨us, vs, rfl, rfl, rfl⟩ := List.map_eq_append_iff.1 hks
      exact ⟨us, vs, rfl, ha, hb⟩
  · intro h
    obtain ⟨us, vs, rfl, ha, hb⟩ := h
    unfold Matches
    rw [List.map_append]
    exact .seq ha hb

theorem matches_token_seq :
    Matches (.seq k r) ts ↔ ∃ t us, ts = t :: us ∧ t.kind = k ∧ Matches r us := by
  rw [matches_seq]
  constructor
  · intro h
    obtain ⟨_, us, rfl, ht, h⟩ := h
    obtain ⟨t, rfl, hk⟩ := matches_token.1 ht
    exact ⟨t, us, rfl, hk, h⟩
  · intro h
    obtain ⟨t, us, rfl, hk, h⟩ := h
    exact ⟨[t], us, rfl, matches_token.2 ⟨t, rfl, hk⟩, h⟩

theorem Matches.seq {us vs : List Token} (ha : Matches a us) (hb : Matches b vs) :
    Matches (.seq a b) (us ++ vs) :=
  matches_seq.2 ⟨us, vs, rfl, ha, hb⟩

theorem Matches.one {t : Token} (ht : t.kind = k) : Matches k [t] := matches_token.2 ⟨t, rfl, ht⟩

theorem Matches.cons {t : Token} {us : List Token} (ht : t.kind = k) (h : Matches r us) :
    Matches (.seq k r) (t :: us) :=
  matches_token_seq.2 ⟨t, us, rfl, ht, h⟩

theorem matches_alt : Matches (a ||| b) ts ↔ Matches a ts ∨ Matches b ts := by
  constructor
  · intro h
    cases h with
    | left h => exact .inl h
    | right h => exact .inr h
  · intro h
    rcases h with h | h
    · exact .left h
    · exact .right h

theorem Matches.left (h : Matches a ts) : Matches (a ||| b) ts := matches_alt.2 (.inl h)

theorem Matches.right (h : Matches b ts) : Matches (a ||| b) ts := matches_alt.2 (.inr h)

theorem matches_maybe : Matches r.maybe ts ↔ ts = [] ∨ Matches r ts := by
  constructor
  · intro h
    unfold Matches at h
    generalize hks : ts.map (·.kind) = ks at h
    cases h with
    | absent => exact .inl (List.map_eq_nil_iff.1 hks)
    | present h =>
      rw [← hks] at h
      exact .inr h
  · intro h
    rcases h with rfl | h
    · exact .absent
    · exact .present h

theorem matches_many : Matches r.many ts ↔
    ts = [] ∨ ∃ us vs, ts = us ++ vs ∧ Matches r us ∧ Matches r.many vs := by
  constructor
  · intro h
    unfold Matches at h
    generalize hks : ts.map (·.kind) = ks at h
    cases h with
    | manyNil => exact .inl (List.map_eq_nil_iff.1 hks)
    | manyCons ha hs =>
      obtain ⟨us, vs, rfl, rfl, rfl⟩ := List.map_eq_append_iff.1 hks
      exact .inr ⟨us, vs, rfl, ha, hs⟩
  · intro h
    rcases h with rfl | ⟨us, vs, rfl, ha, hs⟩
    · exact .manyNil
    · unfold Matches
      rw [List.map_append]
      exact .manyCons ha hs

theorem matches_many_nil : Matches r.many [] := .manyNil

/-- A sequence whose second part repeats nothing. -/
theorem Matches.alone (h : Matches a ts) : Matches (.seq a r.many) ts := by
  rw [← List.append_nil ts]
  exact h.seq matches_many_nil

/-- A repetition is a list of parts. -/
theorem matches_many_iff : Matches r.many ts ↔
    ∃ parts : List (List Token), ts = parts.flatten ∧ ∀ p ∈ parts, Matches r p := by
  constructor
  · intro h
    unfold Matches at h
    -- the induction is on the derivation; repetition is its only rule of interest
    generalize hr : r.many = q at h
    generalize hks : ts.map (·.kind) = ks at h
    induction h generalizing ts with
    | manyNil => exact ⟨[], by simpa using hks, by simp⟩
    | manyCons ha _ _ ih =>
      cases hr
      obtain ⟨us, vs, rfl, rfl, rfl⟩ := List.map_eq_append_iff.1 hks
      obtain ⟨parts, rfl, hp⟩ := ih rfl rfl
      refine ⟨us :: parts, rfl, ?_⟩
      intro p hmem
      rcases List.mem_cons.1 hmem with rfl | hmem
      · exact ha
      · exact hp p hmem
    | token | rule | seq | left | right | absent | present => cases hr
  · intro h
    obtain ⟨parts, rfl, hp⟩ := h
    induction parts with
    | nil => exact .manyNil
    | cons p parts ih =>
      rw [List.flatten_cons, matches_many]
      exact .inr ⟨p, _, rfl, hp p (by simp), ih fun q hq => hp q (by simp [hq])⟩

/-- One more part at the end of a repetition. -/
theorem matches_many_snoc {us vs : List Token} (hs : Matches r.many us) (h : Matches r vs) :
    Matches r.many (us ++ vs) := by
  obtain ⟨parts, rfl, hp⟩ := matches_many_iff.1 hs
  rw [matches_many_iff]
  refine ⟨parts ++ [vs], by simp, ?_⟩
  intro p hmem
  rcases List.mem_append.1 hmem with hmem | hmem
  · exact hp p hmem
  · rw [List.mem_singleton.1 hmem]; exact h

/-! ## Induction over derivations -/

/-- The tokens divide as the rule says into tokens of which `T` holds and parts that are as `P` asks
of their nonterminals. -/
def Rule.Holds (T : Token → Prop) (P : Nonterminal → List Token → Prop) : Rule → List Token → Prop
  | .token k, ts => ∃ t, ts = [t] ∧ t.kind = k ∧ T t
  | .nonterminal n, ts => P n ts
  | .seq a b, ts => ∃ us vs, ts = us ++ vs ∧ a.Holds T P us ∧ b.Holds T P vs
  | .alt a b, ts => a.Holds T P ts ∨ b.Holds T P ts
  | .many a, ts => ∃ parts : List (List Token), ts = parts.flatten ∧ ∀ p ∈ parts, a.Holds T P p
  | .maybe a, ts => ts = [] ∨ a.Holds T P ts

/-- What each rule passes on to its nonterminal holds of everything that can be derived. -/
theorem Matches.holds {T : Token → Prop} {P : Nonterminal → List Token → Prop}
    (hP : ∀ n ts, n.rule.Holds T P ts → P n ts) (h : Matches r ts) (hT : ∀ t ∈ ts, T t) :
    r.Holds T P ts := by
  unfold Matches at h
  generalize hks : ts.map (·.kind) = ks at h
  induction h generalizing ts with
  | token k =>
    obtain ⟨t, rfl, hk⟩ := List.map_eq_singleton_iff.1 hks
    exact ⟨t, rfl, hk, hT t (by simp)⟩
  | rule _ ih => exact hP _ _ (ih hT hks)
  | seq _ _ iha ihb =>
    obtain ⟨us, vs, rfl, hus, hvs⟩ := List.map_eq_append_iff.1 hks
    rw [List.forall_mem_append] at hT
    exact ⟨us, vs, rfl, iha hT.1 hus, ihb hT.2 hvs⟩
  | left _ ih => exact .inl (ih hT hks)
  | right _ ih => exact .inr (ih hT hks)
  | manyNil => exact ⟨[], List.map_eq_nil_iff.1 hks, by simp⟩
  | manyCons _ _ iha ihs =>
    obtain ⟨us, vs, rfl, hus, hvs⟩ := List.map_eq_append_iff.1 hks
    rw [List.forall_mem_append] at hT
    obtain ⟨parts, rfl, hparts⟩ := ihs hT.2 hvs
    exact ⟨us :: parts, rfl, List.forall_mem_cons.2 ⟨iha hT.1 hus, hparts⟩⟩
  | absent => exact .inl (List.map_eq_nil_iff.1 hks)
  | present _ ih => exact .inr (ih hT hks)

/-! ## Choices of the grammar -/

open Nonterminal

theorem matches_declaration : Matches declaration ts ↔
    Matches funDecl ts ∨ Matches varDecl ts ∨ Matches statement ts := by
  rw [matches_rule, rule]
  simp only [matches_alt, or_assoc]

theorem matches_statement : Matches statement ts ↔
    Matches exprStmt ts ∨ Matches forStmt ts ∨ Matches ifStmt ts ∨ Matches printStmt ts ∨
      Matches returnStmt ts ∨ Matches whileStmt ts ∨ Matches block ts := by
  rw [matches_rule, rule]
  simp only [matches_alt, or_assoc]

end Lox.Grammar
