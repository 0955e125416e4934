import FloatLang.Proofs.Reading
import FloatLang.Session.Basic

/-!
# Reading up to a boundary

No statement goes on behind a separator. So a reader does not care whether the tokens that it is
given end or go on with a separator: it answers the same, or misses the same and does not find it,
and leaves the same tokens, with the separator behind them where there is one. Nor does it care
where a fault stands.

`Boundary` says which two ends of the tokens are compared, and `Reading.Matches` what the readings
have in common. As for soundness there is one lemma for each way in which readers are put together,
and then one for each reader.
-/

namespace FloatLang

open TokenStream

/-- In the second of two readings of the same tokens, `tail` stands behind them and then `fault'`,
where in the first one `fault` stands. Either there is only a fault, which may be told at another
place, or there is a separator behind the tokens that end the first one. -/
inductive Boundary : Option LexError → List Token → Option LexError → Prop
  | moved {fault fault' : Option LexError} (h : fault.isSome = fault'.isSome) :
    Boundary fault [] fault'
  | separated {c : Char} (hc : Session.isSeparator (.symbol c) = true) (later : List Token)
    (fault' : Option LexError) : Boundary none (.symbol c :: later) fault'

namespace Boundary

variable {fault fault' : Option LexError} {tail ts ts' : List Token}

private theorem isSome_blocking? (hb : Boundary fault tail fault') (rest : List Token) :
    (blocking? fault rest).isSome = (blocking? fault' (rest ++ tail)).isSome := by
  cases hb with
  | moved h =>
    rw [List.append_nil]
    cases rest with
    | nil => exact h
    | cons t rest => rfl
  | separated hc later fault' => cases rest <;> rfl

/-- The two readings see the same token, or the first one is at its end. -/
private theorem first_cases (hb : Boundary fault tail fault') (h : ts' = ts ++ tail) :
    (∃ t rest rest', ts = t :: rest ∧ ts' = t :: rest' ∧ rest' = rest ++ tail) ∨
      ts = [] ∧ ∀ t rest, ts' = t :: rest → Session.isSeparator t = true := by
  rcases ts with _ | ⟨t, rest⟩
  · refine .inr ⟨rfl, fun t rest heq ↦ ?_⟩
    rw [h, List.nil_append] at heq
    cases hb with
    | moved h => cases heq
    | separated hc later fault' =>
      obtain ⟨rfl, -⟩ := List.cons.inj heq
      exact hc
  · exact .inl ⟨t, rest, rest ++ tail, rfl, h, rfl⟩

/-- A token that separates nothing is seen in both readings or in none. -/
private theorem front (hb : Boundary fault tail fault') (h : ts' = ts ++ tail) {t : Token}
    (ht : ¬Session.isSeparator t = true) :
    (∃ rest rest', ts = t :: rest ∧ ts' = t :: rest' ∧ rest' = rest ++ tail) ∨
      (∀ rest, ts ≠ t :: rest) ∧ ∀ rest, ts' ≠ t :: rest := by
  rcases hb.first_cases h with ⟨t', rest, rest', rfl, rfl, hrest⟩ | ⟨rfl, hend⟩
  · by_cases ht' : t' = t
    · subst ht'
      exact .inl ⟨rest, rest', rfl, rfl, hrest⟩
    · exact .inr ⟨fun _ heq ↦ ht' (List.cons.inj heq).1, fun _ heq ↦ ht' (List.cons.inj heq).1⟩
  · exact .inr ⟨nofun, fun rest heq ↦ ht (hend t rest heq)⟩

end Boundary

namespace Reading

variable {α β : Type} {m n : Nat} {fault fault' : Option LexError} {tail rest rest' : List Token}

/-- The second reading is the first one with `tail` behind what is left, up to the place of a
fault. -/
inductive Matches (tail : List Token) : Reading α m → Reading α n → Prop
  | read (a : α) {rest rest' : List Token} (h : rest' = rest ++ tail) (fewer : rest.length < m)
    (fewer' : rest'.length < n) : Matches tail (.read a rest fewer) (.read a rest' fewer')
  | expected (what : Expected) {rest rest' : List Token} (h : rest' = rest ++ tail)
    (noMore : rest.length ≤ m) (noMore' : rest'.length ≤ n) :
    Matches tail (.failed (.expected what) rest noMore) (.failed (.expected what) rest' noMore')
  | lex (e e' : LexError) {rest rest' : List Token} (h : rest' = rest ++ tail)
    (noMore : rest.length ≤ m) (noMore' : rest'.length ≤ n) :
    Matches tail (.failed (.lex e) rest noMore) (.failed (.lex e') rest' noMore')

theorem Matches.widen {m' n' : Nat} {x : Reading α m} {y : Reading α n} (h : x.Matches tail y)
    (hm : m ≤ m') (hn : n ≤ n') : (x.widen hm).Matches tail (y.widen hn) := by
  cases h with
  | read a hrest fewer fewer' => exact .read a hrest _ _
  | expected what hrest noMore noMore' => exact .expected what hrest _ _
  | lex e e' hrest noMore noMore' => exact .lex e e' hrest _ _

theorem Matches.bind {x : Reading α m} {y : Reading α n}
    {next : (a : α) → (rest : List Token) → rest.length < m → Reading β m}
    {next' : (a : α) → (rest : List Token) → rest.length < n → Reading β n}
    (h : x.Matches tail y)
    (hnext : ∀ a rest rest' h h', rest' = rest ++ tail →
      (next a rest h).Matches tail (next' a rest' h')) :
    (x.bind next).Matches tail (y.bind next') := by
  cases h with
  | read a hrest fewer fewer' => exact hnext a _ _ fewer fewer' hrest
  | expected what hrest noMore noMore' => exact .expected what hrest _ _
  | lex e e' hrest noMore noMore' => exact .lex e e' hrest _ _

theorem Matches.stepOver (hb : Boundary fault tail fault') (hrest : rest' = rest ++ tail)
    {t : Token} {next : Reading α (rest.length + 1)} {next' : Reading α (rest'.length + 1)}
    (h : next.Matches tail next') :
    (Reading.stepOver fault t rest next).Matches tail (Reading.stepOver fault' t rest' next') := by
  have hblocking := hb.isSome_blocking? rest
  rw [← hrest] at hblocking
  rw [Reading.stepOver, Reading.stepOver]
  cases hfirst : blocking? fault rest <;> cases hsecond : blocking? fault' rest' <;>
    rw [hfirst, hsecond] at hblocking
  · exact h
  · cases hblocking
  · cases hblocking
  · exact .lex _ _ (congrArg (t :: ·) hrest) _ _

private theorem matches_close (hb : Boundary fault tail fault') (h : rest' = rest ++ tail)
    (missing : Expected) (a : α) :
    (close fault missing a rest).Matches tail (close fault' missing a rest') := by
  rcases hb.front h (t := .symbol ')') (by decide) with
    ⟨later, later', rfl, rfl, hlater⟩ | ⟨hclose, hclose'⟩
  · exact .stepOver hb hlater (.read a hlater _ _)
  · -- the end of the tokens and a separator are both no parenthesis
    rw [close.eq_2 _ _ _ _ hclose, close.eq_2 _ _ _ _ hclose']
    exact .expected missing h _ _

private theorem matches_afterArgument (hb : Boundary fault tail fault') (h : rest' = rest ++ tail)
    (arg : Expr)
    {more : (later : List Token) → later.length < rest.length → Reading (List Expr) later.length}
    {more' : (later : List Token) → later.length < rest'.length →
      Reading (List Expr) later.length}
    (hmore : ∀ later later' hlen hlen', later' = later ++ tail →
      (more later hlen).Matches tail (more' later' hlen')) :
    (afterArgument fault arg rest more).Matches tail (afterArgument fault' arg rest' more') := by
  rcases hb.front h (t := .symbol ',') (by decide) with
    ⟨later, later', rfl, rfl, hlater⟩ | ⟨hcomma, hcomma'⟩
  · exact .stepOver hb hlater (.widen (.bind (hmore later later' _ _ hlater)
      fun args _ _ _ _ hafter ↦ .read (arg :: args) hafter _ _) _ _)
  · rw [afterArgument.eq_2 _ _ _ _ fun later _ heq _ ↦ hcomma later heq,
      afterArgument.eq_2 _ _ _ _ fun later _ heq _ ↦ hcomma' later heq]
    exact matches_close hb h _ _

end Reading

open Reading

/-! ## Expressions -/

/-- The readers of expressions match on the tokens `ts` and `ts'`. -/
structure MatchingReaders (fault fault' : Option LexError) (tail ts ts' : List Token) : Prop where
  primary : (readPrimary fault ts).Matches tail (readPrimary fault' ts')
  expr : (readExpr fault ts).Matches tail (readExpr fault' ts')
  operators : ∀ least lhs,
    (readOperators fault least lhs ts).Matches tail (readOperators fault' least lhs ts')
  arguments : (readArguments fault ts).Matches tail (readArguments fault' ts')

private theorem readPrimary_eq_failed {fault : Option LexError} {ts : List Token}
    (hnumber : ∀ v rest, ts ≠ .number v :: rest) (hname : ∀ f rest, ts ≠ .identifier f :: rest)
    (hopen : ∀ rest, ts ≠ .symbol '(' :: rest) :
    readPrimary fault ts = .failed (.expected .expression) ts (Nat.le_refl _) := by
  rw [readPrimary.eq_def]
  split
  · exact absurd rfl (hnumber _ _)
  · exact absurd rfl (hopen _)
  · exact absurd rfl (hname _ _)
  · rfl

private theorem readOperators_eq_read {fault : Option LexError} {least : Nat} {lhs : Expr}
    {ts : List Token}
    (hop : ∀ op p rest, ts = .symbol op :: rest → precedence? op = some p → ¬least ≤ p) :
    readOperators fault least lhs ts = .read lhs ts (Nat.lt_succ_self _) := by
  rw [readOperators.eq_def]
  split
  · split
    · rename_i hp
      rw [if_neg (hop _ _ _ rfl hp)]
    · rfl
  · rfl

theorem readNames_eq_read {fault : Option LexError} {ts : List Token}
    (hname : ∀ p rest, ts ≠ .identifier p :: rest) :
    readNames fault ts = .read [] ts (Nat.lt_succ_self _) := by
  rw [readNames.eq_def]
  split
  · exact absurd rfl (hname _ _)
  · rfl

theorem readPrototype_eq_failed {fault : Option LexError} {ts : List Token}
    (hname : ∀ f rest, ts ≠ .identifier f :: rest) :
    readPrototype fault ts = .failed (.expected .functionName) ts (Nat.le_refl _) := by
  rw [readPrototype.eq_def]
  split
  · exact absurd rfl (hname _ _)
  · rfl

private theorem precedence?_eq_none_of_isSeparator {c : Char}
    (hc : Session.isSeparator (.symbol c) = true) : precedence? c = none := by
  by_contra hop
  have hmem := precedence?_isSome_iff.mp (Option.isSome_iff_ne_none.mpr hop)
  simp only [List.mem_cons, List.not_mem_nil, or_false] at hmem
  rcases hmem with rfl | rfl | rfl | rfl <;> exact absurd hc (by decide)

section Expressions

variable {fault fault' : Option LexError} {tail ts ts' : List Token}
  (hb : Boundary fault tail fault') (h : ts' = ts ++ tail)
  (ih : ∀ rest rest', rest' = rest ++ tail → rest.length < ts.length →
    MatchingReaders fault fault' tail rest rest')

section Primary

variable {rest rest' : List Token} (hrest : rest' = rest ++ tail)
include hb hrest

/-- A name is a variable, or it is called with the arguments behind it. -/
private theorem matches_primary_identifier (f : String)
    (ih : ∀ later later', later' = later ++ tail → later.length < rest.length →
      MatchingReaders fault fault' tail later later') :
    (readPrimary fault (.identifier f :: rest)).Matches tail
      (readPrimary fault' (.identifier f :: rest')) := by
  rw [readPrimary.eq_def, readPrimary.eq_def fault']
  refine .stepOver hb hrest ?_
  rcases hb.front hrest (t := .symbol '(') (by decide) with
    ⟨inner, inner', rfl, rfl, hinner⟩ | ⟨hopen, hopen'⟩
  · simp only
    refine .widen (.stepOver hb hinner ?_) _ _
    rcases hb.front hinner (t := .symbol ')') (by decide) with
      ⟨later, later', rfl, rfl, hlater⟩ | ⟨hclose, hclose'⟩
    · simp only
      exact .widen (.stepOver hb hlater (.read _ hlater _ _)) _ _
    split
    · exact absurd rfl (hclose _)
    have hargs := (ih inner inner' hinner (Nat.lt_succ_self _)).arguments
    exact .widen (.bind hargs fun args _ _ _ _ hafter ↦
      .read (Expr.call f args) hafter _ _) _ _
  · -- the end of the tokens and a separator are both no parenthesis
    split
    · exact absurd rfl (hopen _)
    exact .read _ hrest _ _

private theorem matches_primary_parenthesis
    (ih : (readExpr fault rest).Matches tail (readExpr fault' rest')) :
    (readPrimary fault (.symbol '(' :: rest)).Matches tail
      (readPrimary fault' (.symbol '(' :: rest')) := by
  rw [readPrimary.eq_def, readPrimary.eq_def fault']
  exact .stepOver hb hrest (.widen (.bind ih fun e after after' _ _ hafter ↦
    .widen (matches_close hb hafter _ e) _ _) _ _)

end Primary

include hb h ih

private theorem matches_primary :
    (readPrimary fault ts).Matches tail (readPrimary fault' ts') := by
  rcases hb.first_cases h with ⟨t, rest, rest', rfl, rfl, hrest⟩ | ⟨rfl, hend⟩
  · rcases t with _ | _ | f | v | c
    case identifier =>
      exact matches_primary_identifier hb hrest f fun later later' hlater hlen ↦
        ih later later' hlater (Nat.lt_succ_of_lt hlen)
    case number =>
      rw [readPrimary.eq_def, readPrimary.eq_def fault']
      exact .stepOver hb hrest (.read _ hrest _ _)
    case symbol =>
      by_cases hc : c = '('
      · subst hc
        exact matches_primary_parenthesis hb hrest
          (ih rest rest' hrest (Nat.lt_succ_self _)).expr
      · have hopen : ∀ rest later, Token.symbol c :: rest ≠ .symbol '(' :: later := by
          intro rest later heq
          exact hc (Token.symbol.inj (List.cons.inj heq).1)
        rw [readPrimary_eq_failed (by simp) (by simp) (hopen _),
          readPrimary_eq_failed (by simp) (by simp) (hopen _)]
        exact .expected _ h _ _
    all_goals
      rw [readPrimary_eq_failed (by simp) (by simp) (by simp),
        readPrimary_eq_failed (by simp) (by simp) (by simp)]
      exact .expected _ h _ _
  · -- nothing is left of the first reading, and a separator begins no expression
    have hstop : ∀ t, ¬Session.isSeparator t = true → ∀ rest, ts' ≠ t :: rest :=
      fun t ht rest heq ↦ ht (hend t rest heq)
    rw [readPrimary_eq_failed (by simp) (by simp) (by simp),
      readPrimary_eq_failed (fun v ↦ hstop _ Bool.false_ne_true)
        (fun f ↦ hstop _ Bool.false_ne_true)
        (hstop _ (by decide))]
    exact .expected _ h _ _

private theorem matches_expr : (readExpr fault ts).Matches tail (readExpr fault' ts') := by
  rw [readExpr.eq_def, readExpr.eq_def fault']
  refine .bind (matches_primary hb h ih) fun lhs after after' hlen _ hafter ↦ ?_
  exact .widen ((ih after after' hafter hlen).operators 0 lhs) _ _

private theorem matches_operators (least : Nat) (lhs : Expr) :
    (readOperators fault least lhs ts).Matches tail (readOperators fault' least lhs ts') := by
  rcases hb.first_cases h with ⟨t, rest, rest', rfl, rfl, hrest⟩ | ⟨rfl, hend⟩
  · by_cases hop : ∃ op p, t = .symbol op ∧ precedence? op = some p ∧ least ≤ p
    · obtain ⟨op, p, rfl, hp, hleast⟩ := hop
      rw [readOperators.eq_def, readOperators.eq_def fault']
      simp only [hp, hleast, if_true]
      refine .widen (.stepOver hb hrest (.widen (.bind (ih rest rest' hrest (by simp)).primary
        fun rhs after after' hlen _ hafter ↦ ?_) _ _)) _ _
      have hoperand := (ih after after' hafter (by simp; omega)).operators (p + 1) rhs
      refine .bind (.widen hoperand _ _) fun rhs later later' hlen' _ hlater ↦ ?_
      exact .widen ((ih later later' hlater (by simp; omega)).operators least _) _ _
    · have hother : ∀ later op p rest, t :: later = .symbol op :: rest → precedence? op = some p →
          ¬least ≤ p := by
        intro later op p rest heq hp hleast
        exact hop ⟨op, p, (List.cons.inj heq).1, hp, hleast⟩
      rw [readOperators_eq_read (hother _), readOperators_eq_read (hother _)]
      exact .read _ h _ _
  · rw [readOperators_eq_read (by simp), readOperators_eq_read fun op p rest heq hp _ ↦ ?_]
    · exact .read _ h _ _
    · -- what follows in the second reading is a separator, and so no operator
      rw [precedence?_eq_none_of_isSeparator (hend _ _ heq)] at hp
      cases hp

private theorem matches_arguments :
    (readArguments fault ts).Matches tail (readArguments fault' ts') := by
  rw [readArguments.eq_def, readArguments.eq_def fault']
  exact .bind (matches_expr hb h ih) fun arg after after' hlen _ hafter ↦
    .widen (matches_afterArgument hb hafter arg fun rest rest' hrestlen _ hrest ↦
      (ih rest rest' hrest (Nat.lt_trans hrestlen hlen)).arguments) _ _

end Expressions

section Statements

variable {fault fault' : Option LexError} {tail ts ts' : List Token}
  (hb : Boundary fault tail fault')
include hb

theorem matchingReaders (h : ts' = ts ++ tail) : MatchingReaders fault fault' tail ts ts' := by
  induction hn : ts.length using Nat.strongRecOn generalizing ts ts' with
  | ind n ih =>
    subst hn
    have ih' : ∀ rest rest', rest' = rest ++ tail → rest.length < ts.length →
        MatchingReaders fault fault' tail rest rest' :=
      fun rest rest' hrest hlen ↦ ih _ hlen hrest rfl
    exact ⟨matches_primary hb h ih', matches_expr hb h ih', matches_operators hb h ih',
      matches_arguments hb h ih'⟩

/-! ## Statements -/

private theorem matches_readNames (h : ts' = ts ++ tail) :
    (readNames fault ts).Matches tail (readNames fault' ts') := by
  induction ts generalizing ts' with
  | nil =>
    have hstop : ∀ p rest, ts' ≠ .identifier p :: rest := by
      intro p rest heq
      rcases hb.first_cases h with ⟨_, _, _, hnil, _⟩ | ⟨_, hend⟩
      · cases hnil
      · cases hend _ rest heq
    rw [readNames_eq_read (by simp), readNames_eq_read hstop]
    exact .read [] h _ _
  | cons t rest ih =>
    subst h
    rw [List.cons_append]
    rcases t with _ | _ | p | _ | _
    case identifier =>
      rw [readNames.eq_def, readNames.eq_def fault']
      exact .widen (.stepOver hb rfl (.bind (ih rfl) fun ps _ _ _ _ hafter ↦
        .read (p :: ps) hafter _ _)) _ _
    all_goals
      rw [readNames_eq_read (by simp), readNames_eq_read (by simp)]
      exact .read [] rfl _ _

private theorem matches_readPrototype (h : ts' = ts ++ tail) :
    (readPrototype fault ts).Matches tail (readPrototype fault' ts') := by
  by_cases hname : ∃ f rest, ts = .identifier f :: rest
  · obtain ⟨f, rest, rfl⟩ := hname
    subst h
    rw [List.cons_append, readPrototype.eq_def, readPrototype.eq_def fault']
    refine .stepOver hb rfl ?_
    generalize hrest : rest ++ tail = rest'
    rcases hb.front hrest.symm (t := .symbol '(') (by decide) with
      ⟨params, params', rfl, rfl, hparams⟩ | ⟨hopen, hopen'⟩
    · simp only
      exact .widen (.stepOver hb hparams (.bind (matches_readNames hb hparams)
        fun ps after after' _ _ hafter ↦
          .widen (matches_close hb hafter _ (Prototype.mk f ps)) _ _)) _ _
    · split
      · exact absurd rfl (hopen _)
      exact .expected _ hrest.symm _ _
  · have hname' : ∀ f rest, ts' ≠ .identifier f :: rest := by
      intro f rest heq
      rcases hb.front h (t := .identifier f) Bool.false_ne_true with
        ⟨rest, _, rfl, _⟩ | ⟨_, hnot⟩
      · exact hname ⟨f, rest, rfl⟩
      · exact hnot rest heq
    rw [readPrototype_eq_failed fun f rest heq ↦ hname ⟨f, rest, heq⟩,
      readPrototype_eq_failed hname']
    exact .expected _ h _ _

/-- The token that a declaration starts with is stepped over, so there must be one. -/
private theorem matches_readDeclaration {t : Token} {rest rest' : List Token}
    (h : rest' = rest ++ tail) :
    (readDeclaration fault (t :: rest)).Matches tail (readDeclaration fault' (t :: rest')) := by
  rw [readDeclaration, readDeclaration]
  exact .stepOver hb h (.widen (matches_readPrototype hb h) _ _)

private theorem matches_readDefinition {t : Token} {rest rest' : List Token}
    (h : rest' = rest ++ tail) :
    (readDefinition fault (t :: rest)).Matches tail (readDefinition fault' (t :: rest')) := by
  rw [readDefinition, readDefinition]
  refine .bind (matches_readDeclaration hb h) fun proto after after' _ _ hafter ↦ ?_
  exact .widen (.bind (matchingReaders hb hafter).expr fun body _ _ _ _ hlater ↦
    .read (Definition.mk proto body) hlater _ _) _ _

/-- **Statements end at a boundary.** What is read of the tokens in front of it does not depend on
what stands behind it. -/
theorem matches_readStatement {t : Token} {rest rest' : List Token} (h : rest' = rest ++ tail) :
    (readStatement fault (t :: rest)).Matches tail (readStatement fault' (t :: rest')) := by
  have hts : t :: rest' = t :: rest ++ tail := congrArg (t :: ·) h
  have hexpr : ((readExpr fault (t :: rest)).bind fun e after h ↦
      Reading.read (.expression e) after h).Matches tail
      ((readExpr fault' (t :: rest')).bind fun e after h ↦
        Reading.read (Statement.expression e) after h) :=
    .bind (matchingReaders hb hts).expr fun e _ _ _ _ hafter ↦
      .read (Statement.expression e) hafter _ _
  rw [readStatement, readStatement]
  rcases t with _ | _ | _ | _ | _
  case defKeyword =>
    exact .bind (matches_readDefinition hb h) fun d _ _ _ _ hafter ↦
      .read (Statement.definition d) hafter _ _
  case externKeyword =>
    exact .bind (matches_readDeclaration hb h) fun p _ _ _ _ hafter ↦
      .read (Statement.declaration p) hafter _ _
  all_goals exact hexpr

end Statements

end FloatLang
