import FloatLang.Proofs.Boundary
import FloatLang.Proofs.Construct
import FloatLang.Proofs.Outcome

/-!
# A missing token is told at the earliest token

A reader stops at a token that is not the one it looks for. It could have looked for something that
the construct does not ask for, or it could have gone wrong long before; `errors_are_earliest` says
that it does neither. What has been stepped over can be completed to a sentence of the construct,
and the token at which the reader stops cannot follow it in any sentence.

## What is expected

While a construct is read, what is expected of the tokens from the current one on is a language:
what is left of the construct, and then what follows it. A reader that is given the language `D` and
ends with the language `K` left to read has *predicted* right (`Predicts`) if the words of `D` that
begin with what has been stepped over are, behind it, the words of `K`; all of those of `K`, and
among the ones that begin with the current token no others. If it fails, there are such words in
`D`, but none that goes on with the current token. One token is enough because two ways in which a
construct can go on never begin with the same token; this is where the operators, the parenthesis of
a call and the comma are told apart.

The rules for `Predicts` follow the way in which readers are put together, so that no induction over
the grammar is needed: a language is taken apart at its first token only.
-/

namespace FloatLang

open Outcome TokenStream

/-! ## Languages -/

def startingWith (t : Token) (M : Language Token) : Language Token := {w | ∃ v ∈ M, w = t :: v}

def operands : Language Token := {ts | IsOperand ts}

/-- The token lists that may stand between the parentheses of a call. -/
def callArguments : Language Token := {ts | IsArguments ts}

def expressionLists : Language Token := {ts | IsExpressionList ts}

/-- What can follow a name in front of `M`. -/
def afterName (M : Language Token) : Language Token :=
  M + startingWith (.symbol '(') (callArguments * startingWith (.symbol ')') M)

/-- An operator and what can follow it in front of `M`. -/
def startingWithOperator (M : Language Token) : Language Token :=
  {w | ∃ op, (precedence? op).isSome = true ∧ w ∈ startingWith (.symbol op) (expressions * M)}

def afterOperand (M : Language Token) : Language Token := M + startingWithOperator M

def afterArgument (M : Language Token) : Language Token :=
  M + startingWith (.symbol ',') (expressionLists * M)

section Languages

variable {M : Language Token} {t t' : Token} {w : List Token}

@[simp] theorem cons_mem_startingWith_iff : t' :: w ∈ startingWith t M ↔ t' = t ∧ w ∈ M := by
  constructor
  · rintro ⟨v, hv, heq⟩
    obtain ⟨rfl, rfl⟩ := List.cons.inj heq
    exact ⟨rfl, hv⟩
  · rintro ⟨rfl, hw⟩
    exact ⟨w, hw, rfl⟩

/-- Where a word starts with a token, so do the tokens that begin like it. -/
private theorem exists_eq_cons {ts : List Token} (hw : w ∈ startingWith t M)
    (hts : w.head? = ts.head?) :
    ∃ rest, ts = t :: rest := by
  obtain ⟨v, -, rfl⟩ := hw
  exact List.head?_eq_some_iff.mp hts.symm

/-- An operand in front of `M` begins with a number, a name or a parenthesis. -/
private theorem mem_operands_mul_iff :
    w ∈ operands * M ↔ (∃ d, w ∈ startingWith (.number d) M) ∨
      (∃ x, w ∈ startingWith (.identifier x) (afterName M)) ∨
      w ∈ startingWith (.symbol '(') (expressions * startingWith (.symbol ')') M) := by
  rw [Language.mem_mul]
  constructor
  · rintro ⟨u, hu, v, hv, rfl⟩
    rcases hu with d | x | @⟨f, ts, hargs⟩ | @⟨ts, he⟩
    · exact .inl ⟨d, v, hv, rfl⟩
    · exact .inr (.inl ⟨x, v, .inl hv, rfl⟩)
    · refine .inr (.inl ⟨f, .symbol '(' :: (ts ++ .symbol ')' :: v), .inr ⟨_, ?_, rfl⟩, by simp⟩)
      exact Language.mem_mul.mpr ⟨ts, hargs, _, ⟨v, hv, rfl⟩, rfl⟩
    · refine .inr (.inr ⟨ts ++ .symbol ')' :: v, ?_, by simp⟩)
      exact Language.mem_mul.mpr ⟨ts, he, _, ⟨v, hv, rfl⟩, rfl⟩
  · rintro (⟨d, v, hv, rfl⟩ | ⟨x, u, hv | ⟨inner, hinner, rfl⟩, rfl⟩ | ⟨inner, hinner, rfl⟩)
    · exact ⟨_, .number d, v, hv, rfl⟩
    · exact ⟨_, .name x, u, hv, rfl⟩
    · obtain ⟨ts, hargs, -, ⟨v, hv, rfl⟩, rfl⟩ := Language.mem_mul.mp hinner
      exact ⟨_, .call x hargs, v, hv, by simp⟩
    · obtain ⟨ts, he, -, ⟨v, hv, rfl⟩, rfl⟩ := Language.mem_mul.mp hinner
      exact ⟨_, .parens he, v, hv, by simp⟩

private theorem expressions_mul (M : Language Token) :
    expressions * M = operands * afterOperand M := by
  ext w
  rw [Language.mem_mul, Language.mem_mul]
  constructor
  · rintro ⟨u, hu, v, hv, rfl⟩
    rcases hu with ho | @⟨ts, later, op, ho, hop, hlater⟩
    · exact ⟨u, ho, v, .inl hv, rfl⟩
    · refine ⟨ts, ho, .symbol op :: (later ++ v), .inr ⟨op, hop, _, ?_, rfl⟩, by simp⟩
      exact Language.mem_mul.mpr ⟨later, hlater, v, hv, rfl⟩
  · rintro ⟨u, hu, v, hv | ⟨op, hop, inner, hinner, rfl⟩, rfl⟩
    · exact ⟨u, .operand hu, v, hv, rfl⟩
    · obtain ⟨later, hlater, v, hv, rfl⟩ := Language.mem_mul.mp hinner
      exact ⟨_, .binary hu hop hlater, v, hv, by simp⟩

private theorem expressionLists_mul (M : Language Token) :
    expressionLists * M = expressions * afterArgument M := by
  ext w
  rw [Language.mem_mul, Language.mem_mul]
  constructor
  · rintro ⟨u, hu, v, hv, rfl⟩
    rcases hu with he | @⟨ts, later, he, hlater⟩
    · exact ⟨u, he, v, .inl hv, rfl⟩
    · refine ⟨ts, he, .symbol ',' :: (later ++ v), .inr ⟨_, ?_, rfl⟩, by simp⟩
      exact Language.mem_mul.mpr ⟨later, hlater, v, hv, rfl⟩
  · rintro ⟨u, hu, v, hv | ⟨inner, hinner, rfl⟩, rfl⟩
    · exact ⟨u, .last hu, v, hv, rfl⟩
    · obtain ⟨later, hlater, v, hv, rfl⟩ := Language.mem_mul.mp hinner
      exact ⟨_, .more hu hlater, v, hv, by simp⟩

private theorem mem_callArguments_mul_iff :
    w ∈ callArguments * M ↔ w ∈ M ∨ w ∈ expressionLists * M := by
  simp only [Language.mem_mul]
  constructor
  · rintro ⟨u, hu, v, hv, rfl⟩
    rcases hu with _ | hlist
    · exact .inl hv
    · exact .inr ⟨u, hlist, v, hv, rfl⟩
  · rintro (hw | ⟨u, hu, v, hv, rfl⟩)
    · exact ⟨[], .none, w, hw, rfl⟩
    · exact ⟨u, .some hu, v, hv, rfl⟩

end Languages

/-! ## Predictions -/

/-- A reader that is to read the tokens `ts` as a word of `D` and to leave a word of `K` does what
the words of `D` say. -/
inductive Predicts {α : Type} (D K : Language Token) (ts : List Token) : Outcome α → Prop
  | read {a : α} {rest : List Token} (front : List Token) (hts : ts = front ++ rest)
    (hle : ∀ w ∈ K, front ++ w ∈ D)
    (honly : ∀ w, w.head? = rest.head? → front ++ w ∈ D → w ∈ K) : Predicts D K ts (.ok a, rest)
  | expected {what : Expected} {rest : List Token} (front : List Token) (hts : ts = front ++ rest)
    (hviable : ∃ w, front ++ w ∈ D) (hnone : ∀ w, w.head? = rest.head? → front ++ w ∉ D) :
    Predicts D K ts (.error (.expected what), rest)
  | lex {e : LexError} {rest : List Token} : Predicts D K ts (.error (.lex e), rest)

namespace Predicts

variable {α β : Type} {D K M : Language Token} {ts rest : List Token} {fault : Option LexError}
  {o : Outcome α}

/-- Behind tokens that have been stepped over the current token decides as before them. -/
private theorem head?_append_eq {front w : List Token} (hts : ts = front ++ rest)
    (hw : w.head? = rest.head?) : (front ++ w).head? = ts.head? := by
  rw [hts, List.head?_append, List.head?_append, hw]

theorem self (K : Language Token) (a : α) (ts : List Token) : Predicts K K ts (.ok a, ts) :=
  .read [] rfl (fun _ hw ↦ hw) fun _ _ hw ↦ hw

theorem stay (hle : ∀ w ∈ K, w ∈ D) (honly : ∀ w, w.head? = ts.head? → w ∈ D → w ∈ K) (a : α) :
    Predicts D K ts (.ok a, ts) :=
  .read [] rfl hle honly

theorem fail {what : Expected} (hviable : ∃ w, w ∈ D) (hnone : ∀ w, w.head? = ts.head? → w ∉ D) :
    Predicts (α := α) D K ts (.error (.expected what), ts) :=
  .expected [] rfl hviable hnone

theorem andThen {f : α → List Token → Outcome β} (ho : Predicts D K ts o)
    (hf : ∀ a rest, o = (.ok a, rest) → Predicts K M rest (f a rest)) :
    Predicts D M ts (Outcome.andThen o f) := by
  cases ho with
  | lex => exact .lex
  | expected front hts hviable hnone => exact .expected front hts hviable hnone
  | @read a rest front hts hle honly =>
    rw [andThen_ok]
    have hrest := hf a rest rfl
    generalize f a rest = o' at hrest ⊢
    cases hrest with
    | lex => exact .lex
    | @read b rest' front' hrest hle' honly' =>
      refine .read (front ++ front') ?_ ?_ ?_
      · rw [hts, hrest, List.append_assoc]
      · intro w hw
        rw [List.append_assoc]
        exact hle _ (hle' w hw)
      · intro w hw hD
        rw [List.append_assoc] at hD
        exact honly' w hw (honly _ (head?_append_eq hrest hw) hD)
    | @expected what rest' front' hrest hviable hnone =>
      refine .expected (front ++ front') ?_ ?_ ?_
      · rw [hts, hrest, List.append_assoc]
      · obtain ⟨w, hw⟩ := hviable
        refine ⟨w, ?_⟩
        rw [List.append_assoc]
        exact hle _ hw
      · intro w hw hD
        rw [List.append_assoc] at hD
        exact hnone w hw (honly _ (head?_append_eq hrest hw) hD)

theorem bind {n : Nat} {x : Reading α n}
    {next : (a : α) → (rest : List Token) → rest.length < n → Reading β n}
    (hx : Predicts D K ts x.outcome)
    (hnext : ∀ a rest h, Predicts K M rest (next a rest h).outcome) :
    Predicts D M ts (x.bind next).outcome := by
  cases x with
  | read a rest fewer =>
    refine hx.andThen (f := fun _ _ ↦ (next a rest fewer).outcome) fun b later heq ↦ ?_
    obtain ⟨rfl, rfl⟩ : a = b ∧ rest = later := by simpa using heq
    exact hnext a rest fewer
  | failed e rest noMore => exact hx.andThen (f := fun b later ↦ (.error e, rest)) nofun

theorem behind {t : Token} (hD : ∀ w, t :: w ∈ D ↔ w ∈ M) (ho : Predicts M K rest o) :
    Predicts D K (t :: rest) (Outcome.behind fault t rest o) := by
  rw [Outcome.behind]
  split
  · exact .lex
  cases ho with
  | lex => exact .lex
  | @read a rest front hts hle honly =>
    refine .read (t :: front) ?_ ?_ ?_
    · rw [hts, List.cons_append]
    · exact fun w hw ↦ (hD _).mpr (hle w hw)
    · exact fun w hw hDw ↦ honly w hw ((hD _).mp hDw)
  | @expected what rest front hts hviable hnone =>
    refine .expected (t :: front) ?_ ?_ ?_
    · rw [hts, List.cons_append]
    · obtain ⟨w, hw⟩ := hviable
      exact ⟨w, (hD _).mpr hw⟩
    · exact fun w hw hDw ↦ hnone w hw ((hD _).mp hDw)

/-- Only the words that begin with the current token count. -/
theorem of_head? (hle : ∀ w ∈ M, w ∈ D) (honly : ∀ w, w.head? = ts.head? → w ∈ D → w ∈ M)
    (ho : Predicts M K ts o) : Predicts D K ts o := by
  cases ho with
  | lex => exact .lex
  | @read a rest front hts hle' honly' =>
    refine .read front hts (fun w hw ↦ hle _ (hle' w hw)) fun w hw hD ↦ ?_
    exact honly' w hw (honly _ (head?_append_eq hts hw) hD)
  | @expected what rest front hts hviable hnone =>
    refine .expected front hts ?_ fun w hw hD ↦ ?_
    · obtain ⟨w, hw⟩ := hviable
      exact ⟨w, hle _ hw⟩
    · exact hnone w hw (honly _ (head?_append_eq hts hw) hD)

end Predicts

/-! ## What may follow -/

/-- There is something that can follow a name, and it is no parenthesis. -/
structure FollowsName (M : Language Token) : Prop where
  nonempty : ∃ w, w ∈ M
  paren : ∀ w, .symbol '(' :: w ∉ M

/-- There is something that can follow an expression, and it is neither a parenthesis nor an
operator. -/
structure FollowsExpression (M : Language Token) : Prop extends FollowsName M where
  operator : ∀ op w, .symbol op :: w ∈ M → precedence? op = none

section Following

variable {M : Language Token}

private theorem followsExpression_nil : FollowsExpression (1 : Language Token) where
  nonempty := ⟨[], rfl⟩
  paren := nofun
  operator := nofun

private theorem followsExpression_closing (hM : ∃ w, w ∈ M) :
    FollowsExpression (startingWith (.symbol ')') M) where
  nonempty := by
    obtain ⟨w, hw⟩ := hM
    exact ⟨_, w, hw, rfl⟩
  paren w hw := by
    obtain ⟨heq, -⟩ := cons_mem_startingWith_iff.mp hw
    cases heq
  operator op w hw := by
    obtain ⟨heq, -⟩ := cons_mem_startingWith_iff.mp hw
    cases heq
    rfl

private theorem followsExpression_afterArgument (hM : ∃ w, w ∈ M) :
    FollowsExpression (afterArgument (startingWith (.symbol ')') M)) where
  nonempty := by
    obtain ⟨w, hw⟩ := (followsExpression_closing hM).nonempty
    exact ⟨w, .inl hw⟩
  paren w hw := by
    rcases hw with hw | hw
    · exact (followsExpression_closing hM).paren w hw
    · obtain ⟨heq, -⟩ := cons_mem_startingWith_iff.mp hw
      cases heq
  operator op w hw := by
    rcases hw with hw | hw
    · exact (followsExpression_closing hM).operator op w hw
    · obtain ⟨heq, -⟩ := cons_mem_startingWith_iff.mp hw
      cases heq
      rfl

private theorem FollowsExpression.afterOperand (hM : FollowsExpression M) :
    FollowsName (afterOperand M) where
  nonempty := by
    obtain ⟨w, hw⟩ := hM.nonempty
    exact ⟨w, .inl hw⟩
  paren w hw := by
    rcases hw with hw | ⟨op, hop, hw⟩
    · exact hM.paren w hw
    · obtain ⟨heq, -⟩ := cons_mem_startingWith_iff.mp hw
      cases heq
      exact absurd hop (by decide)

end Following

/-! ## Readers of expressions -/

section Parts

variable {α : Type} {fault : Option LexError} {M : Language Token} {ts : List Token}

private theorem predicts_closed {missing : Expected} {a : α} (hM : ∃ w, w ∈ M) :
    Predicts (startingWith (.symbol ')') M) M ts (closed fault missing a ts) := by
  rw [closed.eq_def]
  split
  · exact .behind (fun w ↦ by simp) (.self M a _)
  · rename_i hclose
    refine .fail (followsExpression_closing hM).nonempty fun w hw hD ↦ ?_
    obtain ⟨rest, rfl⟩ := exists_eq_cons hD hw
    exact hclose rest rfl

variable {expr : List Token → Outcome Expr} {list : List Token → Outcome (List Expr)}

private theorem predicts_argumentsBy
    (hlist : Predicts (expressionLists * startingWith (.symbol ')') M) M ts (list ts)) :
    Predicts (callArguments * startingWith (.symbol ')') M) M ts (argumentsBy list fault ts) := by
  rw [argumentsBy.eq_def]
  split
  · refine .behind (fun w ↦ ?_) (.self M [] _)
    -- no argument begins with the parenthesis
    rw [mem_callArguments_mul_iff, expressionLists_mul, expressions_mul, mem_operands_mul_iff]
    simp
  · rename_i hclose
    refine .of_head? (fun w hw ↦ mem_callArguments_mul_iff.mpr (.inr hw)) (fun w hw hD ↦ ?_) hlist
    rcases mem_callArguments_mul_iff.mp hD with hD | hD
    · obtain ⟨rest, rfl⟩ := exists_eq_cons hD hw
      exact absurd rfl (hclose rest)
    · exact hD

private theorem predicts_namedBy (hM : FollowsName M) (f : String)
    (hlist : ∀ rest, ts = .symbol '(' :: rest →
      Predicts (expressionLists * startingWith (.symbol ')') M) M rest (list rest)) :
    Predicts (afterName M) M ts (namedBy list fault f ts) := by
  rw [namedBy.eq_def]
  split
  · rename_i rest
    have harguments : Predicts _ M rest (argumentsBy list fault rest) :=
      predicts_argumentsBy (hlist rest rfl)
    refine .behind (fun w ↦ ?_) (harguments.andThen fun args after _ ↦ .self M _ _)
    rw [afterName, Language.mem_add, cons_mem_startingWith_iff]
    simp [hM.paren w]
  · rename_i hopen
    refine .stay (fun w hw ↦ .inl hw) (fun w hw hD ↦ ?_) _
    rcases hD with hD | hD
    · exact hD
    · obtain ⟨rest, rfl⟩ := exists_eq_cons hD hw
      exact absurd rfl (hopen rest)

private theorem predicts_operandBy (hM : FollowsName M)
    (hexpr : ∀ rest, rest.length < ts.length →
      Predicts (expressions * startingWith (.symbol ')') M) (startingWith (.symbol ')') M) rest
        (expr rest))
    (hlist : ∀ rest, rest.length < ts.length →
      Predicts (expressionLists * startingWith (.symbol ')') M) M rest (list rest)) :
    Predicts (operands * M) M ts (operandBy expr list fault ts) := by
  rw [operandBy.eq_def]
  split
  · exact .behind (fun w ↦ by simp [mem_operands_mul_iff]) (.self M _ _)
  · rename_i rest
    refine .behind (fun w ↦ by simp [mem_operands_mul_iff])
      (.andThen (hexpr rest (Nat.lt_succ_self _)) fun e after _ ↦ predicts_closed hM.nonempty)
  · rename_i f rest
    refine .behind (fun w ↦ by simp [mem_operands_mul_iff]) (predicts_namedBy hM f ?_)
    rintro inner rfl
    exact hlist inner (Nat.lt_succ_of_lt (Nat.lt_succ_self _))
  · rename_i hnumber hopen hname
    refine .fail ?_ fun w hw hD ↦ ?_
    · obtain ⟨v, hv⟩ := hM.nonempty
      exact ⟨_, mem_operands_mul_iff.mpr (.inl ⟨.zero, v, hv, rfl⟩)⟩
    rcases mem_operands_mul_iff.mp hD with ⟨d, hD⟩ | ⟨x, hD⟩ | hD <;>
      obtain ⟨rest, rfl⟩ := exists_eq_cons hD hw
    · exact hnumber d rest rfl
    · exact hname x rest rfl
    · exact hopen rest rfl

private theorem predicts_moreBy (hM : ∃ w, w ∈ M) (arg : Expr)
    (hlist : ∀ rest, rest.length < ts.length →
      Predicts (expressionLists * startingWith (.symbol ')') M) M rest (list rest)) :
    Predicts (afterArgument (startingWith (.symbol ')') M)) M ts (moreBy list fault arg ts) := by
  rw [moreBy.eq_def]
  split
  · rename_i rest
    refine .behind (fun w ↦ ?_)
      ((hlist rest (Nat.lt_succ_self _)).andThen fun args after _ ↦ .self M _ _)
    rw [afterArgument, Language.mem_add]
    simp
  · rename_i hcomma
    refine .of_head? (fun w hw ↦ .inl hw) (fun w hw hD ↦ ?_) (predicts_closed hM)
    rcases hD with hD | hD
    · exact hD
    · obtain ⟨rest, rfl⟩ := exists_eq_cons hD hw
      exact absurd rfl (hcomma rest)

end Parts

structure PredictingReaders (fault : Option LexError) (ts : List Token) : Prop where
  primary : ∀ M, FollowsName M → Predicts (operands * M) M ts (readPrimary fault ts).outcome
  expr : ∀ M, FollowsExpression M → Predicts (expressions * M) M ts (readExpr fault ts).outcome
  operators : ∀ M least lhs, FollowsExpression M →
    Predicts (afterOperand M) (afterOperand M) ts (readOperators fault least lhs ts).outcome
  arguments : ∀ M, (∃ w, w ∈ M) →
    Predicts (expressionLists * startingWith (.symbol ')') M) M ts (readArguments fault ts).outcome

section Readers

variable {fault : Option LexError} {ts : List Token} {M : Language Token}
  (ih : ∀ rest, rest.length < ts.length → PredictingReaders fault rest)
include ih

private theorem predicts_primary (hM : FollowsName M) :
    Predicts (operands * M) M ts (readPrimary fault ts).outcome := by
  rw [outcome_readPrimary]
  have hclosing := followsExpression_closing hM.nonempty
  exact predicts_operandBy hM (fun rest h ↦ (ih rest h).expr _ hclosing)
    fun rest h ↦ (ih rest h).arguments M hM.nonempty

private theorem predicts_operators (hM : FollowsExpression M) (least : Nat) (lhs : Expr) :
    Predicts (afterOperand M) (afterOperand M) ts (readOperators fault least lhs ts).outcome := by
  by_cases hstops : Stops least ts
  · rw [outcome_readOperators_of_stops fault hstops]
    exact .self _ _ _
  obtain ⟨op, p, rest, rfl, hp, hleast⟩ := not_stops_iff.mp hstops
  rw [outcome_readOperators fault hp hleast]
  have hrest : rest.length < (Token.symbol op :: rest).length := Nat.lt_succ_self _
  have hoperator (w : List Token) :
      .symbol op :: w ∈ afterOperand M ↔ w ∈ operands * afterOperand M := by
    rw [← expressions_mul, afterOperand, Language.mem_add]
    constructor
    · rintro (hw | ⟨op', -, hw⟩)
      · rw [hM.operator op w hw] at hp
        cases hp
      · exact (cons_mem_startingWith_iff.mp hw).2
    · exact fun hw ↦ .inr ⟨op, by rw [hp]; rfl, w, hw, rfl⟩
  refine .behind hoperator (((ih rest hrest).primary _ hM.afterOperand).andThen
    fun rhs after hrhs ↦ ?_)
  -- the operators that bind tighter, and then the ones behind them
  have hafter := Reading.length_lt_of_outcome hrhs
  refine ((ih after (hafter.trans hrest)).operators M (p + 1) rhs hM).andThen
    fun rhs' later hrhs' ↦ ?_
  have hlater := Reading.length_lt_of_outcome hrhs'
  exact (ih later (by omega)).operators M least _ hM

private theorem predicts_expr (hM : FollowsExpression M) :
    Predicts (expressions * M) M ts (readExpr fault ts).outcome := by
  rw [outcome_readExpr, expressions_mul]
  refine (predicts_primary ih hM.afterOperand).andThen fun lhs after hlhs ↦ ?_
  have hoperators := (ih after (Reading.length_lt_of_outcome hlhs)).operators M 0 lhs hM
  rw [← andThen_ok_self (readOperators fault 0 lhs after).outcome]
  refine hoperators.andThen fun e rest he ↦ .stay (fun w hw ↦ .inl hw) (fun w hw hD ↦ ?_) e
  rcases hD with hD | ⟨op, hop, hD⟩
  · exact hD
  · -- all operators have been read
    obtain ⟨later, rfl⟩ := exists_eq_cons hD hw
    obtain ⟨p, hp⟩ := Option.isSome_iff_exists.mp hop
    exact absurd (stops_of_outcome_readOperators fault he op p later rfl hp) (Nat.not_lt_zero p)

private theorem predicts_arguments (hM : ∃ w, w ∈ M) :
    Predicts (expressionLists * startingWith (.symbol ')') M) M ts
      (readArguments fault ts).outcome := by
  rw [outcome_readArguments, expressionLists_mul]
  refine (predicts_expr ih (followsExpression_afterArgument hM)).andThen fun arg after harg ↦ ?_
  have hlen := Reading.length_lt_of_outcome harg
  exact predicts_moreBy hM arg fun rest h ↦ (ih rest (Nat.lt_trans h hlen)).arguments M hM

end Readers

theorem predictingReaders (fault : Option LexError) (ts : List Token) :
    PredictingReaders fault ts := by
  induction hn : ts.length using Nat.strongRecOn generalizing ts with
  | ind n ih =>
    subst hn
    have ih' := fun rest hlen ↦ ih _ hlen rest rfl
    exact ⟨fun _ ↦ predicts_primary ih', fun _ ↦ predicts_expr ih',
      fun _ least lhs hM ↦ predicts_operators ih' hM least lhs, fun _ ↦ predicts_arguments ih'⟩

/-! ## Readers of prototypes -/

def nameLists : Language Token := {ts | ∃ xs : List String, ts = xs.map .identifier}

section Prototypes

variable {M : Language Token} {w : List Token}

private theorem mem_nameLists_mul_iff :
    w ∈ nameLists * M ↔ w ∈ M ∨ ∃ x, w ∈ startingWith (.identifier x) (nameLists * M) := by
  rw [Language.mem_mul]
  constructor
  · rintro ⟨-, ⟨xs, rfl⟩, v, hv, rfl⟩
    cases xs with
    | nil => exact .inl hv
    | cons x xs => exact .inr ⟨x, _, Language.mem_mul.mpr ⟨_, ⟨xs, rfl⟩, v, hv, rfl⟩, rfl⟩
  · rintro (hw | ⟨x, u, hu, rfl⟩)
    · exact ⟨[], ⟨[], rfl⟩, w, hw, rfl⟩
    · obtain ⟨-, ⟨xs, rfl⟩, v, hv, rfl⟩ := Language.mem_mul.mp hu
      exact ⟨_, ⟨x :: xs, rfl⟩, v, hv, rfl⟩

private theorem mem_prototypes_mul_iff :
    w ∈ prototypes * M ↔ ∃ f, w ∈ startingWith (.identifier f)
      (startingWith (.symbol '(') (nameLists * startingWith (.symbol ')') M)) := by
  rw [Language.mem_mul]
  constructor
  · rintro ⟨-, ⟨f, xs⟩, v, hv, rfl⟩
    refine ⟨f, _, ⟨xs.map .identifier ++ .symbol ')' :: v, ?_, rfl⟩, by simp⟩
    exact Language.mem_mul.mpr ⟨_, ⟨xs, rfl⟩, _, ⟨v, hv, rfl⟩, rfl⟩
  · rintro ⟨f, -, ⟨u, hu, rfl⟩, rfl⟩
    obtain ⟨-, ⟨xs, rfl⟩, -, ⟨v, hv, rfl⟩, rfl⟩ := Language.mem_mul.mp hu
    exact ⟨_, ⟨f, xs⟩, v, hv, by simp⟩

private theorem exists_mem_prototypes_mul (hM : ∃ w, w ∈ M) : ∃ w, w ∈ prototypes * M := by
  obtain ⟨v, hv⟩ := hM
  exact ⟨_, _, ⟨"f", []⟩, v, hv, rfl⟩

@[simp] theorem cons_mem_behindAny_iff {t : Token} : t :: w ∈ behindAny M ↔ w ∈ M := by
  constructor
  · rintro ⟨t', v, hv, heq⟩
    obtain ⟨-, rfl⟩ := List.cons.inj heq
    exact hv
  · exact fun hw ↦ ⟨t, w, hw, rfl⟩

variable {fault : Option LexError} {ts : List Token}

private theorem predicts_readNames_of_ne (hname : ∀ x rest, ts ≠ .identifier x :: rest) :
    Predicts (nameLists * M) M ts (readNames fault ts).outcome := by
  rw [readNames_eq_read hname]
  refine .stay (fun w hw ↦ mem_nameLists_mul_iff.mpr (.inl hw)) (fun w hw hD ↦ ?_) []
  rcases mem_nameLists_mul_iff.mp hD with hD | ⟨x, hD⟩
  · exact hD
  · obtain ⟨rest, hrest⟩ := exists_eq_cons hD hw
    exact absurd hrest (hname x rest)

private theorem predicts_readNames (hM : ∀ x w, .identifier x :: w ∉ M) (ts : List Token) :
    Predicts (nameLists * M) M ts (readNames fault ts).outcome := by
  induction ts with
  | nil => exact predicts_readNames_of_ne (by simp)
  | cons t rest ih =>
    rcases t with _ | _ | x | _ | _
    case identifier =>
      rw [readNames.eq_def]
      simp only [Reading.outcome_widen, Reading.outcome_stepOver]
      refine .behind (fun w ↦ ?_) (ih.bind fun names after h ↦ .self M _ _)
      rw [mem_nameLists_mul_iff]
      simp [hM x w]
    all_goals exact predicts_readNames_of_ne (by simp)

private theorem predicts_readPrototype (hM : ∃ w, w ∈ M) (ts : List Token) :
    Predicts (prototypes * M) M ts (readPrototype fault ts).outcome := by
  by_cases hname : ∃ f rest, ts = .identifier f :: rest
  · obtain ⟨f, rest, rfl⟩ := hname
    rw [readPrototype.eq_def]
    simp only [Reading.outcome_stepOver]
    refine .behind (M := startingWith (.symbol '(') (nameLists * startingWith (.symbol ')') M))
      (fun w ↦ by simp [mem_prototypes_mul_iff]) ?_
    split
    · rename_i rest
      rw [Reading.outcome_widen, Reading.outcome_stepOver]
      refine .behind (M := nameLists * startingWith (.symbol ')') M) (fun w ↦ by simp) ?_
      refine (predicts_readNames (fun x w ↦ by simp) rest).bind fun names after h ↦ ?_
      rw [Reading.outcome_widen, Reading.outcome_close]
      exact predicts_closed hM
    · rename_i hopen
      refine .fail ?_ fun w hw hD ↦ ?_
      · obtain ⟨v, hv⟩ := (followsExpression_closing hM).nonempty
        exact ⟨_, v, mem_nameLists_mul_iff.mpr (.inl hv), rfl⟩
      · obtain ⟨rest, rfl⟩ := exists_eq_cons hD hw
        exact hopen rest rfl
  · rw [readPrototype_eq_failed fun f rest heq ↦ hname ⟨f, rest, heq⟩]
    refine .fail (exists_mem_prototypes_mul hM) fun w hw hD ↦ ?_
    obtain ⟨f, hD⟩ := mem_prototypes_mul_iff.mp hD
    obtain ⟨rest, hrest⟩ := exists_eq_cons hD hw
    exact hname ⟨f, rest, hrest⟩

/-- At the end of the text there is not even a token to step over. -/
private theorem predicts_readDeclaration (hM : ∃ w, w ∈ M) (ts : List Token) :
    Predicts (behindAny (prototypes * M)) M ts (readDeclaration fault ts).outcome := by
  rw [readDeclaration.eq_def]
  split
  · rw [readPrototype_eq_failed (by simp)]
    refine .fail ?_ fun w hw hD ↦ ?_
    · obtain ⟨w, hw⟩ := exists_mem_prototypes_mul hM
      exact ⟨_, .defKeyword, w, hw, rfl⟩
    · obtain ⟨t, v, -, rfl⟩ := hD
      cases hw
  · rename_i t rest
    rw [Reading.outcome_stepOver, Reading.outcome_widen]
    exact .behind (fun w ↦ cons_mem_behindAny_iff) (predicts_readPrototype hM rest)

private theorem predicts_readDefinition (hM : FollowsExpression M) (ts : List Token) :
    Predicts (behindAny (prototypes * (expressions * M))) M ts
      (readDefinition fault ts).outcome := by
  have hbody : ∃ w, w ∈ expressions * M := by
    obtain ⟨w, hw⟩ := hM.nonempty
    exact ⟨_, _, .operand (.number .zero), w, hw, rfl⟩
  refine (predicts_readDeclaration hbody ts).bind fun proto after h ↦ ?_
  rw [Reading.outcome_widen]
  exact ((predictingReaders fault after).expr M hM).bind fun body later h ↦ .self M _ _

end Prototypes

/-! ## The constructs -/

theorem Predicts.map {α β : Type} {D K : Language Token} {ts rest : List Token}
    {result : Except ReadError α} (h : Predicts D K ts (result, rest)) (f : α → β) :
    Predicts D K ts (result.map f, rest) := by
  cases h with
  | read front hts hle honly => exact .read front hts hle honly
  | expected front hts hviable hnone => exact .expected front hts hviable hnone
  | lex => exact .lex

/-- Every reader predicts right what its construct asks for. -/
theorem predicts_construct (c : Construct) (s : TokenStream) :
    Predicts c.sentences 1 s.tokens ((c.read s).1, (c.read s).2.tokens) := by
  have hexpr : Predicts expressions 1 s.tokens (readExpr s.fault s.tokens).outcome := by
    rw [← mul_one expressions]
    exact (predictingReaders s.fault s.tokens).expr 1 followsExpression_nil
  cases c with
  | expression => exact hexpr
  | topLevel => exact hexpr.map _
  | prototype =>
    rw [← mul_one Construct.prototype.sentences]
    exact predicts_readPrototype followsExpression_nil.nonempty s.tokens
  | declaration =>
    rw [Construct.sentences, ← mul_one prototypes]
    exact predicts_readDeclaration followsExpression_nil.nonempty s.tokens
  | definition =>
    rw [Construct.sentences, ← mul_one expressions]
    exact predicts_readDefinition followsExpression_nil s.tokens

/-- **Errors are told at the earliest token.** If a construct cannot be read, then the tokens that
have been stepped over can be completed to a sentence, but not so that the current token comes next;
at the end of the text they are no sentence themselves. If it can be read, then the tokens that have
been stepped over are a sentence, and no longer sentence goes on with the current token: behind an
expression it is no operator, and behind a name at its end no parenthesis. -/
theorem errors_are_earliest (c : Construct) (s : TokenStream) :
    (∀ what later, c.read s = (.error (.expected what), later) →
      ∃ front, s.tokens = front ++ later.tokens ∧ (∃ w, front ++ w ∈ c.sentences) ∧
        (∀ t w, later.tokens.head? = some t → front ++ t :: w ∉ c.sentences) ∧
        (later.tokens = [] → front ∉ c.sentences)) ∧
    (∀ tree later, c.read s = (.ok tree, later) →
      ∃ front, s.tokens = front ++ later.tokens ∧ front ∈ c.sentences ∧
        (∀ t w, later.tokens.head? = some t → front ++ t :: w ∉ c.sentences) ∧
        (c.endsWithExpression = true →
          (∀ op, later.tokens.head? = some (.symbol op) → precedence? op = none) ∧
          ∀ f, front.getLast? = some (.identifier f) →
            later.tokens.head? ≠ some (.symbol '('))) := by
  have hpredicts := predicts_construct c s
  constructor
  · intro what later hread
    rw [hread] at hpredicts
    obtain _ | ⟨front, hts, hviable, hnone⟩ := hpredicts
    refine ⟨front, hts, hviable, fun t w ht ↦ hnone (t :: w) ht.symm, fun hnil hfront ↦ ?_⟩
    refine hnone [] (by rw [hnil]) ?_
    rwa [List.append_nil]
  · intro tree later hread
    rw [hread] at hpredicts
    obtain ⟨front, hts, hle, honly⟩ := hpredicts
    have hfront : front ∈ c.sentences := by
      have hnil := hle [] rfl
      rwa [List.append_nil] at hnil
    have hnone (t : Token) (w : List Token) (ht : later.tokens.head? = some t) :
        front ++ t :: w ∉ c.sentences :=
      fun hmem ↦ List.cons_ne_nil t w (honly (t :: w) ht.symm hmem)
    refine ⟨front, hts, hfront, hnone, fun hc ↦ ⟨fun op hop ↦ ?_, fun f hlast hopen ↦ ?_⟩⟩
    · -- an operator could be followed by one more operand
      by_contra hsome
      exact hnone _ _ hop (Construct.append_mem_sentences hc hfront
        (Option.isSome_iff_ne_none.mpr hsome) (.operand (.name "x")))
    · exact hnone _ _ hopen (Construct.call_mem_sentences hc hfront hlast)

/-- A comma is no parameter list, and a parenthesis ends the expression in front of it. -/
theorem errors_are_earliest_at_comma :
    (∃ front, [.identifier "f", .symbol ','] = front ++ [Token.symbol ','] ∧
      (∃ w, front ++ w ∈ prototypes) ∧ ∀ w, front ++ .symbol ',' :: w ∉ prototypes) ∧
    ∃ front, [.identifier "x", .symbol ')'] = front ++ [Token.symbol ')'] ∧
      front ∈ expressions ∧ ∀ w, front ++ .symbol ')' :: w ∉ expressions := by
  constructor
  · have hread : Construct.prototype.read ⟨[.identifier "f", .symbol ','], none⟩ =
        (.error (.expected .parametersStart), ⟨[.symbol ','], none⟩) := rfl
    obtain ⟨front, hts, hviable, hnone, -⟩ :=
      (errors_are_earliest .prototype ⟨_, none⟩).1 _ _ hread
    exact ⟨front, hts, hviable, fun w ↦ hnone _ w rfl⟩
  · have hread : Construct.expression.read ⟨[.identifier "x", .symbol ')'], none⟩ =
        (.ok (.name "x"), ⟨[.symbol ')'], none⟩) := by
      have houtcome : (readExpr none [.identifier "x", .symbol ')']).outcome =
          (.ok (.name "x"), [.symbol ')']) := by
        have hstops : Stops 0 [.symbol ')'] := by
          rintro op p rest ⟨⟩ hp
          cases hp
        rw [outcome_readExpr, outcome_readPrimary]
        exact outcome_readOperators_of_stops none hstops
      exact congrArg (fun o ↦ (o.1, TokenStream.mk o.2 none)) houtcome
    obtain ⟨front, hts, hfront, hnone, -⟩ :=
      (errors_are_earliest .expression ⟨_, none⟩).2 _ _ hread
    exact ⟨front, hts, hfront, fun w ↦ hnone _ w rfl⟩

end FloatLang
