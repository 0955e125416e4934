import FloatLang.Proofs.Reading

/-!
# Outcomes of readings

The bounds in the type of a reading are there so that readers end. What a reader does is its
*outcome*: the value or the error, and the tokens left. In the equations below the bounds are gone,
so that readings of different tokens can be compared, and what is read after a value can be moved
past what is read after that.

Operands and lists of arguments are read with the help of readers of other things, which are
arguments of `Outcome.operandBy` and `Outcome.moreBy`. Two readers that differ only in how they read
expressions are two instances of one definition.
-/

namespace FloatLang

open TokenStream

/-- The value or the error that a reader comes to, and the tokens that it leaves. -/
abbrev Outcome (α : Type) := Except ReadError α × List Token

namespace Outcome

variable {α β γ : Type} {fault : Option LexError} {t : Token} {rest : List Token}

/-- Goes on with the value and the tokens left. -/
def andThen (o : Outcome α) (next : α → List Token → Outcome β) : Outcome β :=
  match o with
  | (.ok a, rest) => next a rest
  | (.error e, rest) => (.error e, rest)

/-- Goes on behind the token `t` in front of `rest`, unless a fault stands there. -/
def behind (fault : Option LexError) (t : Token) (rest : List Token) (next : Outcome α) :
    Outcome α :=
  match blocking? fault rest with
  | some e => (.error (.lex e), t :: rest)
  | none => next

@[simp] theorem andThen_ok (a : α) (rest : List Token) (next : α → List Token → Outcome β) :
    andThen (.ok a, rest) next = next a rest := rfl

theorem andThen_assoc (o : Outcome α) (f : α → List Token → Outcome β)
    (g : β → List Token → Outcome γ) :
    andThen (andThen o f) g = andThen o fun a rest ↦ andThen (f a rest) g := by
  obtain ⟨_ | _, _⟩ := o <;> rfl

theorem andThen_ok_self (o : Outcome α) : (andThen o fun a rest ↦ (.ok a, rest)) = o := by
  obtain ⟨_ | _, _⟩ := o <;> rfl

theorem andThen_behind (o : Outcome α) (f : α → List Token → Outcome β) :
    andThen (behind fault t rest o) f = behind fault t rest (andThen o f) := by
  rw [behind, behind]
  split <;> rfl

theorem andThen_congr {o : Outcome α} {f g : α → List Token → Outcome β}
    (h : ∀ a rest, o = (.ok a, rest) → f a rest = g a rest) : andThen o f = andThen o g := by
  obtain ⟨_ | a, rest⟩ := o
  · rfl
  · exact h a rest rfl

theorem behind_of_blocking?_eq_none (h : blocking? fault rest = none) (o : Outcome α) :
    behind fault t rest o = o := by
  rw [behind, h]

/-! ## Operands and lists -/

/-- Reads a closing parenthesis, with the result `a`. -/
def closed (fault : Option LexError) (missing : Expected) (a : α) (ts : List Token) : Outcome α :=
  match ts with
  | .symbol ')' :: rest => behind fault (.symbol ')') rest (.ok a, rest)
  | ts => (.error (.expected missing), ts)

/-- Reads the arguments of a call behind the parenthesis that opens them; `list` reads one or more
of them and the parenthesis that closes them. -/
def argumentsBy (list : List Token → Outcome (List Expr)) (fault : Option LexError)
    (ts : List Token) : Outcome (List Expr) :=
  match ts with
  | .symbol ')' :: rest => behind fault (.symbol ')') rest (.ok [], rest)
  | ts => list ts

/-- Reads on behind the name `f`, which is called if a parenthesis follows. -/
def namedBy (list : List Token → Outcome (List Expr)) (fault : Option LexError) (f : String)
    (ts : List Token) : Outcome Expr :=
  match ts with
  | .symbol '(' :: rest =>
    behind fault (.symbol '(') rest <|
      andThen (argumentsBy list fault rest) fun args after ↦ (.ok (.call f args), after)
  | ts => (.ok (.name f), ts)

/-- Reads an operand, where `expr` reads an expression and `list` a list of arguments. -/
def operandBy (expr : List Token → Outcome Expr) (list : List Token → Outcome (List Expr))
    (fault : Option LexError) (ts : List Token) : Outcome Expr :=
  match ts with
  | .number v :: rest => behind fault (.number v) rest (.ok (.number v), rest)
  | .symbol '(' :: rest =>
    behind fault (.symbol '(') rest (andThen (expr rest) (closed fault .closingParen))
  | .identifier f :: rest => behind fault (.identifier f) rest (namedBy list fault f rest)
  | ts => (.error (.expected .expression), ts)

/-- Reads on behind the argument `arg`, where `list` reads further arguments. -/
def moreBy (list : List Token → Outcome (List Expr)) (fault : Option LexError) (arg : Expr)
    (ts : List Token) : Outcome (List Expr) :=
  match ts with
  | .symbol ',' :: rest =>
    behind fault (.symbol ',') rest <|
      andThen (list rest) fun args after ↦ (.ok (arg :: args), after)
  | ts => closed fault .argumentEnd [arg] ts

section Congruence

variable {expr expr' : List Token → Outcome Expr} {list list' : List Token → Outcome (List Expr)}
  {ts : List Token}

theorem moreBy_congr (hlist : ∀ rest, rest.length < ts.length → list rest = list' rest)
    (arg : Expr) : moreBy list fault arg ts = moreBy list' fault arg ts := by
  rw [moreBy.eq_def, moreBy.eq_def list']
  split
  · rw [hlist _ (Nat.lt_succ_self _)]
  · rfl

theorem operandBy_congr (hexpr : ∀ rest, rest.length < ts.length → expr rest = expr' rest)
    (hlist : ∀ rest, rest.length < ts.length → list rest = list' rest) :
    operandBy expr list fault ts = operandBy expr' list' fault ts := by
  rw [operandBy.eq_def, operandBy.eq_def expr']
  split
  · rfl
  · rw [hexpr _ (Nat.lt_succ_self _)]
  · rename_i f rest
    rw [namedBy.eq_def, namedBy.eq_def list']
    split
    · rename_i inner
      rw [argumentsBy.eq_def, argumentsBy.eq_def list']
      split
      · rfl
      · rw [hlist inner (Nat.lt_succ_of_lt (Nat.lt_succ_self _))]
    · rfl
  · rfl

end Congruence

end Outcome

open Outcome

namespace Reading

variable {α β : Type} {m n : Nat} {fault : Option LexError} {t : Token} {rest : List Token}

@[simp] theorem outcome_read (a : α) (fewer : rest.length < n) :
    (read a rest fewer).outcome = (.ok a, rest) := rfl

@[simp] theorem outcome_failed (e : ReadError) (noMore : rest.length ≤ n) :
    (failed e rest noMore : Reading α n).outcome = (.error e, rest) := rfl

@[simp] theorem outcome_widen (x : Reading α m) (h : m ≤ n) :
    (x.widen h).outcome = x.outcome := by
  cases x <;> rfl

@[simp] theorem outcome_stepOver (next : Reading α (rest.length + 1)) :
    (stepOver fault t rest next).outcome = behind fault t rest next.outcome := by
  rw [stepOver, behind]
  cases blocking? fault rest <;> rfl

theorem outcome_close (missing : Expected) (a : α) (ts : List Token) :
    (close fault missing a ts).outcome = closed fault missing a ts := by
  rw [close.eq_def]
  split
  · exact outcome_stepOver _
  · rename_i hclose
    exact (closed.eq_2 _ _ _ _ hclose).symm

theorem outcome_bind {x : Reading α n}
    {next : (a : α) → (rest : List Token) → rest.length < n → Reading β n}
    {next' : α → List Token → Outcome β}
    (h : ∀ a rest hlen, (next a rest hlen).outcome = next' a rest) :
    (x.bind next).outcome = andThen x.outcome next' := by
  cases x with
  | read a rest fewer => exact h a rest fewer
  | failed e rest noMore => rfl

theorem outcome_afterArgument (arg : Expr) (ts : List Token)
    {more : (rest : List Token) → rest.length < ts.length → Reading (List Expr) rest.length}
    {list : List Token → Outcome (List Expr)}
    (hmore : ∀ rest hlen, (more rest hlen).outcome = list rest) :
    (afterArgument fault arg ts more).outcome = moreBy list fault arg ts := by
  rw [afterArgument.eq_def]
  split
  · rw [outcome_stepOver, outcome_widen, moreBy, ← hmore]
    congr 1
    exact outcome_bind fun args later h ↦ rfl
  · rename_i hcomma
    rw [outcome_close]
    exact (moreBy.eq_2 _ _ _ _ (by rintro rest rfl; exact hcomma rest more rfl .rfl)).symm

/-- A reading is its outcome. -/
theorem outcome_injective : Function.Injective (outcome : Reading α n → Outcome α) := by
  intro x y h
  rcases x with ⟨a, rest, fewer⟩ | ⟨e, rest, noMore⟩ <;>
    rcases y with ⟨a', rest', fewer'⟩ | ⟨e', rest', noMore'⟩ <;>
    simp only [outcome_read, outcome_failed, Prod.mk.injEq, Except.ok.injEq, Except.error.injEq,
      reduceCtorEq, false_and] at h
  · obtain ⟨rfl, rfl⟩ := h
    rfl
  · obtain ⟨rfl, rfl⟩ := h
    rfl

theorem length_lt_of_outcome {x : Reading α n} {a : α} (h : x.outcome = (.ok a, rest)) :
    rest.length < n := by
  cases x with
  | read a' rest' fewer =>
    obtain ⟨-, rfl⟩ := Prod.mk.inj h
    exact fewer
  | failed e rest' noMore => cases (Prod.mk.inj h).1

end Reading

/-! ## Equations of the readers -/

section Readers

variable (fault : Option LexError)

open Reading

/-- Readers of operands that differ only in how they read what is inside have outcomes of one form.
The tokens in front decide what is inside: an expression in parentheses or the arguments of a
call. -/
theorem outcome_operand {operand expr : (ts : List Token) → Reading Expr ts.length}
    {list : (ts : List Token) → Reading (List Expr) ts.length}
    (hoperand : ∀ ts, operand ts = match ts with
      | .number v :: rest =>
        stepOver fault (.number v) rest (read (.number v) rest (Nat.lt_add_one _))
      | .symbol '(' :: rest =>
        stepOver fault (.symbol '(') rest <|
          ((expr rest).bind fun e after h ↦
            (close fault .closingParen e after).widen (Nat.le_of_lt h)).widen (Nat.le_succ _)
      | .identifier f :: rest =>
        stepOver fault (.identifier f) rest <|
          match rest with
          | .symbol '(' :: rest =>
            (stepOver fault (.symbol '(') rest <|
              match rest with
              | .symbol ')' :: rest =>
                (stepOver fault (.symbol ')') rest
                  (read (.call f []) rest (Nat.lt_add_one _))).widen (Nat.le_succ _)
              | rest =>
                ((list rest).bind fun args after h ↦
                  read (.call f args) after h).widen (Nat.le_succ _)).widen (Nat.le_succ _)
          | rest => read (.name f) rest (Nat.lt_add_one _)
      | ts => failed (.expected .expression) ts (Nat.le_refl _)) (ts : List Token) :
    (operand ts).outcome =
      operandBy (fun rest ↦ (expr rest).outcome) (fun rest ↦ (list rest).outcome) fault ts := by
  rw [hoperand]
  split
  · exact outcome_stepOver _
  · rw [outcome_stepOver, outcome_widen, operandBy]
    congr 1
    exact outcome_bind fun e after h ↦ (outcome_widen _ _).trans (outcome_close _ e after)
  · rw [outcome_stepOver, operandBy]
    congr 1
    split
    · rw [outcome_widen, outcome_stepOver, namedBy]
      congr 1
      split
      · simp [argumentsBy, andThen_behind]
      · rename_i hclose
        rw [outcome_widen, argumentsBy.eq_2 _ _ _ hclose]
        exact outcome_bind fun args after h ↦ rfl
    · simp [namedBy, *]
  · simp [operandBy, *]

theorem outcome_readPrimary (ts : List Token) :
    (readPrimary fault ts).outcome =
      operandBy (fun rest ↦ (readExpr fault rest).outcome)
        (fun rest ↦ (readArguments fault rest).outcome) fault ts :=
  outcome_operand fault (readPrimary.eq_def fault) ts

theorem outcome_readExpr (ts : List Token) :
    (readExpr fault ts).outcome =
      andThen (readPrimary fault ts).outcome fun lhs after ↦
        (readOperators fault 0 lhs after).outcome := by
  rw [readExpr.eq_def]
  exact outcome_bind fun lhs after h ↦ outcome_widen _ _

theorem outcome_readArguments (ts : List Token) :
    (readArguments fault ts).outcome =
      andThen (readExpr fault ts).outcome
        (moreBy (fun rest ↦ (readArguments fault rest).outcome) fault) := by
  rw [readArguments.eq_def]
  exact outcome_bind fun arg after h ↦
    (outcome_widen _ _).trans (outcome_afterArgument arg after fun _ _ ↦ rfl)

/-- An operator that binds tightly enough is read with its right operand, and reading goes on behind
it. -/
theorem outcome_readOperators {least p : Nat} {lhs : Expr} {op : Char}
    (hp : precedence? op = some p) (hleast : least ≤ p) (rest : List Token) :
    (readOperators fault least lhs (.symbol op :: rest)).outcome =
      behind fault (.symbol op) rest
        (andThen (readPrimary fault rest).outcome fun rhs after ↦
          andThen (readOperators fault (p + 1) rhs after).outcome fun rhs later ↦
            (readOperators fault least (.binary op lhs rhs) later).outcome) := by
  rw [readOperators.eq_def]
  simp only [hp, hleast, if_true]
  rw [outcome_widen, outcome_stepOver, outcome_widen]
  congr 1
  refine outcome_bind fun rhs after h ↦ ?_
  rw [← outcome_widen (readOperators fault (p + 1) rhs after)]
  exact outcome_bind fun rhs later h ↦ outcome_widen _ _

/-- Whether no operator that binds at least as tightly as `least` stands in front. -/
def Stops (least : Nat) (ts : List Token) : Prop :=
  ∀ op p rest, ts = .symbol op :: rest → precedence? op = some p → p < least

theorem stops_nil (least : Nat) : Stops least [] := nofun

theorem outcome_readOperators_of_stops {least : Nat} {lhs : Expr} {ts : List Token}
    (h : Stops least ts) : (readOperators fault least lhs ts).outcome = (.ok lhs, ts) := by
  rw [readOperators.eq_def]
  split
  · split
    · rename_i hp
      rw [if_neg (Nat.not_le.mpr (h _ _ _ rfl hp)), outcome_read]
    · rfl
  · rfl

theorem not_stops_iff {least : Nat} {ts : List Token} :
    ¬Stops least ts ↔
      ∃ op p rest, ts = .symbol op :: rest ∧ precedence? op = some p ∧ least ≤ p := by
  simp only [Stops, not_forall, Nat.not_lt, exists_prop]

/-- Operators are read on to one that does not bind tightly enough. -/
theorem stops_of_outcome_readOperators {least : Nat} {lhs e : Expr} {ts rest : List Token}
    (h : (readOperators fault least lhs ts).outcome = (.ok e, rest)) : Stops least rest := by
  induction hn : ts.length using Nat.strongRecOn generalizing lhs ts with
  | ind n ih =>
    subst hn
    by_cases hstops : Stops least ts
    · rw [outcome_readOperators_of_stops fault hstops] at h
      obtain ⟨-, rfl⟩ := Prod.mk.inj h
      exact hstops
    obtain ⟨op, p, after, rfl, hp, hleast⟩ := not_stops_iff.mp hstops
    rw [outcome_readOperators fault hp hleast, behind] at h
    split at h
    · cases (Prod.mk.inj h).1
    -- the right operand and the operators behind it leave fewer tokens
    rcases hrhs : (readPrimary fault after).outcome with ⟨_ | rhs, later⟩
    · rw [hrhs] at h
      cases (Prod.mk.inj h).1
    rw [hrhs, andThen_ok] at h
    have hlater := length_lt_of_outcome hrhs
    rcases hrhs' : (readOperators fault (p + 1) rhs later).outcome with ⟨_ | rhs', last⟩
    · rw [hrhs'] at h
      cases (Prod.mk.inj h).1
    rw [hrhs', andThen_ok] at h
    have hlast := length_lt_of_outcome hrhs'
    exact ih last.length (by rw [List.length_cons]; omega) h rfl

end Readers

end FloatLang
