import FloatLang.Proofs.Outcome

/-!
# Expressions as they are written

A *phrase* is an expression with its parentheses: they are not part of an expression, but they say
how one is to be read. A phrase has its tokens, in order, and the expression that it stands for. It
is *ordered* if parentheses stand wherever the operators would group otherwise: a left operand
without parentheses binds at least as tightly as the operator behind it, and a right operand without
parentheses binds more tightly than the operator in front of it.
-/

namespace FloatLang

/-- An expression as it is written. -/
inductive Phrase
  | number (value : Double)
  | name (name : String)
  | call (callee : String) (args : List Phrase)
  | parens (inner : Phrase)
  | binary (op : Char) (lhs rhs : Phrase)

namespace Phrase

mutual

def tokens : Phrase → List Token
  | number v => [.number v]
  | name x => [.identifier x]
  | call f args => .identifier f :: .symbol '(' :: (listTokens args ++ [.symbol ')'])
  | parens p => .symbol '(' :: (p.tokens ++ [.symbol ')'])
  | binary op l r => l.tokens ++ .symbol op :: r.tokens

/-- The tokens of phrases with commas between them. -/
def listTokens : List Phrase → List Token
  | [] => []
  | [p] => p.tokens
  | p :: q :: ps => p.tokens ++ .symbol ',' :: listTokens (q :: ps)

end

mutual

/-- The expression that a phrase stands for. -/
def expr : Phrase → Expr
  | number v => .number v
  | name x => .name x
  | call f args => .call f (exprs args)
  | parens p => p.expr
  | binary op l r => .binary op l.expr r.expr

def exprs : List Phrase → List Expr
  | [] => []
  | p :: ps => p.expr :: exprs ps

end

/-- Whether the operator that is not in parentheses, if there is one, binds at least as tightly as
`least`. -/
def Binds (least : Nat) : Phrase → Prop
  | binary op _ _ => ∃ p, precedence? op = some p ∧ least ≤ p
  | _ => True

mutual

/-- Whether parentheses stand wherever the operators would group otherwise. -/
def Ordered : Phrase → Prop
  | number _ => True
  | name _ => True
  | call _ args => AllOrdered args
  | parens p => p.Ordered
  | binary op l r =>
    ∃ p, precedence? op = some p ∧ l.Binds p ∧ r.Binds (p + 1) ∧ l.Ordered ∧ r.Ordered

def AllOrdered : List Phrase → Prop
  | [] => True
  | p :: ps => p.Ordered ∧ AllOrdered ps

end

theorem Binds.mono {least least' : Nat} {p : Phrase} (h : p.Binds least') (hle : least ≤ least') :
    p.Binds least := by
  cases p with
  | binary op l r =>
    obtain ⟨q, hq, hbinds⟩ := h
    exact ⟨q, hq, Nat.le_trans hle hbinds⟩
  | _ => trivial

theorem listTokens_cons (p : Phrase) {ps : List Phrase} (h : ps ≠ []) :
    listTokens (p :: ps) = p.tokens ++ .symbol ',' :: listTokens ps := by
  cases ps with
  | nil => exact absurd rfl h
  | cons q ps => rw [listTokens]

/-- The phrase is ordered, is written with the tokens `ts` and stands for `e`. -/
structure Writes (p : Phrase) (ts : List Token) (e : Expr) : Prop where
  tokens : p.tokens = ts
  expr : p.expr = e
  ordered : p.Ordered

/-- The phrases are ordered, are written with the tokens `ts` and stand for `es`, and there is at
least one. -/
structure AllWrite (ps : List Phrase) (ts : List Token) (es : List Expr) : Prop where
  nonempty : ps ≠ []
  tokens : listTokens ps = ts
  exprs : exprs ps = es
  ordered : AllOrdered ps

end Phrase

/-! ## What is read is what is written -/

namespace Outcome

open Phrase

variable {α β : Type} {fault : Option LexError} {ts rest : List Token}

/-- Some of the tokens `ts` are stepped over, and if a value is read, then it stands in the relation
`r` to these. -/
def Spells (r : List Token → α → Prop) (ts : List Token) (o : Outcome α) : Prop :=
  ∃ front, ts = front ++ o.2 ∧ ∀ a, o.1 = .ok a → r front a

theorem spells_ok {r : List Token → α → Prop} {a : α} (h : r [] a) : Spells r ts (.ok a, ts) :=
  ⟨[], rfl, fun _ heq ↦ Except.ok.inj heq ▸ h⟩

theorem spells_error {r : List Token → α → Prop} {e : ReadError} : Spells r ts (.error e, ts) :=
  ⟨[], rfl, nofun⟩

theorem Spells.mono {r r' : List Token → α → Prop} {o : Outcome α} (ho : Spells r ts o)
    (h : ∀ front a, r front a → r' front a) : Spells r' ts o := by
  obtain ⟨front, hts, ha⟩ := ho
  exact ⟨front, hts, fun a heq ↦ h front a (ha a heq)⟩

theorem Spells.behind {r : List Token → α → Prop} {t : Token} {o : Outcome α}
    (ho : Spells (fun front a ↦ r (t :: front) a) rest o) :
    Spells r (t :: rest) (behind fault t rest o) := by
  rw [Outcome.behind]
  split
  · exact spells_error
  · obtain ⟨front, hrest, ha⟩ := ho
    exact ⟨t :: front, congrArg (t :: ·) hrest, ha⟩

theorem Spells.andThen {q : List Token → α → Prop} {r : List Token → β → Prop} {o : Outcome α}
    {next : α → List Token → Outcome β} (ho : Spells q ts o)
    (hnext : ∀ a front rest, o = (.ok a, rest) → q front a →
      Spells (fun later b ↦ r (front ++ later) b) rest (next a rest)) :
    Spells r ts (andThen o next) := by
  obtain ⟨e | a, rest⟩ := o
  · obtain ⟨front, hts, -⟩ := ho
    exact ⟨front, hts, nofun⟩
  · obtain ⟨front, hts, ha⟩ := ho
    obtain ⟨later, hrest, hb⟩ := hnext a front rest rfl (ha a rfl)
    refine ⟨front ++ later, ?_, hb⟩
    rw [List.append_assoc, andThen_ok, ← hrest]
    exact hts

section Operands

variable {expr : List Token → Outcome Expr} {list : List Token → Outcome (List Expr)}

/-- A reader of lists of arguments writes them with commas between them and a parenthesis behind. -/
def SpellsList (ts : List Token) (o : Outcome (List Expr)) : Prop :=
  Spells (fun front es ↦ ∃ ps later, front = later ++ [.symbol ')'] ∧ AllWrite ps later es) ts o

theorem spells_closed {r : List Token → α → Prop} {missing : Expected} {a : α}
    (h : r [.symbol ')'] a) : Spells r ts (closed fault missing a ts) := by
  rw [closed.eq_def]
  split
  · exact .behind (spells_ok h)
  · exact spells_error

theorem spells_moreBy {p : Phrase} {front : List Token} {e : Expr} (hp : p.Writes front e)
    (hlist : ∀ rest, rest.length < ts.length → SpellsList rest (list rest)) :
    Spells (fun later es ↦ ∃ ps middle, front ++ later = middle ++ [.symbol ')'] ∧
      AllWrite ps middle es) ts (moreBy list fault e ts) := by
  rw [moreBy.eq_def]
  split
  · rename_i rest
    refine .behind (.andThen (hlist rest (Nat.lt_succ_self _)) ?_)
    rintro es _ after - ⟨ps, later, rfl, hps⟩
    refine spells_ok ⟨p :: ps, front ++ .symbol ',' :: later, by simp, by simp, ?_, ?_, hp.ordered,
      hps.ordered⟩
    · rw [listTokens_cons p hps.nonempty, hp.tokens, hps.tokens]
    · rw [exprs, hp.expr, hps.exprs]
  · refine spells_closed ⟨[p], front, rfl, by simp, hp.tokens, ?_, hp.ordered, trivial⟩
    rw [exprs, hp.expr]
    rfl

theorem spells_namedBy (f : String)
    (hlist : ∀ rest, rest.length < ts.length → SpellsList rest (list rest)) :
    Spells (fun front e ↦ ∃ p : Phrase, p.Writes (.identifier f :: front) e ∧
      ∀ least, p.Binds least) ts (namedBy list fault f ts) := by
  rw [namedBy.eq_def]
  split
  · rename_i rest
    refine .behind ?_
    rw [argumentsBy.eq_def]
    split
    · rw [andThen_behind]
      exact .behind (spells_ok ⟨.call f [], ⟨rfl, rfl, trivial⟩, fun _ ↦ trivial⟩)
    · refine .andThen (hlist rest (Nat.lt_succ_self _)) ?_
      rintro es _ after - ⟨ps, later, rfl, hps⟩
      refine spells_ok ⟨.call f ps, ⟨?_, ?_, hps.ordered⟩, fun _ ↦ trivial⟩
      · rw [Phrase.tokens, hps.tokens, List.append_nil]
      · rw [Phrase.expr, hps.exprs]
  · exact spells_ok ⟨.name f, ⟨rfl, rfl, trivial⟩, fun _ ↦ trivial⟩

/-- An operand is written without an operator outside of parentheses. -/
theorem spells_operandBy
    (hexpr : ∀ rest, rest.length < ts.length →
      Spells (fun front e ↦ ∃ p : Phrase, p.Writes front e) rest (expr rest))
    (hlist : ∀ rest, rest.length < ts.length → SpellsList rest (list rest)) :
    Spells (fun front e ↦ ∃ p : Phrase, p.Writes front e ∧ ∀ least, p.Binds least) ts
      (operandBy expr list fault ts) := by
  rw [operandBy.eq_def]
  split
  · rename_i v rest
    exact .behind (spells_ok ⟨.number v, ⟨rfl, rfl, trivial⟩, fun _ ↦ trivial⟩)
  · rename_i rest
    refine .behind (.andThen (hexpr rest (Nat.lt_succ_self _)) ?_)
    rintro e front after - ⟨p, hp⟩
    refine spells_closed ⟨.parens p, ⟨?_, hp.expr, hp.ordered⟩, fun _ ↦ trivial⟩
    rw [Phrase.tokens, hp.tokens]
  · rename_i f rest
    exact .behind (spells_namedBy f fun rest hlen ↦ hlist rest (Nat.lt_succ_of_lt hlen))
  · exact spells_error

end Operands

end Outcome

end FloatLang
