import FloatLang.Proofs.Phrase

/-!
# Precedence climbing follows the grammar

The grammar of expressions has a tier for each operator. An expression of a tier is one of the next
tier, or several of them with the operator of the tier between them, grouped to the left; below the
last tier stand the operands. `readTier` reads by that grammar and knows nothing of precedences.

`readExpr` climbs instead: one loop reads all operators, and a number says how tightly the next one
must bind. The loop that asks for some tightness is the loop that asks for more, followed by the
chain of the one operator that the first loop takes and the second does not. This is `climb_chain`,
and from it both readers have the same outcome on all tokens, failures included.

What the readers by the grammar answer is written in the tokens that they step over, with
parentheses wherever they are needed. That is shown for them, since each tier fixes how tightly its
operands bind, and holds of `readExpr` because it is the same.
-/

namespace FloatLang

open Reading Outcome

/-! ## The grammar -/

/-- The operators, the one that binds loosest first. -/
def tiers : List Char := ['<', '+', '-', '*']

mutual

/-- Reads an operand: a number, a name, a call or an expression in parentheses. -/
def readOperand (fault : Option LexError) (ts : List Token) : Reading Expr ts.length :=
  match ts with
  | .number v :: rest => stepOver fault (.number v) rest (read (.number v) rest (Nat.lt_add_one _))
  | .symbol '(' :: rest =>
    stepOver fault (.symbol '(') rest <|
      ((readTier fault tiers rest).bind fun e after h ↦
        (close fault .closingParen e after).widen (Nat.le_of_lt h)).widen (Nat.le_succ _)
  | .identifier f :: rest =>
    stepOver fault (.identifier f) rest <|
      match rest with
      | .symbol '(' :: rest =>
        (stepOver fault (.symbol '(') rest <|
          match rest with
          | .symbol ')' :: rest =>
            (stepOver fault (.symbol ')') rest (read (.call f []) rest (Nat.lt_add_one _))).widen
              (Nat.le_succ _)
          | rest =>
            ((readList fault rest).bind fun args after h ↦
              read (.call f args) after h).widen (Nat.le_succ _)).widen (Nat.le_succ _)
      | rest => read (.name f) rest (Nat.lt_add_one _)
  | ts => failed (.expected .expression) ts (Nat.le_refl _)
termination_by (ts.length, 0)
decreasing_by all_goals (simp only [Prod.lex_def, List.length_cons]; omega)

/-- Reads an expression of the tier of the first operator, or an operand if there is none. -/
def readTier (fault : Option LexError) (ops : List Char) (ts : List Token) :
    Reading Expr ts.length :=
  match ops with
  | [] => readOperand fault ts
  | op :: tighter =>
    (readTier fault tighter ts).bind fun lhs after h ↦
      (readChain fault op tighter lhs after).widen h
termination_by (ts.length, ops.length + 1)
decreasing_by all_goals (simp [Prod.lex_def] at * <;> omega)

/-- Reads on behind `lhs` as long as the operator `op` follows, with an expression of the next tier
behind each. -/
def readChain (fault : Option LexError) (op : Char) (tighter : List Char) (lhs : Expr)
    (ts : List Token) : Reading Expr (ts.length + 1) :=
  match ts with
  | .symbol c :: rest =>
    if c = op then
      (stepOver fault (.symbol c) rest <|
        ((readTier fault tighter rest).bind fun rhs after h ↦
          (readChain fault op tighter (.binary op lhs rhs) after).widen h).widen
          (Nat.le_succ _)).widen (Nat.le_succ _)
    else read lhs (.symbol c :: rest) (Nat.lt_add_one _)
  | ts => read lhs ts (Nat.lt_add_one _)
termination_by (ts.length, 0)
decreasing_by all_goals (simp [Prod.lex_def] at * <;> omega)

/-- Reads one or more expressions with commas between them, and the parenthesis behind them. -/
def readList (fault : Option LexError) (ts : List Token) : Reading (List Expr) ts.length :=
  (readTier fault tiers ts).bind fun arg after h ↦
    (afterArgument fault arg after fun rest _ ↦ readList fault rest).widen (Nat.le_of_lt h)
termination_by (ts.length, 6)
decreasing_by all_goals (simp [Prod.lex_def, tiers] at * <;> omega)

end

/-! ## Equations -/

section Equations

variable (fault : Option LexError)

private theorem outcome_readOperand (ts : List Token) :
    (readOperand fault ts).outcome =
      operandBy (fun rest ↦ (readTier fault tiers rest).outcome)
        (fun rest ↦ (readList fault rest).outcome) fault ts :=
  outcome_operand fault (readOperand.eq_def fault) ts

private theorem readTier_nil (ts : List Token) : readTier fault [] ts = readOperand fault ts := by
  rw [readTier]

private theorem outcome_readTier_cons (op : Char) (tighter : List Char) (ts : List Token) :
    (readTier fault (op :: tighter) ts).outcome =
      andThen (readTier fault tighter ts).outcome fun lhs after ↦
        (readChain fault op tighter lhs after).outcome := by
  rw [readTier]
  exact outcome_bind fun lhs after h ↦ outcome_widen _ _

private theorem outcome_readChain (op : Char) (tighter : List Char) (lhs : Expr)
    (rest : List Token) : (readChain fault op tighter lhs (.symbol op :: rest)).outcome =
      behind fault (.symbol op) rest
        (andThen (readTier fault tighter rest).outcome fun rhs after ↦
          (readChain fault op tighter (.binary op lhs rhs) after).outcome) := by
  rw [readChain, if_pos rfl, outcome_widen, outcome_stepOver, outcome_widen]
  congr 1
  exact outcome_bind fun rhs after h ↦ outcome_widen _ _

private theorem outcome_readChain_of_ne {op : Char} (tighter : List Char) (lhs : Expr)
    {ts : List Token} (h : ∀ rest, ts ≠ .symbol op :: rest) :
    (readChain fault op tighter lhs ts).outcome = (.ok lhs, ts) := by
  rw [readChain.eq_def]
  split
  · rw [if_neg (by rintro rfl; exact h _ rfl), outcome_read]
  · rfl

private theorem outcome_readList (ts : List Token) :
    (readList fault ts).outcome =
      andThen (readTier fault tiers ts).outcome
        (moreBy (fun rest ↦ (readList fault rest).outcome) fault) := by
  rw [readList.eq_def]
  exact outcome_bind fun arg after h ↦
    (outcome_widen _ _).trans (outcome_afterArgument arg after fun _ _ ↦ rfl)

end Equations

/-! ## Tiers and precedences -/

/-- The operators, the loosest first, are those that bind at least as tightly as `least`. -/
def Graded (least : Nat) : List Char → Prop
  | [] => ∀ op p, precedence? op = some p → p < least
  | op :: tighter => ∃ p, precedence? op = some p ∧ least ≤ p ∧
      (∀ op' p', precedence? op' = some p' → least ≤ p' → op' = op ∨ p < p') ∧
      Graded (p + 1) tighter

private theorem graded_tiers : Graded 0 tiers := by
  have hcases : ∀ op p, precedence? op = some p →
      (op = '<' ∧ p = 10) ∨ (op = '+' ∧ p = 20) ∨ (op = '-' ∧ p = 30) ∨ (op = '*' ∧ p = 40) := by
    grind [precedence?]
  refine ⟨10, rfl, ?_, ?_, 20, rfl, ?_, ?_, 30, rfl, ?_, ?_, 40, rfl, ?_, ?_, ?_⟩ <;>
    grind [Graded]

/-! ## Climbing is reading by tiers -/

section Climbing

variable {fault : Option LexError} {ts : List Token}

structure Agrees (fault : Option LexError) (ts : List Token) : Prop where
  operand : (readOperand fault ts).outcome = (readPrimary fault ts).outcome
  /-- A tier reads an operand and climbs on. -/
  tier : ∀ least ops, Graded least ops → (readTier fault ops ts).outcome =
    andThen (readPrimary fault ts).outcome fun lhs after ↦
      (readOperators fault least lhs after).outcome
  /-- Climbing is climbing more steeply and then reading a chain. -/
  chain : ∀ least op p tighter lhs, Graded least (op :: tighter) → precedence? op = some p →
    (readOperators fault least lhs ts).outcome =
      andThen (readOperators fault (p + 1) lhs ts).outcome fun e after ↦
        (readChain fault op tighter e after).outcome
  list : (readList fault ts).outcome = (readArguments fault ts).outcome

variable (ih : ∀ rest, rest.length < ts.length → Agrees fault rest)
include ih

private theorem climb_chain {least p : Nat} {op : Char} {tighter : List Char} (lhs : Expr)
    (hgraded : Graded least (op :: tighter)) (hop : precedence? op = some p) :
    (readOperators fault least lhs ts).outcome =
      andThen (readOperators fault (p + 1) lhs ts).outcome fun e after ↦
        (readChain fault op tighter e after).outcome := by
  obtain ⟨p', hop', hleast, hnext, htighter⟩ := hgraded
  obtain rfl := Option.some.inj (hop.symm.trans hop')
  by_cases hstops : Stops least ts
  · -- no operator is taken, neither by the loops nor by the chain
    have hstops' : Stops (p + 1) ts := fun c q rest hts hq ↦
      Nat.lt_succ_of_lt (Nat.lt_of_lt_of_le (hstops c q rest hts hq) hleast)
    have hne : ∀ rest, ts ≠ .symbol op :: rest := fun rest hts ↦
      Nat.not_le.mpr (hstops op p rest hts hop) hleast
    rw [outcome_readOperators_of_stops fault hstops, outcome_readOperators_of_stops fault hstops',
      andThen_ok, outcome_readChain_of_ne fault tighter lhs hne]
  obtain ⟨c, q, rest, rfl, hc, hq⟩ := not_stops_iff.mp hstops
  have hrest := ih rest (Nat.lt_succ_self _)
  rw [outcome_readOperators fault hc hq]
  rcases hnext c q hc hq with rfl | hlt
  · -- the operator of the chain: its right operand is read by the next tier
    obtain rfl := Option.some.inj (hc.symm.trans hop)
    have hstops' : Stops (q + 1) (.symbol c :: rest) := by
      intro c' q' rest' hts hq'
      obtain ⟨htoken, -⟩ := List.cons.inj hts
      obtain rfl := Token.symbol.inj htoken
      obtain rfl := Option.some.inj (hc.symm.trans hq')
      exact Nat.lt_succ_self _
    rw [outcome_readOperators_of_stops fault hstops', andThen_ok, outcome_readChain,
      hrest.tier _ _ htighter, andThen_assoc]
    congr 1
    refine andThen_congr fun rhs after hrhs ↦ andThen_congr fun rhs' later hrhs' ↦ ?_
    have hafter := length_lt_of_outcome hrhs
    have hlater := length_lt_of_outcome hrhs'
    have hchain := (ih later (by rw [List.length_cons]; omega)).chain least c q tighter
      (.binary c lhs rhs') ⟨q, hc, hleast, hnext, htighter⟩ hc
    -- behind the right operand no operator stands that binds more tightly
    rwa [outcome_readOperators_of_stops fault (stops_of_outcome_readOperators fault hrhs'),
      andThen_ok] at hchain
  · -- a tighter operator is taken by both loops
    rw [outcome_readOperators fault hc (Nat.succ_le_of_lt hlt), andThen_behind, andThen_assoc]
    congr 1
    refine andThen_congr fun rhs after hrhs ↦ ?_
    rw [andThen_assoc]
    refine andThen_congr fun rhs' later hrhs' ↦ ?_
    have hafter := length_lt_of_outcome hrhs
    have hlater := length_lt_of_outcome hrhs'
    exact (ih later (by rw [List.length_cons]; omega)).chain least op p tighter _
      ⟨p, hop, hleast, hnext, htighter⟩ hop

private theorem climb_operand :
    (readOperand fault ts).outcome = (readPrimary fault ts).outcome := by
  rw [outcome_readOperand, outcome_readPrimary]
  refine operandBy_congr (fun rest hlen ↦ ?_) fun rest hlen ↦ (ih rest hlen).list
  rw [(ih rest hlen).tier 0 tiers graded_tiers, outcome_readExpr]

private theorem climb_tier {least : Nat} {ops : List Char} (hgraded : Graded least ops) :
    (readTier fault ops ts).outcome =
      andThen (readPrimary fault ts).outcome fun lhs after ↦
        (readOperators fault least lhs after).outcome := by
  induction ops generalizing least with
  | nil =>
    -- no operator binds tightly enough
    rw [readTier_nil, climb_operand ih]
    refine (andThen_ok_self _).symm.trans (andThen_congr fun lhs after _ ↦ ?_)
    exact (outcome_readOperators_of_stops fault fun op p _ _ hp ↦ hgraded op p hp).symm
  | cons op tighter ihops =>
    have ⟨p, hop, _, _, htighter⟩ := hgraded
    rw [outcome_readTier_cons, ihops htighter, andThen_assoc]
    refine andThen_congr fun lhs after hlhs ↦ ?_
    exact ((ih after (length_lt_of_outcome hlhs)).chain least op p tighter lhs hgraded hop).symm

private theorem climb_list :
    (readList fault ts).outcome = (readArguments fault ts).outcome := by
  rw [outcome_readList, outcome_readArguments, climb_tier ih graded_tiers, ← outcome_readExpr]
  refine andThen_congr fun arg after harg ↦ moreBy_congr (fun rest hlen ↦ ?_) arg
  exact (ih rest (Nat.lt_trans hlen (length_lt_of_outcome harg))).list

end Climbing

theorem agrees (fault : Option LexError) (ts : List Token) : Agrees fault ts := by
  induction hn : ts.length using Nat.strongRecOn generalizing ts with
  | ind n ih =>
    subst hn
    have ih' : ∀ rest, rest.length < ts.length → Agrees fault rest := fun rest hlen ↦
      ih _ hlen rest rfl
    exact ⟨climb_operand ih', fun _ _ ↦ climb_tier ih', fun _ _ _ _ ↦ climb_chain ih',
      climb_list ih'⟩

/-- Reading by the first tier is climbing from the bottom. -/
theorem readTier_eq_readExpr (fault : Option LexError) (ts : List Token) :
    readTier fault tiers ts = readExpr fault ts := by
  refine outcome_injective ?_
  rw [(agrees fault ts).tier 0 tiers graded_tiers, outcome_readExpr]

/-! ## Parentheses stand where they are needed -/

section Parentheses

variable {fault : Option LexError} {ts : List Token}

/-- An expression that binds at least as tightly as `least` is read from what it is written with. -/
def SpellsTier (least : Nat) (ts : List Token) (o : Outcome Expr) : Prop :=
  Spells (fun front e ↦ ∃ p : Phrase, p.Writes front e ∧ p.Binds least) ts o

/-- What the readers of tiers answer on the tokens `ts` is written with what they step over. -/
structure SpellingReaders (fault : Option LexError) (ts : List Token) : Prop where
  tier : ∀ least ops, Graded least ops → SpellsTier least ts (readTier fault ops ts).outcome
  list : SpellsList ts (readList fault ts).outcome

/-- A chain goes on from a phrase that binds at least as tightly as its operator. -/
private theorem spells_chain {op : Char} {tighter : List Char} {p : Nat}
    (hop : precedence? op = some p)
    (htier : ∀ rest, rest.length < ts.length →
      SpellsTier (p + 1) rest (readTier fault tighter rest).outcome)
    {lhs : Phrase} (hlhs : lhs.Ordered) (hbinds : lhs.Binds p) :
    Spells (fun front e ↦ ∃ q : Phrase, q.Writes (lhs.tokens ++ front) e ∧ q.Binds p) ts
      (readChain fault op tighter lhs.expr ts).outcome := by
  obtain ⟨n, hn⟩ : ∃ n, n = ts.length := ⟨_, rfl⟩
  induction n using Nat.strongRecOn generalizing ts lhs with
  | ind n ih =>
    subst hn
    by_cases hhead : ∃ rest, ts = .symbol op :: rest
    · obtain ⟨rest, rfl⟩ := hhead
      rw [outcome_readChain]
      refine .behind (.andThen (htier rest (Nat.lt_succ_self _)) ?_)
      rintro e front after hrhs ⟨rhs, hwrites, hrhsBinds⟩
      have hlen := Nat.lt_succ_of_lt (length_lt_of_outcome hrhs)
      -- the chain goes on from the phrase that has been put together
      have hordered : (Phrase.binary op lhs rhs).Ordered :=
        ⟨p, hop, hbinds, hrhsBinds, hlhs, hwrites.ordered⟩
      have hchain := ih after.length hlen
        (fun later hlater ↦ htier later (Nat.lt_trans hlater hlen)) hordered
        ⟨p, hop, Nat.le_refl p⟩ rfl
      rw [Phrase.expr, hwrites.expr] at hchain
      refine hchain.mono fun later e' hq ↦ ?_
      rw [Phrase.tokens, hwrites.tokens] at hq
      simpa using hq
    · rw [outcome_readChain_of_ne fault tighter lhs.expr fun rest hts ↦ hhead ⟨rest, hts⟩]
      exact spells_ok ⟨lhs, ⟨(List.append_nil _).symm, rfl, hlhs⟩, hbinds⟩

variable (ih : ∀ rest, rest.length < ts.length → SpellingReaders fault rest)
include ih

private theorem spells_tier {least : Nat} {ops : List Char} (hgraded : Graded least ops) :
    SpellsTier least ts (readTier fault ops ts).outcome := by
  induction ops generalizing least with
  | nil =>
    rw [readTier_nil, outcome_readOperand]
    refine (spells_operandBy (fun rest hlen ↦ ?_) fun rest hlen ↦ (ih rest hlen).list).mono
      fun front e ⟨p, hp, hbinds⟩ ↦ ⟨p, hp, hbinds least⟩
    exact ((ih rest hlen).tier 0 tiers graded_tiers).mono fun front e ⟨p, hp, _⟩ ↦ ⟨p, hp⟩
  | cons op tighter ihops =>
    obtain ⟨p, hop, hleast, -, htighter⟩ := hgraded
    rw [outcome_readTier_cons]
    refine .andThen (ihops htighter) ?_
    rintro e front after hlhs ⟨lhs, hwrites, hbinds⟩
    have hlen := length_lt_of_outcome hlhs
    have hchain := spells_chain hop (fun rest hrest ↦
      (ih rest (Nat.lt_trans hrest hlen)).tier _ _ htighter) hwrites.ordered
      (hbinds.mono (Nat.le_succ p))
    rw [hwrites.expr, hwrites.tokens] at hchain
    exact hchain.mono fun later e' ⟨q, hq, hqBinds⟩ ↦ ⟨q, hq, hqBinds.mono hleast⟩

private theorem spells_list : SpellsList ts (readList fault ts).outcome := by
  rw [outcome_readList]
  refine .andThen (spells_tier ih graded_tiers) ?_
  rintro e front after harg ⟨p, hp, -⟩
  have hlen := length_lt_of_outcome harg
  exact spells_moreBy hp fun rest hrest ↦ (ih rest (Nat.lt_trans hrest hlen)).list

end Parentheses

theorem spellingReaders (fault : Option LexError) (ts : List Token) :
    SpellingReaders fault ts := by
  induction hn : ts.length using Nat.strongRecOn generalizing ts with
  | ind n ih =>
    subst hn
    have ih' : ∀ rest, rest.length < ts.length → SpellingReaders fault rest := fun rest hlen ↦
      ih _ hlen rest rfl
    exact ⟨fun _ _ ↦ spells_tier ih', spells_list ih'⟩

/-- **Precedence climbing is reading by the grammar.** On all tokens, and in front of any fault, the
two readers answer the same and leave the same tokens, or fail with the same error at the same
token. An expression that is read is written in the tokens that are stepped over, one after the
other: a left operand without parentheses binds at least as tightly as its operator, and a right one
more tightly. Also a reader that fails has only stepped over tokens. -/
theorem readExpr_eq_readTier (fault : Option LexError) (ts : List Token) :
    readExpr fault ts = readTier fault tiers ts ∧
      match readExpr fault ts with
      | .read e rest _ => ∃ p : Phrase, p.expr = e ∧ p.Ordered ∧ p.tokens ++ rest = ts
      | .failed _ rest _ => rest <:+ ts := by
  have heq := readTier_eq_readExpr fault ts
  obtain ⟨front, hts, hp⟩ := (spellingReaders fault ts).tier 0 tiers graded_tiers
  rw [heq] at hts hp
  refine ⟨heq.symm, ?_⟩
  split
  · rename_i e rest _ hread
    rw [hread] at hts hp
    obtain ⟨p, hp, -⟩ := hp e rfl
    exact ⟨p, hp.expr, hp.ordered, by rw [hp.tokens]; exact hts.symm⟩
  · rename_i err rest _ hfailed
    rw [hfailed] at hts
    exact ⟨front, hts.symm⟩

end FloatLang
