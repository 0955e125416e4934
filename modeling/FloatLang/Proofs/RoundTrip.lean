import FloatLang.Proofs.Cutting
import FloatLang.Proofs.Phrase
import Mathlib.Logic.Relation

/-!
# What is written is read back

An expression is written with as few parentheses as its operators allow: a left operand stands in
parentheses if its operator binds less tightly than the one behind it, and a right operand if its
operator does not bind more tightly than the one in front of it. The phrase that is written so is
ordered, and stays so with further pairs of parentheses; so it is enough that every ordered phrase
is read back (`Phrase.readBack`), by recursion on the phrase. What carries the recursion is not the
expression alone but the operators that go on behind it: a phrase is read as an operand, and then
reading goes on behind it as if its expression had been read.

As a text, the tokens stand with spaces between them, and are cut out again one by one.
-/

namespace FloatLang

open TokenStream Outcome

/-! ## Reading an ordered phrase -/

namespace Phrase

private theorem exprs_eq_map (ps : List Phrase) : exprs ps = ps.map expr := by
  induction ps with
  | nil => rfl
  | cons p ps ih => rw [exprs, ih, List.map_cons]

private theorem allOrdered_iff {ps : List Phrase} : AllOrdered ps ↔ ∀ p ∈ ps, p.Ordered := by
  induction ps with
  | nil => exact iff_of_true trivial nofun
  | cons p ps ih => rw [AllOrdered, ih, List.forall_mem_cons]

theorem Ordered.binds_zero {p : Phrase} (h : p.Ordered) : p.Binds 0 := by
  cases p with
  | binary op l r =>
    obtain ⟨q, hq, -⟩ := h
    exact ⟨q, hq, Nat.zero_le q⟩
  | _ => trivial

/-- No phrase starts with the parenthesis that closes another. -/
private theorem exists_tokens_eq_cons : (p : Phrase) → ∃ t ts, p.tokens = t :: ts ∧ t ≠ .symbol ')'
  | number _ => ⟨_, _, rfl, nofun⟩
  | name _ => ⟨_, _, rfl, nofun⟩
  | call _ _ => ⟨_, _, rfl, nofun⟩
  | parens _ => ⟨_, _, rfl, by decide⟩
  | binary op l r => by
    obtain ⟨t, ts, htokens, ht⟩ := exists_tokens_eq_cons l
    exact ⟨t, ts ++ .symbol op :: r.tokens, by rw [tokens, htokens]; rfl, ht⟩

private theorem exists_listTokens_eq_cons (p : Phrase) (ps : List Phrase) :
    ∃ t ts, listTokens (p :: ps) = t :: ts ∧ t ≠ .symbol ')' := by
  obtain ⟨t, ts, htokens, ht⟩ := exists_tokens_eq_cons p
  cases ps with
  | nil => exact ⟨t, ts, htokens, ht⟩
  | cons q ps =>
    refine ⟨t, ts ++ .symbol ',' :: listTokens (q :: ps), ?_, ht⟩
    rw [listTokens, htokens]
    rfl

variable {fault : Option LexError} {p : Phrase} {ps : List Phrase} {rest : List Token}

/-- What follows a phrase leaves it as it is: its last token can be stepped over, a name at its end
is not called, and an operator behind it takes all of it as its left operand. -/
structure EndsBefore (fault : Option LexError) (rest : List Token) (p : Phrase) : Prop where
  unblocked : blocking? fault rest = none
  uncalled : ∀ later, rest ≠ .symbol '(' :: later
  grouped : ∀ op q later, rest = .symbol op :: later → precedence? op = some q → p.Binds q

private theorem blocking?_of_ne_nil (h : rest ≠ []) : blocking? fault rest = none := by
  cases rest with
  | nil => exact absurd rfl h
  | cons t rest => rfl

private theorem endsBefore_nil : p.EndsBefore none [] := ⟨rfl, nofun, nofun⟩

section Closer

variable {c : Char} (hc : precedence? c = none)
include hc

private theorem endsBefore_closer (hopen : c ≠ '(') : p.EndsBefore fault (.symbol c :: rest) where
  unblocked := rfl
  uncalled later heq := hopen (Token.symbol.inj (List.cons.inj heq).1)
  grouped op q later heq hq := by
    obtain rfl := Token.symbol.inj (List.cons.inj heq).1
    rw [hc] at hq
    cases hq

private theorem stops_closer (least : Nat) : Stops least (.symbol c :: rest) := by
  intro op q later heq hq
  obtain rfl := Token.symbol.inj (List.cons.inj heq).1
  rw [hc] at hq
  cases hq

end Closer

/-- The phrase is read as an operand and as the operators behind it, up to where it ends. -/
def ReadBack (fault : Option LexError) (p : Phrase) : Prop :=
  ∀ least rest, p.Binds least → p.EndsBefore fault rest →
    andThen (readPrimary fault (p.tokens ++ rest)).outcome
        (fun lhs after ↦ (readOperators fault least lhs after).outcome) =
      (readOperators fault least p.expr rest).outcome

private theorem readBack_of_readPrimary
    (h : ∀ rest, p.EndsBefore fault rest →
      (readPrimary fault (p.tokens ++ rest)).outcome = (.ok p.expr, rest)) :
    ReadBack fault p := by
  intro least rest _ hrest
  rw [h rest hrest, andThen_ok]

theorem ReadBack.outcome_readExpr (h : ReadBack fault p) (hp : p.Ordered)
    (hrest : p.EndsBefore fault rest) (hstops : Stops 0 rest) :
    (readExpr fault (p.tokens ++ rest)).outcome = (.ok p.expr, rest) := by
  rw [FloatLang.outcome_readExpr, h 0 rest hp.binds_zero hrest,
    outcome_readOperators_of_stops fault hstops]

private theorem readBack_number (v : Double) : ReadBack fault (number v) := by
  refine readBack_of_readPrimary fun rest hrest ↦ ?_
  rw [outcome_readPrimary, tokens, List.singleton_append, operandBy,
    behind_of_blocking?_eq_none hrest.unblocked, expr]

private theorem readBack_name (x : String) : ReadBack fault (name x) := by
  refine readBack_of_readPrimary fun rest hrest ↦ ?_
  rw [outcome_readPrimary, tokens, List.singleton_append, operandBy,
    behind_of_blocking?_eq_none hrest.unblocked, namedBy.eq_2 _ _ _ _ hrest.uncalled, expr]

private theorem readBack_parens (h : ReadBack fault p) (hp : p.Ordered) :
    ReadBack fault (parens p) := by
  refine readBack_of_readPrimary fun rest hrest ↦ ?_
  have hinner : (readExpr fault (p.tokens ++ .symbol ')' :: rest)).outcome =
      (.ok p.expr, .symbol ')' :: rest) :=
    h.outcome_readExpr hp (endsBefore_closer (by decide) (by decide)) (stops_closer (by decide) 0)
  rw [outcome_readPrimary, tokens, List.cons_append, List.append_assoc, List.singleton_append,
    operandBy, hinner, andThen_ok, closed, behind_of_blocking?_eq_none hrest.unblocked, expr,
    behind_of_blocking?_eq_none (blocking?_of_ne_nil (by simp))]

private theorem outcome_readArguments_listTokens (h : ∀ p ∈ ps, p.Ordered ∧ ReadBack fault p)
    (hne : ps ≠ []) (hrest : blocking? fault rest = none) :
    (readArguments fault (listTokens ps ++ .symbol ')' :: rest)).outcome =
      (.ok (exprs ps), rest) := by
  induction ps with
  | nil => exact absurd rfl hne
  | cons p ps ih =>
    obtain ⟨⟨hp, hread⟩, hps⟩ := List.forall_mem_cons.mp h
    by_cases hlast : ps = []
    · subst hlast
      rw [outcome_readArguments, listTokens, hread.outcome_readExpr hp
        (endsBefore_closer (by decide) (by decide)) (stops_closer (by decide) 0), andThen_ok,
        moreBy.eq_2 _ _ _ _ (by simp), closed, behind_of_blocking?_eq_none hrest]
      rfl
    · obtain ⟨q, qs, rfl⟩ := List.exists_cons_of_ne_nil hlast
      rw [outcome_readArguments, listTokens_cons p hlast, List.append_assoc, List.cons_append,
        hread.outcome_readExpr hp (endsBefore_closer (by decide) (by decide))
          (stops_closer (by decide) 0), andThen_ok, moreBy, ih hps hlast, andThen_ok,
        behind_of_blocking?_eq_none (blocking?_of_ne_nil (by simp))]
      rfl

private theorem readBack_call (f : String) (h : ∀ p ∈ ps, p.Ordered ∧ ReadBack fault p) :
    ReadBack fault (call f ps) := by
  refine readBack_of_readPrimary fun rest hrest ↦ ?_
  have hargs : argumentsBy (fun rest ↦ (readArguments fault rest).outcome) fault
      (listTokens ps ++ .symbol ')' :: rest) = (.ok (exprs ps), rest) := by
    cases ps with
    | nil =>
      rw [listTokens, List.nil_append, argumentsBy, behind_of_blocking?_eq_none hrest.unblocked]
      rfl
    | cons p ps =>
      rw [argumentsBy.eq_2, outcome_readArguments_listTokens h (List.cons_ne_nil _ _)
        hrest.unblocked]
      obtain ⟨t, ts, htokens, ht⟩ := exists_listTokens_eq_cons p ps
      rw [htokens]
      exact fun later heq ↦ ht (List.cons.inj heq).1
  rw [outcome_readPrimary, tokens, List.cons_append, List.cons_append, List.append_assoc,
    List.singleton_append, operandBy, behind_of_blocking?_eq_none rfl, namedBy,
    behind_of_blocking?_eq_none (blocking?_of_ne_nil (by simp)), hargs, andThen_ok, expr]

private theorem readBack_binary {op : Char} {q : Nat} {l r : Phrase} (hq : precedence? op = some q)
    (hlhs : l.Binds q) (hrhs : r.Binds (q + 1)) (hl : ReadBack fault l) (hr : ReadBack fault r) :
    ReadBack fault (binary op l r) := by
  intro least rest hbinds hrest
  obtain ⟨q', hq', hleast⟩ := hbinds
  obtain rfl : q = q' := Option.some.inj (hq.symm.trans hq')
  have htight (op' : Char) (p : Nat) (later : List Token) (heq : rest = .symbol op' :: later)
      (hp : precedence? op' = some p) : p ≤ q := by
    obtain ⟨q', hq', hle⟩ := hrest.grouped op' p later heq hp
    obtain rfl := Option.some.inj (hq.symm.trans hq')
    exact hle
  -- the operator takes all of the left operand, and leaves the right one to the operator
  have hbetween : l.EndsBefore fault (.symbol op :: (r.tokens ++ rest)) := by
    refine ⟨blocking?_of_ne_nil (List.cons_ne_nil _ _), fun later heq ↦ ?_,
      fun op' p later heq hp ↦ ?_⟩
    · obtain rfl := Token.symbol.inj (List.cons.inj heq).1
      cases hq
    · obtain rfl := Token.symbol.inj (List.cons.inj heq).1
      obtain rfl := Option.some.inj (hq.symm.trans hp)
      exact hlhs
  have hbehind : r.EndsBefore fault rest := by
    refine ⟨hrest.unblocked, hrest.uncalled, fun op' p later heq hp ↦ ?_⟩
    exact hrhs.mono (Nat.le_succ_of_le (htight op' p later heq hp))
  have hstops : Stops (q + 1) rest := fun op' p later heq hp ↦
    Nat.lt_succ_of_le (htight op' p later heq hp)
  obtain ⟨t, ts, htokens, -⟩ := r.exists_tokens_eq_cons
  rw [tokens, List.append_assoc, List.cons_append, hl least _ (hlhs.mono hleast) hbetween,
    outcome_readOperators fault hq hleast, behind_of_blocking?_eq_none (by rw [htokens]; rfl),
    ← andThen_assoc, hr (q + 1) rest hrhs hbehind, outcome_readOperators_of_stops fault hstops,
    andThen_ok, expr]

/-- **Reading back.** Every ordered phrase is read back. -/
theorem readBack (fault : Option LexError) : (p : Phrase) → p.Ordered → ReadBack fault p
  | number v, _ => readBack_number v
  | name x, _ => readBack_name x
  | call f args, h => readBack_call f fun p hp ↦
    have hp' : p.Ordered := allOrdered_iff.mp h p hp
    ⟨hp', readBack fault p hp'⟩
  | parens p, h => readBack_parens (readBack fault p h) h
  | binary op l r, h => by
    obtain ⟨q, hq, hlhs, hrhs, hl, hr⟩ := h
    exact readBack_binary hq hlhs hrhs (readBack fault l hl) (readBack fault r hr)

end Phrase

/-! ## Writing an expression -/

/-- A word that is no keyword. -/
def IsName (cs : List Char) : Prop := IsWord cs ∧ cs ≠ "def".toList ∧ cs ≠ "extern".toList

/-- In parentheses, if they are asked for. -/
def Phrase.parensIf (asked : Bool) (p : Phrase) : Phrase := if asked then .parens p else p

namespace Expr

/-- Whether the operator of the expression, if it has one, binds less tightly than `least`. -/
def looser (least : Nat) : Expr → Bool
  | binary op _ _ => (precedence? op).any (· < least)
  | _ => false

mutual

/-- The expression as it is written with as few parentheses as its operators allow: around a left
operand that binds less tightly than the operator, and around a right operand that does not bind
more tightly. -/
def phrase : Expr → Phrase
  | number v => .number v
  | name x => .name x
  | call f args => .call f (phrases args)
  | binary op l r =>
    let binding := (precedence? op).getD 0
    .binary op (l.phrase.parensIf (l.looser binding)) (r.phrase.parensIf (r.looser (binding + 1)))

def phrases : List Expr → List Phrase
  | [] => []
  | e :: es => e.phrase :: phrases es

end

mutual

/-- Whether the expression can be written: its operators, its names and its numbers are those of the
language. -/
def Writable : Expr → Prop
  | number v => ∃ text, IsNumeral text ∧ numeralValue text = v
  | name x => IsName x.toList
  | call f args => IsName f.toList ∧ AllWritable args
  | binary op l r => op ∈ ['<', '+', '-', '*'] ∧ l.Writable ∧ r.Writable

def AllWritable : List Expr → Prop
  | [] => True
  | e :: es => e.Writable ∧ AllWritable es

end

private theorem phrases_eq_map (es : List Expr) : phrases es = es.map phrase := by
  induction es with
  | nil => rfl
  | cons e es ih => rw [phrases, ih, List.map_cons]

private theorem allWritable_iff {es : List Expr} : AllWritable es ↔ ∀ e ∈ es, e.Writable := by
  induction es with
  | nil => exact iff_of_true trivial nofun
  | cons e es ih => rw [AllWritable, ih, List.forall_mem_cons]

private theorem exists_precedence? {op : Char} (h : op ∈ ['<', '+', '-', '*']) :
    ∃ q, precedence? op = some q :=
  Option.isSome_iff_exists.mp (precedence?_isSome_iff.mpr h)

end Expr

namespace Phrase

@[simp] theorem expr_parensIf (asked : Bool) (p : Phrase) : (p.parensIf asked).expr = p.expr := by
  cases asked <;> rfl

theorem Ordered.parensIf {p : Phrase} (h : p.Ordered) (asked : Bool) :
    (p.parensIf asked).Ordered := by
  cases asked <;> exact h

/-- The parentheses hold an operand together. -/
private theorem binds_parensIf_looser {e : Expr} (he : e.Writable) (least : Nat) :
    (e.phrase.parensIf (e.looser least)).Binds least := by
  cases e with
  | binary op l r =>
    obtain ⟨q, hq⟩ := Expr.exists_precedence? he.1
    rw [Expr.looser, hq, Option.any_some]
    by_cases hlt : q < least
    · rw [decide_eq_true hlt]
      trivial
    · rw [decide_eq_false hlt]
      exact ⟨q, hq, Nat.not_lt.mp hlt⟩
  | _ => trivial

end Phrase

namespace Expr

theorem expr_phrase : (e : Expr) → e.phrase.expr = e
  | number _ => rfl
  | name _ => rfl
  | call f args => by
    have hargs : ∀ e ∈ args, (Phrase.expr ∘ phrase) e = id e := fun e _ ↦ expr_phrase e
    rw [phrase, Phrase.expr, Phrase.exprs_eq_map, phrases_eq_map, List.map_map,
      List.map_congr_left hargs, List.map_id]
  | binary op l r => by
    rw [phrase, Phrase.expr, Phrase.expr_parensIf, Phrase.expr_parensIf, expr_phrase l,
      expr_phrase r]

/-- Parentheses stand wherever the operators would group otherwise. -/
theorem ordered_phrase : (e : Expr) → e.Writable → e.phrase.Ordered
  | number _, _ => trivial
  | name _, _ => trivial
  | call f args, he => by
    rw [phrase, Phrase.Ordered, Phrase.allOrdered_iff, phrases_eq_map, List.forall_mem_map]
    exact fun e hmem ↦ ordered_phrase e (allWritable_iff.mp he.2 e hmem)
  | binary op l r, ⟨hop, hl, hr⟩ => by
    obtain ⟨q, hq⟩ := exists_precedence? hop
    rw [phrase, hq]
    exact ⟨q, hq, Phrase.binds_parensIf_looser hl q, Phrase.binds_parensIf_looser hr (q + 1),
      (ordered_phrase l hl).parensIf _, (ordered_phrase r hr).parensIf _⟩

end Expr

/-! ## Further pairs of parentheses -/

namespace Phrase

/-- The second phrase is the first one with one more pair of parentheses, around some part of it. -/
inductive AddPair : Phrase → Phrase → Prop
  | here (p : Phrase) : AddPair p (parens p)
  | parens {p p' : Phrase} (h : AddPair p p') : AddPair (parens p) (parens p')
  | lhs {op : Char} {l l' r : Phrase} (h : AddPair l l') : AddPair (binary op l r) (binary op l' r)
  | rhs {op : Char} {l r r' : Phrase} (h : AddPair r r') : AddPair (binary op l r) (binary op l r')
  | arg {f : String} {before after : List Phrase} {p p' : Phrase} (h : AddPair p p') :
    AddPair (call f (before ++ p :: after)) (call f (before ++ p' :: after))

variable {p p' : Phrase}

theorem AddPair.expr (h : AddPair p p') : p'.expr = p.expr := by
  induction h with
  | here p => rfl
  | parens _ ih => exact ih
  | lhs _ ih => rw [Phrase.expr, ih, Phrase.expr]
  | rhs _ ih => rw [Phrase.expr, ih, Phrase.expr]
  | arg _ ih =>
    rw [Phrase.expr, Phrase.expr, exprs_eq_map, exprs_eq_map, List.map_append, List.map_append,
      List.map_cons, List.map_cons, ih]

theorem AddPair.binds {least : Nat} (h : AddPair p p') (hp : p.Binds least) : p'.Binds least := by
  cases h with
  | lhs _ => exact hp
  | rhs _ => exact hp
  | _ => trivial

theorem AddPair.ordered (h : AddPair p p') (hp : p.Ordered) : p'.Ordered := by
  induction h with
  | here p => exact hp
  | parens _ ih => exact ih hp
  | lhs h ih =>
    obtain ⟨q, hq, hlhs, hrhs, hl, hr⟩ := hp
    exact ⟨q, hq, h.binds hlhs, hrhs, ih hl, hr⟩
  | rhs h ih =>
    obtain ⟨q, hq, hlhs, hrhs, hl, hr⟩ := hp
    exact ⟨q, hq, hlhs, h.binds hrhs, hl, ih hr⟩
  | arg _ ih =>
    have hall := allOrdered_iff.mp hp
    rw [List.forall_mem_append, List.forall_mem_cons] at hall
    obtain ⟨hbefore, hp, hafter⟩ := hall
    refine allOrdered_iff.mpr ?_
    rw [List.forall_mem_append, List.forall_mem_cons]
    exact ⟨hbefore, ih hp, hafter⟩

/-- With further pairs of parentheses a phrase stays ordered and stands for the same expression. -/
theorem ordered_of_addPairs (h : Relation.ReflTransGen AddPair p p') (hp : p.Ordered) :
    p'.Ordered ∧ p'.expr = p.expr := by
  induction h with
  | refl => exact ⟨hp, rfl⟩
  | tail _ hstep ih => exact ⟨hstep.ordered ih.1, hstep.expr.trans ih.2⟩

end Phrase

/-! ## Tokens with spaces between them -/

/-- The text is one that the token is written as. -/
inductive Spelled : Token → List Char → Prop
  | name {text : List Char} (h : IsName text) : Spelled (.identifier (String.ofList text)) text
  | number {text : List Char} (h : IsNumeral text) : Spelled (.number (numeralValue text)) text
  | symbol {c : Char} (h : c ∈ ['(', ')', ',', '<', '+', '-', '*']) : Spelled (.symbol c) [c]

/-- The text is the tokens, one or more, with one or more spaces between them. -/
inductive Spaced : List Token → List Char → Prop
  | last {t : Token} {text : List Char} (h : Spelled t text) : Spaced [t] text
  | more {t : Token} {ts : List Token} {text cs : List Char} (n : Nat) (h : Spelled t text)
    (hts : Spaced ts cs) : Spaced (t :: ts) (text ++ (List.replicate (n + 1) ' ' ++ cs))

private theorem IsWord.notMem_space {text : List Char} (h : IsWord text) : ' ' ∉ text := by
  obtain ⟨c, later, rfl, hc, hlater⟩ := h
  rintro (_ | ⟨_, hmem⟩)
  · exact absurd hc (by decide)
  · exact absurd (hlater _ hmem) (by decide)

private theorem IsNumeral.notMem_space {text : List Char} (h : IsNumeral text) : ' ' ∉ text :=
  fun hmem ↦ absurd (h.digits _ hmem) (by decide)

private theorem longest_of_notMem_space {p : List Char → Prop} (hp : ∀ text, p text → ' ' ∉ text)
    {rest text : List Char} (h : p text) (hrest : ∀ c ∈ rest.head?, c = ' ') :
    Longest p rest text where
  holds := h
  stops := by
    rintro (_ | ⟨c, more⟩) hne ⟨after, rfl⟩ hmore
    · exact hne rfl
    · obtain rfl := hrest c rfl
      exact hp _ hmore (by simp)

namespace Spelled

variable {t : Token} {text rest : List Char}

theorem isLexeme (h : Spelled t text) (hrest : ∀ c ∈ rest.head?, c = ' ') :
    IsLexeme rest t text := by
  cases h with
  | name h =>
    exact .identifier (longest_of_notMem_space (fun _ ↦ IsWord.notMem_space) h.1 hrest) h.2.1 h.2.2
  | number h => exact .number (longest_of_notMem_space (fun _ ↦ IsNumeral.notMem_space) h hrest)
  | @symbol c h =>
    have hsymbols : ['(', ')', ',', '<', '+', '-', '*'].all (fun c ↦
        !Text.isAlphabetic c && !Text.isDigit c && c != '.') = true := by decide
    have hc := List.all_eq_true.mp hsymbols c h
    simp only [Bool.and_eq_true, Bool.not_eq_true', bne_iff_ne] at hc
    exact .symbol hc.1.1 hc.1.2 hc.2

theorem isSkipped (h : Spelled t text) (n : Nat) :
    IsSkipped (text ++ rest) (List.replicate n ' ') := by
  refine .spaces n fun c hc ↦ ?_
  cases h with
  | name h =>
    obtain ⟨c', later, rfl, hletter, -⟩ := h.1
    obtain rfl := Option.some.inj hc
    constructor <;> rintro rfl <;> exact absurd hletter (by decide)
  | number h =>
    obtain ⟨c', later, rfl, -⟩ := h.eq_cons
    obtain rfl := Option.some.inj hc
    have hdigit := h.digits c' List.mem_cons_self
    constructor <;> rintro rfl <;> exact absurd hdigit (by decide)
  | @symbol c' h =>
    obtain rfl := Option.some.inj hc
    constructor <;> rintro rfl <;> exact absurd h (by decide)

end Spelled

/-- The tokens are cut out of the text again. -/
theorem Spaced.stream {ts : List Token} {cs : List Char} (h : Spaced ts cs) (n : Nat)
    (position : Position) :
    (Cursor.mk (List.replicate n ' ' ++ cs) position).stream = ⟨ts, none⟩ := by
  induction h generalizing n position with
  | @last t text h =>
    have hlexeme : IsLexeme [] t text := h.isLexeme nofun
    have hcall := Cursor.call_of_token (h.isSkipped n) hlexeme position
    rw [List.append_nil] at hcall
    rw [Cursor.stream_eq_call, hcall]
    simp only
    rw [Cursor.stream_of_skipped rfl]
    rfl
  | @more t ts text cs m h hts ih =>
    have hspace : ∀ c ∈ (List.replicate (m + 1) ' ' ++ cs).head?, c = ' ' := by
      simp [List.replicate_succ]
    rw [Cursor.stream_eq_call, ← List.append_assoc,
      Cursor.call_of_token (h.isSkipped n) (h.isLexeme hspace)]
    simp only
    rw [ih]
    rfl

private theorem exists_spaced {ts : List Token} (hne : ts ≠ [])
    (h : ∀ t ∈ ts, ∃ text, Spelled t text) :
    ∃ cs, Spaced ts cs := by
  induction ts with
  | nil => exact absurd rfl hne
  | cons t ts ih =>
    obtain ⟨⟨text, htext⟩, hts⟩ := List.forall_mem_cons.mp h
    by_cases hlast : ts = []
    · subst hlast
      exact ⟨text, .last htext⟩
    · obtain ⟨cs, hcs⟩ := ih hlast hts
      exact ⟨_, .more 0 htext hcs⟩

private theorem spelled_name {x : String} (h : IsName x.toList) :
    Spelled (.identifier x) x.toList := by
  have hname := Spelled.name h
  rwa [String.ofList_toList] at hname

namespace Phrase

private theorem forall_mem_listTokens {P : Token → Prop} {ps : List Phrase}
    (hcomma : P (.symbol ',')) (h : ∀ p ∈ ps, ∀ t ∈ p.tokens, P t) : ∀ t ∈ listTokens ps, P t := by
  induction ps with
  | nil => exact nofun
  | cons p ps ih =>
    obtain ⟨hp, hps⟩ := List.forall_mem_cons.mp h
    by_cases hlast : ps = []
    · subst hlast
      exact hp
    · rw [listTokens_cons p hlast, List.forall_mem_append, List.forall_mem_cons]
      exact ⟨hp, hcomma, ih hps⟩

theorem exists_spelled : (p : Phrase) → p.expr.Writable → ∀ t ∈ p.tokens, ∃ text, Spelled t text
  | number v, hp => by
    obtain ⟨text, htext, rfl⟩ := hp
    exact List.forall_mem_singleton.mpr ⟨text, .number htext⟩
  | name x, hp => List.forall_mem_singleton.mpr ⟨_, spelled_name hp⟩
  | call f args, hp => by
    obtain ⟨hf, hargs⟩ := hp
    rw [exprs_eq_map, Expr.allWritable_iff, List.forall_mem_map] at hargs
    have hlist : ∀ t ∈ listTokens args, ∃ text, Spelled t text :=
      forall_mem_listTokens ⟨_, .symbol (by decide)⟩ fun p hmem ↦ exists_spelled p (hargs p hmem)
    rw [tokens, List.forall_mem_cons, List.forall_mem_cons, List.forall_mem_append,
      List.forall_mem_singleton]
    exact ⟨⟨_, spelled_name hf⟩, ⟨_, .symbol (by decide)⟩, hlist, ⟨_, .symbol (by decide)⟩⟩
  | parens p, hp => by
    rw [tokens, List.forall_mem_cons, List.forall_mem_append, List.forall_mem_singleton]
    exact ⟨⟨_, .symbol (by decide)⟩, exists_spelled p hp, ⟨_, .symbol (by decide)⟩⟩
  | binary op l r, hp => by
    obtain ⟨hop, hl, hr⟩ := hp
    rw [tokens, List.forall_mem_append, List.forall_mem_cons]
    refine ⟨exists_spelled l hl, ⟨[op], .symbol ?_⟩, exists_spelled r hr⟩
    exact (by decide : ['<', '+', '-', '*'] ⊆ ['(', ')', ',', '<', '+', '-', '*']) hop

end Phrase

/-- **Round trip.** An expression that can be written is written with as few parentheses as its
operators allow, or with further pairs of parentheses around any of its parts, and with any number
of spaces between the tokens. There is such a text, and whichever it is, the expression is read from
it, up to the end of the text. -/
theorem readExpr_of_text (e : Expr) (he : e.Writable) (p : Phrase)
    (hp : Relation.ReflTransGen Phrase.AddPair e.phrase p) :
    (∃ text : String, Spaced p.tokens text.toList) ∧
      ∀ text : String, Spaced p.tokens text.toList →
        ∃ s, TokenStream.ofString? text = .ok s ∧
          s.after (readExpr s.fault s.tokens) = (.ok e, ⟨[], none⟩) := by
  obtain ⟨hordered, hexpr⟩ := Phrase.ordered_of_addPairs hp (e.ordered_phrase he)
  rw [e.expr_phrase] at hexpr
  obtain ⟨t, ts, htokens, -⟩ := p.exists_tokens_eq_cons
  refine ⟨?_, fun text htext ↦ ⟨⟨p.tokens, none⟩, ?_, ?_⟩⟩
  · have hne : p.tokens ≠ [] := by
      rw [htokens]
      exact List.cons_ne_nil _ _
    obtain ⟨cs, hcs⟩ := exists_spaced hne (p.exists_spelled (hexpr ▸ he))
    exact ⟨String.ofList cs, by rwa [String.toList_ofList]⟩
  · have hstream := htext.stream 0 .start
    rw [List.replicate_zero, List.nil_append] at hstream
    rw [TokenStream.ofString?, Cursor.ofString, hstream, htokens]
  · have hread : (readExpr none (p.tokens ++ [])).outcome = (.ok p.expr, []) :=
      (p.readBack none hordered).outcome_readExpr hordered Phrase.endsBefore_nil (stops_nil 0)
    rw [List.append_nil, hexpr] at hread
    rw [TokenStream.after, hread]

/-- The right operand needs its parentheses; those around `x` are a further pair. -/
theorem readExpr_difference :
    ∃ s, TokenStream.ofString? "( x ) -  ( y - 1.5 )" = .ok s ∧
      s.after (readExpr s.fault s.tokens) =
        (.ok (.binary '-' (.name "x")
          (.binary '-' (.name "y") (.number (numeralValue ['1', '.', '5'])))), ⟨[], none⟩) := by
  have hx : IsName ['x'] := ⟨⟨'x', [], rfl, by decide, nofun⟩, by decide, by decide⟩
  have hy : IsName ['y'] := ⟨⟨'y', [], rfl, by decide, nofun⟩, by decide, by decide⟩
  have hnumeral : IsNumeral ['1', '.', '5'] := by
    refine ⟨?_, by decide, '1', by decide, by decide⟩
    simp [Text.isDigit]
  let e : Expr :=
    .binary '-' (.name "x") (.binary '-' (.name "y") (.number (numeralValue ['1', '.', '5'])))
  have he : e.Writable := ⟨by decide, hx, by decide, hy, _, hnumeral, rfl⟩
  have hp : Phrase.AddPair e.phrase _ := .lhs (.here (.name "x"))
  refine (readExpr_of_text e he _ (.single hp)).2 _ ?_
  exact .more 0 (.symbol (by decide)) <| .more 0 (.name hx) <| .more 0 (.symbol (by decide)) <|
    .more 1 (.symbol (by decide)) <| .more 0 (.symbol (by decide)) <| .more 0 (.name hy) <|
    .more 0 (.symbol (by decide)) <| .more 0 (.number hnumeral) <| .last (.symbol (by decide))

end FloatLang
