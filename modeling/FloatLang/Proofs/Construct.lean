import FloatLang.Proofs.Reading
import Mathlib.Computability.Language

/-!
# The constructs of the language

What a reader is asked for is a construct: an expression, a prototype, a declaration or a
definition. Here is how each of them is written, apart from how it is read, and which reader it has.

Only the order of tokens matters for how something is written, not what it means; so an expression
is a chain of operands with operators between them, whichever of them binds tighter. A declaration
and a definition start with a token that their readers step over without a look at it.
-/

namespace FloatLang

/-! ## How they are written -/

mutual

/-- The tokens are an operand: a number, a name, a call, or an expression in parentheses. -/
inductive IsOperand : List Token → Prop
  | number (d : Double) : IsOperand [.number d]
  | name (x : String) : IsOperand [.identifier x]
  | call (f : String) {ts : List Token} (h : IsArguments ts) :
    IsOperand (.identifier f :: .symbol '(' :: ts ++ [.symbol ')'])
  | parens {ts : List Token} (h : IsExpression ts) : IsOperand (.symbol '(' :: ts ++ [.symbol ')'])

/-- The tokens are operands with operators between them. -/
inductive IsExpression : List Token → Prop
  | operand {ts : List Token} (h : IsOperand ts) : IsExpression ts
  | binary {ts later : List Token} {op : Char} (h : IsOperand ts)
    (hop : (precedence? op).isSome = true) (hlater : IsExpression later) :
    IsExpression (ts ++ .symbol op :: later)

/-- The tokens are what may stand between the parentheses of a call. -/
inductive IsArguments : List Token → Prop
  | none : IsArguments []
  | some {ts : List Token} (h : IsExpressionList ts) : IsArguments ts

/-- The tokens are expressions with commas between them. -/
inductive IsExpressionList : List Token → Prop
  | last {ts : List Token} (h : IsExpression ts) : IsExpressionList ts
  | more {ts later : List Token} (h : IsExpression ts) (hlater : IsExpressionList later) :
    IsExpressionList (ts ++ .symbol ',' :: later)

end

/-- The tokens are a name and names in parentheses. -/
inductive IsPrototype : List Token → Prop
  | mk (f : String) (params : List String) :
    IsPrototype (.identifier f :: .symbol '(' :: params.map .identifier ++ [.symbol ')'])

theorem IsOperand.ne_nil {ts : List Token} (h : IsOperand ts) : ts ≠ [] := by
  cases h <;> exact List.cons_ne_nil _ _

theorem IsExpression.ne_nil {ts : List Token} (h : IsExpression ts) : ts ≠ [] := by
  cases h with
  | operand h => exact h.ne_nil
  | binary h _ _ => exact List.append_ne_nil_of_left_ne_nil h.ne_nil _

/-- An operator and an expression can be written behind an expression. -/
theorem IsExpression.append {op : Char} (hop : (precedence? op).isSome = true)
    {later : List Token} (hlater : IsExpression later) :
    {ts : List Token} → IsExpression ts → IsExpression (ts ++ .symbol op :: later)
  | _, .operand h => .binary h hop hlater
  | _, .binary h hop' hmore => by
    have hrest := IsExpression.append hop hlater hmore
    simpa using IsExpression.binary h hop' hrest

private theorem IsOperand.eq_singleton {ts : List Token} {f : String} (h : IsOperand ts)
    (hlast : ts.getLast? = some (.identifier f)) : ts = [.identifier f] := by
  cases h with
  | number d => cases hlast
  | name x =>
    cases hlast
    rfl
  | call g h =>
    rw [List.getLast?_concat] at hlast
    cases hlast
  | parens h =>
    rw [List.getLast?_concat] at hlast
    cases hlast

private theorem IsExpression.call_last {f : String} :
    {ts : List Token} → IsExpression ts → ts.getLast? = some (.identifier f) →
      IsExpression (ts ++ [.symbol '(', .symbol ')'])
  | _, .operand h, hlast => by
    rw [h.eq_singleton hlast]
    exact .operand (.call f .none)
  | _, @IsExpression.binary _ later _ h hop hmore, hlast => by
    have hlater : later.getLast? = some (.identifier f) := by
      rw [List.getLast?_append, List.getLast?_cons, Option.some_or] at hlast
      cases hlater : later.getLast? with
      | none => simp [hlater] at hlast
      | some t => simpa [hlater] using hlast
    simpa using IsExpression.binary h hop (hmore.call_last hlater)

/-! ## How they are read -/

/-- What a reader can be asked to read. -/
inductive Construct
  | expression
  | topLevel
  | prototype
  | declaration
  | definition
deriving DecidableEq

def expressions : Language Token := {ts | IsExpression ts}

def prototypes : Language Token := {ts | IsPrototype ts}

/-- The token lists of the language with any token in front. -/
def behindAny (M : Language Token) : Language Token := {ts | ∃ t, ∃ later ∈ M, ts = t :: later}

namespace Construct

/-- The token lists that are of the construct. A declaration and a definition start with any
token. -/
def sentences : Construct → Language Token
  | expression => expressions
  | topLevel => expressions
  | prototype => prototypes
  | declaration => behindAny prototypes
  | definition => behindAny (prototypes * expressions)

def endsWithExpression : Construct → Bool
  | expression => true
  | topLevel => true
  | prototype => false
  | declaration => false
  | definition => true

variable {c : Construct} {ts : List Token}

/-- Such a construct is an expression with something in front. -/
private theorem exists_expression (hc : c.endsWithExpression = true) (hts : ts ∈ c.sentences) :
    ∃ front e, IsExpression e ∧ ts = front ++ e ∧
      ∀ e', IsExpression e' → front ++ e' ∈ c.sentences := by
  cases c with
  | expression => exact ⟨[], ts, hts, rfl, fun _ he ↦ he⟩
  | topLevel => exact ⟨[], ts, hts, rfl, fun _ he ↦ he⟩
  | prototype => cases hc
  | declaration => cases hc
  | definition =>
    obtain ⟨t, -, ⟨p, hp, e, he, rfl⟩, rfl⟩ := hts
    exact ⟨t :: p, e, he, rfl, fun e' he' ↦ ⟨t, _, ⟨p, hp, e', he', rfl⟩, rfl⟩⟩

theorem append_mem_sentences (hc : c.endsWithExpression = true) (hts : ts ∈ c.sentences) {op : Char}
    (hop : (precedence? op).isSome = true) {later : List Token} (hlater : IsExpression later) :
    ts ++ .symbol op :: later ∈ c.sentences := by
  obtain ⟨front, e, he, rfl, hsentence⟩ := exists_expression hc hts
  rw [List.append_assoc]
  exact hsentence _ (IsExpression.append hop hlater he)

theorem call_mem_sentences (hc : c.endsWithExpression = true) (hts : ts ∈ c.sentences) {f : String}
    (hlast : ts.getLast? = some (.identifier f)) :
    ts ++ [.symbol '(', .symbol ')'] ∈ c.sentences := by
  obtain ⟨front, e, he, rfl, hsentence⟩ := exists_expression hc hts
  rw [List.append_assoc]
  refine hsentence _ (he.call_last (f := f) ?_)
  rwa [List.getLast?_append_of_ne_nil _ he.ne_nil] at hlast

def Tree : Construct → Type
  | expression => Expr
  | topLevel => Definition
  | prototype => Prototype
  | declaration => Prototype
  | definition => Definition

/-- Reads the construct from the front of a stream, and says which stream is left. -/
def read (s : TokenStream) : (c : Construct) → Except ReadError c.Tree × TokenStream
  | expression => s.after (readExpr s.fault s.tokens)
  | topLevel =>
    let (body, later) := s.after (readExpr s.fault s.tokens)
    (body.map Definition.ofExpr, later)
  | prototype => s.after (readPrototype s.fault s.tokens)
  | declaration => s.after (readDeclaration s.fault s.tokens)
  | definition => s.after (readDefinition s.fault s.tokens)

end Construct

end FloatLang
