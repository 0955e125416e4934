import FloatLang.Expr.Basic
import FloatLang.Token.Stream

/-!
# Reading expressions and statements

Readers by recursive descent, one token ahead. Each takes the tokens from the current one on and
answers what it read with the tokens after it, or an error with the tokens from the one it stopped
at on. Stepping over a token can itself fail, in front of a fault of the text; every reader is
given the fault, if any, that stands after the last token.

Binary expressions are read by precedence climbing: `operators` goes on as long as the operator
at hand binds at least as tightly as asked, and reads each right operand with the demand raised by
one, so that operators of one precedence group to the left.

## Termination

A result carries the fact that it leaves fewer tokens than the bound in its type, so that what is
read after an operand or an argument is visibly shorter than what it was read from. An error
carries the weaker fact that it stopped no earlier than it began.
-/

namespace FloatLang

/-! ## What can go wrong -/

/-- What a reader looked for and did not find. -/
inductive Expected
  | expression
  | closingParen
  | argumentEnd
  | functionName
  | parametersStart
  | parametersEnd
deriving DecidableEq

def Expected.text : Expected → String
  | expression => "unexpected token when expecting an expression"
  | closingParen => "expected ')'"
  | argumentEnd => "expected ')' or ',' in argument list"
  | functionName => "expected function name in prototype"
  | parametersStart => "expected '(' in prototype"
  | parametersEnd => "expected ')' in prototype"

inductive ReadError
  | lex (e : LexError)
  | expected (what : Expected)
deriving DecidableEq

def ReadError.diagnostic : ReadError → Diagnostic
  | lex e => e.diagnostic
  | expected what => ⟨.parse, what.text, []⟩

/-! ## Results -/

/-- How a reader ended: with a value and fewer than `bound` tokens left, or with an error and at
most `bound` tokens left. -/
inductive Reading (α : Type) (bound : Nat)
  | read (value : α) (rest : List Token) (fewer : rest.length < bound)
  | failed (error : ReadError) (rest : List Token) (noMore : rest.length ≤ bound)

namespace Reading

variable {α β : Type} {m n : Nat}

/-- The same result under a larger bound. -/
def widen (h : m ≤ n) : Reading α m → Reading α n
  | read a rest fewer => read a rest (Nat.lt_of_lt_of_le fewer h)
  | failed e rest noMore => failed e rest (Nat.le_trans noMore h)

/-- Goes on with the value and the tokens left. -/
def bind (x : Reading α n)
    (next : (a : α) → (rest : List Token) → rest.length < n → Reading β n) : Reading β n :=
  match x with
  | read a rest fewer => next a rest fewer
  | failed e rest noMore => failed e rest noMore

/-- Steps over the token `t` in front of `rest` and goes on there. -/
def stepOver (fault : Option LexError) (t : Token) (rest : List Token)
    (next : Reading α (rest.length + 1)) : Reading α (rest.length + 1) :=
  match TokenStream.blocking? fault rest with
  | some e => failed (.lex e) (t :: rest) (Nat.le_refl _)
  | none => next

/-- Steps over the closing parenthesis in front and has `a` read there; without one, `missing` is
what was looked for. -/
def close (fault : Option LexError) (missing : Expected) (a : α) (ts : List Token) :
    Reading α ts.length :=
  match ts with
  | .symbol ')' :: rest => stepOver fault (.symbol ')') rest (read a rest (Nat.lt_add_one _))
  | ts => failed (.expected missing) ts (Nat.le_refl _)

/-- Reads on behind the argument `arg` of a call: a comma and further arguments, which `more` reads,
or the end of the arguments. -/
def afterArgument (fault : Option LexError) (arg : Expr) (ts : List Token)
    (more : (rest : List Token) → rest.length < ts.length → Reading (List Expr) rest.length) :
    Reading (List Expr) ts.length :=
  match ts with
  | .symbol ',' :: rest =>
    stepOver fault (.symbol ',') rest <|
      ((more rest (Nat.lt_add_one _)).bind fun args after h ↦
        read (arg :: args) after h).widen (Nat.le_succ _)
  | ts => close fault .argumentEnd [arg] ts

/-- The result without its bounds: the value or the error, and the tokens left. -/
def outcome : Reading α n → Except ReadError α × List Token
  | read a rest _ => (.ok a, rest)
  | failed e rest _ => (.error e, rest)

end Reading

/-- The result of reading from the stream `s`, and the stream from where the reader stopped on. -/
def TokenStream.after {α : Type} {n : Nat} (s : TokenStream) (x : Reading α n) :
    Except ReadError α × TokenStream :=
  (x.outcome.1, { s with tokens := x.outcome.2 })

open Reading

/-! ## Expressions -/

mutual

/-- Reads a number, a name, a call or an expression in parentheses. -/
def readPrimary (fault : Option LexError) (ts : List Token) : Reading Expr ts.length :=
  match ts with
  | .number v :: rest => stepOver fault (.number v) rest (read (.number v) rest (Nat.lt_add_one _))
  | .symbol '(' :: rest =>
    stepOver fault (.symbol '(') rest <|
      ((readExpr fault rest).bind fun e after h ↦
        (close fault .closingParen e after).widen (Nat.le_of_lt h)).widen (Nat.le_succ _)
  | .identifier f :: rest =>
    stepOver fault (.identifier f) rest <|
      match rest with
      | .symbol '(' :: rest =>
        (stepOver fault (.symbol '(') rest <|
          match rest with
          | .symbol ')' :: rest =>
            (stepOver fault (.symbol ')') rest (read (.call f []) rest (Nat.lt_add_one _))).widen
              (Nat.le_succ _)
          | rest =>
            ((readArguments fault rest).bind fun args after h ↦
              read (.call f args) after h).widen (Nat.le_succ _)).widen (Nat.le_succ _)
      | rest => read (.name f) rest (Nat.lt_add_one _)
  | ts => failed (.expected .expression) ts (Nat.le_refl _)
termination_by 3 * ts.length
decreasing_by all_goals (simp only [List.length_cons]; omega)

def readExpr (fault : Option LexError) (ts : List Token) : Reading Expr ts.length :=
  (readPrimary fault ts).bind fun lhs after h ↦
    (readOperators fault 0 lhs after).widen h
termination_by 3 * ts.length + 1
decreasing_by all_goals omega

/-- Reads on after the operand `lhs`, as long as an operator follows that binds at least as
tightly as `least`. -/
def readOperators (fault : Option LexError) (least : Nat) (lhs : Expr) (ts : List Token) :
    Reading Expr (ts.length + 1) :=
  match ts with
  | .symbol op :: rest =>
    match precedence? op with
    | some p =>
      if least ≤ p then
        (stepOver fault (.symbol op) rest <|
          ((readPrimary fault rest).bind fun rhs after h ↦
            ((readOperators fault (p + 1) rhs after).widen h).bind fun rhs after h ↦
              (readOperators fault least (.binary op lhs rhs) after).widen h).widen
            (Nat.le_succ _)).widen (Nat.le_succ _)
      else read lhs (.symbol op :: rest) (Nat.lt_add_one _)
    | none => read lhs (.symbol op :: rest) (Nat.lt_add_one _)
  | ts => read lhs ts (Nat.lt_add_one _)
termination_by 3 * ts.length + 2
decreasing_by all_goals (simp only [List.length_cons]; omega)

/-- Reads the arguments of a call, of which there is at least one, and the parenthesis after
them. -/
def readArguments (fault : Option LexError) (ts : List Token) : Reading (List Expr) ts.length :=
  (readExpr fault ts).bind fun arg after h ↦
    (afterArgument fault arg after fun rest _ ↦ readArguments fault rest).widen (Nat.le_of_lt h)
termination_by 3 * ts.length + 2
decreasing_by all_goals omega

end

/-! ## Statements -/

/-- Reads the names up to the first token that is none. -/
def readNames (fault : Option LexError) :
    (ts : List Token) → Reading (List String) (ts.length + 1)
  | .identifier p :: rest =>
    (stepOver fault (.identifier p) rest <|
      (readNames fault rest).bind fun ps after h ↦ read (p :: ps) after h).widen (Nat.le_succ _)
  | ts => read [] ts (Nat.lt_add_one _)

/-- Reads the name of a function and its parameters, which nothing separates. -/
def readPrototype (fault : Option LexError) (ts : List Token) : Reading Prototype ts.length :=
  match ts with
  | .identifier f :: rest =>
    stepOver fault (.identifier f) rest <|
      match rest with
      | .symbol '(' :: rest =>
        (stepOver fault (.symbol '(') rest <|
          (readNames fault rest).bind fun ps after h ↦
            (close fault .parametersEnd ⟨f, ps⟩ after).widen (Nat.le_of_lt h)).widen
          (Nat.le_succ _)
      | rest => failed (.expected .parametersStart) rest (Nat.le_succ _)
  | ts => failed (.expected .functionName) ts (Nat.le_refl _)

/-- Steps over the current token, whatever it is, and reads a prototype. -/
def readDeclaration (fault : Option LexError) (ts : List Token) : Reading Prototype ts.length :=
  match ts with
  | [] => readPrototype fault []
  | t :: rest => stepOver fault t rest ((readPrototype fault rest).widen (Nat.le_succ _))

/-- Steps over the current token, whatever it is, and reads a prototype and an expression. -/
def readDefinition (fault : Option LexError) (ts : List Token) : Reading Definition ts.length :=
  (readDeclaration fault ts).bind fun proto after h ↦
    ((readExpr fault after).bind fun body after h ↦
      read ⟨proto, body⟩ after h).widen (Nat.le_of_lt h)

/-- Reads a statement; its first token says of which kind it is. -/
def readStatement (fault : Option LexError) (ts : List Token) : Reading Statement ts.length :=
  match ts.head? with
  | some .defKeyword => (readDefinition fault ts).bind fun d after h ↦ read (.definition d) after h
  | some .externKeyword =>
    (readDeclaration fault ts).bind fun p after h ↦ read (.declaration p) after h
  | _ => (readExpr fault ts).bind fun e after h ↦ read (.expression e) after h

end FloatLang
