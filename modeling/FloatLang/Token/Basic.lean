import FloatLang.Double.Basic

/-!
# Tokens

The words of the language. A character that starts neither a word nor a number is a token of its
own, whatever it is; among those are the operators, the parentheses and every kind of white space
but the plain space.
-/

namespace FloatLang

inductive Token
  | defKeyword
  | externKeyword
  | identifier (name : String)
  | number (value : Double)
  | symbol (char : Char)
deriving DecidableEq

namespace Token

/-- The token of a whole word: one of the two keywords, or an identifier. -/
def ofWord (word : List Char) : Token :=
  if word = "def".toList then defKeyword
  else if word = "extern".toList then externKeyword
  else identifier (String.ofList word)

end Token

/-- How tightly a binary operator binds, if `op` is one. No two operators bind equally tightly,
so that a subtraction holds its operands more firmly than a sum. -/
def precedence? (op : Char) : Option Nat :=
  if op = '<' then some 10
  else if op = '+' then some 20
  else if op = '-' then some 30
  else if op = '*' then some 40
  else none

/-- The precedence of a token that is a binary operator. -/
def Token.precedence? : Token → Option Nat
  | symbol c => FloatLang.precedence? c
  | _ => none

theorem precedence?_isSome_iff {op : Char} :
    (precedence? op).isSome = true ↔ op ∈ ['<', '+', '-', '*'] := by
  grind [precedence?]

end FloatLang
