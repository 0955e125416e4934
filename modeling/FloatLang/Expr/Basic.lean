import FloatLang.Double.Basic

/-!
# Expressions and functions

The abstract syntax. Every value is a double, so a function is its name, the names of its
parameters and one expression. A prototype without a name stands for a top-level expression; no
text of a program can name it.
-/

namespace FloatLang

/-- An expression. The operator of a binary expression is kept as it was written, also when it is
none of the language. -/
inductive Expr
  | number (value : Double)
  | name (name : String)
  | binary (op : Char) (lhs rhs : Expr)
  | call (callee : String) (args : List Expr)

/-- The name of a function and the names of its parameters. -/
structure Prototype where
  /-- The name, empty for a top-level expression. -/
  name : String
  /-- The parameters, in order. A name may occur twice. -/
  params : List String
deriving DecidableEq

/-- A prototype with the expression that the function computes. -/
structure Definition where
  /-- The name and the parameters. -/
  proto : Prototype
  /-- What the function computes. -/
  body : Expr

/-- The prototype of a top-level expression. -/
def Prototype.anonymous : Prototype := ⟨"", []⟩

def Prototype.isAnonymous (p : Prototype) : Bool := p.name.isEmpty

/-- A top-level expression as a function without a name. -/
def Definition.ofExpr (body : Expr) : Definition := ⟨.anonymous, body⟩

/-- One complete sentence of a program. -/
inductive Statement
  | definition (d : Definition)
  | declaration (p : Prototype)
  | expression (body : Expr)

end FloatLang
