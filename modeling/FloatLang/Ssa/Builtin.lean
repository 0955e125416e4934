import FloatLang.Double.Display

/-!
# Functions of the machine

A declaration without a body stands for a function of the machine, found by its name and the
number of its arguments: the elementary functions, and two that print.
-/

namespace FloatLang.Ssa

/-- What a function of the machine does on given arguments. -/
structure Builtin where
  /-- What it prints, if it is one of the two that print. -/
  printed : Option String
  /-- Its value. -/
  value : Double

namespace Builtin

/-- A function that prints nothing. -/
def silent (x : Float) : Builtin := ⟨none, .ofFloat x⟩

/-- The character that `x` numbers: the fraction is cut off, and a number outside a byte, or no
number, counts as the nearest byte, or as zero. -/
def charOf (x : Double) : Char := .ofNat x.toFloat.toUInt8.toNat

/-- The function `name` of the machine on `args`, if there is one. -/
def resolve? (name : String) (args : List Double) : Option Builtin :=
  match args with
  | [x] =>
    match name with
    | "sin" => some (silent x.toFloat.sin)
    | "cos" => some (silent x.toFloat.cos)
    | "tan" => some (silent x.toFloat.tan)
    | "sqrt" => some (silent x.toFloat.sqrt)
    | "exp" => some (silent x.toFloat.exp)
    | "log" => some (silent x.toFloat.log)
    | "fabs" => some (silent x.toFloat.abs)
    | "floor" => some (silent x.toFloat.floor)
    | "ceil" => some (silent x.toFloat.ceil)
    | "putchard" => some ⟨some (String.singleton (charOf x)), .zero⟩
    | "printd" => some ⟨some (x.display ++ "\n"), .zero⟩
    | _ => none
  | [x, y] =>
    match name with
    | "pow" => some (silent (x.toFloat.pow y.toFloat))
    | "atan2" => some (silent (x.toFloat.atan2 y.toFloat))
    | _ => none
  | _ => none

end Builtin

end FloatLang.Ssa
