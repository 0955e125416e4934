import FloatLang.Double.Basic

/-!
# Decimal numbers

A decimal is a natural coefficient and a power of ten. Number literals are read into one and
doubles are written through one; `Decimal.toDouble` is the only place where a decimal is rounded
to a double.
-/

namespace FloatLang

/-- The number `coefficient * 10 ^ exponent`. -/
structure Decimal where
  /-- The digits, read as a natural number. -/
  coefficient : Nat
  /-- The power of ten of the last digit. -/
  exponent : Int
deriving DecidableEq

namespace Decimal

/-- The natural number that a list of ASCII digits denotes. -/
def ofDigits (cs : List Char) : Nat :=
  cs.foldl (fun n c ↦ 10 * n + (c.toNat - '0'.toNat)) 0

/-- The decimal written with the digits `whole` before and `part` after the point. -/
def ofParts (whole part : List Char) : Decimal :=
  ⟨ofDigits (whole ++ part), -(part.length : Int)⟩

/-- The double nearest to the decimal, of two nearest ones the even one; an infinity when the
decimal is too large. -/
def toDouble (d : Decimal) : Double :=
  .ofFloat (Float.ofScientific d.coefficient (d.exponent < 0) d.exponent.natAbs)

/-- The digits of the coefficient with the point where the exponent puts it: no exponent is ever
written, and no point after a whole number. -/
def positional (d : Decimal) : String :=
  let digits := toString d.coefficient
  if 0 ≤ d.exponent then
    digits ++ String.ofList (List.replicate d.exponent.toNat '0')
  else
    let places := d.exponent.natAbs
    if places < digits.length then
      let whole := digits.length - places
      String.ofList (digits.toList.take whole) ++ "." ++
        String.ofList (digits.toList.drop whole)
    else
      "0." ++ String.ofList (List.replicate (places - digits.length) '0') ++ digits

end Decimal

end FloatLang
