import FloatLang.Double.Decimal

/-!
# Decimal digits of a double

Two ways to write the magnitude of a finite double in decimal: the shortest decimal that reads
back as the same double, and the decimal with a given number of digits. Both work on exact
quotients of natural numbers.

The reals that round to a double form an interval around it, with its ends included exactly when
the significand is even. The grid of the multiples of `10 ^ p` has a point in that interval
exactly when one of the two points next to the double lies in it, so the shortest decimal is
found by trying those two on one grid after another, from the coarsest on.
-/

namespace FloatLang.Double

-- With an algebra library at hand there is a second power on `Nat`; `^` stays the core one.
attribute [local instance (high)] instPowNat

/-! ## Exact quotients -/

/-- The numerator of `x * 2 ^ k / 10 ^ p`, over `gridDen k p`. -/
private def gridNum (x : Nat) (k p : Int) : Nat := x * 2 ^ k.toNat * 10 ^ (-p).toNat

/-- The denominator that belongs to `gridNum`. -/
private def gridDen (k p : Int) : Nat := 2 ^ (-k).toNat * 10 ^ p.toNat

/-- A power of ten that is no less than the magnitude of `d`, and not more than a few powers away
from it: the number of binary digits times a little more than the logarithm of two. -/
def decimalTop (d : Double) : Int :=
  (d.scale + (d.significand.log2 : Int) + 2) * 30103 / 100000 + 1

/-! ## The shortest decimal -/

/-- The lower end of the interval that rounds to `d`, in quarters of the last binary place. Below
a power of two the doubles lie twice as close. -/
def lowerEnd (d : Double) : Nat :=
  if d.fraction = 0 ∧ 1 < d.exponentField then 4 * d.significand - 1 else 4 * d.significand - 2

/-- The upper end of the interval that rounds to `d`, in quarters of the last binary place. -/
def upperEnd (d : Double) : Nat := 4 * d.significand + 2

/-- Whether `c * 10 ^ p` reads back as the magnitude of `d`. -/
def covers (d : Double) (p : Int) (c : Nat) : Bool :=
  let k := d.scale - 2
  let point := c * gridDen k p
  let low := gridNum d.lowerEnd k p
  let high := gridNum d.upperEnd k p
  if d.significand % 2 = 0 then low ≤ point && point ≤ high else low < point && point < high

/-- The point of the grid of `10 ^ p` that reads back as the magnitude of `d` and is nearest to
it, the upper one of two that are equally near. -/
def onGrid? (d : Double) (p : Int) : Option Decimal :=
  let k := d.scale - 2
  let num := gridNum (4 * d.significand) k p
  let den := gridDen k p
  let below := num / den
  match d.covers p below, d.covers p (below + 1) with
  | true, true => some ⟨if 2 * (num % den) < den then below else below + 1, p⟩
  | true, false => some ⟨below, p⟩
  | false, true => some ⟨below + 1, p⟩
  | false, false => none

/-- All the digits of the magnitude of `d`. -/
def exactDecimal (d : Double) : Decimal :=
  if 0 ≤ d.scale then ⟨d.significand * 2 ^ d.scale.toNat, 0⟩
  else ⟨d.significand * 5 ^ (-d.scale).toNat, d.scale⟩

/-- The shortest decimal that reads back as the magnitude of the finite double `d`, of those the
nearest. Seventeen digits always suffice, so twenty-one grids do. -/
def shortest (d : Double) : Decimal :=
  ((List.range 21).findSome? fun (i : Nat) ↦ d.onGrid? (d.decimalTop - i)).getD d.exactDecimal

/-! ## A given number of digits -/

/-- The quotient `num / den` rounded to the nearest natural number, a half to the even one. -/
def roundHalfEven (num den : Nat) : Nat :=
  let q := num / den
  let twice := 2 * (num % den)
  if twice < den || (twice == den && q % 2 == 0) then q else q + 1

/-- Whether `10 ^ p` is at most the magnitude of `d`. -/
def reaches (d : Double) (p : Int) : Bool := gridDen d.scale p ≤ gridNum d.significand d.scale p

/-- The power of ten of the leading digit of a finite double that is not zero. -/
def leadingPower (d : Double) : Int :=
  let top := d.decimalTop
  ((List.range 4).map fun (i : Nat) ↦ top - i).find? d.reaches |>.getD top

/-- The magnitude of `d` rounded to `n + 1` decimal digits. Rounding up to the next power of ten
moves the leading digit, and zero has the digit `0` throughout. -/
def rounded (d : Double) (n : Nat) : Decimal :=
  if d.isZero then ⟨0, -(n : Int)⟩
  else
    let p := d.leadingPower - n
    let c := roundHalfEven (gridNum d.significand d.scale p) (gridDen d.scale p)
    if c = 10 ^ (n + 1) then ⟨10 ^ n, p + 1⟩ else ⟨c, p⟩

end FloatLang.Double
