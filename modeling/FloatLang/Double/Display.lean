import FloatLang.Double.Digits

/-!
# The text of a result

The program answers a number with the shortest digits that read back as the same double, always
in positional notation, whatever the number's size.
-/

namespace FloatLang.Double

/-- The text in which a result is shown: the sign of zero is kept, that of a NaN is not. -/
def display (d : Double) : String :=
  if d.isNaN then "NaN"
  else
    let magnitude :=
      if !d.isFinite then "inf" else if d.isZero then "0" else d.shortest.positional
    if d.isNegative then "-" ++ magnitude else magnitude

end FloatLang.Double
