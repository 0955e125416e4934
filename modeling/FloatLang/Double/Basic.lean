/-!
# Double-precision numbers

A double is kept as its sixty-four bits, so that equality of doubles is equality of bits: it tells
the two zeros apart and one NaN from another, and it is decidable. The machine's floating-point
operations are reached through `toFloat` and `ofFloat`.

Arithmetic on NaNs is fixed here rather than left to the machine. An operand that is a NaN is
handed on, the left one first, with its quiet bit set; an operation on numbers that has no result
gives the *indefinite* NaN, whose sign bit is set.
-/

namespace FloatLang

/-- A double-precision number, as its bits. -/
structure Double where
  /-- The sign, eleven bits of exponent and fifty-two bits of fraction, from the top. -/
  bits : UInt64
deriving DecidableEq

namespace Double

-- With an algebra library at hand there is a second power on `Nat`; `^` stays the core one.
attribute [local instance (high)] instPowNat

/-! ## The fields -/

def isNegative (d : Double) : Bool := d.bits >>> 63 == 1

/-- The biased exponent. -/
def exponentField (d : Double) : Nat := ((d.bits >>> 52) &&& 0x7FF).toNat

def fraction (d : Double) : Nat := (d.bits &&& 0xFFFFFFFFFFFFF).toNat

/-- Neither an infinity nor a NaN. -/
def isFinite (d : Double) : Bool := d.exponentField != 0x7FF

def isNaN (d : Double) : Bool := d.exponentField == 0x7FF && d.fraction != 0

/-- Whether `d` is one of the two zeros. -/
def isZero (d : Double) : Bool := d.exponentField == 0 && d.fraction == 0

/-- The magnitude of a finite double is `significand * 2 ^ scale`. -/
def significand (d : Double) : Nat :=
  if d.exponentField = 0 then d.fraction else d.fraction + 2 ^ (52 : Nat)

/-- The magnitude of a finite double is `significand * 2 ^ scale`. -/
def scale (d : Double) : Int :=
  if d.exponentField = 0 then -1074 else (d.exponentField : Int) - 1075

/-! ## Constants and the machine's operations -/

/-- The NaN that stands for all others where only being a NaN counts. -/
def nan : Double := ⟨0x7FF8000000000000⟩

/-- The NaN that an operation on numbers without a result gives. -/
def indefinite : Double := ⟨0xFFF8000000000000⟩

def zero : Double := ⟨0⟩

def one : Double := ⟨0x3FF0000000000000⟩

/-- A truth value as a number: one for true and zero for false. -/
def ofBool (b : Bool) : Double := if b then one else zero

/-- The machine's number with these bits. -/
def toFloat (d : Double) : Float := Float.ofBits d.bits

/-- The bits of the machine's number, all its NaNs made one. -/
def ofFloat (x : Float) : Double := if x.isNaN then nan else ⟨x.toBits⟩

/-- The NaN `d` with its quiet bit set. -/
def quieted (d : Double) : Double := ⟨d.bits ||| 0x8000000000000⟩

/-- The double with the opposite sign bit. -/
def negated (d : Double) : Double := ⟨d.bits ^^^ 0x8000000000000000⟩

/-- An operation on two numbers, extended to NaNs: the left NaN wins over the right one, and a
result that is no number is the indefinite NaN. -/
def lift (op : Float → Float → Float) (l r : Double) : Double :=
  if l.isNaN then l.quieted
  else if r.isNaN then r.quieted
  else
    let result := op l.toFloat r.toFloat
    if result.isNaN then indefinite else ⟨result.toBits⟩

def add : Double → Double → Double := lift (· + ·)

def sub : Double → Double → Double := lift (· - ·)

def mul : Double → Double → Double := lift (· * ·)

/-- Unordered less-than: true unless `l ≥ r`, so true whenever an operand is a NaN. -/
def less (l r : Double) : Bool := !decide (l.toFloat ≥ r.toFloat)

/-- Equality of the numbers, not of their bits: the two zeros are equal, and a NaN is equal to
nothing. -/
def equals (l r : Double) : Bool := l.toFloat == r.toFloat

end Double

end FloatLang
