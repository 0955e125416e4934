import FloatLang.Double.Digits

/-!
# The text of a constant

A constant of the intermediate form is written in one of two ways. The *exponential* text has
seven significant digits and an exponent of at least two digits, `1.500000e-03`; it is used when
it reads back as an equal number. All other constants, among them the infinities and the NaNs, are
written as their bits in hexadecimal, `0x7FF0000000000000`.

`readConstant?` reads both ways back.
-/

namespace FloatLang.Double

-- With an algebra library at hand there is a second power on `Nat`; `^` stays the core one.
attribute [local instance (high)] instPowNat

/-! ## Bits in hexadecimal -/

/-- The upper-case hexadecimal digit of a number below sixteen. -/
def hexDigit (n : Nat) : Char :=
  if n < 10 then .ofNat ('0'.toNat + n) else .ofNat ('A'.toNat + (n - 10))

def hexValue? (c : Char) : Option Nat :=
  if '0' ≤ c ∧ c ≤ '9' then some (c.toNat - '0'.toNat)
  else if 'A' ≤ c ∧ c ≤ 'F' then some (c.toNat - 'A'.toNat + 10)
  else none

/-- The last `width` hexadecimal digits of `n`, the most significant one first. -/
def hexDigits : Nat → Nat → List Char
  | 0, _ => []
  | width + 1, n => hexDigits width (n / 16) ++ [hexDigit (n % 16)]

/-- The number that a list of hexadecimal digits denotes, read on from `n`. -/
def readHex? (n : Nat) : List Char → Option Nat
  | [] => some n
  | c :: cs => (hexValue? c).bind fun v ↦ readHex? (16 * n + v) cs

private theorem hexValue?_hexDigit {n : Nat} (h : n < 16) : hexValue? (hexDigit n) = some n := by
  have all : ∀ m < 16, hexValue? (hexDigit m) = some m := by decide
  exact all n h

private theorem readHex?_append (n : Nat) (cs ds : List Char) :
    readHex? n (cs ++ ds) = (readHex? n cs).bind fun m ↦ readHex? m ds := by
  induction cs generalizing n with
  | nil => simp [readHex?]
  | cons c cs ih => cases h : hexValue? c <;> simp [readHex?, h, ih]

/-- Reading the digits of a number gives the number, as far as there are digits. -/
theorem readHex?_hexDigits (width n m : Nat) :
    readHex? m (hexDigits width n) = some (m * 16 ^ width + n % 16 ^ width) := by
  induction width generalizing n m with
  | zero => simp [hexDigits, readHex?, Nat.mod_one]
  | succ width ih =>
    have hd : n % 16 < 16 := Nat.mod_lt _ (by decide)
    have hsplit : n % 16 ^ (width + 1) = n % 16 + 16 * (n / 16 % 16 ^ width) := by
      rw [Nat.pow_succ, Nat.mul_comm, Nat.mod_mul]
    simp only [hexDigits, readHex?_append, ih, Option.bind_some, readHex?, hexValue?_hexDigit hd]
    rw [hsplit, Nat.pow_succ, ← Nat.mul_assoc]
    congr 1
    omega

@[simp] theorem length_hexDigits (width n : Nat) : (hexDigits width n).length = width := by
  induction width generalizing n with
  | zero => rfl
  | succ width ih => simp [hexDigits, ih]

/-- The sixty-four bits as sixteen digits after `0x`. -/
def bitsText (d : Double) : List Char := '0' :: 'x' :: hexDigits 16 d.bits.toNat

/-! ## Exponential notation -/

/-- The finite double `d` rounded to seven significant digits, with its exponent as it is,
`1.500000e-3`. The digits are those of the coefficient, of which there are seven except for zero;
a one in front of them holds their places. -/
def scientific (d : Double) : List Char :=
  let r := d.rounded 6
  let digits := (toString (10 ^ (7 : Nat) + r.coefficient)).toList.drop 1
  (if d.isNegative then ['-'] else []) ++ digits.take 1 ++ '.' :: digits.drop 1 ++
    'e' :: (toString (r.exponent + 6)).toList

/-- An exponent with a sign always and with at least two digits. -/
def signedExponent : List Char → List Char
  | '-' :: digits => '-' :: digits.leftpad 2 '0'
  | digits => '+' :: digits.leftpad 2 '0'

/-- A text in exponential notation with the exponent behind its `e` written out. -/
def respelled? (cs : List Char) : Option (List Char) :=
  match cs.dropWhile (· != 'e') with
  | [] => none
  | e :: exponent => some (cs.takeWhile (· != 'e') ++ e :: signedExponent exponent)

/-- The integer that a sign and digits denote. -/
def readExponent? : List Char → Option Int
  | [] => none
  | sign :: digits =>
    if digits.isEmpty || !digits.all Char.isDigit then none
    else if sign = '+' then some (Decimal.ofDigits digits)
    else if sign = '-' then some (-Decimal.ofDigits digits)
    else none

/-- Reads a magnitude in exponential notation: digits, a point, digits, `e` and an exponent. -/
def readMagnitude? (cs : List Char) : Option Double :=
  let whole := cs.takeWhile Char.isDigit
  match cs.dropWhile Char.isDigit with
  | '.' :: rest =>
    let part := rest.takeWhile Char.isDigit
    match rest.dropWhile Char.isDigit with
    | 'e' :: exponent =>
      if whole.isEmpty || part.isEmpty then none
      else (readExponent? exponent).map fun e ↦
        let d := Decimal.ofParts whole part
        Decimal.toDouble ⟨d.coefficient, d.exponent + e⟩
    | _ => none
  | _ => none

def readExponential? : List Char → Option Double
  | '-' :: cs => (readMagnitude? cs).map negated
  | cs => readMagnitude? cs

/-! ## Constants -/

/-- Whether `cs` is a number in exponential notation that is equal to `d`. -/
def denotes (cs : List Char) (d : Double) : Bool := (readExponential? cs).any (·.equals d)

/-- The exponential text of a finite double, if it loses nothing. -/
def exponential? (d : Double) : Option (List Char) :=
  if d.isFinite then (respelled? d.scientific).filter (denotes · d) else none

/-- The text of a constant: the exponential one if there is one, the bits otherwise. -/
def constantText (d : Double) : List Char := d.exponential?.getD d.bitsText

/-- Reads the text of a constant: the bits when it starts with `0x`, and a number in exponential
notation otherwise. -/
def readConstant? : List Char → Option Double
  | '0' :: 'x' :: cs =>
    if cs.length = 16 then (readHex? 0 cs).map fun n ↦ ⟨n.toUInt64⟩ else none
  | cs => readExponential? cs

theorem readConstant?_bitsText (d : Double) : readConstant? d.bitsText = some d := by
  have hlt : d.bits.toNat < 16 ^ 16 := d.bits.toNat_lt
  have hmod : 0 * 16 ^ 16 + d.bits.toNat % 16 ^ 16 = d.bits.toNat := by
    rw [Nat.mod_eq_of_lt hlt]
    omega
  simp only [bitsText, readConstant?, length_hexDigits, if_true, readHex?_hexDigits, hmod,
    Option.map_some]
  simp

end FloatLang.Double
