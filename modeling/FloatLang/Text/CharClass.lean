import FloatLang.Text.Alphabetic
import FloatLang.Text.Numeric

/-!
# Character classes

The language reads its words with the Unicode classes and its numbers with the ASCII digits: an
identifier may be written in any script, and may contain the digit of any script, but a number
literal is made of `0` to `9` only.
-/

namespace FloatLang.Text

/-- Whether the code point `n` lies in one of the closed ranges. -/
def inRanges (ranges : List (Nat × Nat)) (n : Nat) : Bool :=
  ranges.any fun r ↦ r.1 ≤ n && n ≤ r.2

theorem inRanges_iff {ranges : List (Nat × Nat)} {n : Nat} :
    inRanges ranges n = true ↔ ∃ r ∈ ranges, r.1 ≤ n ∧ n ≤ r.2 := by
  simp [inRanges]

/-- An ASCII digit, the only kind of digit a number literal has. -/
def isDigit (c : Char) : Bool := c.isDigit

/-- A character that an identifier may start with. -/
def isAlphabetic (c : Char) : Bool :=
  if c.toNat < 0x80 then c.isAlpha else inRanges alphabeticRanges c.toNat

/-- A character that an identifier may continue with. -/
def isAlphanumeric (c : Char) : Bool :=
  isAlphabetic c || if c.toNat < 0x80 then c.isDigit else inRanges numericRanges c.toNat

/-- The code points of white space: the controls from tab to carriage return, the space, the next
line control and the spaces and separators of the later blocks. -/
def blankRanges : List (Nat × Nat) := [
  (0x9, 0xD), (0x20, 0x20), (0x85, 0x85), (0xA0, 0xA0), (0x1680, 0x1680), (0x2000, 0x200A),
  (0x2028, 0x2029), (0x202F, 0x202F), (0x205F, 0x205F), (0x3000, 0x3000)]

/-- White space, in the Unicode sense. -/
def isBlank (c : Char) : Bool := inRanges blankRanges c.toNat

theorem isAlphanumeric_of_isAlphabetic {c : Char} (h : isAlphabetic c = true) :
    isAlphanumeric c = true := by
  simp [isAlphanumeric, h]

theorem isAlphanumeric_of_isDigit {c : Char} (h : isDigit c = true) :
    isAlphanumeric c = true := by
  have hc : c.isDigit = true := h
  have hlt : c.toNat < 0x80 := Nat.lt_of_le_of_lt (Char.isDigit_iff_toNat.mp hc).2 (by decide)
  rw [isAlphanumeric, if_pos hlt, hc, Bool.or_true]

end FloatLang.Text
