import Mathlib
import FloatLang.Double.Constant

/-!
# Equality of numbers

`Double.equals` compares two doubles with the machine's equality. The machine keeps one NaN of all
those there are (`toBits_toFloat`) and every other word as it is, so that equality can be described
on the words themselves: two doubles are equal exactly when neither is a NaN and they are the same
word or both a zero.
-/

namespace FloatLang.Double

open Float.Model.UnpackedFloat

variable {d l r : Double}

/-! ## The fields of a word -/

theorem exponentField_eq (d : Double) : d.exponentField = d.bits.toNat / 2 ^ 52 % 2 ^ 11 := by
  simp only [exponentField, UInt64.toNat_and, UInt64.toNat_shiftRight]
  show d.bits.toNat >>> 52 &&& (2 ^ 11 - 1) = _
  rw [Nat.and_two_pow_sub_one_eq_mod, Nat.shiftRight_eq_div_pow]

theorem fraction_eq (d : Double) : d.fraction = d.bits.toNat % 2 ^ 52 := by
  simp only [fraction, UInt64.toNat_and]
  show d.bits.toNat &&& (2 ^ 52 - 1) = _
  rw [Nat.and_two_pow_sub_one_eq_mod]

theorem isNaN_iff : d.isNaN = true ↔ d.exponentField = 2047 ∧ d.fraction ≠ 0 := by
  simp [isNaN]

theorem isZero_iff : d.isZero = true ↔ d.exponentField = 0 ∧ d.fraction = 0 := by
  simp [isZero]

/-- There are two zeros. -/
theorem isZero_iff_eq_or_eq : d.isZero = true ↔ d = zero ∨ d = negated zero := by
  refine ⟨fun h ↦ ?_, ?_⟩
  · obtain ⟨hexp, hfrac⟩ := isZero_iff.mp h
    rw [exponentField_eq] at hexp
    rw [fraction_eq] at hfrac
    have hlt : d.bits.toNat < 2 ^ 64 := d.bits.toNat_lt
    obtain hbits | hbits : d.bits.toNat = 0 ∨ d.bits.toNat = 2 ^ 63 := by omega
    · exact .inl (congrArg mk (UInt64.toNat_inj.mp hbits))
    · exact .inr (congrArg mk (UInt64.toNat_inj.mp hbits))
  · rintro (rfl | rfl) <;> rfl

/-! ## The machine's number -/

private theorem isNaNBits_iff (d : Double) :
    @isNaNBits .binary64 d.bits.toBitVec = true ↔ d.isNaN = true := by
  have hexp : (@unpackExponent .binary64 d.bits.toBitVec).toNat = d.exponentField := by
    rw [unpackExponent_def, BitVec.extractLsb'_toNat, exponentField_eq, Nat.shiftRight_eq_div_pow]
    rfl
  have hfrac : (@unpackMantissa .binary64 d.bits.toBitVec).toNat = d.fraction := by
    rw [unpackMantissa_def, BitVec.extractLsb'_toNat, fraction_eq]
    rfl
  rw [isNaN_iff, isNaNBits, decide_eq_true_iff, ne_eq, ← BitVec.toNat_inj, ← BitVec.toNat_inj, hexp,
    hfrac]
  rfl

/-- **The machine's number keeps the word**, unless it is a NaN. -/
theorem toBits_toFloat (d : Double) : d.toFloat.toBits = if d.isNaN then nan.bits else d.bits := by
  have hbits : d.toFloat.toBits.toBitVec = (unpack .binary64 d.bits.toBitVec).pack .binary64 := rfl
  rw [← UInt64.toBitVec_inj, hbits, pack_unpack]
  simp only [isNaNBits_iff]
  split <;> rfl

private theorem toFloat_eq_iff {x : Float} (h : d.isNaN = false) :
    d.toFloat = x ↔ d = ⟨x.toBits⟩ := by
  rw [← Float.toBits_inj, toBits_toFloat, h, if_neg Bool.false_ne_true]
  exact ⟨congrArg mk, congrArg bits⟩

theorem toFloat_inj (hl : l.isNaN = false) (hr : r.isNaN = false) :
    l.toFloat = r.toFloat ↔ l = r := by
  rw [toFloat_eq_iff hl, toBits_toFloat, hr, if_neg Bool.false_ne_true]

theorem toFloat_eq_nan_iff : d.toFloat = .nan ↔ d.isNaN = true := by
  cases h : d.isNaN with
  | true =>
    rw [← Float.toBits_inj, toBits_toFloat, if_pos h]
    exact iff_of_true rfl rfl
  | false =>
    rw [toFloat_eq_iff h, Bool.false_eq_true, iff_false]
    rintro rfl
    cases h

/-! ## Equality -/

/-- **Equality of numbers is equality of words, but for the zeros and the NaNs.** -/
theorem equals_iff : l.equals r = true ↔
    l.isNaN = false ∧ (l = r ∨ l.isZero = true ∧ r.isZero = true) := by
  constructor
  · intro h
    obtain ⟨hl, hr, h⟩ := Float.beq_iff_ne_nan_and_eq.mp h
    rw [ne_eq, toFloat_eq_nan_iff, Bool.not_eq_true] at hl hr
    refine ⟨hl, ?_⟩
    rw [isZero_iff_eq_or_eq, isZero_iff_eq_or_eq]
    obtain h | ⟨hpos, hneg⟩ | ⟨hneg, hpos⟩ := h
    · exact .inl ((toFloat_inj hl hr).mp h)
    · exact .inr ⟨.inl ((toFloat_eq_iff hl).mp hpos), .inr ((toFloat_eq_iff hr).mp hneg)⟩
    · exact .inr ⟨.inr ((toFloat_eq_iff hl).mp hneg), .inl ((toFloat_eq_iff hr).mp hpos)⟩
  · rintro ⟨hl, rfl | ⟨hlzero, hrzero⟩⟩
    · rw [equals, Float.beq_self_iff, ne_eq, toFloat_eq_nan_iff, hl]
      exact Bool.false_ne_true
    · rw [isZero_iff_eq_or_eq] at hlzero hrzero
      obtain rfl | rfl := hlzero <;> obtain rfl | rfl := hrzero <;> rfl

end FloatLang.Double
