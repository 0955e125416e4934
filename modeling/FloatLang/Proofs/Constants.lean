import FloatLang.Proofs.NumberEquality

/-!
# The text of a constant

A constant is printed without loss: its text, read as bits or as a number in exponential notation,
gives the same sixty-four bits. An exponential text is only used after it has been read back, but
it is compared as a number then, and `Double.equals` takes a zero for the other one. What a text
of a zero reads back as is therefore computed.

The exponent is written out behind the first `e` of a text; everything before it stays
(`respelled?_eq_some_iff`).
-/

namespace FloatLang.Double

variable {d : Double} {cs text : List Char}

/-! ## The exponential text -/

/-- Either zero reads back with its sign, which the comparison of numbers does not look at. -/
private theorem readExponential?_of_isZero (h : d.isZero = true) :
    (respelled? d.scientific).bind readExponential? = some d := by
  obtain rfl | rfl := isZero_iff_eq_or_eq.mp h
  · decide
  · decide

theorem exponential?_eq_some_iff : d.exponential? = some text ↔
    d.isFinite = true ∧ respelled? d.scientific = some text ∧ denotes text d = true := by
  simp [exponential?, Option.filter_eq_some_iff]

private theorem readExponential?_of_exponential? (h : d.exponential? = some text) :
    readExponential? text = some d := by
  obtain ⟨-, htext, hdenotes⟩ := exponential?_eq_some_iff.mp h
  obtain ⟨d', hread, hequal⟩ : ∃ d', readExponential? text = some d' ∧ d'.equals d = true := by
    simpa [denotes, Option.any_eq_true] using hdenotes
  obtain ⟨-, rfl | ⟨-, hzero⟩⟩ := equals_iff.mp hequal
  · exact hread
  · simpa [htext] using readExponential?_of_isZero hzero

/-- The text is cut at its first `e`, and only what is behind it changes. -/
theorem respelled?_eq_some_iff : respelled? cs = some text ↔
    ∃ mantissa exponent, cs = mantissa ++ 'e' :: exponent ∧ 'e' ∉ mantissa ∧
      text = mantissa ++ 'e' :: signedExponent exponent := by
  constructor
  · intro h
    have hsplit := List.takeWhile_append_dropWhile (p := (· != 'e')) (l := cs)
    have hmantissa : 'e' ∉ cs.takeWhile (· != 'e') := fun hmem ↦ by
      simpa using List.all_eq_true.mp List.all_takeWhile _ hmem
    rw [respelled?] at h
    split at h
    · cases h
    · rename_i e exponent hdrop
      have he : e = 'e' := by
        have := List.head_dropWhile_not (p := (· != 'e')) (l := cs) (by simp [hdrop])
        simpa [hdrop] using this
      subst he
      exact ⟨_, exponent, by rw [← hdrop, hsplit], hmantissa, (Option.some.inj h).symm⟩
  · rintro ⟨mantissa, exponent, rfl, hmantissa, rfl⟩
    have hall : ∀ c ∈ mantissa, (c != 'e') = true := fun c hc ↦
      bne_iff_ne.mpr (ne_of_mem_of_not_mem hc hmantissa)
    rw [respelled?, List.dropWhile_append_of_pos hall, List.takeWhile_append_of_pos hall]
    simp

private theorem mem_signedExponent {c : Char} (hc : c ∈ signedExponent cs) :
    c ∈ cs ∨ c = '+' ∨ c = '0' := by
  have hpad {digits : List Char} (hmem : c ∈ digits.leftpad 2 '0') : c = '0' ∨ c ∈ digits := by
    simp only [List.leftpad, List.mem_append, List.mem_replicate] at hmem
    exact hmem.imp_left And.right
  rw [signedExponent.eq_def] at hc
  split at hc
  · grind
  · grind

theorem mem_of_respelled? (h : respelled? cs = some text) {c : Char} (hc : c ∈ text) :
    c ∈ cs ∨ c = '+' ∨ c = '0' := by
  obtain ⟨mantissa, exponent, rfl, -, rfl⟩ := respelled?_eq_some_iff.mp h
  have hexponent := @mem_signedExponent exponent c
  grind

theorem head?_of_respelled? (h : respelled? cs = some text) : text.head? = cs.head? := by
  obtain ⟨mantissa, exponent, rfl, -, rfl⟩ := respelled?_eq_some_iff.mp h
  simp

/-! ## Reading a constant back -/

private theorem readExponential?_of_hexadecimal (cs : List Char) :
    readExponential? ('0' :: 'x' :: cs) = none := rfl

/-- The text of a constant reads back as the constant, bit for bit. -/
theorem readConstant?_constantText (d : Double) : readConstant? d.constantText = some d := by
  rw [constantText]
  cases htext : d.exponential? with
  | none => exact readConstant?_bitsText d
  | some text =>
    have hread := readExponential?_of_exponential? htext
    rw [Option.getD_some, readConstant?.eq_def]
    split
    · -- a text that begins like bits is not one in exponential notation
      rw [readExponential?_of_hexadecimal] at hread
      cases hread
    · exact hread

theorem constantText_inj {d d' : Double} : d.constantText = d'.constantText ↔ d = d' := by
  refine ⟨fun h ↦ ?_, congrArg _⟩
  have hread := congrArg readConstant? h
  rw [readConstant?_constantText, readConstant?_constantText] at hread
  exact Option.some.inj hread

/-- **Constants print without loss.** The text of every pattern of sixty-four bits, of a zero of
either sign, a subnormal number, an infinity or a NaN with any payload too, reads back as that
pattern, so different patterns have different texts. -/
theorem constants_print_without_loss :
    (∀ bits : UInt64, (readConstant? (constantText ⟨bits⟩)).map Double.bits = some bits) ∧
      ∀ bits bits' : UInt64, bits ≠ bits' → constantText ⟨bits⟩ ≠ constantText ⟨bits'⟩ := by
  refine ⟨fun bits ↦ ?_, fun bits bits' hne htext ↦ ?_⟩
  · rw [readConstant?_constantText]
    rfl
  · exact hne (congrArg Double.bits (constantText_inj.mp htext))

end FloatLang.Double
