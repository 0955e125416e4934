import FloatLang.Proofs.Joining

/-!
# The lexemes of a text

What a text may be cut into is said here without a reader: skipped runs, words, numerals and other
single characters, where a word and a numeral are as long as they can be. What the lexer passes over
is such a run (`isSkipped_skippedRun`), and what it reads is such a token
(`Lexeme.isLexeme_of_read?`). The converses hold because a text has only one longest beginning of a
kind (`Longest.unique`): whatever stands in front of a text as a token is what is read there.
-/

namespace FloatLang

/-! ## What a text is cut into -/

/-- A word: letters and digits of any script, with a letter in front. -/
def IsWord (cs : List Char) : Prop :=
  ∃ c later, cs = c :: later ∧ Text.isAlphabetic c = true ∧
    ∀ d ∈ later, Text.isAlphanumeric d = true

/-- A numeral: digits with at most one point, and at least one digit. -/
structure IsNumeral (cs : List Char) : Prop where
  digits : ∀ c ∈ cs, Text.isDigit c = true ∨ c = '.'
  points : cs.count '.' ≤ 1
  nonempty : ∃ c ∈ cs, Text.isDigit c = true

/-- The double that a numeral denotes: its digits with the point where it stands. -/
def numeralValue (cs : List Char) : Double :=
  (Decimal.ofParts (cs.takeWhile (· != '.')) (cs.dropWhile (· != '.')).tail).toDouble

/-- In front of `rest`, the text has the property, and loses it with more of what follows. -/
structure Longest (p : List Char → Prop) (rest text : List Char) : Prop where
  holds : p text
  stops : ∀ more, more ≠ [] → more <+: rest → ¬p (text ++ more)

/-- In front of `rest`, the text is a token: a keyword, an identifier, a number, or a single
character that begins neither a word nor a number. -/
inductive IsLexeme (rest : List Char) : Token → List Char → Prop
  | defKeyword (h : Longest IsWord rest "def".toList) : IsLexeme rest .defKeyword "def".toList
  | externKeyword (h : Longest IsWord rest "extern".toList) :
    IsLexeme rest .externKeyword "extern".toList
  | identifier {text : List Char} (h : Longest IsWord rest text) (hdefWord : text ≠ "def".toList)
    (hexternWord : text ≠ "extern".toList) :
    IsLexeme rest (.identifier (String.ofList text)) text
  | number {text : List Char} (h : Longest IsNumeral rest text) :
    IsLexeme rest (.number (numeralValue text)) text
  | symbol {c : Char} (hletter : Text.isAlphabetic c = false) (hdigit : Text.isDigit c = false)
    (hpoint : c ≠ '.') : IsLexeme rest (.symbol c) [c]

/-- In front of `rest`, the text is passed over: as many spaces as there are and, if a `#` follows,
everything up to the end of the line. -/
inductive IsSkipped (rest : List Char) : List Char → Prop
  | spaces (n : Nat) (h : ∀ c ∈ rest.head?, c ≠ ' ' ∧ c ≠ '#') :
    IsSkipped rest (List.replicate n ' ')
  | comment (n : Nat) {comment : List Char} (h : '\n' ∉ comment)
    (hrest : rest = [] ∨ rest.head? = some '\n') :
    IsSkipped rest (List.replicate n ' ' ++ '#' :: comment)

/-- The text goes on with `skipped` and a point that no digit follows. -/
def LonePoint (skipped cs : List Char) : Prop :=
  ∃ later, cs = skipped ++ '.' :: later ∧ IsSkipped ('.' :: later) skipped ∧
    ∀ d ∈ later.head?, Text.isDigit d = false

/-! ## Skipped runs -/

namespace IsSkipped

variable {rest skipped cs : List Char}

theorem space (h : IsSkipped rest skipped) : IsSkipped rest (' ' :: skipped) := by
  cases h with
  | spaces n h => exact .spaces (n + 1) h
  | comment n h hrest => exact .comment (n + 1) h hrest

theorem skippedRun_append (h : IsSkipped rest skipped) :
    skippedRun (skipped ++ rest) = skipped ∧ afterSkipped (skipped ++ rest) = rest := by
  cases h with
  | spaces n h =>
    induction n with
    | zero =>
      cases rest with
      | nil => exact ⟨rfl, rfl⟩
      | cons c rest =>
        obtain ⟨hspace, hcomment⟩ := h c rfl
        exact ⟨skippedRun_lexeme hspace hcomment rest, afterSkipped_lexeme hspace hcomment rest⟩
    | succ n ih =>
      rw [List.replicate_succ, List.cons_append, skippedRun_space, afterSkipped_space]
      exact ⟨congrArg (' ' :: ·) ih.1, ih.2⟩
  | @comment n text h hrest =>
    have hall : ∀ c ∈ text, (c != '\n') = true := fun c hc ↦
      bne_iff_ne.mpr fun e ↦ h (e ▸ hc)
    induction n with
    | zero =>
      have hstop : rest.takeWhile (· != '\n') = [] ∧ rest.dropWhile (· != '\n') = rest := by
        cases rest with
        | nil => exact ⟨rfl, rfl⟩
        | cons c rest =>
          obtain rfl : c = '\n' := by simpa using hrest
          exact ⟨rfl, rfl⟩
      rw [List.replicate_zero, List.nil_append, List.cons_append, skippedRun_comment,
        afterSkipped_comment, List.takeWhile_append_of_pos hall, List.dropWhile_append_of_pos hall,
        hstop.1, hstop.2, List.append_nil]
      exact ⟨rfl, rfl⟩
    | succ n ih =>
      rw [List.replicate_succ, List.cons_append, List.cons_append, skippedRun_space,
        afterSkipped_space]
      exact ⟨congrArg (' ' :: ·) ih.1, ih.2⟩

end IsSkipped

/-- What the lexer passes over is a skipped run in front of what it goes on with. -/
theorem isSkipped_skippedRun (cs : List Char) : IsSkipped (afterSkipped cs) (skippedRun cs) := by
  induction cs with
  | nil => exact .spaces 0 nofun
  | cons c cs ih =>
    by_cases hspace : c = ' '
    · subst hspace
      rw [afterSkipped_space, skippedRun_space]
      exact ih.space
    by_cases hcomment : c = '#'
    · subst hcomment
      rw [afterSkipped_comment, skippedRun_comment]
      refine .comment 0 (fun h ↦ ?_) ?_
      · exact absurd (List.mem_takeWhile_imp h) (by decide)
      · cases hrest : cs.dropWhile (· != '\n') with
        | nil => exact .inl rfl
        | cons d rest =>
          have hd := List.head_dropWhile_not (· != '\n') (l := cs) (by rw [hrest]; simp)
          simp only [hrest, List.head_cons] at hd
          exact .inr (by simpa using hd)
    · rw [afterSkipped_lexeme hspace hcomment, skippedRun_lexeme hspace hcomment]
      refine .spaces 0 fun d hd ↦ ?_
      obtain rfl := Option.some.inj hd
      exact ⟨hspace, hcomment⟩

/-! ## Longest beginnings -/

theorem Longest.unique {p : List Char → Prop} {rest rest' text text' : List Char}
    (h : Longest p rest text) (h' : Longest p rest' text') (heq : text ++ rest = text' ++ rest') :
    text = text' := by
  rcases List.append_eq_append_iff.mp heq with ⟨more, rfl, rfl⟩ | ⟨more, rfl, rfl⟩
  · by_contra hne
    have hmore : more ≠ [] := by
      rintro rfl
      exact hne (List.append_nil _).symm
    exact h.stops more hmore (List.prefix_append _ _) h'.holds
  · by_contra hne
    have hmore : more ≠ [] := by
      rintro rfl
      exact hne (List.append_nil _)
    exact h'.stops more hmore (List.prefix_append _ _) h.holds

private theorem Text.isAlphabetic_eq_false_of_isDigit {c : Char} (h : isDigit c = true) :
    isAlphabetic c = false := by
  have hdigit : inRanges [(48, 57)] c.toNat = true := (isDigit_eq_inRanges c).symm.trans h
  have hbounds := Char.isDigit_iff_toNat.mp h
  rw [isAlphabetic, if_pos (Nat.lt_of_le_of_lt hbounds.2 (by decide)), isAlpha_eq_inRanges]
  exact inRanges_eq_false (by decide) hdigit

theorem longest_word {c : Char} {later rest : List Char} (hc : Text.isAlphabetic c = true)
    (hlater : ∀ d ∈ later, Text.isAlphanumeric d = true)
    (hrest : ∀ d ∈ rest.head?, Text.isAlphanumeric d = false) :
    Longest IsWord rest (c :: later) where
  holds := ⟨c, later, rfl, hc, hlater⟩
  stops := by
    rintro (_ | ⟨d, more⟩) hne ⟨after, rfl⟩ ⟨c', later', heq, -, hall⟩
    · exact hne rfl
    · obtain ⟨-, rfl⟩ := List.cons.inj heq
      have hd := hall d (List.mem_append_right _ List.mem_cons_self)
      rw [hrest d rfl] at hd
      cases hd

section Numerals

variable {whole part rest : List Char} (hwhole : ∀ c ∈ whole, Text.isDigit c = true)
include hwhole

private theorem ne_point_of_digits {c : Char} (hc : c ∈ whole) : c ≠ '.' := by
  rintro rfl
  exact absurd (hwhole _ hc) (by decide)

/-- Digits on either side of a point are a longest numeral if no further digit follows: a second
point does not belong to it. -/
private theorem longest_numeral_of_point (hpart : ∀ c ∈ part, Text.isDigit c = true)
    (hne : whole ++ part ≠ []) (hrest : ∀ d ∈ rest.head?, Text.isDigit d = false) :
    Longest IsNumeral rest (whole ++ '.' :: part) where
  holds := by
    refine ⟨fun c hc ↦ ?_, ?_, ?_⟩
    · rcases List.mem_append.mp hc with hc | hc
      · exact .inl (hwhole c hc)
      · exact (List.mem_cons.mp hc).symm.imp_left (hpart c)
    · rw [List.count_append, List.count_cons_self,
        List.count_eq_zero_of_not_mem fun h ↦ ne_point_of_digits hwhole h rfl,
        List.count_eq_zero_of_not_mem fun h ↦ ne_point_of_digits hpart h rfl]
    · obtain ⟨c, hc⟩ := List.exists_mem_of_ne_nil _ hne
      rcases List.mem_append.mp hc with hc | hc
      · exact ⟨c, List.mem_append_left _ hc, hwhole c hc⟩
      · exact ⟨c, List.mem_append_right _ (List.mem_cons_of_mem _ hc), hpart c hc⟩
  stops := by
    rintro (_ | ⟨d, more⟩) hne ⟨after, rfl⟩ hnumeral
    · exact hne rfl
    · have hpoints := hnumeral.points
      rcases hnumeral.digits d (List.mem_append_right _ List.mem_cons_self) with hd | rfl
      · rw [hrest d rfl] at hd
        cases hd
      · simp only [List.append_assoc, List.cons_append, List.count_append,
          List.count_cons_self] at hpoints
        omega

private theorem longest_numeral_of_digits (hne : whole ≠ [])
    (hrest : ∀ d ∈ rest.head?, Text.isDigit d = false ∧ d ≠ '.') :
    Longest IsNumeral rest whole where
  holds := by
    refine ⟨fun c hc ↦ .inl (hwhole c hc), ?_, ?_⟩
    · rw [List.count_eq_zero_of_not_mem fun h ↦ ne_point_of_digits hwhole h rfl]
      exact Nat.zero_le 1
    · obtain ⟨c, hc⟩ := List.exists_mem_of_ne_nil _ hne
      exact ⟨c, hc, hwhole c hc⟩
  stops := by
    rintro (_ | ⟨d, more⟩) hmore ⟨after, rfl⟩ hnumeral
    · exact hmore rfl
    · obtain ⟨hdigit, hpoint⟩ := hrest d rfl
      rcases hnumeral.digits d (List.mem_append_right _ List.mem_cons_self) with hd | rfl
      · rw [hdigit] at hd
        cases hd
      · exact hpoint rfl

private theorem numeralValue_of_point :
    numeralValue (whole ++ '.' :: part) = (Decimal.ofParts whole part).toDouble := by
  have hall : ∀ c ∈ whole, (c != '.') = true := fun c hc ↦
    bne_iff_ne.mpr (ne_point_of_digits hwhole hc)
  rw [numeralValue, List.takeWhile_append_of_pos hall, List.dropWhile_append_of_pos hall]
  simp

private theorem numeralValue_of_digits :
    numeralValue whole = (Decimal.ofParts whole []).toDouble := by
  have hall : ∀ c ∈ whole, (c != '.') = true := fun c hc ↦
    bne_iff_ne.mpr (ne_point_of_digits hwhole hc)
  rw [numeralValue, List.takeWhile_eq_self_iff.mpr hall, List.dropWhile_eq_nil_iff.mpr hall]
  rfl

end Numerals

/-! ## Reading a lexeme -/

theorem isLexeme_ofWord {rest text : List Char} (h : Longest IsWord rest text) :
    IsLexeme rest (.ofWord text) text := by
  rw [Token.ofWord]
  split
  · rename_i hdefWord
    subst hdefWord
    exact .defKeyword h
  split
  · rename_i hexternWord
    subst hexternWord
    exact .externKeyword h
  · rename_i hdefWord hexternWord
    exact .identifier h hdefWord hexternWord

private theorem head?_dropWhile_eq_false (p : Char → Bool) (cs : List Char) :
    ∀ d ∈ (cs.dropWhile p).head?, p d = false := by
  intro d hd
  rw [Option.mem_def, List.head?_eq_some_iff] at hd
  obtain ⟨rest, hrest⟩ := hd
  have hhead := List.head_dropWhile_not p (l := cs) (by rw [hrest]; simp)
  simpa only [hrest, List.head_cons] using hhead

/-- What a token is, by its first character: a word, a numeral, or that character. -/
theorem IsLexeme.kind {rest text : List Char} {t : Token} (h : IsLexeme rest t text) :
    (Longest IsWord rest text ∧ t = .ofWord text) ∨
      (Longest IsNumeral rest text ∧ t = .number (numeralValue text)) ∨
      ∃ c, text = [c] ∧ t = .symbol c ∧ Text.isAlphabetic c = false ∧ Text.isDigit c = false ∧
        c ≠ '.' := by
  cases h with
  | defKeyword h => exact .inl ⟨h, rfl⟩
  | externKeyword h => exact .inl ⟨h, rfl⟩
  | identifier h hdefWord hexternWord =>
    refine .inl ⟨h, ?_⟩
    rw [Token.ofWord, if_neg hdefWord, if_neg hexternWord]
  | number h => exact .inr (.inl ⟨h, rfl⟩)
  | symbol hletter hdigit hpoint => exact .inr (.inr ⟨_, rfl, rfl, hletter, hdigit, hpoint⟩)

theorem IsNumeral.eq_cons {text : List Char} (h : IsNumeral text) :
    ∃ c later, text = c :: later ∧ (Text.isDigit c = true ∨
      c = '.' ∧ ∃ d ∈ later.head?, Text.isDigit d = true) := by
  obtain ⟨d, hd, hdigit⟩ := h.nonempty
  obtain ⟨c, later, rfl⟩ := List.exists_cons_of_ne_nil (List.ne_nil_of_mem hd)
  refine ⟨c, later, rfl, (h.digits c List.mem_cons_self).imp_right ?_⟩
  rintro rfl
  have hne : d ≠ '.' := by
    rintro rfl
    exact absurd hdigit (by decide)
  have hlater : d ∈ later := (List.mem_cons.mp hd).resolve_left hne
  obtain ⟨d', later, rfl⟩ := List.exists_cons_of_ne_nil (List.ne_nil_of_mem hlater)
  refine ⟨rfl, d', rfl, (h.digits d' (by simp)).resolve_right ?_⟩
  -- a second point would be one too many
  rintro rfl
  have hpoints := h.points
  rw [List.count_cons_self, List.count_cons_self] at hpoints
  omega

theorem IsLexeme.ne_nil {rest text : List Char} {t : Token} (h : IsLexeme rest t text) :
    text ≠ [] := by
  rcases h.kind with ⟨hword, -⟩ | ⟨hnumeral, -⟩ | ⟨c, rfl, -⟩
  · obtain ⟨c, later, rfl, -⟩ := hword.holds
    exact List.cons_ne_nil _ _
  · obtain ⟨c, later, rfl, -⟩ := hnumeral.holds.eq_cons
    exact List.cons_ne_nil _ _
  · exact List.cons_ne_nil _ _

namespace Lexeme

variable {c : Char} {cs : List Char}

private theorem read?_letter (h : Text.isAlphabetic c = true) (cs : List Char) :
    ∃ l, read? c cs = some l ∧ Longest IsWord l.rest l.text ∧ l.token = .ofWord l.text :=
  ⟨word c cs, if_pos h, longest_word h (fun _ hd ↦ List.mem_takeWhile_imp hd)
    (head?_dropWhile_eq_false _ cs), rfl⟩

private theorem longest_number {whole cs : List Char} (hwhole : ∀ c ∈ whole, Text.isDigit c = true)
    (hcs : ∀ d ∈ cs.head?, Text.isDigit d = false)
    (hdigit : whole ≠ [] ∨ ∃ ds, cs = '.' :: ds ∧ ∃ d ∈ ds.head?, Text.isDigit d = true) :
    Longest IsNumeral (number whole cs).rest (number whole cs).text ∧
      (number whole cs).token = .number (numeralValue (number whole cs).text) := by
  rw [number.eq_def]
  split
  · rename_i ds
    have hpart : ∀ c ∈ ds.takeWhile Text.isDigit, Text.isDigit c = true := fun c hc ↦
      List.mem_takeWhile_imp hc
    have hne : whole ++ ds.takeWhile Text.isDigit ≠ [] := by
      rcases hdigit with hwhole | ⟨ds', heq, d, hd, hdigit⟩
      · exact List.append_ne_nil_of_left_ne_nil hwhole _
      · obtain ⟨-, rfl⟩ := List.cons.inj heq
        obtain ⟨later, rfl⟩ := List.head?_eq_some_iff.mp hd
        rw [List.takeWhile_cons_of_pos hdigit]
        exact List.append_ne_nil_of_right_ne_nil _ (List.cons_ne_nil _ _)
    exact ⟨longest_numeral_of_point hwhole hpart hne (head?_dropWhile_eq_false _ ds),
      congrArg Token.number (numeralValue_of_point hwhole).symm⟩
  · rename_i hpoint
    have hne : whole ≠ [] := hdigit.resolve_right fun ⟨ds, heq, _⟩ ↦ hpoint _ heq
    refine ⟨longest_numeral_of_digits hwhole hne fun d hd ↦ ⟨hcs d hd, ?_⟩,
      congrArg Token.number (numeralValue_of_digits hwhole).symm⟩
    rintro rfl
    obtain ⟨ds, hds⟩ := List.head?_eq_some_iff.mp hd
    exact hpoint ds hds

private theorem read?_numeral (hletter : Text.isAlphabetic c = false)
    (h : Text.isDigit c = true ∨ c = '.' ∧ ∃ d ∈ cs.head?, Text.isDigit d = true) :
    ∃ l, read? c cs = some l ∧ Longest IsNumeral l.rest l.text ∧
      l.token = .number (numeralValue l.text) := by
  rw [read?, hletter, if_neg Bool.false_ne_true]
  split
  · rename_i hdigit
    refine ⟨_, rfl, longest_number (fun d hd ↦ ?_) (head?_dropWhile_eq_false _ cs)
      (.inl (List.cons_ne_nil _ _))⟩
    rcases List.mem_cons.mp hd with rfl | hd
    · exact hdigit
    · exact List.mem_takeWhile_imp hd
  · rename_i hdigit
    obtain ⟨rfl, d, hd, hpart⟩ := h.resolve_left hdigit
    obtain ⟨later, rfl⟩ := List.head?_eq_some_iff.mp hd
    rw [if_pos rfl, List.takeWhile_cons_of_pos hpart, List.isEmpty_cons, if_neg Bool.false_ne_true]
    refine ⟨_, rfl, longest_number (List.forall_mem_nil _) (fun c hc ↦ ?_)
      (.inr ⟨_, rfl, d, rfl, hpart⟩)⟩
    obtain rfl := Option.some.inj hc
    decide

private theorem read?_symbol (hletter : Text.isAlphabetic c = false)
    (hdigit : Text.isDigit c = false)
    (hpoint : c ≠ '.') (cs : List Char) : read? c cs = some ⟨.symbol c, [c], cs⟩ := by
  rw [read?, hletter, hdigit, if_neg Bool.false_ne_true, if_neg Bool.false_ne_true, if_neg hpoint]

/-- The only thing that is not read is a point that no digit follows. -/
theorem read?_eq_none_iff :
    read? c cs = none ↔ c = '.' ∧ ∀ d ∈ cs.head?, Text.isDigit d = false := by
  rw [read?]
  split
  · rename_i hletter
    refine iff_of_false (Option.some_ne_none _) ?_
    rintro ⟨rfl, -⟩
    exact absurd hletter (by decide)
  split
  · rename_i hdigit
    refine iff_of_false (Option.some_ne_none _) ?_
    rintro ⟨rfl, -⟩
    exact absurd hdigit (by decide)
  split
  · rename_i hpoint
    cases cs with
    | nil => simp [hpoint]
    | cons d cs =>
      cases hd : Text.isDigit d <;> simp [hpoint, hd]
  · rename_i hpoint
    exact iff_of_false (Option.some_ne_none _) fun h ↦ hpoint h.1

theorem isLexeme_of_read? {l : Lexeme} (h : read? c cs = some l) :
    IsLexeme l.rest l.token l.text := by
  rcases hletter : Text.isAlphabetic c with _ | _
  · by_cases hnumeral : Text.isDigit c = true ∨ c = '.' ∧ ∃ d ∈ cs.head?, Text.isDigit d = true
    · obtain ⟨l', hread, hlongest, htoken⟩ := read?_numeral hletter hnumeral
      obtain rfl := Option.some.inj (h.symm.trans hread)
      rw [htoken]
      exact .number hlongest
    · obtain ⟨hdigit, hpoint⟩ := not_or.mp hnumeral
      by_cases hc : c = '.'
      · have hnone : read? c cs = none := read?_eq_none_iff.mpr ⟨hc, fun d hd ↦
          eq_false_of_ne_true fun h ↦ hpoint ⟨hc, d, hd, h⟩⟩
        rw [hnone] at h
        cases h
      · rw [read?_symbol hletter (eq_false_of_ne_true hdigit) hc] at h
        obtain rfl := Option.some.inj h
        exact .symbol hletter (eq_false_of_ne_true hdigit) hc
  · obtain ⟨l', hread, hlongest, htoken⟩ := read?_letter hletter cs
    obtain rfl := Option.some.inj (h.symm.trans hread)
    rw [htoken]
    exact isLexeme_ofWord hlongest

/-- What is read is the only longest beginning of its kind. -/
theorem read?_of_longest {p : List Char → Prop} (token : List Char → Token) {rest text : List Char}
    (hread : ∃ l, read? c cs = some l ∧ Longest p l.rest l.text ∧ l.token = token l.text)
    (h : Longest p rest text) (heq : text ++ rest = c :: cs) :
    read? c cs = some ⟨token text, text, rest⟩ := by
  obtain ⟨⟨t, text', rest'⟩, hread, hlongest, htoken⟩ := hread
  have happend : text' ++ rest' = text ++ rest := (text_append_rest hread).trans heq.symm
  obtain rfl : text' = text := hlongest.unique h happend
  obtain rfl : rest' = rest := List.append_cancel_left happend
  simp only at htoken
  rw [hread, htoken]

theorem read?_of_isLexeme {t : Token} {rest text : List Char} (h : IsLexeme rest t text)
    (heq : text ++ rest = c :: cs) : read? c cs = some ⟨t, text, rest⟩ := by
  rcases h.kind with ⟨hword, rfl⟩ | ⟨hnumeral, rfl⟩ | ⟨d, rfl, rfl, hletter, hdigit, hpoint⟩
  · obtain ⟨c', later, rfl, hletter, -⟩ := hword.holds
    obtain ⟨rfl, -⟩ := List.cons.inj heq
    exact read?_of_longest .ofWord (read?_letter hletter cs) hword heq
  · obtain ⟨c', later, rfl, hfirst⟩ := hnumeral.holds.eq_cons
    obtain ⟨rfl, hcs⟩ := List.cons.inj heq
    have hletter : Text.isAlphabetic c' = false := by
      rcases hfirst with hdigit | ⟨rfl, -⟩
      · exact Text.isAlphabetic_eq_false_of_isDigit hdigit
      · decide
    have hfirst : Text.isDigit c' = true ∨
        c' = '.' ∧ ∃ d ∈ cs.head?, Text.isDigit d = true := by
      refine hfirst.imp_right fun ⟨hc, d, hd, hdigit⟩ ↦ ⟨hc, d, ?_, hdigit⟩
      obtain ⟨ds, rfl⟩ := List.head?_eq_some_iff.mp hd
      rw [← hcs]
      rfl
    exact read?_of_longest (.number <| numeralValue ·) (read?_numeral hletter hfirst) hnumeral heq
  · obtain ⟨rfl, rfl⟩ := List.cons.inj heq
    exact read?_symbol hletter hdigit hpoint _

end Lexeme

end FloatLang
