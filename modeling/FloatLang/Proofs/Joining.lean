import FloatLang.Session.Basic
import Mathlib.Data.List.DropRight

/-!
# The tokens of joined texts

When are the tokens of two texts that are joined the tokens of the one and then those of the other?
Two things can go wrong at the joint. A word or a number at the end of the first text may go on in
the second one, and a comment may. The first cannot happen if the second text starts with a
character that no word and no number goes on with, and the second cannot happen if every comment of
the first text has ended there or ends at the joint. `Joint` says so, and `Cursor.stream_append`
that this is enough, with all positions: the first text may end anywhere, also in the middle of a
number.

A character that separates statements makes such a joint behind every text without an open comment,
and a line feed makes one behind every text.
-/

namespace FloatLang

/-! ## Where texts are joined -/

/-- What stands behind the last line feed of a text. -/
def lastLine (cs : List Char) : List Char := cs.rtakeWhile (· != '\n')

/-- Whether every comment in the text has ended. -/
def CommentsEnd (cs : List Char) : Prop :=
  ∀ pre comment, cs = pre ++ '#' :: comment → '\n' ∈ comment

/-- The text may be joined to one that starts with `c`: no word and no number goes on with `c`, and
no comment goes on there, since they have all ended or end at `c`. -/
structure Joint (cs : List Char) (c : Char) : Prop where
  alphanumeric : Text.isAlphanumeric c = false
  point : c ≠ '.'
  comment : c = '\n' ∨ CommentsEnd cs

theorem CommentsEnd.of_append {cs ds : List Char} (h : CommentsEnd (cs ++ ds)) : CommentsEnd ds :=
  fun pre comment hds ↦ h (cs ++ pre) comment (by rw [hds, List.append_assoc])

theorem commentsEnd_of_notMem {cs : List Char} (h : '#' ∉ cs) : CommentsEnd cs := by
  rintro pre comment rfl
  exact absurd (List.mem_append_right pre List.mem_cons_self) h

theorem commentsEnd_of_lastLine {cs : List Char} (h : '#' ∉ lastLine cs) : CommentsEnd cs := by
  rintro pre comment rfl
  by_contra hline
  have hcomment : ∀ c ∈ '#' :: comment, (c != '\n') = true := by
    intro c hc
    rcases List.mem_cons.mp hc with rfl | hc
    · decide
    · exact bne_iff_ne.mpr fun e ↦ hline (e ▸ hc)
  have hsuffix : '#' :: comment <:+ lastLine (pre ++ '#' :: comment) := by
    rw [lastLine, List.rtakeWhile, List.reverse_append, List.takeWhile_append_of_pos
      (fun c hc ↦ hcomment c (List.mem_reverse.mp hc)), List.reverse_append, List.reverse_reverse]
    exact List.suffix_append _ _
  exact h (hsuffix.subset List.mem_cons_self)

theorem Joint.of_append (cs : List Char) {ds : List Char} {c : Char} (h : Joint (cs ++ ds) c) :
    Joint ds c :=
  ⟨h.alphanumeric, h.point, h.comment.imp_right CommentsEnd.of_append⟩

private theorem Text.isDigit_eq_false {c : Char} (h : isAlphanumeric c = false) :
    isDigit c = false := by
  by_contra hdigit
  rw [isAlphanumeric_of_isDigit (eq_true_of_ne_false hdigit)] at h
  cases h

/-! ## Skipped runs -/

theorem afterSkipped_space (cs : List Char) : afterSkipped (' ' :: cs) = afterSkipped cs := by
  rw [afterSkipped, List.dropWhile_cons_of_pos (by decide), ← afterSkipped.eq_def]

theorem skippedRun_space (cs : List Char) : skippedRun (' ' :: cs) = ' ' :: skippedRun cs := by
  rw [skippedRun.eq_def, List.dropWhile_cons_of_pos (by decide),
    List.takeWhile_cons_of_pos (by decide), skippedRun.eq_def]
  split <;> rfl

theorem afterSkipped_comment (cs : List Char) :
    afterSkipped ('#' :: cs) = cs.dropWhile (· != '\n') := by
  rw [afterSkipped, List.dropWhile_cons_of_neg (by decide)]
  rfl

theorem skippedRun_comment (cs : List Char) :
    skippedRun ('#' :: cs) = '#' :: cs.takeWhile (· != '\n') := by
  rw [skippedRun, List.dropWhile_cons_of_neg (by decide), List.takeWhile_cons_of_neg (by decide)]
  rfl

section Lexeme

variable {c : Char} (hspace : c ≠ ' ') (hcomment : c ≠ '#')
include hspace hcomment

theorem afterSkipped_lexeme (cs : List Char) : afterSkipped (c :: cs) = c :: cs := by
  rw [afterSkipped, List.dropWhile_cons_of_neg (by simpa using hspace)]
  split
  · rename_i heq
    exact absurd (List.cons.inj heq).1 hcomment
  · rfl

theorem skippedRun_lexeme (cs : List Char) : skippedRun (c :: cs) = [] := by
  rw [skippedRun, List.dropWhile_cons_of_neg (by simpa using hspace),
    List.takeWhile_cons_of_neg (by simpa using hspace)]
  split
  · rename_i heq
    exact absurd (List.cons.inj heq).1 hcomment
  · rfl

end Lexeme

private theorem takeWhile_append_stop {p : Char → Bool} {c : Char} (hc : p c = false)
    (cs ds : List Char) : (cs ++ c :: ds).takeWhile p = cs.takeWhile p := by
  induction cs with
  | nil => exact List.takeWhile_cons_of_neg (by simp [hc])
  | cons d cs ih => rw [List.cons_append, List.takeWhile_cons, List.takeWhile_cons, ih]

private theorem dropWhile_append_stop {p : Char → Bool} {c : Char} (hc : p c = false)
    (cs ds : List Char) : (cs ++ c :: ds).dropWhile p = cs.dropWhile p ++ c :: ds := by
  induction cs with
  | nil => exact List.dropWhile_cons_of_neg (by simp [hc])
  | cons d cs ih =>
    rw [List.cons_append, List.dropWhile_cons, List.dropWhile_cons, ih]
    split <;> rfl

private theorem skipped_append_of_nil {cs : List Char} {c : Char} (hj : Joint cs c)
    (h : afterSkipped cs = []) (ds : List Char) :
    skippedRun (cs ++ c :: ds) = cs ++ skippedRun (c :: ds) ∧
      afterSkipped (cs ++ c :: ds) = afterSkipped (c :: ds) := by
  induction cs with
  | nil => exact ⟨rfl, rfl⟩
  | cons d cs ih =>
    rw [List.cons_append]
    by_cases hspace : d = ' '
    · subst hspace
      rw [afterSkipped_space] at h
      obtain ⟨hrun, hafter⟩ := ih (hj.of_append [' ']) h
      rw [skippedRun_space, afterSkipped_space, hrun, hafter]
      exact ⟨rfl, rfl⟩
    by_cases hcomment : d = '#'
    · subst hcomment
      rw [afterSkipped_comment] at h
      have hline : '\n' ∉ cs := by
        intro hmem
        have hall := List.dropWhile_eq_nil_iff.mp h '\n' hmem
        cases hall
      -- the comment is still open, so that it must end at the joint
      obtain rfl : c = '\n' := hj.comment.resolve_right fun hend ↦ hline (hend [] cs rfl)
      rw [skippedRun_comment, afterSkipped_comment, skippedRun_lexeme (by decide) (by decide),
        afterSkipped_lexeme (by decide) (by decide), takeWhile_append_stop (by decide),
        dropWhile_append_stop (by decide), h, List.append_nil,
        List.takeWhile_eq_self_iff.mpr (List.dropWhile_eq_nil_iff.mp h)]
      exact ⟨rfl, rfl⟩
    · rw [afterSkipped_lexeme hspace hcomment] at h
      cases h

private theorem skipped_append_of_cons {cs : List Char} {c : Char} {rest : List Char}
    (h : afterSkipped cs = c :: rest) (ds : List Char) :
    skippedRun (cs ++ ds) = skippedRun cs ∧ afterSkipped (cs ++ ds) = c :: (rest ++ ds) := by
  induction cs with
  | nil => cases h
  | cons d cs ih =>
    rw [List.cons_append]
    by_cases hspace : d = ' '
    · subst hspace
      rw [afterSkipped_space] at h
      obtain ⟨hrun, hafter⟩ := ih h
      rw [skippedRun_space, skippedRun_space, afterSkipped_space, hrun, hafter]
      exact ⟨rfl, rfl⟩
    by_cases hcomment : d = '#'
    · subst hcomment
      rw [afterSkipped_comment] at h
      have hdrop : (cs ++ ds).dropWhile (· != '\n') = c :: (rest ++ ds) := by
        rw [List.dropWhile_append, h]
        rfl
      have htake : (cs ++ ds).takeWhile (· != '\n') = cs.takeWhile (· != '\n') := by
        refine (List.append_left_inj (c :: (rest ++ ds))).mp ?_
        rw [← hdrop, List.takeWhile_append_dropWhile, hdrop, ← List.cons_append, ← h,
          ← List.append_assoc, List.takeWhile_append_dropWhile]
      rw [skippedRun_comment, skippedRun_comment, afterSkipped_comment, htake, hdrop]
      exact ⟨rfl, rfl⟩
    · rw [afterSkipped_lexeme hspace hcomment] at h
      obtain ⟨rfl, rfl⟩ := List.cons.inj h
      rw [skippedRun_lexeme hspace hcomment, skippedRun_lexeme hspace hcomment,
        afterSkipped_lexeme hspace hcomment]
      exact ⟨rfl, rfl⟩

/-! ## Lexemes -/

namespace Lexeme

/-- The same lexeme with more text behind it. -/
def before (l : Lexeme) (ds : List Char) : Lexeme := { l with rest := l.rest ++ ds }

variable {d : Char}

private theorem word_append (hd : Text.isAlphanumeric d = false) (c : Char) (cs ds : List Char) :
    word c (cs ++ d :: ds) = (word c cs).before (d :: ds) := by
  rw [word, takeWhile_append_stop hd, dropWhile_append_stop hd]
  rfl

private theorem number_append (hd : Text.isDigit d = false) (hpoint : d ≠ '.')
    (whole cs ds : List Char) :
    number whole (cs ++ d :: ds) = (number whole cs).before (d :: ds) := by
  rcases cs with _ | ⟨c, cs⟩
  · rw [List.nil_append, number]
    · rfl
    · exact fun _ heq ↦ absurd (List.cons.inj heq).1 hpoint
  · by_cases hc : c = '.'
    · subst hc
      rw [List.cons_append, number, number, takeWhile_append_stop hd, dropWhile_append_stop hd]
      rfl
    · have hother : ∀ rest ds, c :: rest = '.' :: ds → False := fun _ _ heq ↦
        hc (List.cons.inj heq).1
      rw [List.cons_append, number.eq_2 _ _ (hother _), number.eq_2 _ _ (hother _)]
      rfl

/-- A lexeme in front of a joint ends there. -/
theorem read?_append (hd : Text.isAlphanumeric d = false) (hpoint : d ≠ '.') (c : Char)
    (cs ds : List Char) :
    read? c (cs ++ d :: ds) = (read? c cs).map (before · (d :: ds)) := by
  have hdigit := Text.isDigit_eq_false hd
  rw [read?, read?]
  split
  · rw [word_append hd]
    rfl
  split
  · rw [takeWhile_append_stop hdigit, dropWhile_append_stop hdigit, number_append hdigit hpoint]
    rfl
  split
  · rw [takeWhile_append_stop hdigit]
    split
    · rfl
    · rw [← List.cons_append, number_append hdigit hpoint]
      rfl
  · rfl

end Lexeme

/-! ## Streams -/

namespace TokenStream

/-- The tokens of one text and, unless it has a fault, those of the next. -/
def followedBy (s s' : TokenStream) : TokenStream :=
  match s.fault with
  | some _ => s
  | none => ⟨s.tokens ++ s'.tokens, s'.fault⟩

theorem followedBy_of_fault {s s' : TokenStream} {e : LexError} (h : s.fault = some e) :
    s.followedBy s' = s := by
  rw [followedBy, h]

theorem followedBy_of_end {s s' : TokenStream} (h : s.fault = none) :
    s.followedBy s' = ⟨s.tokens ++ s'.tokens, s'.fault⟩ := by
  rw [followedBy, h]

/-- A stream with one more token in front. -/
def cons (t : Token) (s : TokenStream) : TokenStream := ⟨t :: s.tokens, s.fault⟩

theorem cons_followedBy (t : Token) (s s' : TokenStream) :
    (s.cons t).followedBy s' = (s.followedBy s').cons t := by
  obtain ⟨ts, fault⟩ := s
  cases fault <;> rfl

end TokenStream

namespace Cursor

variable {s : Cursor} {c : Char} {cs : List Char}

theorem stream_eq (s : Cursor) :
    s.stream =
      match s.next? with
      | .error e => ⟨[], some e⟩
      | .ok none => ⟨[], none⟩
      | .ok (some (t, s')) => s'.stream.cons t := by
  rw [stream.eq_def]
  split <;> rename_i heq <;> rw [heq]
  rfl

theorem stream_of_skipped (h : afterSkipped s.rest = []) : s.stream = ⟨[], none⟩ := by
  rw [stream_eq, next?, h]

theorem stream_of_point (h : afterSkipped s.rest = c :: cs) (hread : Lexeme.read? c cs = none) :
    s.stream = ⟨[], some ⟨s.position.after (skippedRun s.rest)⟩⟩ := by
  rw [stream_eq, next?, h]
  simp only
  rw [hread]

theorem stream_of_lexeme (h : afterSkipped s.rest = c :: cs) {l : Lexeme}
    (hread : Lexeme.read? c cs = some l) :
    s.stream =
      (mk l.rest ((s.position.after (skippedRun s.rest)).after l.text)).stream.cons l.token := by
  rw [stream_eq, next?, h]
  simp only
  rw [hread]

private theorem length_rest_lt_of_lexeme (h : afterSkipped s.rest = c :: cs) {l : Lexeme}
    (hread : Lexeme.read? c cs = some l) : l.rest.length < s.rest.length := by
  have hle := length_afterSkipped_le s.rest
  rw [h] at hle
  exact Nat.lt_of_lt_of_le (Lexeme.length_rest_lt hread) hle

/-- **Joined texts.** At a joint the tokens of the two texts are those of the one and then those of
the other, and a fault stays where it stood. -/
theorem stream_append {c : Char} (hj : Joint cs c) (ds : List Char) (p : Position) :
    (mk (cs ++ c :: ds) p).stream =
      (mk cs p).stream.followedBy (mk (c :: ds) (p.after cs)).stream := by
  induction hn : cs.length using Nat.strongRecOn generalizing cs p with
  | ind n ih =>
    subst hn
    rcases hskip : afterSkipped cs with _ | ⟨d, rest⟩
    · obtain ⟨hrun, hafter⟩ := skipped_append_of_nil hj hskip ds
      have hnext : (mk (cs ++ c :: ds) p).next? = (mk (c :: ds) (p.after cs)).next? := by
        rw [next?, next?]
        simp only
        rw [hrun, hafter, Position.after_append]
      rw [stream_of_skipped (s := mk cs p) hskip, stream_eq, hnext, ← stream_eq]
      rfl
    · obtain ⟨hrun, hafter⟩ := skipped_append_of_cons hskip (c :: ds)
      have hlexeme := Lexeme.read?_append hj.alphanumeric hj.point d rest ds
      cases hread : Lexeme.read? d rest with
      | none =>
        rw [hread] at hlexeme
        rw [stream_of_point (s := mk (cs ++ c :: ds) p) hafter hlexeme,
          stream_of_point (s := mk cs p) hskip hread]
        simp only
        rw [hrun]
        rfl
      | some l =>
        rw [hread] at hlexeme
        -- what is left behind the lexeme ends where the first text does, in the same joint
        have hsplit : skippedRun cs ++ (l.text ++ l.rest) = cs := by
          rw [Lexeme.text_append_rest hread, ← hskip, skippedRun_append_afterSkipped]
        have hrest : Joint l.rest c := by
          rw [← hsplit, ← List.append_assoc] at hj
          exact hj.of_append _
        have hlater := ih _ (length_rest_lt_of_lexeme (s := mk cs p) hskip hread) hrest
          ((p.after (skippedRun cs)).after l.text) rfl
        rw [stream_of_lexeme (s := mk (cs ++ c :: ds) p) hafter hlexeme,
          stream_of_lexeme (s := mk cs p) hskip hread, TokenStream.cons_followedBy]
        simp only
        rw [hrun, Lexeme.before]
        simp only
        rw [hlater, ← Position.after_append, ← Position.after_append, List.append_assoc, hsplit]

/-- Where a text stands changes only where its fault is told. -/
theorem stream_moved (cs : List Char) (p q : Position) :
    (mk cs p).stream.tokens = (mk cs q).stream.tokens ∧
      (mk cs p).stream.fault.isSome = (mk cs q).stream.fault.isSome := by
  induction hn : cs.length using Nat.strongRecOn generalizing cs p q with
  | ind n ih =>
    subst hn
    rcases hskip : afterSkipped cs with _ | ⟨c, rest⟩
    · rw [stream_of_skipped (s := mk cs p) hskip, stream_of_skipped (s := mk cs q) hskip]
      exact ⟨rfl, rfl⟩
    cases hread : Lexeme.read? c rest with
    | none =>
      rw [stream_of_point (s := mk cs p) hskip hread, stream_of_point (s := mk cs q) hskip hread]
      exact ⟨rfl, rfl⟩
    | some l =>
      rw [stream_of_lexeme (s := mk cs p) hskip hread, stream_of_lexeme (s := mk cs q) hskip hread]
      obtain ⟨htokens, hfault⟩ := ih _ (length_rest_lt_of_lexeme (s := mk cs p) hskip hread) l.rest
        ((p.after (skippedRun cs)).after l.text) ((q.after (skippedRun cs)).after l.text) rfl
      exact ⟨congrArg (l.token :: ·) htokens, hfault⟩

theorem stream_comment {comment : List Char} (h : '\n' ∉ comment) (p : Position) :
    (mk ('#' :: comment) p).stream = ⟨[], none⟩ := by
  refine stream_of_skipped ?_
  rw [afterSkipped_comment, List.dropWhile_eq_nil_iff]
  exact fun c hc ↦ bne_iff_ne.mpr fun e ↦ h (e ▸ hc)

end Cursor

/-! ## Separators -/

namespace Text

/-- A character that separates statements: a semicolon, or white space of another kind than the
plain space. -/
def separates (c : Char) : Bool := c == ';' || (isBlank c && c != ' ')

theorem inRanges_eq_false {ranges ranges' : List (Nat × Nat)}
    (hdisjoint : ∀ r ∈ ranges, ∀ r' ∈ ranges', r.2 < r'.1 ∨ r'.2 < r.1) {n : Nat}
    (hn : inRanges ranges n = true) : inRanges ranges' n = false := by
  obtain ⟨r, hr, hlow, hhigh⟩ := inRanges_iff.mp hn
  by_contra hn'
  obtain ⟨r', hr', hlow', hhigh'⟩ := inRanges_iff.mp (eq_true_of_ne_false hn')
  have := hdisjoint r hr r' hr'
  omega

theorem isAlpha_eq_inRanges (c : Char) : c.isAlpha = inRanges [(65, 90), (97, 122)] c.toNat := by
  have hupper : c.isUpper = (decide (65 ≤ c.toNat) && decide (c.toNat ≤ 90)) :=
    Bool.decide_and _ _
  simp only [inRanges, List.any_cons, List.any_nil, Bool.or_false, ← hupper]
  rfl

theorem isDigit_eq_inRanges (c : Char) : c.isDigit = inRanges [(48, 57)] c.toNat :=
  (Bool.or_false _).symm

private theorem isAlphanumeric_of_isBlank {c : Char} (h : isBlank c = true) :
    isAlphanumeric c = false := by
  have halphabetic : inRanges alphabeticRanges c.toNat = false :=
    inRanges_eq_false (by decide +kernel) h
  have hnumeric : inRanges numericRanges c.toNat = false :=
    inRanges_eq_false (by decide +kernel) h
  have hletter : c.isAlpha = false :=
    (isAlpha_eq_inRanges c).trans (inRanges_eq_false (by decide) h)
  have hdigit : c.isDigit = false :=
    (isDigit_eq_inRanges c).trans (inRanges_eq_false (by decide) h)
  rw [isAlphanumeric, isAlphabetic, halphabetic, hnumeric, hletter, hdigit]
  split <;> rfl

variable {c : Char} (hc : separates c = true)
include hc

theorem isSeparator_of_separates : Session.isSeparator (.symbol c) = true := by
  rcases Bool.or_eq_true_iff.mp hc with hsemicolon | hblank
  · exact Bool.or_eq_true_iff.mpr (.inl hsemicolon)
  · exact Bool.or_eq_true_iff.mpr (.inr (Bool.and_eq_true_iff.mp hblank).1)

private theorem isAlphanumeric_of_separates : isAlphanumeric c = false := by
  rcases Bool.or_eq_true_iff.mp hc with hsemicolon | hblank
  · obtain rfl := eq_of_beq hsemicolon
    decide
  · exact isAlphanumeric_of_isBlank (Bool.and_eq_true_iff.mp hblank).1

private theorem ne_of_separates {d : Char} (hd : separates d = false) : c ≠ d := by
  rintro rfl
  rw [hc] at hd
  cases hd

end Text

/-- Behind a text without an open comment there is a joint at every separator. -/
theorem joint_of_separates {cs : List Char} {c : Char} (hc : Text.separates c = true)
    (hcomment : c = '\n' ∨ CommentsEnd cs) : Joint cs c :=
  ⟨Text.isAlphanumeric_of_separates hc, Text.ne_of_separates hc (by decide), hcomment⟩

theorem Cursor.stream_separator {c : Char} (hc : Text.separates c = true) (cs : List Char)
    (p : Position) : (mk (c :: cs) p).stream = (mk cs (p.next c)).stream.cons (.symbol c) := by
  have hspace := Text.ne_of_separates hc (d := ' ') (by decide)
  have hhash := Text.ne_of_separates hc (d := '#') (by decide)
  have hpoint := Text.ne_of_separates hc (d := '.') (by decide)
  have halphanumeric := Text.isAlphanumeric_of_separates hc
  have halphabetic : Text.isAlphabetic c = false := by
    by_contra h
    rw [Text.isAlphanumeric_of_isAlphabetic (eq_true_of_ne_false h)] at halphanumeric
    cases halphanumeric
  have hread : Lexeme.read? c cs = some ⟨.symbol c, [c], cs⟩ := by
    rw [Lexeme.read?, halphabetic, Text.isDigit_eq_false halphanumeric]
    simp [hpoint]
  rw [stream_of_lexeme (s := mk (c :: cs) p) (afterSkipped_lexeme hspace hhash cs) hread]
  simp only
  rw [skippedRun_lexeme hspace hhash]
  rfl

end FloatLang
