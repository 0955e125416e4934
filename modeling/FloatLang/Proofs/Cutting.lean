import FloatLang.Proofs.Lexemes

/-!
# A text is cut by successive calls

One call of the lexer meets one of three things: a skipped run and a token, nothing but a skipped
run, or a skipped run and a point that no digit follows. There is always one of them
(`exists_way`), and it decides the answer and the place after the call (`Cursor.call_cases`). The
three answers differ, so that each is given exactly when its thing is met.

Successive calls cut a whole text from left to right. The pieces and what is left at the end are the
text again, and what is left is met by every call from then on: the end is answered again and again,
and so is the point, which no call moves past.
-/

namespace FloatLang

/-! ## Places in a text -/

private theorem lastLine_concat (cs : List Char) (c : Char) :
    lastLine (cs ++ [c]) = if c = '\n' then [] else lastLine cs ++ [c] := by
  rw [lastLine, List.rtakeWhile_concat]
  by_cases hc : c = '\n'
  · rw [if_neg (by simp [hc]), if_pos hc]
  · rw [if_pos (by simp [hc]), if_neg hc, lastLine]

/-- The place behind a text: the lines that have ended are counted, and what stands on the last. -/
theorem Position.start_after (cs : List Char) :
    start.after cs = ⟨1 + cs.count '\n', 1 + (lastLine cs).length⟩ := by
  induction cs using List.reverseRecOn with
  | nil => rfl
  | append_singleton cs c ih =>
    rw [after_append, ih, after_cons, after_nil, next, lastLine_concat, List.count_append]
    by_cases hc : c = '\n'
    · subst hc
      rw [if_pos rfl, if_pos rfl, List.count_singleton_self]
      rfl
    · rw [if_neg hc, if_neg hc, List.count_singleton, if_neg (by simpa using hc),
        List.length_append]
      rfl

/-! ## One call -/

/-- Whatever the text is, it goes on in one of the three ways. -/
private theorem exists_way (cs : List Char) :
    (∃ skipped text rest t, skipped ++ text ++ rest = cs ∧ IsSkipped (text ++ rest) skipped ∧
        IsLexeme rest t text) ∨
      IsSkipped [] cs ∨ ∃ skipped, LonePoint skipped cs := by
  have hcs := skippedRun_append_afterSkipped cs
  have hskipped := isSkipped_skippedRun cs
  rcases hafter : afterSkipped cs with _ | ⟨c, later⟩
  · rw [hafter] at hcs hskipped
    rw [List.append_nil] at hcs
    rw [hcs] at hskipped
    exact .inr (.inl hskipped)
  rw [hafter] at hcs hskipped
  cases hread : Lexeme.read? c later with
  | none =>
    obtain ⟨rfl, hlater⟩ := Lexeme.read?_eq_none_iff.mp hread
    exact .inr (.inr ⟨_, later, hcs.symm, hskipped, hlater⟩)
  | some l =>
    have htext := Lexeme.text_append_rest hread
    rw [← htext] at hskipped
    refine .inl ⟨_, l.text, l.rest, l.token, ?_, hskipped, Lexeme.isLexeme_of_read? hread⟩
    rw [List.append_assoc, htext, hcs]

namespace Cursor

/-- One call of the lexer: what it answers, and where it leaves the cursor. At the end everything
has been read; a failure moves nothing. -/
def call (s : Cursor) : Except LexError (Option Token) × Cursor :=
  match s.next? with
  | .error e => (.error e, s)
  | .ok none => (.ok none, ⟨[], s.position.after s.rest⟩)
  | .ok (some (t, s')) => (.ok (some t), s')

/-- The tokens from a place on are the answers of the calls. -/
theorem stream_eq_call (s : Cursor) :
    s.stream =
      match s.call with
      | (.error e, _) => ⟨[], some e⟩
      | (.ok none, _) => ⟨[], none⟩
      | (.ok (some t), s') => s'.stream.cons t := by
  rw [stream_eq, call]
  rcases s.next? with e | _ | ⟨t, s'⟩ <;> rfl

theorem stream_of_call {s s' : Cursor} {t : Token} {ts : List Token} {fault : Option LexError}
    (hcall : s.call = (.ok (some t), s')) (hstream : s'.stream = ⟨ts, fault⟩) :
    s.stream = ⟨t :: ts, fault⟩ := by
  rw [stream_eq_call, hcall]
  simp only
  rw [hstream]
  rfl

theorem stream_of_call_end {s s' : Cursor} (hcall : s.call = (.ok none, s')) :
    s.stream = ⟨[], none⟩ := by
  rw [stream_eq_call, hcall]

variable {skipped text rest cs : List Char} {t : Token}

theorem call_of_token (hskipped : IsSkipped (text ++ rest) skipped) (hlexeme : IsLexeme rest t text)
    (p : Position) :
    (mk (skipped ++ text ++ rest) p).call = (.ok (some t), ⟨rest, p.after (skipped ++ text)⟩) := by
  obtain ⟨hrun, hafter⟩ := hskipped.skippedRun_append
  obtain ⟨c, later, rfl⟩ := List.exists_cons_of_ne_nil hlexeme.ne_nil
  have hread : Lexeme.read? c (later ++ rest) = some ⟨t, c :: later, rest⟩ :=
    Lexeme.read?_of_isLexeme hlexeme rfl
  rw [call, next?, List.append_assoc]
  simp only
  rw [hrun, hafter, List.cons_append]
  simp only
  rw [hread, Position.after_append p skipped (c :: later)]

theorem call_of_end (h : IsSkipped [] cs) (p : Position) :
    (mk cs p).call = (.ok none, ⟨[], p.after cs⟩) := by
  have hafter := h.skippedRun_append.2
  rw [List.append_nil] at hafter
  rw [call, next?]
  simp only
  rw [hafter]

private theorem call_of_point (h : LonePoint skipped cs) (p : Position) :
    (mk cs p).call = (.error ⟨p.after skipped⟩, ⟨cs, p⟩) := by
  obtain ⟨later, rfl, hskipped, hlater⟩ := h
  obtain ⟨hrun, hafter⟩ := hskipped.skippedRun_append
  rw [call, next?]
  simp only
  rw [hrun, hafter]
  simp only
  rw [Lexeme.read?_eq_none_iff.mpr ⟨rfl, hlater⟩]

/-- One call: what stands in front of the cursor, what is answered, and where the cursor is left. -/
private theorem call_cases (s : Cursor) :
    (∃ skipped text rest t, skipped ++ text ++ rest = s.rest ∧ IsSkipped (text ++ rest) skipped ∧
        IsLexeme rest t text ∧
        s.call = (.ok (some t), ⟨rest, s.position.after (skipped ++ text)⟩)) ∨
      (IsSkipped [] s.rest ∧ s.call = (.ok none, ⟨[], s.position.after s.rest⟩)) ∨
      ∃ skipped, LonePoint skipped s.rest ∧
        s.call = (.error ⟨s.position.after skipped⟩, s) := by
  obtain ⟨cs, p⟩ := s
  rcases exists_way cs with ⟨skipped, text, rest, t, rfl, hskipped, hlexeme⟩ | hend | ⟨_, hpoint⟩
  · exact .inl ⟨_, _, _, t, rfl, hskipped, hlexeme, call_of_token hskipped hlexeme p⟩
  · exact .inr (.inl ⟨hend, call_of_end hend p⟩)
  · exact .inr (.inr ⟨_, hpoint, call_of_point hpoint p⟩)

variable {s : Cursor}

/-- A token is answered exactly when it stands there behind a skipped run. -/
theorem call_eq_token_iff :
    s.call.1 = .ok (some t) ↔
      ∃ skipped text rest, skipped ++ text ++ rest = s.rest ∧ IsSkipped (text ++ rest) skipped ∧
        IsLexeme rest t text := by
  constructor
  · intro h
    rcases s.call_cases with ⟨_, _, _, _, hcs, hskipped, hlexeme, hcall⟩ | ⟨-, hcall⟩ |
      ⟨_, -, hcall⟩ <;> rw [hcall] at h <;> cases h
    exact ⟨_, _, _, hcs, hskipped, hlexeme⟩
  · rintro ⟨skipped, text, rest, hcs, hskipped, hlexeme⟩
    have hcall := call_of_token hskipped hlexeme s.position
    rw [hcs] at hcall
    rw [hcall]

/-- The end is answered exactly when only a skipped run is left. -/
theorem call_eq_end_iff : s.call.1 = .ok none ↔ IsSkipped [] s.rest := by
  refine ⟨fun h ↦ ?_, fun h ↦ by rw [call_of_end h]⟩
  rcases s.call_cases with ⟨_, _, _, _, -, -, -, hcall⟩ | ⟨hend, hcall⟩ | ⟨_, -, hcall⟩ <;>
    rw [hcall] at h <;> cases h
  exact hend

/-- A call fails exactly when the text goes on with a skipped run and a point that no digit
follows, and tells where the point stands. -/
theorem call_eq_error_iff {e : LexError} :
    s.call.1 = .error e ↔
      ∃ skipped, LonePoint skipped s.rest ∧ e = ⟨s.position.after skipped⟩ := by
  constructor
  · intro h
    rcases s.call_cases with ⟨_, _, _, _, -, -, -, hcall⟩ | ⟨-, hcall⟩ | ⟨_, hpoint, hcall⟩ <;>
      rw [hcall] at h <;> cases h
    exact ⟨_, hpoint, rfl⟩
  · rintro ⟨skipped, hpoint, rfl⟩
    rw [call_of_point hpoint]

theorem call_unmoved {e : LexError} (h : s.call.1 = .error e) : s.call.2 = s := by
  obtain ⟨skipped, hpoint, -⟩ := call_eq_error_iff.mp h
  rw [call_of_point hpoint]

/-! ## Successive calls -/

def afterCalls (s : Cursor) : Nat → Cursor
  | 0 => s
  | k + 1 => s.call.2.afterCalls k

theorem afterCalls_add (s : Cursor) (j k : Nat) :
    s.afterCalls (j + k) = (s.afterCalls j).afterCalls k := by
  induction j generalizing s with
  | zero => rw [Nat.zero_add, afterCalls]
  | succ j ih => rw [Nat.add_right_comm, afterCalls, ih, afterCalls]

private theorem afterCalls_succ (s : Cursor) (k : Nat) :
    s.afterCalls (k + 1) = (s.afterCalls k).call.2 :=
  afterCalls_add s k 1

/-- The cursor stands in the text, and its position says where. -/
def StandsIn (cs : List Char) (s : Cursor) : Prop :=
  ∃ before, before ++ s.rest = cs ∧ s.position = Position.start.after before

private theorem StandsIn.call (h : s.StandsIn cs) : s.call.2.StandsIn cs := by
  obtain ⟨before, hcs, hposition⟩ := h
  rcases s.call_cases with ⟨skipped, text, rest, t, hrest, -, -, hcall⟩ | ⟨-, hcall⟩ | ⟨_, -, hcall⟩
  · rw [hcall, hposition, ← Position.after_append]
    refine ⟨before ++ (skipped ++ text), ?_, rfl⟩
    rw [← hcs, ← hrest, List.append_assoc]
  · rw [hcall, hposition, ← Position.after_append]
    exact ⟨before ++ s.rest, (List.append_nil _).trans hcs, rfl⟩
  · rw [hcall]
    exact ⟨before, hcs, hposition⟩

private theorem standsIn_afterCalls (text : String) (k : Nat) :
    ((ofString text).afterCalls k).StandsIn text.toList := by
  induction k with
  | zero => exact ⟨[], rfl, rfl⟩
  | succ k ih =>
    rw [afterCalls_succ]
    exact ih.call

/-- What the call at a place in the text `cs` answers: each answer is given exactly when its thing
stands there, and a failure tells where and moves nothing. -/
structure AnswersIn (cs : List Char) (s : Cursor) : Prop where
  token_iff : ∀ t, s.call.1 = .ok (some t) ↔
    ∃ skipped text rest, skipped ++ text ++ rest = s.rest ∧ IsSkipped (text ++ rest) skipped ∧
      IsLexeme rest t text
  end_iff : s.call.1 = .ok none ↔ IsSkipped [] s.rest
  error_iff : ∀ e, s.call.1 = .error e ↔
    ∃ before skipped, before ++ s.rest = cs ∧ LonePoint skipped s.rest ∧
      e.position =
        ⟨1 + (before ++ skipped).count '\n', 1 + (lastLine (before ++ skipped)).length⟩
  unmoved : ∀ e, s.call.1 = .error e → s.call.2 = s

theorem StandsIn.answersIn (h : s.StandsIn cs) : s.AnswersIn cs where
  token_iff _ := call_eq_token_iff
  end_iff := call_eq_end_iff
  error_iff e := by
    obtain ⟨before, hcs, hposition⟩ := h
    have hplace (skipped : List Char) : s.position.after skipped =
        ⟨1 + (before ++ skipped).count '\n', 1 + (lastLine (before ++ skipped)).length⟩ := by
      rw [hposition, ← Position.after_append, Position.start_after]
    rw [call_eq_error_iff]
    constructor
    · rintro ⟨skipped, hpoint, rfl⟩
      exact ⟨before, skipped, hcs, hpoint, hplace skipped⟩
    · rintro ⟨before', skipped, hcs', hpoint, he⟩
      obtain rfl : before' = before := List.append_cancel_right (hcs'.trans hcs.symm)
      rw [← hplace] at he
      exact ⟨skipped, hpoint, congrArg LexError.mk he⟩
  unmoved _ := call_unmoved

private theorem afterCalls_of_end (h : IsSkipped [] cs) (p : Position) (k : Nat) :
    ((mk cs p).afterCalls k).call.1 = .ok none := by
  induction k generalizing cs p with
  | zero => exact congrArg Prod.fst (call_of_end h p)
  | succ k ih =>
    rw [afterCalls, call_of_end h]
    exact ih (.spaces 0 nofun) _

private theorem afterCalls_of_point (h : LonePoint skipped cs) (p : Position) (k : Nat) :
    ((mk cs p).afterCalls k).call.1 = .error ⟨p.after skipped⟩ := by
  induction k with
  | zero => exact congrArg Prod.fst (call_of_point h p)
  | succ k ih =>
    rw [afterCalls, call_of_point h]
    exact ih

end Cursor

/-! ## Cutting a text -/

/-- A skipped run and the token behind it. -/
structure Piece where
  /-- What is passed over. -/
  skipped : List Char
  /-- The text of the token. -/
  text : List Char
  /-- What the text is read as. -/
  token : Token

def Piece.chars (p : Piece) : List Char := p.skipped ++ p.text

theorem Piece.call {p : Piece} {rest : List Char} (hskipped : IsSkipped (p.text ++ rest) p.skipped)
    (hlexeme : IsLexeme rest p.token p.text) (position : Position) :
    (Cursor.mk (p.chars ++ rest) position).call =
      (.ok (some p.token), ⟨rest, position.after p.chars⟩) :=
  Cursor.call_of_token hskipped hlexeme position

/-- From left to right the text is cut into the pieces, and the last text is left. -/
inductive Cut : List Char → List Piece → List Char → Prop
  | left (last : List Char) : Cut last [] last
  | piece {p : Piece} {rest last : List Char} {pieces : List Piece}
    (hskipped : IsSkipped (p.text ++ rest) p.skipped) (hlexeme : IsLexeme rest p.token p.text)
    (hrest : Cut rest pieces last) : Cut (p.chars ++ rest) (p :: pieces) last

namespace Cut

variable {cs last : List Char} {pieces : List Piece}

theorem chars (h : Cut cs pieces last) : pieces.flatMap Piece.chars ++ last = cs := by
  induction h with
  | left last => rfl
  | piece _ _ _ ih => rw [List.flatMap_cons, List.append_assoc, ih]

/-- The call for a piece answers its token, and the cursor then stands behind it. -/
theorem call (h : Cut cs pieces last) (position : Position) {k : Nat} {p : Piece}
    (hp : pieces[k]? = some p) :
    ((Cursor.mk cs position).afterCalls k).call =
      (.ok (some p.token),
        ⟨(pieces.drop (k + 1)).flatMap Piece.chars ++ last,
          position.after ((pieces.take (k + 1)).flatMap Piece.chars)⟩) := by
  induction h generalizing position k with
  | left last => cases hp
  | @piece p' rest last pieces hskipped hlexeme hrest ih =>
    have hcall := Piece.call hskipped hlexeme position
    cases k with
    | zero =>
      obtain rfl := Option.some.inj hp
      rw [Cursor.afterCalls, hcall, List.drop_succ_cons, List.drop_zero, hrest.chars,
        List.take_succ_cons, List.take_zero, List.flatMap_singleton]
    | succ k =>
      rw [Cursor.afterCalls, hcall, ih _ hp, List.drop_succ_cons, List.take_succ_cons,
        List.flatMap_cons, Position.after_append]

theorem afterCalls (h : Cut cs pieces last) (position : Position) :
    (Cursor.mk cs position).afterCalls pieces.length =
      ⟨last, position.after (pieces.flatMap Piece.chars)⟩ := by
  induction h generalizing position with
  | left last => rfl
  | @piece p rest last pieces hskipped hlexeme hrest ih =>
    rw [List.length_cons, Cursor.afterCalls, Piece.call hskipped hlexeme, ih, List.flatMap_cons,
      Position.after_append]

theorem stream (h : Cut cs pieces last) (position : Position) :
    (Cursor.mk cs position).stream =
      TokenStream.followedBy ⟨pieces.map Piece.token, none⟩
        (Cursor.mk last (position.after (pieces.flatMap Piece.chars))).stream := by
  induction h generalizing position with
  | left last => rfl
  | @piece p rest last pieces hskipped hlexeme hrest ih =>
    rw [Cursor.stream_eq_call, Piece.call hskipped hlexeme]
    simp only
    rw [ih, List.flatMap_cons, Position.after_append]
    rfl

end Cut

/-- Every text is cut until one of the two other ways is met. -/
private theorem exists_cut (cs : List Char) :
    ∃ pieces last, Cut cs pieces last ∧
      (IsSkipped [] last ∨ ∃ skipped, LonePoint skipped last) := by
  induction hn : cs.length using Nat.strongRecOn generalizing cs with
  | ind n ih =>
    subst hn
    rcases exists_way cs with ⟨skipped, text, rest, t, rfl, hskipped, hlexeme⟩ | hleft
    · have hlt : rest.length < (skipped ++ text ++ rest).length := by
        have := List.length_pos_iff.mpr hlexeme.ne_nil
        simp only [List.length_append]
        omega
      obtain ⟨pieces, last, hcut, hlast⟩ := ih _ hlt rest rfl
      exact ⟨_, last, .piece (p := ⟨skipped, text, t⟩) hskipped hlexeme hcut, hlast⟩
    · exact ⟨[], cs, .left cs, hleft⟩

/-- **Successive calls.** The calls of the lexer cut every text from left to right into pieces, each
a skipped run and the longest token behind it, and a last text, and nothing is lost or read twice.
The calls for the pieces answer their tokens one by one, and each call starts where the one before
it ended. If the last text is a skipped run, every later call answers the end; else it goes on with
a point that no digit follows, and every later call fails. The tokens that are read from the text
are those of the pieces. Each answer is given exactly when its thing stands there. -/
theorem successive_calls (text : String) :
    ∃ (pieces : List Piece) (last : List Char),
      Cut text.toList pieces last ∧ pieces.flatMap Piece.chars ++ last = text.toList ∧
      (∀ k p, pieces[k]? = some p →
        ((Cursor.ofString text).afterCalls k).call.1 = .ok (some p.token)) ∧
      (∀ k ≤ pieces.length, ((Cursor.ofString text).afterCalls k).rest =
        (pieces.drop k).flatMap Piece.chars ++ last) ∧
      (IsSkipped [] last ∧ (Cursor.ofString text).stream = ⟨pieces.map Piece.token, none⟩ ∧
          (∀ k ≥ pieces.length, ((Cursor.ofString text).afterCalls k).call.1 = .ok none) ∨
        ∃ skipped e, LonePoint skipped last ∧
          (Cursor.ofString text).stream = ⟨pieces.map Piece.token, some e⟩ ∧
          ∀ k ≥ pieces.length, ((Cursor.ofString text).afterCalls k).call.1 = .error e) ∧
      ∀ k, ((Cursor.ofString text).afterCalls k).AnswersIn text.toList := by
  obtain ⟨pieces, last, hcut, hlast⟩ := exists_cut text.toList
  have hbehind := hcut.afterCalls .start
  refine ⟨pieces, last, hcut, hcut.chars, fun k p hp ↦ ?_, fun k hk ↦ ?_, ?_, fun k ↦ ?_⟩
  · rw [Cursor.ofString, hcut.call .start hp]
  · cases k with
    | zero => exact hcut.chars.symm
    | succ k =>
      have hp : pieces[k]? = some pieces[k] := List.getElem?_eq_getElem hk
      rw [Cursor.afterCalls_succ, Cursor.ofString, hcut.call .start hp]
  · have hlater {k : Nat} (hk : k ≥ pieces.length) : (Cursor.ofString text).afterCalls k =
        (Cursor.mk last (Position.start.after (pieces.flatMap Piece.chars))).afterCalls
          (k - pieces.length) := by
      rw [← hbehind, ← Cursor.afterCalls_add, Nat.add_sub_cancel' hk, Cursor.ofString]
    have hstream := hcut.stream .start
    rcases hlast with hend | ⟨skipped, hpoint⟩
    · rw [Cursor.stream_eq_call (.mk last _), Cursor.call_of_end hend] at hstream
      refine .inl ⟨hend, hstream.trans ?_, fun k hk ↦ ?_⟩
      · rw [TokenStream.followedBy_of_end rfl, List.append_nil]
      · rw [hlater hk, Cursor.afterCalls_of_end hend]
    · rw [Cursor.stream_eq_call (.mk last _), Cursor.call_of_point hpoint] at hstream
      refine .inr ⟨skipped, ⟨(Position.start.after (pieces.flatMap Piece.chars)).after skipped⟩,
        hpoint, hstream.trans ?_, fun k hk ↦ ?_⟩
      · rw [TokenStream.followedBy_of_end rfl, List.append_nil]
      · rw [hlater hk, Cursor.afterCalls_of_point hpoint]
  · exact (Cursor.standsIn_afterCalls text k).answersIn

end FloatLang
