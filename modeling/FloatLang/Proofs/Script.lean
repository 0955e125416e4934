import FloatLang.Proofs.Reading
import FloatLang.Session.Loop

/-!
# The script of a text

Whether a text can be read does not depend on the session it is given to. What a session does with
a text can therefore be told in two parts: the *script* of the text, which lists the statements and
the places that cannot be read, in order, and says how the text ends; and the acting of a script,
which goes through that list and fails at the end if the text does.

Reading and acting are interleaved in the program, since a session answers each statement before it
looks for the next one. `handle_eq` says that this makes no difference.
-/

namespace FloatLang

/-- A sentence of a text: a statement, or something that cannot be read. -/
inductive Item
  | statement (s : Statement)
  | misread (what : Expected)

/-- Whether the item is about functions with a name only. -/
def Item.Named : Item → Prop
  | .statement s => s.Named
  | .misread _ => True

def Item.names : Item → List String
  | .statement s => s.proto.names
  | .misread _ => []

/-- The sentences of a text, and what the text ends with if it is not its end. -/
structure Script where
  /-- The sentences, in order. -/
  items : List Item
  /-- The point without digits that the text ends with, if reading comes to one. -/
  fault : Option LexError

namespace Script

def cons (i : Item) (s : Script) : Script := ⟨i :: s.items, s.fault⟩

def ofTokens (fault : Option LexError) (ts : List Token) : Script :=
  match ts with
  | [] => ⟨[], none⟩
  | t :: rest =>
    if Session.isSeparator t then
      match TokenStream.blocking? fault rest with
      | some e => ⟨[], some e⟩
      | none => ofTokens fault rest
    else
      match readStatement fault (t :: rest) with
      | .read statement after _ => cons (.statement statement) (ofTokens fault after)
      | .failed (.lex e) _ _ => ⟨[], some e⟩
      | .failed (.expected what) [] _ => ⟨[.misread what], none⟩
      | .failed (.expected what) (_ :: after) _ =>
        match TokenStream.blocking? fault after with
        | some e => ⟨[.misread what], some e⟩
        | none => cons (.misread what) (ofTokens fault after)
termination_by ts.length
decreasing_by all_goals (simp only [List.length_cons] at *; omega)

/-- The script of a token stream. A text that starts with a fault has nothing in front of it. -/
def ofStream (s : TokenStream) : Script :=
  match s.tokens, s.fault with
  | [], some e => ⟨[], some e⟩
  | ts, fault => ofTokens fault ts

/-- The script of a text. -/
def ofText (text : String) : Script := ofStream (Cursor.ofString text).stream

/-- The items of texts that are given one after the other, whatever each of them ends with. -/
def itemsOf (texts : List String) : List Item := texts.flatMap fun text ↦ (ofText text).items

/-! ## The shape of a script -/

/-- The script from a token on that is stepped over. Behind the last token there is nothing. -/
def resumed (fault : Option LexError) : List Token → Script
  | [] => ⟨[], none⟩
  | _ :: rest => ofStream ⟨rest, fault⟩

theorem ofStream_eq (fault : Option LexError) (ts : List Token) :
    ofStream ⟨ts, fault⟩ =
      match TokenStream.blocking? fault ts with
      | some e => ⟨[], some e⟩
      | none => ofTokens fault ts := by
  rcases ts with _ | ⟨t, rest⟩
  · cases fault <;> rfl
  · rfl

section Shape

variable {fault : Option LexError} {t : Token} {rest after : List Token}

theorem ofTokens_nil : ofTokens fault [] = ⟨[], none⟩ := by
  rw [ofTokens.eq_def]

theorem ofTokens_separator (ht : Session.isSeparator t = true) :
    ofTokens fault (t :: rest) = ofStream ⟨rest, fault⟩ := by
  rw [ofTokens.eq_def, ofStream_eq]
  simp only
  rw [if_pos ht]

variable (ht : ¬Session.isSeparator t = true)
include ht

theorem ofTokens_read {statement : Statement} {fewer : after.length < (t :: rest).length}
    (hread : readStatement fault (t :: rest) = .read statement after fewer) :
    ofTokens fault (t :: rest) = (ofTokens fault after).cons (.statement statement) := by
  rw [ofTokens.eq_def]
  simp only
  rw [if_neg ht, hread]

/-- A text whose tokens are one statement. -/
theorem ofText_of_read {text : String} {statement : Statement}
    {fewer : ([] : List Token).length < (t :: rest).length}
    (hstream : (Cursor.ofString text).stream = ⟨t :: rest, none⟩)
    (hread : readStatement none (t :: rest) = .read statement [] fewer) :
    ofText text = ⟨[.statement statement], none⟩ := by
  rw [ofText, hstream, ofStream_eq]
  show ofTokens none (t :: rest) = _
  rw [ofTokens_read ht hread, ofTokens_nil]
  rfl

theorem ofTokens_lex {e : LexError} {noMore : after.length ≤ (t :: rest).length}
    (hread : readStatement fault (t :: rest) = .failed (.lex e) after noMore) :
    ofTokens fault (t :: rest) = ⟨[], some e⟩ := by
  rw [ofTokens.eq_def]
  simp only
  rw [if_neg ht, hread]

theorem ofTokens_misread {what : Expected} {noMore : after.length ≤ (t :: rest).length}
    (hread : readStatement fault (t :: rest) = .failed (.expected what) after noMore) :
    ofTokens fault (t :: rest) = (resumed fault after).cons (.misread what) := by
  rw [ofTokens.eq_def]
  simp only
  rw [if_neg ht, hread]
  rcases after with _ | ⟨t', after⟩
  · rfl
  · rw [resumed, ofStream_eq]
    simp only
    split <;> rfl

end Shape

end Script

namespace Session

/-! ## Acting a script -/

/-- Answers a statement, or reports that it cannot be read. -/
def actItem : Item → Action Unit
  | .statement s => perform s
  | .misread what => report (.reading (.expected what))

/-- Fails at a fault. -/
def endAt : Option LexError → Action Unit
  | none => pure ()
  | some e => throw (.lex e)

/-- Answers the items of a script, and fails at the end if there is a fault. -/
def act (s : Script) : Action Unit := do
  s.items.forM actItem
  endAt s.fault

theorem act_cons (i : Item) (s : Script) : act (s.cons i) = (do actItem i; act s) := by
  show (do (do actItem i; s.items.forM actItem); endAt s.fault) = _
  rw [bind_assoc]
  rfl

theorem statements_eq_act (fault : Option LexError) (ts : List Token) :
    statements fault ts = act (Script.ofTokens fault ts) := by
  induction hn : ts.length using Nat.strongRecOn generalizing ts with
  | ind n ih =>
    subst hn
    rw [statements.eq_def, Script.ofTokens.eq_def]
    rcases ts with _ | ⟨t, rest⟩
    · rfl
    simp only
    by_cases hsep : isSeparator t = true
    · rw [if_pos hsep, if_pos hsep]
      cases TokenStream.blocking? fault rest with
      | some e => rfl
      | none => exact ih _ (by simp) rest rfl
    · rw [if_neg hsep, if_neg hsep]
      rcases readStatement fault (t :: rest) with ⟨statement, after, fewer⟩ | ⟨e, after, noMore⟩
      · simp only
        rw [act_cons, ih _ fewer after rfl]
        rfl
      rcases e with e | what
      · rfl
      rcases after with _ | ⟨t', after⟩
      · exact (act_cons (.misread what) ⟨[], none⟩).symm
      simp only
      cases TokenStream.blocking? fault after with
      | some e => exact (act_cons (.misread what) ⟨[], some e⟩).symm
      | none =>
        simp only
        rw [act_cons, ih _ (by simp at noMore ⊢; omega) after rfl]
        rfl

/-- **Handling a text is acting its script.** -/
theorem handle_eq (text : String) : handle text = act (Script.ofText text) := by
  rw [handle, Script.ofText, TokenStream.ofString?]
  generalize (Cursor.ofString text).stream = s
  rcases s with ⟨_ | ⟨t, ts⟩, _ | e⟩
  · exact statements_eq_act none []
  · rfl
  · exact statements_eq_act none (t :: ts)
  · exact statements_eq_act (some e) (t :: ts)

theorem handle_eq_of_statement {text : String} {statement : Statement}
    (htext : Script.ofText text = ⟨[.statement statement], none⟩) :
    handle text = actItem (.statement statement) := by
  rw [handle_eq, htext]
  exact (act_cons (.statement statement) ⟨[], none⟩).trans bind_pure_unit

end Session

namespace Script

/-! ## The names in a script -/

private theorem names_ofTokens (fault : Option LexError) {ts : List Token}
    (hts : .identifier "" ∉ ts) :
    ∀ i ∈ (ofTokens fault ts).items, i.Named ∧ NamesOf ts i.names := by
  induction hn : ts.length using Nat.strongRecOn generalizing ts with
  | ind n ih =>
    subst hn
    rcases ts with _ | ⟨t, rest⟩
    · rw [ofTokens_nil]
      exact nofun
    have hlater : ∀ later : List Token, later.length < (t :: rest).length → later ⊆ t :: rest →
        ∀ i ∈ (ofTokens fault later).items, i.Named ∧ NamesOf (t :: rest) i.names :=
      fun later hlen hsub i hi ↦
        (ih _ hlen (fun hmem ↦ hts (hsub hmem)) rfl i hi).imp_right (·.mono hsub)
    have hstream : ∀ later : List Token, later.length < (t :: rest).length → later ⊆ t :: rest →
        ∀ i ∈ (ofStream ⟨later, fault⟩).items, i.Named ∧ NamesOf (t :: rest) i.names := by
      intro later hlen hsub
      rw [ofStream_eq]
      split
      · exact nofun
      · exact hlater later hlen hsub
    have hsound := sound_readStatement fault hts
    by_cases hsep : Session.isSeparator t = true
    · rw [ofTokens_separator hsep]
      exact hstream rest (by simp) (List.subset_cons_self t rest)
    rcases hread : readStatement fault (t :: rest) with
      ⟨statement, after, fewer⟩ | ⟨e | what, after, noMore⟩
    · rw [hread] at hsound
      rw [ofTokens_read hsep hread]
      intro i hi
      rcases List.mem_cons.mp hi with rfl | hi
      · exact hsound.value statement rfl
      · exact hlater after fewer hsound.left.suffix.subset i hi
    · rw [ofTokens_lex hsep hread]
      exact nofun
    · rw [hread] at hsound
      have hafter : after ⊆ t :: rest := hsound.left.suffix.subset
      rw [ofTokens_misread hsep hread]
      intro i hi
      rcases List.mem_cons.mp hi with rfl | hi
      · exact ⟨trivial, nofun⟩
      rcases after with _ | ⟨t', after⟩
      · cases hi
      · exact hstream after (by simp at noMore ⊢; omega)
          (fun x hx ↦ hafter (List.mem_cons_of_mem t' hx)) i hi

/-- The items of a text are about functions with a name only, and their names are words. -/
theorem names_ofText (text : String) :
    ∀ i ∈ (ofText text).items, i.Named ∧ ∀ x ∈ i.names, Alphanumeric x := by
  have hnames := Cursor.identifier_empty_notMem_stream (Cursor.ofString text)
  rw [ofText, ofStream]
  split
  · exact nofun
  · intro i hi
    obtain ⟨hnamed, hfrom⟩ := names_ofTokens _ hnames i hi
    refine ⟨hnamed, fun x hx ↦ ?_⟩
    rcases hfrom x hx with rfl | hmem
    · exact nofun
    · exact (Cursor.word_of_identifier_mem_stream _ hmem).2

theorem named_ofText (text : String) : ∀ i ∈ (ofText text).items, i.Named :=
  fun i hi ↦ (names_ofText text i hi).1

/-! ## The fault of a script -/

private theorem fault_ofTokens {fault : Option LexError} {ts : List Token}
    (hts : .identifier "" ∉ ts)
    (hnil : ts = [] → fault = none) : (ofTokens fault ts).fault = fault := by
  induction hn : ts.length using Nat.strongRecOn generalizing ts with
  | ind n ih =>
    subst hn
    rcases ts with _ | ⟨t, rest⟩
    · rw [ofTokens_nil, hnil rfl]
    have hstream : ∀ later : List Token, later.length < (t :: rest).length →
        .identifier "" ∉ later → (ofStream ⟨later, fault⟩).fault = fault := by
      intro later hlen hlater
      rw [ofStream_eq]
      cases hblocking : TokenStream.blocking? fault later with
      | some e => exact (TokenStream.blocking?_eq_some_iff.mp hblocking).2.symm
      | none =>
        refine ih _ hlen hlater (fun hempty ↦ ?_) rfl
        rw [hempty] at hblocking
        exact hblocking
    -- reading does not come to the end of the tokens if a fault stands behind them
    have hend : ∀ {after : List Token}, Reading.Reaches fault (t :: rest) after → after = [] →
        fault = none := by
      intro after hafter hempty
      cases fault with
      | none => rfl
      | some e => exact absurd hempty (hafter.ne_nil (List.cons_ne_nil _ _))
    have hsound := sound_readStatement fault hts
    by_cases hsep : Session.isSeparator t = true
    · rw [ofTokens_separator hsep]
      exact hstream rest (by simp) fun hmem ↦ hts (List.mem_cons_of_mem _ hmem)
    rcases hread : readStatement fault (t :: rest) with
      ⟨statement, after, fewer⟩ | ⟨e' | what, after, noMore⟩
    · rw [hread] at hsound
      rw [ofTokens_read hsep hread]
      exact ih _ fewer (hsound.left.notMem hts) (hend hsound.left) rfl
    · rw [hread] at hsound
      rw [ofTokens_lex hsep hread]
      exact (hsound.met e' rfl).symm
    · rw [hread] at hsound
      have hafter : .identifier "" ∉ after := hsound.left.notMem hts
      rw [ofTokens_misread hsep hread]
      rcases after with _ | ⟨t', after⟩
      · exact (hend hsound.left rfl).symm
      · exact hstream after (by simp at noMore ⊢; omega) fun hmem ↦
          hafter (List.mem_cons_of_mem _ hmem)

/-- A text is read to its end or to its fault, whichever it has. -/
theorem fault_ofText (text : String) :
    (ofText text).fault = (Cursor.ofString text).stream.fault := by
  have hnames := Cursor.identifier_empty_notMem_stream (Cursor.ofString text)
  rw [ofText]
  rcases hstream : (Cursor.ofString text).stream with ⟨_ | ⟨t, rest⟩, fault⟩
  · cases fault with
    | none => exact congrArg Script.fault ofTokens_nil
    | some e => rfl
  · rw [hstream] at hnames
    exact fault_ofTokens hnames (absurd · (List.cons_ne_nil _ _))

end Script

end FloatLang
