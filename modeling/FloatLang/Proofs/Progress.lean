import FloatLang.Proofs.Answers
import FloatLang.Proofs.Cutting

/-!
# A text is read to its end

A session goes through the tokens of a text in rounds. A round steps over a separator, answers a
statement, or reports that there is none and steps over the token that was not expected. A reader
may stop at the very token at which it was started, so that nothing would have been read; it is the
stepping over that makes every round that succeeds leave fewer tokens.

What is rejected is told, and nothing that is told can fail as long as there is room for it. Then a
text has but one way to end other than at its end, the point without digits that the lexer meets.
In whatever way the sink fails, the failures that leave the session are the fatal ones.
-/

namespace FloatLang

open Ssa

/-! ## What the lexer comes to -/

namespace Cursor

variable {s : Cursor} {e : LexError}

/-- Successive calls of the lexer come to the end of the text. -/
def ComesToEnd (s : Cursor) : Prop := ∃ k, (s.afterCalls k).call.1 = .ok none

/-- The first call of the lexer that answers no token fails with `e`. -/
def Meets (s : Cursor) (e : LexError) : Prop :=
  ∃ k, (s.afterCalls k).call.1 = .error e ∧
    ∀ j < k, ∃ t, (s.afterCalls j).call.1 = .ok (some t)

private theorem afterCalls_of_call_eq_error (h : s.call.1 = .error e) (k : Nat) :
    s.afterCalls k = s := by
  induction k with
  | zero => rfl
  | succ k ih => rw [afterCalls, call_unmoved h, ih]

/-- The calls answer the tokens of the text one by one, and then the end or the fault. -/
private theorem call_afterCalls (s : Cursor) :
    (∀ j < s.stream.tokens.length, ∃ t, (s.afterCalls j).call.1 = .ok (some t)) ∧
      (s.afterCalls s.stream.tokens.length).call.1 =
        s.stream.fault.elim (.ok none) .error := by
  induction hn : s.rest.length using Nat.strongRecOn generalizing s with
  | ind n ih =>
    subst hn
    rw [stream_eq]
    cases hnext : s.next? with
    | error e =>
      have hcall : s.call = (.error e, s) := by rw [call, hnext]
      exact ⟨fun j hj ↦ absurd hj (Nat.not_lt_zero j), congrArg Prod.fst hcall⟩
    | ok p =>
      rcases p with _ | ⟨t, s'⟩
      · have hcall : s.call = (.ok none, ⟨[], s.position.after s.rest⟩) := by rw [call, hnext]
        exact ⟨fun j hj ↦ absurd hj (Nat.not_lt_zero j), congrArg Prod.fst hcall⟩
      · have hcall : s.call = (.ok (some t), s') := by rw [call, hnext]
        obtain ⟨htokens, hend⟩ := ih _ (length_rest_lt_of_next? hnext) s' rfl
        refine ⟨fun j hj ↦ ?_, ?_⟩
        · cases j with
          | zero => exact ⟨t, congrArg Prod.fst hcall⟩
          | succ j =>
            rw [afterCalls, hcall]
            exact htokens j (Nat.lt_of_succ_lt_succ hj)
        · show (s.afterCalls (s'.stream.tokens.length + 1)).call.1 = _
          rw [afterCalls, hcall]
          exact hend

theorem comesToEnd_iff : s.ComesToEnd ↔ s.stream.fault = none := by
  obtain ⟨htokens, hend⟩ := s.call_afterCalls
  constructor
  · rintro ⟨k, hk⟩
    cases hfault : s.stream.fault with
    | none => rfl
    | some e =>
      rw [hfault] at hend
      rcases Nat.lt_or_ge k s.stream.tokens.length with hlt | hge
      · obtain ⟨t, ht⟩ := htokens k hlt
        rw [hk] at ht
        cases ht
      · -- the call that fails is made again and again
        rw [← Nat.add_sub_cancel' hge, afterCalls_add, afterCalls_of_call_eq_error hend, hend] at hk
        cases hk
  · intro hfault
    rw [hfault] at hend
    exact ⟨_, hend⟩

theorem meets_iff : s.Meets e ↔ s.stream.fault = some e := by
  obtain ⟨htokens, hend⟩ := s.call_afterCalls
  constructor
  · rintro ⟨k, hk, hbefore⟩
    have hlength : k = s.stream.tokens.length := by
      rcases Nat.lt_trichotomy k s.stream.tokens.length with hlt | heq | hgt
      · obtain ⟨t, ht⟩ := htokens k hlt
        rw [hk] at ht
        cases ht
      · exact heq
      · obtain ⟨t, ht⟩ := hbefore _ hgt
        rw [hend] at ht
        cases hfault : s.stream.fault <;> rw [hfault] at ht <;> cases ht
    rw [← hlength, hk] at hend
    cases hfault : s.stream.fault with
    | none =>
      rw [hfault] at hend
      cases hend
    | some e' =>
      rw [hfault] at hend
      rw [Except.error.inj hend]
  · intro hfault
    rw [hfault] at hend
    exact ⟨_, hend, htokens⟩

end Cursor

namespace Session

/-! ## Rounds -/

/-- Goes on behind a token that is followed by `rest`. -/
def resume (fault : Option LexError) (rest : List Token) : Action (List Token) :=
  match TokenStream.blocking? fault rest with
  | some e => throw (.lex e)
  | none => return rest

/-- One round: what `t` and the tokens behind it start with is answered, and the tokens that are
left are the result. -/
def round (fault : Option LexError) (t : Token) (rest : List Token) : Action (List Token) :=
  if isSeparator t then resume fault rest
  else
    match readStatement fault (t :: rest) with
    | .read statement after _ => do
      perform statement
      return after
    | .failed (.lex e) _ _ => throw (.lex e)
    | .failed (.expected what) after _ => do
      report (.reading (.expected what))
      match after with
      | [] => return []
      | _ :: later => resume fault later

variable {fault : Option LexError} {t : Token} {rest later : List Token} {s s' : Session}

private theorem resume_bind (f : List Token → Action Unit) :
    (do let later ← resume fault rest; f later) =
      match TokenStream.blocking? fault rest with
      | some e => throw (.lex e)
      | none => f rest := by
  rw [resume]
  cases TokenStream.blocking? fault rest with
  | some e => rfl
  | none => rfl

/-- Answering the statements of a text is going round as long as there are tokens. -/
private theorem statements_cons (fault : Option LexError) (t : Token) (rest : List Token) :
    statements fault (t :: rest) = (do
      let later ← round fault t rest
      statements fault later) := by
  rw [statements.eq_def, round]
  simp only
  by_cases hsep : isSeparator t = true
  · rw [if_pos hsep, if_pos hsep]
    exact (resume_bind (statements fault)).symm
  rw [if_neg hsep, if_neg hsep]
  rcases readStatement fault (t :: rest) with ⟨statement, after, fewer⟩ | ⟨e | what, after, noMore⟩
  · simp only [bind_assoc, pure_bind]
  · rfl
  simp only [bind_assoc]
  rcases after with _ | ⟨t', after⟩
  · simp only [pure_bind]
    rw [statements.eq_def]
  · exact congrArg (report _ >>= ·) (funext fun _ ↦ (resume_bind (statements fault)).symm)

private theorem eq_of_run_resume (hrun : (resume fault rest).run s = .ok later s') :
    later = rest := by
  rw [resume] at hrun
  cases hblocking : TokenStream.blocking? fault rest <;> rw [hblocking] at hrun <;> cases hrun
  rfl

/-- A round that succeeds has stepped over its first token at least. -/
private theorem suffix_of_run_round (hts : .identifier "" ∉ t :: rest)
    (hrun : (round fault t rest).run s = .ok later s') : later <:+ rest := by
  have hsound := sound_readStatement fault hts
  rw [round] at hrun
  by_cases hsep : isSeparator t = true
  · rw [if_pos hsep] at hrun
    obtain rfl := eq_of_run_resume hrun
    exact List.suffix_refl _
  rw [if_neg hsep] at hrun
  have hshorter : ∀ {after : List Token}, after <:+ t :: rest → after.length < (t :: rest).length →
      after <:+ rest := by
    intro after hafter hlt
    rcases List.suffix_cons_iff.mp hafter with heq | hafter
    · rw [heq] at hlt
      exact absurd hlt (Nat.lt_irrefl _)
    · exact hafter
  rcases hread : readStatement fault (t :: rest) with
    ⟨statement, after, fewer⟩ | ⟨e | what, after, noMore⟩
  · rw [hread] at hrun hsound
    simp only [EStateM.run_bind] at hrun
    split at hrun
    · cases hrun
      exact hshorter hsound.left.suffix fewer
    · cases hrun
  · rw [hread] at hrun
    cases hrun
  · rw [hread] at hrun hsound
    simp only [EStateM.run_bind] at hrun
    split at hrun
    · -- the reader may have stopped where it was started, but the token there is stepped over
      rcases after with _ | ⟨t', after⟩
      · cases hrun
        exact List.nil_suffix
      · rw [eq_of_run_resume hrun]
        refine hshorter ((List.suffix_cons _ _).trans hsound.left.suffix) ?_
        simp only [List.length_cons] at noMore ⊢
        omega
    · cases hrun

/-! ## Failures that leave a session -/

/-- Whatever failure the action ends in, it is fatal. -/
def FailsFatally {α : Type} (x : Action α) : Prop :=
  ∀ s e s', x.run s = .error e s' → e.isFatal = true

section FailsFatally

variable {α β : Type}

theorem failsFatally_of_run_eq_ok {x : Action α} (hx : ∀ s, ∃ a s', x.run s = .ok a s') :
    FailsFatally x := by
  intro s e s' hrun
  obtain ⟨a, s'', hok⟩ := hx s
  rw [hok] at hrun
  cases hrun

theorem failsFatally_pure (a : α) : FailsFatally (pure a) :=
  failsFatally_of_run_eq_ok fun s ↦ ⟨a, s, rfl⟩

theorem failsFatally_throw {e : Error} (he : e.isFatal = true) :
    FailsFatally (throw e : Action α) := by
  intro s e' s' hrun
  cases hrun
  exact he

theorem FailsFatally.bind {x : Action α} {f : α → Action β} (hx : FailsFatally x)
    (hf : ∀ a, FailsFatally (f a)) : FailsFatally (x >>= f) := by
  intro s e s' hrun
  rw [EStateM.run_bind] at hrun
  split at hrun
  · exact hf _ _ _ _ hrun
  · rename_i hx'
    cases hrun
    exact hx _ _ _ hx'

private theorem failsFatally_get : FailsFatally (get : Action Session) :=
  failsFatally_of_run_eq_ok fun s ↦ ⟨s, s, rfl⟩

private theorem failsFatally_note (n : Note) : FailsFatally (note n) :=
  failsFatally_of_run_eq_ok fun _ ↦ ⟨(), _, rfl⟩

private theorem failsFatally_erase (h : FunctionId) : FailsFatally (erase h) :=
  failsFatally_of_run_eq_ok fun _ ↦ ⟨(), _, rfl⟩

private theorem failsFatally_forM {γ : Type} (l : List γ) {f : γ → Action Unit}
    (hf : ∀ c, FailsFatally (f c)) : FailsFatally (l.forM f) := by
  induction l with
  | nil => exact failsFatally_pure _
  | cons c l ih => exact (hf c).bind fun _ ↦ ih

private theorem failsFatally_write (text : String) : FailsFatally (write text) := by
  intro s e s' hrun
  rw [write, EStateM.run_bind, EStateM.run_get] at hrun
  simp only [EStateM.run_bind, EStateM.run_set] at hrun
  split at hrun
  · cases hrun
  · cases hrun
    rfl

private theorem failsFatally_report (e : Error) : FailsFatally (report e) :=
  (failsFatally_note _).bind fun _ ↦ failsFatally_write _

private theorem failsFatally_present (heading : String) (h : FunctionId) :
    FailsFatally (present heading h) := by
  refine (failsFatally_write _).bind fun _ ↦ failsFatally_get.bind fun _ ↦ .bind ?_ fun _ ↦
    failsFatally_write _
  rw [printed.eq_def]
  split
  · exact failsFatally_pure _
  · exact failsFatally_throw rfl

private theorem failsFatally_relay (texts : Array String) : FailsFatally (relay texts) := by
  obtain ⟨texts⟩ := texts
  rw [relay, Array.forM_eq_forM, List.forM_toArray]
  exact failsFatally_forM texts fun _ ↦ failsFatally_note _

private theorem failsFatally_evaluate (h : FunctionId) : FailsFatally (evaluate h) := by
  refine failsFatally_get.bind fun s ↦ ?_
  split
  · exact (failsFatally_relay _).bind fun _ ↦ failsFatally_write _
  · exact (failsFatally_relay _).bind fun _ ↦ failsFatally_report _

theorem FailsFatally.ensuring {x y : Action Unit} (hx : FailsFatally x) (hy : FailsFatally y) :
    FailsFatally (Session.ensuring x y) := by
  intro s e s' hrun
  simp only [Session.ensuring, EStateM.run] at hrun
  split at hrun
  · exact hy _ _ _ hrun
  · rename_i hx'
    split at hrun <;> cases hrun <;> exact hx _ _ _ hx'

private theorem failsFatally_perform (statement : Statement) :
    FailsFatally (perform statement) := by
  intro s e s' hrun
  rcases statement with d | p | body
  · obtain ⟨lines, -, heq⟩ := run_performDefinition d s
    rw [show (perform (.definition d)).run s = _ from heq] at hrun
    split at hrun
    · exact failsFatally_present _ _ _ _ _ hrun
    · exact failsFatally_report _ _ _ _ hrun
  · obtain ⟨lines, -, heq⟩ := run_performDeclaration p s
    rw [show (perform (.declaration p)).run s = _ from heq] at hrun
    exact failsFatally_present _ _ _ _ _ hrun
  · obtain ⟨lines, -, heq⟩ := run_performExpression body s
    rw [show (perform (.expression body)).run s = _ from heq] at hrun
    split at hrun
    · exact failsFatally_report _ _ _ _ hrun
    · refine FailsFatally.bind (failsFatally_present _ _) (fun _ ↦ ?_) _ _ _ hrun
      refine failsFatally_get.bind fun s ↦ ?_
      split
      · exact (failsFatally_evaluate _).ensuring (failsFatally_erase _)
      · exact failsFatally_erase _

end FailsFatally

theorem failsFatally_act (c : Script) : FailsFatally (act c) := by
  refine .bind (failsFatally_forM _ fun i ↦ ?_) fun _ ↦ ?_
  · cases i with
    | statement statement => exact failsFatally_perform statement
    | misread what => exact failsFatally_report _
  · cases c.fault with
    | none => exact failsFatally_pure _
    | some e => exact failsFatally_throw rfl

theorem failsFatally_handle (text : String) : FailsFatally (handle text) := by
  rw [handle_eq]
  exact failsFatally_act _

theorem failsFatally_readLines (prompt : Bool) (lines : List (List UInt8)) :
    FailsFatally (readLines prompt lines) := by
  have hask : FailsFatally (ask prompt) := by
    rw [ask]
    split
    · exact failsFatally_note _
    · exact failsFatally_pure _
  have hleave : FailsFatally (leave prompt) := by
    rw [leave]
    split
    · exact failsFatally_note _
    · exact failsFatally_pure _
  induction lines with
  | nil => exact hask.bind fun _ ↦ hleave
  | cons line lines ih =>
    refine hask.bind fun _ ↦ .bind ?_ fun _ ↦ ih
    rw [handleLine]
    split
    · exact failsFatally_handle _
    · exact failsFatally_throw rfl

/-! ## With room for everything -/

theorem exists_run_actItem {T : Sources} (hT : s.lowering.program.Holds T)
    (hroom : s.console.out.room = none) {i : Item} (hi : i.Named) :
    ∃ s', (actItem i).run s = .ok () s' ∧ s'.console.out.room = none := by
  obtain ⟨s', printed, hrun, hs', -⟩ := Unhindered.run_actItem ⟨⟨T, hT⟩, hroom⟩ hi
  exact ⟨s', hrun, hs'.room⟩

/-- A script is acted to its end, and then fails if there is a fault. -/
theorem exists_run_act {c : Script} (hc : ∀ i ∈ c.items, i.Named) {T : Sources}
    (hT : s.lowering.program.Holds T) (hroom : s.console.out.room = none) :
    ∃ s', (act c).run s =
      match c.fault with
      | none => .ok () s'
      | some e => .error (.lex e) s' := by
  obtain ⟨items, fault⟩ := c
  refine ⟨s.acted items, (Unhindered.run_act ⟨⟨T, hT⟩, hroom⟩ hc fault).trans ?_⟩
  cases fault <;> rfl

/-- A text is read to its end, and then fails if the lexer meets a point without digits there. -/
theorem Reachable.exists_run_handle (hs : s.Reachable) (hroom : s.console.out.room = none)
    (text : String) :
    ∃ s', (handle text).run s =
      match (Cursor.ofString text).stream.fault with
      | none => .ok () s'
      | some e => .error (.lex e) s' := by
  obtain ⟨T, hT⟩ := hs.exists_holds
  rw [handle_eq, ← Script.fault_ofText]
  exact exists_run_act (Script.named_ofText text) hT hroom

/-- **A text is read to its end, and only the lexer stops it.** The tokens are gone through in
rounds, and a round that succeeds leaves fewer tokens. In whatever session, as long as there is room
for all that is told, handling a text succeeds exactly when the lexer comes to the end of it, and a
failure is the one that the lexer meets first. With any sink, a failure that leaves the handling of
a text or the reading of a stream is fatal. -/
theorem texts_are_read_to_their_end :
    (∀ fault t rest, statements fault (t :: rest) = do
      let later ← round fault t rest
      statements fault later) ∧
    (∀ text t rest s later s', t :: rest <:+ (Cursor.ofString text).stream.tokens →
      (round (Cursor.ofString text).stream.fault t rest).run s = .ok later s' →
        later <:+ rest) ∧
    (∀ s text, Reachable s → s.console.out.room = none →
      ((∃ s', (handle text).run s = .ok () s') ↔ (Cursor.ofString text).ComesToEnd) ∧
      ∀ e s', (handle text).run s = .error e s' →
        ∃ e', e = .lex e' ∧ (Cursor.ofString text).Meets e') ∧
    (∀ s text e s', (handle text).run s = .error e s' → e.isFatal = true) ∧
    ∀ s prompt input e s', (readAll prompt input).run s = .error e s' → e.isFatal = true := by
  refine ⟨statements_cons, fun text t rest s later s' hts hrun ↦ ?_, fun s text hs hroom ↦ ?_,
    fun s text ↦ failsFatally_handle text s, fun s prompt input ↦ failsFatally_readLines prompt _ s⟩
  · have hnames := Cursor.identifier_empty_notMem_stream (Cursor.ofString text)
    exact suffix_of_run_round (fun hmem ↦ hnames (hts.subset hmem)) hrun
  · obtain ⟨s₁, hrun⟩ := hs.exists_run_handle hroom text
    rw [Cursor.comesToEnd_iff, hrun]
    cases hfault : (Cursor.ofString text).stream.fault with
    | none =>
      refine ⟨⟨fun _ ↦ rfl, fun _ ↦ ⟨s₁, rfl⟩⟩, fun e s' heq ↦ ?_⟩
      cases heq
    | some e =>
      refine ⟨⟨?_, nofun⟩, fun e' s' heq ↦ ?_⟩
      · rintro ⟨s', heq⟩
        cases heq
      · cases heq
        exact ⟨e, rfl, Cursor.meets_iff.mpr hfault⟩

/-- A text is read to its end although no statement of it can be accepted. -/
theorem handle_rejected_statements :
    Reachable (start "m" true) ∧ (Cursor.ofString "def ) f(x y; extern + z)").ComesToEnd ∧
      ∃ s', (handle "def ) f(x y; extern + z)").run (start "m" true) = .ok () s' := by
  have hstart : Reachable (start "m" true) := ⟨"m", true, .refl⟩
  have hend : (Cursor.ofString "def ) f(x y; extern + z)").ComesToEnd := ⟨11, by decide⟩
  exact ⟨hstart, hend, (texts_are_read_to_their_end.2.2.1 _ _ hstart rfl).1.mpr hend⟩

end Session

end FloatLang
