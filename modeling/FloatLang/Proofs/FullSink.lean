import FloatLang.Proofs.Answers
import FloatLang.Proofs.Cutting

/-!
# Sinks that become full

A sink with room for `n` bytes takes the first `n` bytes that are written and fails at the next one.
A session with such a sink is compared with one that has room for everything: as long as what the
second one writes fits, the first one does the same, and it stops where a byte does not fit any
more.

`Clips` says this of one action, for any place at which the sink may become full. It holds of
writing, it is closed under sequencing, and everything else that a session does writes nothing at
all. So it holds of the handling of a whole text, without looking at what the text says.

What is left to say is where the session stops. The sink becomes full during one item, and what
follows that one is not even read. If the item is a top-level expression and its text did not fit,
its function is still there, because it is erased only after it has been presented; in every other
case the name of that function is free.
-/

namespace FloatLang

open Ssa

namespace Session

/-! ## Limited room -/

def output (s : Session) : ByteArray := s.console.out.written

/-- The session with room for `n` bytes, those included that have been written. -/
def limited (s : Session) (n : Nat) : Session :=
  { s with console.out.room := some (n - s.output.size) }

/-- What is told when a byte does not fit. -/
def sinkFull : Error := .stream "sink full"

private theorem extract_append_of_le {a b : ByteArray} {n : Nat} (hn : n ≤ a.size) :
    (a ++ b).extract 0 n = a.extract 0 n := by
  rw [ByteArray.extract_append, Nat.sub_eq_zero_of_le hn, Nat.zero_sub, ByteArray.extract_same,
    ByteArray.append_empty]

private theorem extract_append_of_ge {a b : ByteArray} {n : Nat} (hn : a.size ≤ n) :
    (a ++ b).extract 0 n = a ++ b.extract 0 (n - a.size) := by
  have hself : a.extract 0 n = a := by
    apply ByteArray.ext
    rw [ByteArray.data_extract]
    exact Array.extract_eq_self_of_le hn
  rw [ByteArray.extract_append, hself, Nat.zero_sub]

/-- A run with room for everything goes from `s` to `s'`, and a run with room for `n` bytes ends as
it does if there is room, and else fails with the first `n` bytes. -/
structure Clipped {α : Type} (n : Nat) (s s' : Session) (r : Except Error α)
    (limited : EStateM.Result Error Session α) : Prop where
  /-- There is still room for everything. -/
  room : s'.console.out.room = none
  /-- Nothing that has been written is taken back. -/
  grows : ∃ added, s'.output = s.output ++ added
  /-- What fits makes no difference. -/
  fits : s'.output.size ≤ n → limited = ended r (s'.limited n)
  /-- What does not fit is cut off. -/
  full : n < s'.output.size → ∃ t, limited = .error sinkFull t ∧ t.output = s'.output.extract 0 n

private theorem Clipped.size_le {α : Type} {n : Nat} {s s' : Session} {r : Except Error α}
    {l : EStateM.Result Error Session α} (h : Clipped n s s' r l) :
    s.output.size ≤ s'.output.size := by
  obtain ⟨added, hadded⟩ := h.grows
  rw [hadded, ByteArray.size_append]
  exact Nat.le_add_right _ _

/-- Wherever the sink becomes full, the action stops there, and until then it does what it does with
room for everything. -/
def Clips {α : Type} (x : Action α) : Prop :=
  ∀ (s : Session) (n : Nat), s.console.out.room = none → s.output.size ≤ n →
    ∃ r s', x.run s = ended r s' ∧ Clipped n s s' r (x.run (s.limited n))

section Clips

variable {α β : Type}

theorem Clips.of_run_ok {x : Action α} (hx : Clips x) {s s' : Session} {n : Nat} {a : α}
    (hroom : s.console.out.room = none) (hle : s.output.size ≤ n) (hrun : x.run s = .ok a s') :
    Clipped n s s' (.ok a) (x.run (s.limited n)) := by
  obtain ⟨r, s₁, hrun₁, hc⟩ := hx s n hroom hle
  rw [hrun] at hrun₁
  cases r with
  | ok b =>
    cases hrun₁
    exact hc
  | error e => cases hrun₁

/-- An action that does not touch the sink is not affected by it. -/
theorem clips_of_run {x : Action α}
    (hx : ∀ s : Session, ∃ r s', x.run s = ended r s' ∧ s'.console.out = s.console.out ∧
      ∀ n, x.run (s.limited n) = ended r (s'.limited n)) : Clips x := by
  intro s n hroom hle
  obtain ⟨r, s', hrun, hout, hlimited⟩ := hx s
  have houtput : s'.output = s.output := congrArg Sink.written hout
  refine ⟨r, s', hrun, ?_, ⟨.empty, ?_⟩, fun _ ↦ hlimited n, fun hlt ↦ ?_⟩
  · rw [hout, hroom]
  · rw [houtput, ByteArray.append_empty]
  · rw [houtput] at hlt
    exact absurd hle (Nat.not_le_of_lt hlt)

theorem clips_pure (a : α) : Clips (pure a) :=
  clips_of_run fun s ↦ ⟨.ok a, s, rfl, rfl, fun _ ↦ rfl⟩

theorem clips_throw (e : Error) : Clips (throw e : Action α) :=
  clips_of_run fun s ↦ ⟨.error e, s, rfl, rfl, fun _ ↦ rfl⟩

private theorem clips_note (note : Note) : Clips (Session.note note) :=
  clips_of_run fun _ ↦ ⟨.ok (), _, rfl, rfl, fun _ ↦ rfl⟩

private theorem clips_setLowering (l : Lowering) :
    Clips (modify fun s ↦ { s with lowering := l } : Action Unit) :=
  clips_of_run fun _ ↦ ⟨.ok (), _, rfl, rfl, fun _ ↦ rfl⟩

private theorem clips_erase (h : FunctionId) : Clips (erase h) :=
  clips_of_run fun _ ↦ ⟨.ok (), _, rfl, rfl, fun _ ↦ rfl⟩

/-- The sink may become full in the first action or in the second, and then what it holds is the
same beginning of the whole output. -/
theorem Clips.bind {x : Action α} {f : α → Action β} (hx : Clips x) (hf : ∀ a, Clips (f a)) :
    Clips (x >>= f) := by
  intro s n hroom hle
  obtain ⟨r, s₁, hrun, h₁⟩ := hx s n hroom hle
  cases r with
  | error e =>
    refine ⟨.error e, s₁, ?_, h₁.room, h₁.grows, fun hfits ↦ ?_, fun hfull ↦ ?_⟩
    · rw [EStateM.run_bind, hrun]
      rfl
    · rw [EStateM.run_bind, h₁.fits hfits]
      rfl
    · obtain ⟨t, hlimited, houtput⟩ := h₁.full hfull
      exact ⟨t, by rw [EStateM.run_bind, hlimited], houtput⟩
  | ok a =>
    have hbind : (x >>= f).run s = (f a).run s₁ := run_bind_of_run_ok hrun
    obtain ⟨added, hadded⟩ := h₁.grows
    by_cases hfirst : s₁.output.size ≤ n
    · obtain ⟨r, s₂, hrun₂, h₂⟩ := hf a s₁ n h₁.room hfirst
      obtain ⟨more, hmore⟩ := h₂.grows
      have hbind' : (x >>= f).run (s.limited n) = (f a).run (s₁.limited n) :=
        run_bind_of_run_ok (h₁.fits hfirst)
      refine ⟨r, s₂, hbind.trans hrun₂, h₂.room, ⟨added ++ more, ?_⟩, fun hfits ↦ ?_,
        fun hfull ↦ ?_⟩
      · rw [hmore, hadded, ByteArray.append_assoc]
      · rw [hbind', h₂.fits hfits]
      · rw [hbind']
        exact h₂.full hfull
    · -- the first action has already written too much, and the second one only adds to that
      obtain ⟨r, s₂, hrun₂, h₂⟩ := hf a s₁ s₁.output.size h₁.room (Nat.le_refl _)
      obtain ⟨more, hmore⟩ := h₂.grows
      have hlt : n < s₁.output.size := Nat.lt_of_not_le hfirst
      obtain ⟨t, hlimited, houtput⟩ := h₁.full hlt
      refine ⟨r, s₂, hbind.trans hrun₂, h₂.room, ⟨added ++ more, ?_⟩, fun hfits ↦ ?_,
        fun _ ↦ ⟨t, ?_, ?_⟩⟩
      · rw [hmore, hadded, ByteArray.append_assoc]
      · exact absurd (Nat.le_trans h₂.size_le hfits) hfirst
      · rw [EStateM.run_bind, hlimited]
      · rw [houtput, hmore, extract_append_of_le (Nat.le_of_lt hlt)]

/-- What an action finds out about the session must not be how much room there is. -/
private theorem Clips.get_bind {f : Session → Action β} (hf : ∀ s, Clips (f s))
    (hlimited : ∀ s n, f (Session.limited s n) = f s) : Clips (get >>= f) := by
  intro s n hroom hle
  obtain ⟨r, s', hrun, h⟩ := hf s s n hroom hle
  have hget : (get >>= f).run (s.limited n) = (f s).run (s.limited n) := by
    show (f (s.limited n)).run (s.limited n) = _
    rw [hlimited]
  exact ⟨r, s', hrun, hget ▸ h⟩

private theorem clips_forM {γ : Type} (l : List γ) {f : γ → Action Unit} (hf : ∀ c, Clips (f c)) :
    Clips (l.forM f) := by
  induction l with
  | nil => exact clips_pure ()
  | cons c l ih => exact (hf c).bind fun _ ↦ ih

private theorem Clips.ensuring_erase {x : Action Unit} (hx : Clips x) (h : FunctionId) :
    Clips (ensuring x (erase h)) := by
  have hensuring : ∀ (s s' : Session) (r : Except Error Unit), x.run s = ended r s' →
      (ensuring x (erase h)).run s =
        ended r { s' with lowering.program := s'.lowering.program.erase h } := by
    intro s s' r hrun
    show ensuring x (erase h) s = _
    rw [ensuring.eq_def]
    simp only [hrun]
    cases r <;> rfl
  intro s n hroom hle
  obtain ⟨r, s', hrun, hc⟩ := hx s n hroom hle
  refine ⟨r, _, hensuring s s' r hrun, hc.room, hc.grows, fun hfits ↦ ?_, fun hfull ↦ ?_⟩
  · exact hensuring _ _ r (hc.fits hfits)
  · obtain ⟨t, hlimited, houtput⟩ := hc.full hfull
    exact ⟨_, hensuring _ t (.error sinkFull) hlimited, houtput⟩

private theorem run_write (text : String) (s : Session) :
    (write text).run s =
      ended (if (s.console.out.write text.toUTF8).1 then .ok () else .error sinkFull)
        { s with console.out := (s.console.out.write text.toUTF8).2 } := by
  rw [write, EStateM.run_bind, EStateM.run_get]
  simp only [EStateM.run_bind, EStateM.run_set]
  cases (s.console.out.write text.toUTF8).1 <;> rfl

/-- Writing is where the sink becomes full. -/
private theorem clips_write (text : String) : Clips (write text) := by
  intro s n hroom hle
  let s' : Session := { s with console.out.written := s.output ++ text.toUTF8 }
  have hwrite : s.console.out.write text.toUTF8 = (true, s'.console.out) := by
    rw [Sink.write, hroom]
    exact congrArg (fun room ↦ (true, (⟨s'.output, room⟩ : Sink))) hroom.symm
  have hrun : (write text).run s = ended (.ok ()) s' := by
    rw [run_write, hwrite]
    rfl
  have hsize : s'.output.size = s.output.size + text.toUTF8.size := ByteArray.size_append
  refine ⟨.ok (), s', hrun, hroom, ⟨text.toUTF8, rfl⟩, fun hfits ↦ ?_, fun hfull ↦ ?_⟩
  · have hwrite : (s.limited n).console.out.write text.toUTF8 =
        (true, (s'.limited n).console.out) := by
      rw [Sink.write]
      show ite (text.toUTF8.size ≤ n - s.output.size) _ _ = _
      rw [if_pos (by omega), Nat.sub_sub, ← hsize]
      rfl
    rw [run_write, hwrite]
    rfl
  · have hwrite : (s.limited n).console.out.write text.toUTF8 =
        (false, ⟨s'.output.extract 0 n, some 0⟩) := by
      rw [Sink.write]
      show ite (text.toUTF8.size ≤ n - s.output.size) _ _ = _
      rw [if_neg (by omega), show s'.output = s.output ++ text.toUTF8 from rfl,
        extract_append_of_ge hle]
      rfl
    refine ⟨{ s with console.out := ⟨s'.output.extract 0 n, some 0⟩ }, ?_, rfl⟩
    rw [run_write, hwrite]
    rfl

/-! ## What a session does -/

private theorem clips_report (e : Error) : Clips (report e) :=
  (clips_note _).bind fun _ ↦ clips_write _

private theorem clips_printed (text? : Option String) : Clips (printed text?) := by
  cases text? with
  | some text => exact clips_pure text
  | none => exact clips_throw _

private theorem clips_present (heading : String) (h : FunctionId) : Clips (present heading h) := by
  refine (clips_write _).bind fun _ ↦ Clips.get_bind (fun s ↦ ?_) fun _ _ ↦ rfl
  exact (clips_printed _).bind fun text ↦ clips_write text

private theorem clips_relay (texts : Array String) : Clips (relay texts) := by
  obtain ⟨texts⟩ := texts
  rw [relay, Array.forM_eq_forM, List.forM_toArray]
  exact clips_forM texts fun _ ↦ clips_note _

private theorem clips_evaluate (h : FunctionId) : Clips (evaluate h) := by
  refine Clips.get_bind (fun s ↦ ?_) fun _ _ ↦ rfl
  split
  · exact (clips_relay _).bind fun _ ↦ clips_write _
  · exact (clips_relay _).bind fun _ ↦ clips_report _

private theorem clips_lower (d : Definition) : Clips (lower d) := by
  refine Clips.get_bind (fun s ↦ ?_) fun _ _ ↦ rfl
  have hdone (r : Except LoweringError FunctionId) : Clips (if r.toBool then do
      log .debug "lowered function" [("name", d.proto.name)]
      pure r else pure r) := by
    split
    · exact (clips_note _).bind fun _ ↦ clips_pure r
    · exact clips_pure r
  have hwarned := (clips_setLowering (s.lowering.define d).2).bind fun _ ↦
    hdone (s.lowering.define d).1
  simp only
  split
  · exact (clips_forM _ fun _ ↦ clips_note _).bind fun _ ↦ hwarned
  · exact hwarned

private theorem clips_performDefinition (d : Definition) : Clips (performDefinition d) := by
  refine (clips_note _).bind fun _ ↦ (clips_lower d).bind fun r ↦ ?_
  cases r with
  | ok h => exact clips_present _ h
  | error e => exact clips_report _

private theorem clips_performDeclaration (p : Prototype) : Clips (performDeclaration p) := by
  refine (clips_note _).bind fun _ ↦ Clips.get_bind (fun s ↦ ?_) fun _ _ ↦ rfl
  have hdeclared := (clips_setLowering (s.lowering.declare p).2).bind fun _ ↦
    clips_present "Read extern:" (s.lowering.declare p).1
  simp only
  split
  · exact (clips_note _).bind fun _ ↦ hdeclared
  · exact hdeclared

private theorem clips_performExpression (e : Expr) : Clips (performExpression e) := by
  refine (clips_note _).bind fun _ ↦ (clips_lower _).bind fun r ↦ ?_
  cases r with
  | error e => exact clips_report _
  | ok h =>
    refine (clips_present _ h).bind fun _ ↦ Clips.get_bind (fun s ↦ ?_) fun _ _ ↦ rfl
    split
    · exact (clips_evaluate h).ensuring_erase h
    · exact clips_erase h

private theorem clips_actItem (i : Item) : Clips (actItem i) := by
  rcases i with (d | p | e) | what
  · exact clips_performDefinition d
  · exact clips_performDeclaration p
  · exact clips_performExpression e
  · exact clips_report _

theorem clips_act (c : Script) : Clips (act c) := by
  refine (clips_forM _ clips_actItem).bind fun _ ↦ ?_
  cases c.fault with
  | none => exact clips_pure ()
  | some e => exact clips_throw _

theorem clips_handle (text : String) : Clips (handle text) := by
  rw [handle_eq]
  exact clips_act _

end Clips

/-! ## Where a session stops -/

section Cut

variable {s t : Session} {items later : List Item} {n : Nat}

theorem acted_cons (s : Session) (i : Item) (items : List Item) :
    s.acted (i :: items) = (after (actItem i) s).acted items := List.foldl_cons ..

theorem acted_append (s : Session) (items later : List Item) :
    s.acted (items ++ later) = (s.acted items).acted later := List.foldl_append

private theorem Unhindered.exists_output (hs : s.Unhindered) (hitems : ∀ i ∈ items, i.Named) :
    ∃ added, (s.acted items).output = s.output ++ added := by
  obtain ⟨r, s', hrun, hc⟩ := clips_act ⟨items, none⟩ s s.output.size hs.room (Nat.le_refl _)
  have hacted := after_of_run_ended (hs.run_act hitems none)
  rw [← hacted, after_of_run_ended hrun]
  exact hc.grows

private theorem Unhindered.size_output_le (hs : s.Unhindered)
    (hitems : ∀ i ∈ items ++ later, i.Named) :
    (s.acted items).output.size ≤ (s.acted (items ++ later)).output.size := by
  obtain ⟨hfirst, hlater⟩ := List.forall_mem_append.mp hitems
  obtain ⟨added, hadded⟩ := (hs.acted hfirst).exists_output hlater
  rw [acted_append, hadded, ByteArray.size_append]
  exact Nat.le_add_right _ _

private theorem Unhindered.lookup?_acted (hs : s.Unhindered)
    (hnone : s.lowering.program.lookup? "" = none)
    (hitems : ∀ i ∈ items, i.Named) : (s.acted items).lowering.program.lookup? "" = none := by
  induction items generalizing s with
  | nil => exact hnone
  | cons i items ih =>
    have hi := hitems i List.mem_cons_self
    obtain ⟨s', printed, hrun, hs', htold⟩ := hs.run_actItem hi
    rw [acted_cons, after_of_run_ok hrun]
    refine ih hs' ?_ fun j hj ↦ hitems j (List.mem_cons_of_mem _ hj)
    rw [htold.lowering]
    exact Lowering.lookup?_answer hs.holds hnone hi

/-- If what is written for the items does not fit, then the sink becomes full during one of them,
and whatever follows that one is of no account. -/
private theorem Unhindered.exists_full (hs : s.Unhindered) (hitems : ∀ i ∈ items, i.Named)
    (hle : s.output.size ≤ n) (hlt : n < (s.acted items).output.size) :
    ∃ before i later t, items = before ++ i :: later ∧
      (s.acted before).output.size ≤ n ∧ n < (s.acted (before ++ [i])).output.size ∧
      t.output = (s.acted (before ++ [i])).output.extract 0 n ∧
      (actItem i).run ((s.acted before).limited n) = .error sinkFull t ∧
      ∀ later' fault, (act ⟨before ++ i :: later', fault⟩).run (s.limited n) =
        .error sinkFull t := by
  induction items generalizing s with
  | nil => exact absurd hle (Nat.not_le_of_lt hlt)
  | cons i items ih =>
    have hi := hitems i List.mem_cons_self
    obtain ⟨s₁, printed, hrun, hs₁, -⟩ := hs.run_actItem hi
    have hc := (clips_actItem i).of_run_ok hs.room hle hrun
    have hafter : ∀ later, s.acted (i :: later) = s₁.acted later := by
      intro later
      rw [acted_cons, after_of_run_ok hrun]
    have hact : ∀ later fault, (act ⟨i :: later, fault⟩).run (s.limited n) =
        (do actItem i; act ⟨later, fault⟩).run (s.limited n) := fun later fault ↦
      congrArg (fun x : Action Unit ↦ x.run (s.limited n)) (act_cons i ⟨later, fault⟩)
    by_cases hfull : n < s₁.output.size
    · obtain ⟨t, hlimited, houtput⟩ := hc.full hfull
      refine ⟨[], i, items, t, rfl, hle, ?_, ?_, hlimited, fun later' fault ↦ ?_⟩
      · rwa [List.nil_append, hafter]
      · rwa [List.nil_append, hafter]
      · exact (hact later' fault).trans (by rw [EStateM.run_bind, hlimited])
    · have hfits := Nat.le_of_not_lt hfull
      rw [hafter] at hlt
      obtain ⟨before, j, later, t, rfl, hbefore, hbehind, houtput, hstop, hrest⟩ :=
        ih hs₁ (fun j hj ↦ hitems j (List.mem_cons_of_mem _ hj)) hfits hlt
      refine ⟨i :: before, j, later, t, rfl, ?_, ?_, ?_, ?_, fun later' fault ↦ ?_⟩
      · rwa [hafter]
      · rwa [List.cons_append, hafter]
      · rwa [List.cons_append, hafter]
      · rwa [hafter]
      · exact (hact _ fault).trans ((run_bind_of_run_ok (hc.fits hfits)).trans (hrest later' fault))

/-- The byte `n` belongs to the text that presents the top-level expression which the item is. -/
def CutsPresentation (s : Session) (i : Item) (n : Nat) : Prop :=
  ∃ e h l listing, i = .statement (.expression e) ∧
    s.lowering.define (.ofExpr e) = (.ok h, l) ∧ l.program.functionText? h = some listing ∧
    n < s.output.size + ("Read top-level expression:" ++ "\n" ++ listing).toUTF8.size

private theorem not_cutsPresentation {i : Item} (hi : ∀ e, i ≠ .statement (.expression e)) :
    ¬ s.CutsPresentation i n := by
  rintro ⟨e, h, l, listing, hexpr, -⟩
  exact hi e hexpr

private theorem not_cutsPresentation_of_rejected {e : Expr} {err : LoweringError} {l : Lowering}
    (hdefine : s.lowering.define (.ofExpr e) = (.error err, l)) :
    ¬ s.CutsPresentation (.statement (.expression e)) n := by
  rintro ⟨e', h, l', listing, hi, hok, -⟩
  cases hi
  rw [hdefine] at hok
  cases hok

theorem cutsPresentation_iff {e : Expr} {h : FunctionId} {l : Lowering} {listing : String}
    (hdefine : s.lowering.define (.ofExpr e) = (.ok h, l))
    (hlisting : l.program.functionText? h = some listing) :
    s.CutsPresentation (.statement (.expression e)) n ↔
      n < s.output.size + ("Read top-level expression:" ++ "\n" ++ listing).toUTF8.size := by
  constructor
  · rintro ⟨e', h', l', listing', hi, hok, hlisting', hlt⟩
    cases hi
    rw [hdefine] at hok
    cases hok
    rw [hlisting] at hlisting'
    cases hlisting'
    exact hlt
  · intro hlt
    exact ⟨e, h, l, listing, rfl, hdefine, hlisting, hlt⟩

/-- A function that is presented and then erased is still there if the text that presents it does
not fit. -/
private theorem lowering_after_presenting (hroom : s.console.out.room = none)
    (hle : s.output.size ≤ n) {h : FunctionId} {listing : String}
    (hlisting : s.lowering.program.functionText? h = some listing) :
    (after (do
        present "Read top-level expression:" h
        if (← get).evaluates then ensuring (evaluate h) (erase h) else erase h)
      (s.limited n)).lowering =
      if n < s.output.size + ("Read top-level expression:" ++ "\n" ++ listing).toUTF8.size then
        s.lowering
      else { s.lowering with program := s.lowering.program.erase h } := by
  obtain ⟨s', hpresent, htold⟩ := run_present "Read top-level expression:" hroom hlisting
  have hc := (clips_present "Read top-level expression:" h).of_run_ok hroom hle hpresent
  have hsize : s'.output.size = s.output.size +
      ("Read top-level expression:" ++ "\n" ++ listing).toUTF8.size :=
    (congrArg ByteArray.size htold.written).trans ByteArray.size_append
  rw [← hsize]
  by_cases hcut : n < s'.output.size
  · obtain ⟨t, hlimited, -⟩ := hc.full hcut
    have hquiet := quiet_present "Read top-level expression:" h (s.limited n)
    rw [after_of_run_error hlimited] at hquiet
    rw [if_pos hcut, after_bind_of_run_error hlimited]
    exact hquiet
  · rw [if_neg hcut, after_bind_of_run_ok (hc.fits (Nat.le_of_not_lt hcut)), lowering_after_erasing,
      ← htold.lowering]
    rfl

/-- If the sink becomes full while a top-level expression is presented, its function is there; else
it has been erased, or could not be lowered. -/
theorem Unhindered.lowering_after_full_expression (hs : s.Unhindered) {e : Expr} (he : e.Named)
    (hle : s.output.size ≤ n) :
    (s.CutsPresentation (.statement (.expression e)) n →
      ((after (performExpression e) (s.limited n)).lowering.program.lookup? "").isSome = true) ∧
    (¬ s.CutsPresentation (.statement (.expression e)) n →
      (after (performExpression e) (s.limited n)).lowering =
        (s.lowering.answer (.statement (.expression e))).left) := by
  obtain ⟨T, hT⟩ := hs.holds
  rcases hdefine : s.lowering.define (.ofExpr e) with ⟨err | h, l⟩
  · have hlowering := lowering_after_performExpression e (s.limited n)
    rw [show (s.limited n).lowering.define (.ofExpr e) = _ from hdefine] at hlowering
    refine ⟨fun hcut ↦ absurd hcut (not_cutsPresentation_of_rejected hdefine), fun _ ↦ ?_⟩
    rw [Lowering.left_answer_rejected hdefine]
    exact hlowering
  · obtain ⟨listing, hlisting⟩ :=
      (Lowering.holds_define hT (d := .ofExpr e) he hdefine).wellFormed.exists_functionText? h
    obtain ⟨lines, -, hrun⟩ := run_performExpression e (s.limited n)
    rw [show (s.limited n).lowering.define (.ofExpr e) = _ from hdefine] at hrun
    have hlowering : (after (performExpression e) (s.limited n)).lowering =
        if n < s.output.size + ("Read top-level expression:" ++ "\n" ++ listing).toUTF8.size then l
        else { l with program := l.program.erase h } := by
      rw [after_congr hrun]
      exact lowering_after_presenting (s := { s.noted lines with lowering := l })
        hs.room hle hlisting
    rw [cutsPresentation_iff hdefine hlisting]
    refine ⟨fun hcut ↦ ?_, fun hfits ↦ ?_⟩
    · rw [hlowering, if_pos hcut]
      exact congrArg Option.isSome (lookup?_empty_of_define hT hdefine)
    · rw [hlowering, if_neg hfits, Lowering.left_answer_expression hs.holds he hdefine]

/-- What has been lowered when the sink becomes full during an item. -/
theorem Unhindered.lowering_after_full (hs : s.Unhindered) {i : Item} (hi : i.Named)
    (hle : s.output.size ≤ n) :
    (s.CutsPresentation i n →
      ((after (actItem i) (s.limited n)).lowering.program.lookup? "").isSome = true) ∧
    (¬ s.CutsPresentation i n →
      (after (actItem i) (s.limited n)).lowering = (s.lowering.answer i).left) := by
  rcases i with (d | p | e) | what
  · refine ⟨fun hcut ↦ absurd hcut (not_cutsPresentation nofun), fun _ ↦ ?_⟩
    rw [Lowering.left_answer_definition]
    exact lowering_after_performDefinition d _
  · refine ⟨fun hcut ↦ absurd hcut (not_cutsPresentation nofun), fun _ ↦ ?_⟩
    rw [Lowering.left_answer_declaration]
    exact lowering_after_performDeclaration p _
  · exact hs.lowering_after_full_expression hi hle
  · exact ⟨fun hcut ↦ absurd hcut (not_cutsPresentation nofun), fun _ ↦ quiet_report _ _⟩

/-- The byte `n` of the output belongs to the text that presents one of the top-level expressions
among the items. -/
def CutsExpression (s : Session) (items : List Item) (n : Nat) : Prop :=
  ∃ before e later h l listing, items = before ++ .statement (.expression e) :: later ∧
    (s.acted before).lowering.define (.ofExpr e) = (.ok h, l) ∧
    l.program.functionText? h = some listing ∧
    (s.acted before).output.size ≤ n ∧
    n < (s.acted before).output.size +
      ("Read top-level expression:" ++ "\n" ++ listing).toUTF8.size

/-- The text that presents a top-level expression is a part of what is written for it. -/
private theorem Unhindered.lt_size_of_cutsPresentation (hs : s.Unhindered) {i : Item} (hi : i.Named)
    (hcut : s.CutsPresentation i n) : n < (s.acted [i]).output.size := by
  obtain ⟨e, h, l, listing, rfl, hdefine, hlisting, hlt⟩ := hcut
  obtain ⟨s', printed, hrun, -, htold⟩ := hs.run_actItem hi
  have hsize : s'.output.size = s.output.size + _ :=
    (congrArg ByteArray.size htold.written).trans ByteArray.size_append
  have htext : (s.lowering.answer (.statement (.expression e))).text s.evaluates =
      "Read top-level expression:" ++ "\n" ++ listing ++
        if s.evaluates then answerText ((l.program.run h []).run #[]) else "" := by
    rw [Answer.text, Lowering.answer, hdefine]
    simp only [Answer.evaluating, hlisting, Option.getD_some]
  rw [htext, show String.toUTF8 _ = _ from String.toByteArray_append,
    ByteArray.size_append] at hsize
  rw [acted_cons, after_of_run_ok hrun]
  show n < s'.output.size
  rw [hsize, ← Nat.add_assoc]
  exact Nat.lt_of_lt_of_le hlt (Nat.le_add_right _ _)

/-- A byte of the output belongs to what is written for one item only. -/
private theorem Unhindered.length_le_of_output (hs : s.Unhindered)
    {before before' later later' : List Item}
    {i i' : Item} (hitems : ∀ j ∈ before' ++ i' :: later', j.Named)
    (heq : before ++ i :: later = before' ++ i' :: later')
    (hlt : n < (s.acted (before ++ [i])).output.size) (hle' : (s.acted before').output.size ≤ n) :
    before'.length ≤ before.length := by
  by_contra hlonger
  -- else the first item would lie in front of the second one, and what is written for it as well
  obtain ⟨rest, hrest⟩ : ∃ rest, before' = (before ++ [i]) ++ rest := by
    have hwhole : before ++ [i] <+: before' ++ i' :: later' := by
      rw [← heq]
      exact ⟨later, by simp⟩
    have hprefix : before ++ [i] <+: before' :=
      List.prefix_of_prefix_length_le hwhole (List.prefix_append _ _) (by simp; omega)
    obtain ⟨rest, hrest⟩ := hprefix
    exact ⟨rest, hrest.symm⟩
  have hnamed : ∀ j ∈ (before ++ [i]) ++ rest, j.Named := fun j hj ↦
    hitems j (List.mem_append_left _ (hrest ▸ hj))
  have hsize := hs.size_output_le hnamed
  rw [← hrest] at hsize
  omega

private theorem Unhindered.cutsExpression_iff (hs : s.Unhindered) {before later : List Item}
    {i : Item}
    (hitems : ∀ j ∈ before ++ i :: later, j.Named) (hle : (s.acted before).output.size ≤ n)
    (hlt : n < (s.acted (before ++ [i])).output.size) :
    s.CutsExpression (before ++ i :: later) n ↔ (s.acted before).CutsPresentation i n := by
  constructor
  · rintro ⟨before', e, later', h, l, listing, heq, hdefine, hlisting, hle', hlt'⟩
    have hitems' := heq ▸ hitems
    have hcut : (s.acted before').CutsPresentation (.statement (.expression e)) n :=
      ⟨e, h, l, listing, rfl, hdefine, hlisting, hlt'⟩
    have hbefore' := hs.acted fun j hj ↦ hitems' j (List.mem_append_left _ hj)
    have hbehind' : n < (s.acted (before' ++ [.statement (.expression e)])).output.size := by
      rw [acted_append]
      exact hbefore'.lt_size_of_cutsPresentation (hitems' _ (by simp)) hcut
    have hlength : before.length = before'.length :=
      Nat.le_antisymm (hs.length_le_of_output hitems heq.symm hbehind' hle)
        (hs.length_le_of_output hitems' heq hlt hle')
    obtain ⟨rfl, hcons⟩ := List.append_inj heq hlength
    obtain ⟨rfl, -⟩ := List.cons.inj hcons
    exact hcut
  · rintro ⟨e, h, l, listing, rfl, hdefine, hlisting, hlt'⟩
    exact ⟨before, e, later, h, l, listing, rfl, hdefine, hlisting, hle, hlt'⟩

/-- **A full sink stops a session at once.** Let a text be handled in a session that a run can come
to and in which no function is without a name, once with room for everything and once with room for
`n` bytes. If the whole output fits, both end in the same way and in the same session. Else the
second one fails with the error of the sink, having written the first `n` bytes of the output. It
stops within one item, and whatever the text goes on with is neither read nor lowered; that item has
been lowered as in the first run, and a function without a name is left over exactly if the first
byte that did not fit belongs to the text that presents a top-level expression. -/
theorem full_sink_stops {s : Session} (hs : s.Reachable)
    (hnone : s.lowering.program.lookup? "" = none) (text : String) (n : Nat) :
    let u := s.withRoom none
    let items := (Script.ofText text).items
    let whole := (after (handle text) u).output
    (whole.size ≤ n → ∃ r t, (handle text).run u = ended r t ∧
      (handle text).run (s.withRoom (some n)) = ended r (t.limited n)) ∧
    (n < whole.size → ∃ t, (handle text).run (s.withRoom (some n)) = .error sinkFull t ∧
      t.output = whole.extract 0 n ∧
      ((t.lowering.program.lookup? "").isSome = true ↔ u.CutsExpression items n) ∧
      ∃ before i later, items = before ++ i :: later ∧
        (u.acted before).output.size ≤ n ∧ n < (u.acted (before ++ [i])).output.size ∧
        (∀ later' fault, (act ⟨before ++ i :: later', fault⟩).run (s.withRoom (some n)) =
          .error sinkFull t) ∧
        (¬ u.CutsExpression items n → t.lowering = (u.acted (before ++ [i])).lowering)) := by
  intro u items whole
  have hu : u.Unhindered := hs.unhindered
  have hnamed : ∀ i ∈ items, i.Named := Script.named_ofText text
  have hroom : s.withRoom (some n) = u.limited n := rfl
  have hact : handle text = act ⟨items, (Script.ofText text).fault⟩ := handle_eq text
  have hwhole : whole = (u.acted items).output := congrArg output (hu.after_handle text)
  refine ⟨fun hfits ↦ ?_, fun hfull ↦ ?_⟩
  · obtain ⟨r, t, hrun, hc⟩ := clips_handle text u n rfl (Nat.zero_le n)
    refine ⟨r, t, hrun, hc.fits ?_⟩
    rwa [← after_of_run_ended hrun]
  · rw [hwhole] at hfull
    obtain ⟨before, i, later, t, hitems, hle, hlt, houtput, hstop, hrest⟩ :=
      hu.exists_full hnamed (Nat.zero_le n) hfull
    have hsplit : items = (before ++ [i]) ++ later := by
      rw [hitems, List.append_assoc, List.singleton_append]
    obtain ⟨hupto, hlater⟩ := List.forall_mem_append.mp (hsplit ▸ hnamed)
    obtain ⟨hfront, hlast⟩ := List.forall_mem_append.mp hupto
    have hi : i.Named := hlast i (List.mem_singleton_self i)
    have hbefore := hu.acted hfront
    have hcut := hu.cutsExpression_iff (hitems ▸ hnamed) hle hlt
    obtain ⟨hbound, hfree⟩ := hbefore.lowering_after_full hi hle
    rw [after_of_run_error hstop] at hbound hfree
    obtain ⟨added, hadded⟩ := (hu.acted hupto).exists_output hlater
    refine ⟨t, ?_, ?_, ?_, before, i, later, hitems, hle, hlt, hrest, fun hno ↦ ?_⟩
    · rw [hact, hroom, hitems]
      exact hrest later _
    · rw [houtput, hwhole, hsplit, acted_append u _ later, hadded,
        extract_append_of_le (Nat.le_of_lt hlt)]
    · rw [hitems, hcut]
      refine ⟨fun hsome ↦ ?_, hbound⟩
      by_contra hno
      have hunnamed := Lowering.lookup?_answer hbefore.holds (hu.lookup?_acted hnone hfront) hi
      rw [hfree hno, hunnamed] at hsome
      cases hsome
    · rw [hitems, hcut] at hno
      obtain ⟨s', printed, hrun, -, htold⟩ := hbefore.run_actItem hi
      rw [hfree hno, acted_append, acted_cons, after_of_run_ok hrun]
      exact htold.lowering.symm

/-- A top-level expression is left over when the sink has no room for its heading. -/
theorem full_sink_leaves_call :
    let s := after (actItem (.statement (.declaration ⟨"f", []⟩))) (start "m" true)
    s.Reachable ∧ s.lowering.program.lookup? "" = none ∧
      ∃ t, (handle "f()").run (s.withRoom (some 3)) = .error sinkFull t ∧
        (t.lowering.program.lookup? "").isSome = true := by
  intro s
  have hs : s.Reachable := ⟨"m", true,
    .answer .refl (i := .statement (.declaration ⟨"f", []⟩)) (show "f" ≠ "" by decide)⟩
  have hnone : s.lowering.program.lookup? "" = none := rfl
  have hstream : (Cursor.ofString "f()").stream =
      ⟨[.identifier "f", .symbol '(', .symbol ')'], none⟩ :=
    open Cursor in
    stream_of_call rfl <| stream_of_call rfl <| stream_of_call rfl <| stream_of_call_end rfl
  have hread : readStatement none [.identifier "f", .symbol '(', .symbol ')'] =
      .read (.expression (.call "f" [])) [] (by decide) := by
    simp [readStatement, readExpr.eq_def, readPrimary.eq_def, readOperators.eq_def, Reading.bind,
      Reading.stepOver, Reading.widen, TokenStream.blocking?]
  have hitems : (Script.ofText "f()").items = [.statement (.expression (.call "f" []))] := by
    rw [Script.ofText_of_read (by decide) hstream hread]
  have hu := hs.unhindered
  have hcall : (Item.statement (.expression (.call "f" []))).Named :=
    ⟨show "f" ≠ "" by decide, trivial⟩
  have hok : ((s.withRoom none).lowering.define (.ofExpr (.call "f" []))).1 = .ok ⟨1, 0⟩ := rfl
  obtain ⟨T, hT⟩ := hu.holds
  rcases hdefine : (s.withRoom none).lowering.define (.ofExpr (.call "f" [])) with ⟨r, l⟩
  rw [hdefine] at hok
  obtain rfl : r = .ok ⟨1, 0⟩ := hok
  obtain ⟨listing, hlisting⟩ := (Lowering.holds_define hT (d := .ofExpr (.call "f" [])) hcall
    hdefine).wellFormed.exists_functionText? ⟨1, 0⟩
  have hsize : ("Read top-level expression:" ++ "\n" ++ listing).toUTF8.size =
      27 + listing.toUTF8.size := by
    rw [show String.toUTF8 _ = _ from String.toByteArray_append, ByteArray.size_append]
    rfl
  have hlt : 3 < (s.withRoom none).output.size +
      ("Read top-level expression:" ++ "\n" ++ listing).toUTF8.size := by omega
  have hcut : (s.withRoom none).CutsExpression (Script.ofText "f()").items 3 :=
    ⟨[], .call "f" [], [], ⟨1, 0⟩, l, listing, hitems, hdefine, hlisting, Nat.zero_le 3, hlt⟩
  have hwhole : 3 < (after (handle "f()") (s.withRoom none)).output.size := by
    rw [hu.after_handle, hitems]
    exact hu.lt_size_of_cutsPresentation hcall
      ⟨.call "f" [], ⟨1, 0⟩, l, listing, rfl, hdefine, hlisting, hlt⟩
  obtain ⟨t, hrun, -, hiff, -⟩ := (full_sink_stops hs hnone "f()" 3).2 hwhole
  exact ⟨hs, hnone, t, hrun, hiff.mpr hcut⟩

end Cut

end Session

end FloatLang
