import FloatLang.Proofs.Perform

/-!
# The runs of a session

A run is whatever a client does with a session: it hands over texts, line by line or at once, asks
for the text of the module, exchanges the console, and switches the running of expressions on and
off. Some of this ends in a failure, for instance because a sink is full, and the next thing is done
with the session that the failure leaves.

For what has been lowered only the sentences count, one at a time. So a run is made of two kinds of
steps: a sentence is answered, or something happens that leaves alone what has been lowered. The
points between the sentences of one line are points of the run as well.
-/

namespace FloatLang.Session

open Ssa

/-- A run that comes to `s` can come to the second session later on. -/
inductive Leads (s : Session) : Session → Prop
  | refl : Leads s s
  /-- A sentence is answered, which may fail. -/
  | answer {s' : Session} (h : Leads s s') {i : Item} (hi : i.Named) :
    Leads s (after (actItem i) s')
  /-- Something else happens. -/
  | aside {s' s'' : Session} (h : Leads s s') (hs : s''.lowering = s'.lowering) : Leads s s''

/-- A session that a run can come to. -/
def Reachable (s : Session) : Prop := ∃ name evaluates, Leads (start name evaluates) s

variable {s s' s'' : Session}

theorem Leads.trans (h : Leads s s') (h' : Leads s' s'') : Leads s s'' := by
  induction h' with
  | refl => exact h
  | answer _ hi ih => exact ih.answer hi
  | aside _ hs ih => exact ih.aside hs

theorem Reachable.leads (hs : s.Reachable) (h : Leads s s') : s'.Reachable := by
  obtain ⟨name, evaluates, hstart⟩ := hs
  exact ⟨name, evaluates, hstart.trans h⟩

/-! ## What a client does -/

theorem Quiet.leads {α : Type} {x : Action α} (hx : Quiet x) (s : Session) : Leads s (after x s) :=
  .aside .refl (hx s)

theorem leads_bind {α β : Type} {x : Action α} {f : α → Action β} (hx : ∀ s, Leads s (after x s))
    (hf : ∀ a s, Leads s (after (f a) s)) (s : Session) : Leads s (after (x >>= f) s) := by
  have hs := hx s
  cases hrun : x.run s with
  | ok a s' =>
    rw [after_of_run_ok hrun] at hs
    rw [after_bind_of_run_ok hrun]
    exact hs.trans (hf a s')
  | error e s' =>
    rw [after_of_run_error hrun] at hs
    rwa [after_bind_of_run_error hrun]

private theorem leads_act {c : Script} (hc : ∀ i ∈ c.items, i.Named) (s : Session) :
    Leads s (after (act c) s) := by
  obtain ⟨items, fault⟩ := c
  induction items generalizing s with
  | nil =>
    cases fault with
    | none => exact .refl
    | some e => exact .refl
  | cons i items ih =>
    rw [show act ⟨i :: items, fault⟩ = _ from act_cons i ⟨items, fault⟩]
    exact leads_bind (fun s ↦ .answer .refl (hc i List.mem_cons_self))
      (fun _ s ↦ ih s fun j hj ↦ hc j (List.mem_cons_of_mem _ hj)) s

private theorem leads_handle (text : String) (s : Session) : Leads s (after (handle text) s) := by
  rw [handle_eq]
  exact leads_act (Script.named_ofText text) s

private theorem leads_handleLine (line : List UInt8) (s : Session) :
    Leads s (after (handleLine line) s) := by
  rw [handleLine]
  cases Text.decode? line with
  | some text => exact leads_handle text s
  | none => exact (onConsole_throw _).quiet.leads s

private theorem onConsole_ask (prompt : Bool) : OnConsole (ask prompt) := by
  rw [ask]
  split
  · exact onConsole_note _
  · exact onConsole_pure _

private theorem onConsole_leave (prompt : Bool) : OnConsole (leave prompt) := by
  rw [leave]
  split
  · exact onConsole_note _
  · exact onConsole_pure _

theorem leads_readLines (prompt : Bool) (lines : List (List UInt8)) (s : Session) :
    Leads s (after (readLines prompt lines) s) := by
  induction lines generalizing s with
  | nil =>
    exact leads_bind (onConsole_ask prompt).quiet.leads
      (fun _ ↦ (onConsole_leave prompt).quiet.leads) s
  | cons line lines ih =>
    exact leads_bind (onConsole_ask prompt).quiet.leads
      (fun _ ↦ leads_bind (leads_handleLine line) fun _ ↦ ih) s

theorem leads_readAll (prompt : Bool) (input : ByteArray) (s : Session) :
    Leads s (after (readAll prompt input) s) :=
  leads_readLines prompt _ s

theorem leads_dump (s : Session) : Leads s (after dump s) :=
  Quiet.leads (quiet_get.bind fun _ ↦ (quiet_printed _).bind fun _ ↦ quiet_write _) s

/-! ## What a run holds -/

/-- What has been lowered is always the translation of some sources. -/
theorem Leads.exists_holds (h : Leads s s') (hs : ∃ T, s.lowering.program.Holds T) :
    ∃ T, s'.lowering.program.Holds T := by
  induction h with
  | refl => exact hs
  | answer _ hi ih => exact exists_holds_actItem ih hi
  | aside _ hsame ih => rwa [hsame]

theorem Reachable.exists_holds (hs : s.Reachable) : ∃ T, s.lowering.program.Holds T := by
  obtain ⟨name, evaluates, hstart⟩ := hs
  exact hstart.exists_holds ⟨.empty, Module.holds_empty name⟩

end FloatLang.Session
