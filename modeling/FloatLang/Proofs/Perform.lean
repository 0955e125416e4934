import FloatLang.Proofs.Script
import FloatLang.Proofs.Sources

/-!
# What answering a statement does to a session

Most of what a session does while it answers a statement is telling: log lines, notes and results.
Telling can fail half-way, but it never touches what has been lowered, so for the state of the
lowering only the definition or declaration itself counts, and for a top-level expression whether
its function was erased. That is said here for any sink, full or not.
-/

namespace FloatLang.Session

open Ssa

/-- The session after an action, whether or not the action fails. -/
def after {α : Type} (x : Action α) (s : Session) : Session :=
  match x.run s with
  | .ok _ s' => s'
  | .error _ s' => s'

/-! ## Telling -/

/-- A run that ends in the session, with a value or a failure. -/
def ended {α : Type} (r : Except Error α) (s : Session) : EStateM.Result Error Session α :=
  match r with
  | .ok a => .ok a s
  | .error e => .error e s

/-- What the action does, it does to the console, whatever else the session is. -/
def OnConsole {α : Type} (x : Action α) : Prop :=
  ∀ c, ∃ r c', ∀ s, s.console = c → x.run s = ended r { s with console := c' }

section OnConsole

variable {α β : Type}

theorem onConsole_pure (a : α) : OnConsole (pure a) := by
  refine fun c ↦ ⟨.ok a, c, fun s hs ↦ ?_⟩
  subst hs
  rfl

theorem onConsole_throw (e : Error) : OnConsole (throw e : Action α) := by
  refine fun c ↦ ⟨.error e, c, fun s hs ↦ ?_⟩
  subst hs
  rfl

theorem OnConsole.bind {x : Action α} {f : α → Action β} (hx : OnConsole x)
    (hf : ∀ a, OnConsole (f a)) : OnConsole (x >>= f) := by
  intro c
  obtain ⟨r, c₁, hx⟩ := hx c
  cases r with
  | error e => exact ⟨.error e, c₁, fun s hs ↦ by rw [EStateM.run_bind, hx s hs]; rfl⟩
  | ok a =>
    obtain ⟨r, c₂, hf⟩ := hf a c₁
    refine ⟨r, c₂, fun s hs ↦ ?_⟩
    rw [EStateM.run_bind, hx s hs]
    exact hf { s with console := c₁ } rfl

theorem onConsole_note (n : Note) : OnConsole (note n) := by
  refine fun c ↦ ⟨.ok (), { c with notes := c.notes.push n }, fun s hs ↦ ?_⟩
  subst hs
  rfl

theorem onConsole_log (level : LogLevel) (message : String) (fields : List (String × String)) :
    OnConsole (log level message fields) := onConsole_note _

theorem onConsole_forM {γ : Type} (l : List γ) {f : γ → Action Unit}
    (hf : ∀ c, OnConsole (f c)) : OnConsole (l.forM f) := by
  induction l with
  | nil => exact onConsole_pure _
  | cons c l ih => exact (hf c).bind fun _ ↦ ih

theorem onConsole_write (text : String) : OnConsole (write text) := by
  intro c
  rcases hwrite : c.out.write text.toUTF8 with ⟨complete, out⟩
  refine ⟨if complete then .ok () else .error (.stream "sink full"), { c with out }, fun s hs ↦ ?_⟩
  subst hs
  rw [write, EStateM.run_bind, EStateM.run_get]
  simp only [EStateM.run_bind, EStateM.run_set, hwrite]
  cases complete <;> rfl

theorem onConsole_report (e : Error) : OnConsole (report e) :=
  (onConsole_log _ _ _).bind fun _ ↦ onConsole_write _

theorem onConsole_printed (text? : Option String) : OnConsole (printed text?) := by
  cases text? with
  | some text => exact onConsole_pure text
  | none => exact onConsole_throw _

theorem onConsole_relay (texts : Array String) : OnConsole (relay texts) := by
  obtain ⟨texts⟩ := texts
  rw [relay, Array.forM_eq_forM, List.forM_toArray]
  exact onConsole_forM texts fun _ ↦ onConsole_note _

end OnConsole

/-- The action leaves alone what has been lowered. -/
def Quiet {α : Type} (x : Action α) : Prop := ∀ s, (after x s).lowering = s.lowering

section Quiet

variable {α β : Type}

theorem after_of_run_ok {x : Action α} {s s' : Session} {a : α} (hx : x.run s = .ok a s') :
    after x s = s' := by
  rw [after, hx]

theorem after_of_run_error {x : Action α} {s s' : Session} {e : Error}
    (hx : x.run s = .error e s') : after x s = s' := by
  rw [after, hx]

theorem run_bind_of_run_ok {x : Action α} {f : α → Action β} {s s' : Session} {a : α}
    (hx : x.run s = .ok a s') : (x >>= f).run s = (f a).run s' := by
  rw [EStateM.run_bind, hx]

theorem after_bind_of_run_ok {x : Action α} {f : α → Action β} {s s' : Session} {a : α}
    (hx : x.run s = .ok a s') : after (x >>= f) s = after (f a) s' := by
  rw [after, after, run_bind_of_run_ok hx]

theorem after_bind_of_run_error {x : Action α} {f : α → Action β} {s s' : Session} {e : Error}
    (hx : x.run s = .error e s') : after (x >>= f) s = s' := by
  rw [after, EStateM.run_bind, hx]

theorem OnConsole.quiet {x : Action α} (hx : OnConsole x) : Quiet x := by
  intro s
  obtain ⟨r, c, hrun⟩ := hx s.console
  rw [after, hrun s rfl]
  cases r with
  | ok a => rfl
  | error e => rfl

theorem Quiet.bind {x : Action α} {f : α → Action β} (hx : Quiet x) (hf : ∀ a, Quiet (f a)) :
    Quiet (x >>= f) := by
  intro s
  have hs := hx s
  cases hr : x.run s with
  | ok a s' =>
    rw [after_of_run_ok hr] at hs
    rw [after_bind_of_run_ok hr, hf a s', hs]
  | error e s' =>
    rw [after_of_run_error hr] at hs
    rw [after_bind_of_run_error hr, hs]

theorem quiet_get : Quiet (get : Action Session) := fun _ ↦ rfl

theorem quiet_write (text : String) : Quiet (write text) := (onConsole_write text).quiet

theorem quiet_report (e : Error) : Quiet (report e) := (onConsole_report e).quiet

theorem quiet_printed (text? : Option String) : Quiet (printed text?) :=
  (onConsole_printed text?).quiet

theorem quiet_present (heading : String) (h : FunctionId) : Quiet (present heading h) :=
  (quiet_write _).bind fun _ ↦ quiet_get.bind fun _ ↦ (quiet_printed _).bind fun _ ↦ quiet_write _

theorem quiet_evaluate (h : FunctionId) : Quiet (evaluate h) := by
  refine quiet_get.bind fun s ↦ OnConsole.quiet ?_
  split
  · exact (onConsole_relay _).bind fun _ ↦ onConsole_write _
  · exact (onConsole_relay _).bind fun _ ↦ onConsole_report _

end Quiet

/-! ## Logging

Log lines are the one kind of telling that cannot fail, and that nobody need see. -/

/-- The session with more notes. -/
def noted (s : Session) (notes : List Note) : Session :=
  { s with console := { s.console with notes := s.console.notes ++ notes.toArray } }

private theorem noted_nil (s : Session) : s.noted [] = s := by
  rw [noted, Array.append_empty]

private theorem noted_noted (s : Session) (notes more : List Note) :
    (s.noted notes).noted more = s.noted (notes ++ more) := by
  simp only [noted, Array.append_assoc, List.append_toArray]

/-- The action only adds log lines, and answers `a`. -/
def Logs {α : Type} (x : Action α) (a : α) : Prop :=
  ∀ s, ∃ lines, (∀ n ∈ lines, n.plain? = none) ∧ x.run s = .ok a (s.noted lines)

section Logs

variable {α β : Type}

theorem logs_pure (a : α) : Logs (pure a) a := fun s ↦ ⟨[], nofun, by rw [noted_nil]; rfl⟩

theorem logs_log (level : LogLevel) (message : String) (fields : List (String × String)) :
    Logs (log level message fields) () := by
  intro s
  refine ⟨[.log level message fields], fun n hn ↦ ?_, rfl⟩
  rw [List.mem_singleton.mp hn]
  rfl

theorem Logs.bind {x : Action α} {f : α → Action β} {a : α} {b : β} (hx : Logs x a)
    (hf : Logs (f a) b) : Logs (x >>= f) b := by
  intro s
  obtain ⟨lines, hlines, hrun⟩ := hx s
  obtain ⟨more, hmore, hrun'⟩ := hf (s.noted lines)
  refine ⟨lines ++ more, fun n hn ↦ ?_, ?_⟩
  · rcases List.mem_append.mp hn with hn | hn
    · exact hlines n hn
    · exact hmore n hn
  · rw [EStateM.run_bind, hrun]
    simp only
    rw [hrun', noted_noted]

theorem logs_forM {γ : Type} (l : List γ) {f : γ → Action Unit} (hf : ∀ c, Logs (f c) ()) :
    Logs (l.forM f) () := by
  induction l with
  | nil => exact logs_pure ()
  | cons c l ih => exact (hf c).bind ih

end Logs

/-! ## Lowering a definition -/

/-- Lowering a definition never fails as an action; beside lowering it logs. -/
theorem run_lower (d : Definition) (s : Session) :
    ∃ lines, (∀ n ∈ lines, n.plain? = none) ∧
      (lower d).run s =
        .ok (s.lowering.define d).1 { s.noted lines with lowering := (s.lowering.define d).2 } := by
  have hdone : Logs (if (s.lowering.define d).1.toBool then do
      log .debug "lowered function" [("name", d.proto.name)]
      pure (s.lowering.define d).1 else pure (s.lowering.define d).1) (s.lowering.define d).1 := by
    split
    · exact (logs_log _ _ _).bind (logs_pure _)
    · exact logs_pure _
  have hwarn : Logs ((repeated d.proto.params).forM fun p ↦
      log .warning "duplicate parameter, last one wins"
        [("function", d.proto.name), ("param", p)]) () :=
    logs_forM _ fun _ ↦ logs_log _ _ _
  rw [lower]
  simp only [EStateM.run_bind, EStateM.run_get]
  split
  · obtain ⟨lines, hlines, hrun⟩ := hwarn s
    obtain ⟨more, hmore, hrun'⟩ :=
      hdone { s.noted lines with lowering := (s.lowering.define d).2 }
    refine ⟨lines ++ more, fun n hn ↦ ?_, ?_⟩
    · rcases List.mem_append.mp hn with hn | hn
      · exact hlines n hn
      · exact hmore n hn
    · rw [EStateM.run_bind, hrun]
      exact hrun'.trans (by simp only [noted, Array.append_assoc, List.append_toArray])
  · obtain ⟨more, hmore, hrun⟩ := hdone { s with lowering := (s.lowering.define d).2 }
    exact ⟨more, hmore, hrun⟩

/-! ## Answering a statement -/

/-- A definition is lowered, with some log lines, and then answered. -/
theorem run_performDefinition (d : Definition) (s : Session) :
    ∃ lines, (∀ n ∈ lines, n.plain? = none) ∧
      (performDefinition d).run s =
        (match (s.lowering.define d).1 with
          | .ok h => present "Read function definition:" h
          | .error e => report (.lowering e)).run
          { s.noted lines with lowering := (s.lowering.define d).2 } := by
  obtain ⟨lines, hlines, hlog⟩ := logs_log .debug "parsed a function definition"
    [("name", d.proto.name)] s
  obtain ⟨more, hmore, hlower⟩ := run_lower d (s.noted lines)
  refine ⟨lines ++ more, fun n hn ↦ (List.mem_append.mp hn).elim (hlines n) (hmore n), ?_⟩
  rw [performDefinition, EStateM.run_bind, hlog]
  simp only
  rw [EStateM.run_bind, hlower, noted_noted]
  rfl

theorem run_performDeclaration (p : Prototype) (s : Session) :
    ∃ lines, (∀ n ∈ lines, n.plain? = none) ∧
      (performDeclaration p).run s = (present "Read extern:" (s.lowering.declare p).1).run
        { s.noted lines with lowering := (s.lowering.declare p).2 } := by
  obtain ⟨lines, hlines, hlog⟩ := logs_log .debug "parsed an extern" [("name", p.name)] s
  by_cases hold : ((s.noted lines).lowering.program.lookup? p.name).isSome = true
  · obtain ⟨more, hmore, hlog'⟩ := logs_log .debug "reusing existing declaration"
      [("name", p.name)] (s.noted lines)
    refine ⟨lines ++ more, fun n hn ↦ (List.mem_append.mp hn).elim (hlines n) (hmore n), ?_⟩
    rw [performDeclaration, EStateM.run_bind, hlog]
    simp only [EStateM.run_bind, EStateM.run_get, if_pos hold, hlog', noted_noted]
    rfl
  · refine ⟨lines, hlines, ?_⟩
    rw [performDeclaration, EStateM.run_bind, hlog]
    simp only [EStateM.run_bind, EStateM.run_get, if_neg hold]
    rfl

theorem run_performExpression (e : Expr) (s : Session) :
    ∃ lines, (∀ n ∈ lines, n.plain? = none) ∧
      (performExpression e).run s =
        (match (s.lowering.define (.ofExpr e)).1 with
          | .error e => report (.lowering e)
          | .ok h => do
            present "Read top-level expression:" h
            if (← get).evaluates then ensuring (evaluate h) (erase h) else erase h).run
          { s.noted lines with lowering := (s.lowering.define (.ofExpr e)).2 } := by
  obtain ⟨lines, hlines, hlog⟩ := logs_log .debug "parsed a top-level expression" [] s
  obtain ⟨more, hmore, hlower⟩ := run_lower (.ofExpr e) (s.noted lines)
  refine ⟨lines ++ more, fun n hn ↦ (List.mem_append.mp hn).elim (hlines n) (hmore n), ?_⟩
  rw [performExpression, EStateM.run_bind, hlog]
  simp only
  rw [EStateM.run_bind, hlower, noted_noted]
  rfl

theorem after_congr {α : Type} {x y : Action α} {s s' : Session} (h : x.run s = y.run s') :
    after x s = after y s' := by
  rw [after, after, h]

theorem lowering_after_performDefinition (d : Definition) (s : Session) :
    (after (performDefinition d) s).lowering = (s.lowering.define d).2 := by
  obtain ⟨lines, -, hrun⟩ := run_performDefinition d s
  rw [after_congr hrun]
  cases (s.lowering.define d).1 with
  | ok h => exact quiet_present _ _ _
  | error e => exact quiet_report _ _

theorem lowering_after_performDeclaration (p : Prototype) (s : Session) :
    (after (performDeclaration p) s).lowering = (s.lowering.declare p).2 := by
  obtain ⟨lines, -, hrun⟩ := run_performDeclaration p s
  rw [after_congr hrun]
  exact quiet_present _ _ _

private theorem after_ensuring (x y : Action Unit) (s : Session) :
    after (ensuring x y) s = after y (after x s) := by
  simp only [after, ensuring, EStateM.run]
  cases x s with
  | ok a s' => rfl
  | error e s' =>
    simp only
    cases y s' <;> rfl

/-- Whether it is run or not, the function of a top-level expression is erased in the end. -/
theorem lowering_after_erasing (h : FunctionId) (s : Session) :
    (after (do if (← get).evaluates then ensuring (evaluate h) (erase h) else erase h) s).lowering =
      { s.lowering with program := s.lowering.program.erase h } := by
  have herase : ∀ s : Session, (after (erase h) s).lowering =
    { s.lowering with program := s.lowering.program.erase h } := fun _ ↦ rfl
  rw [after_bind_of_run_ok (show EStateM.run get s = .ok s s from rfl)]
  split
  · rw [after_ensuring, herase, quiet_evaluate]
  · exact herase s

/-- A top-level expression that is lowered is erased again, unless its text could not be written,
and then the action fails. -/
theorem lowering_after_performExpression (e : Expr) (s : Session) :
    match s.lowering.define (.ofExpr e) with
    | (.error _, l) => (after (performExpression e) s).lowering = l
    | (.ok h, l) =>
      ((after (performExpression e) s).lowering = l ∧
        ∃ err s', (performExpression e).run s = .error err s') ∨
      (after (performExpression e) s).lowering = { l with program := l.program.erase h } := by
  obtain ⟨lines, -, hrun⟩ := run_performExpression e s
  rw [after_congr hrun, hrun]
  rcases s.lowering.define (.ofExpr e) with ⟨e | h, l⟩
  · exact quiet_report _ _
  · have hpresent := quiet_present "Read top-level expression:" h
      { s.noted lines with lowering := l }
    simp only
    cases hrun : (present "Read top-level expression:" h).run
        { s.noted lines with lowering := l } with
    | error err s' =>
      rw [after_of_run_error hrun] at hpresent
      rw [after_bind_of_run_error hrun]
      exact .inl ⟨hpresent, err, s', by rw [EStateM.run_bind, hrun]⟩
    | ok u s' =>
      rw [after_of_run_ok hrun] at hpresent
      rw [after_bind_of_run_ok hrun, lowering_after_erasing, hpresent]
      exact .inr rfl

/-! ## Whole texts -/

theorem exists_holds_define {s : Session} (hs : ∃ T, s.lowering.program.Holds T) {d : Definition}
    (hbody : d.body.Named) : ∃ T, (s.lowering.define d).2.program.Holds T := by
  obtain ⟨T, hT⟩ := hs
  cases hd : s.lowering.define d with
  | mk r l =>
    cases r with
    | ok h => exact ⟨_, Lowering.holds_define hT hbody hd⟩
    | error e => exact ⟨_, Lowering.holds_of_define_error hT hd⟩

theorem exists_holds_actItem {s : Session} (hs : ∃ T, s.lowering.program.Holds T) {i : Item}
    (hi : i.Named) : ∃ T, (after (actItem i) s).lowering.program.Holds T := by
  rcases i with (d | p | e) | what
  · show ∃ T, (after (performDefinition d) s).lowering.program.Holds T
    rw [lowering_after_performDefinition]
    exact exists_holds_define hs hi.body
  · show ∃ T, (after (performDeclaration p) s).lowering.program.Holds T
    rw [lowering_after_performDeclaration]
    obtain ⟨T, hT⟩ := hs
    exact ⟨_, Lowering.holds_declare hT p⟩
  · show ∃ T, (after (performExpression e) s).lowering.program.Holds T
    have hafter := lowering_after_performExpression e s
    have hT' := exists_holds_define hs (d := .ofExpr e) hi
    obtain ⟨T, hT⟩ := hs
    cases hd : s.lowering.define (.ofExpr e) with
    | mk r l =>
      rw [hd] at hafter hT'
      obtain ⟨T', hT'⟩ := hT'
      rcases r with e' | h
      · rw [hafter]
        exact ⟨T', hT'⟩
      · rcases hafter with ⟨hafter, -⟩ | hafter
        · rw [hafter]
          exact ⟨T', hT'⟩
        · rw [hafter]
          obtain ⟨-, f, v, steps, hc⟩ := Lowering.exists_completes hT.toSettled hd
          exact ⟨_, hT'.erase ((hc.lookup? _).trans (if_pos rfl))⟩
  · show ∃ T, (after (report _) s).lowering.program.Holds T
    rw [quiet_report]
    exact hs

section Scripts

variable {K : Lowering → Prop} {Q : Item → Prop} {s : Session}

/-- What is kept whenever an item is answered is kept by a script, also if the items that follow a
failure are given up. -/
theorem act_induction
    (hitem : ∀ s i, Q i → K s.lowering → K (after (actItem i) s).lowering) (hs : K s.lowering)
    {c : Script} (hc : ∀ i ∈ c.items, Q i) : K (after (act c) s).lowering := by
  obtain ⟨items, fault⟩ := c
  induction items generalizing s with
  | nil =>
    cases fault with
    | none => exact hs
    | some e => exact hs
  | cons i items ih =>
    have hi := hitem s i (hc i List.mem_cons_self) hs
    rw [show act ⟨i :: items, fault⟩ = _ from act_cons i ⟨items, fault⟩]
    cases hrun : (actItem i).run s with
    | ok u s' =>
      rw [after_of_run_ok hrun] at hi
      rw [after_bind_of_run_ok hrun]
      exact ih hi fun j hj ↦ hc j (List.mem_cons_of_mem _ hj)
    | error e s' =>
      rw [after_of_run_error hrun] at hi
      rw [after_bind_of_run_error hrun]
      exact hi

/-- A session that is fed texts, each with a console of its own. A text that ends in a failure is
given up, and the next one goes on from there. -/
def feed (s : Session) (texts : List (Option Nat × String)) : Session :=
  texts.foldl (fun s t ↦ after (handle t.2) (s.withRoom t.1)) s

theorem feed_append (s : Session) (texts later : List (Option Nat × String)) :
    s.feed (texts ++ later) = (s.feed texts).feed later := List.foldl_append

theorem lowering_feed_of_definition {text : String} {d : Definition}
    (htext : Script.ofText text = ⟨[.statement (.definition d)], none⟩) (room : Option Nat) :
    (s.feed [(room, text)]).lowering = (s.lowering.define d).2 := by
  show (after (handle text) (s.withRoom room)).lowering = _
  rw [handle_eq_of_statement htext]
  exact lowering_after_performDefinition d _

theorem lowering_feed_of_declaration {text : String} {p : Prototype}
    (htext : Script.ofText text = ⟨[.statement (.declaration p)], none⟩) (room : Option Nat) :
    (s.feed [(room, text)]).lowering = (s.lowering.declare p).2 := by
  show (after (handle text) (s.withRoom room)).lowering = _
  rw [handle_eq_of_statement htext]
  exact lowering_after_performDeclaration p _

/-- What is kept whenever an item is answered is kept by texts of such items. -/
theorem feed_induction
    (hitem : ∀ s i, Q i → K s.lowering → K (after (actItem i) s).lowering)
    (htexts : ∀ text, ∀ i ∈ (Script.ofText text).items, Q i) (hs : K s.lowering)
    (texts : List (Option Nat × String)) : K (s.feed texts).lowering := by
  induction texts generalizing s with
  | nil => exact hs
  | cons t texts ih =>
    have hroom : K (s.withRoom t.1).lowering := hs
    have ht : K (after (handle t.2) (s.withRoom t.1)).lowering := by
      rw [handle_eq]
      exact act_induction hitem hroom (htexts t.2)
    exact ih ht

end Scripts

/-- Whatever it is fed, a session holds the translations of some sources. -/
theorem exists_holds_feed {s : Session} (hs : ∃ T, s.lowering.program.Holds T)
    (texts : List (Option Nat × String)) : ∃ T, (s.feed texts).lowering.program.Holds T :=
  feed_induction (K := fun l ↦ ∃ T, l.program.Holds T) (fun _ _ hi hs ↦ exists_holds_actItem hs hi)
    Script.named_ofText hs texts

end FloatLang.Session
