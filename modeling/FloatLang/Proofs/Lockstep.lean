import FloatLang.Proofs.Twins

/-!
# Sessions in lockstep

Two sessions whose modules are twins answer the same statements with the same bytes and the same
notes, and come to the same failure if there is no room for the bytes; and their modules are twins
again afterwards.

Most of what a session does is telling, and then it does the same in both. The two runs are
different where the handles are: in the definition that lowers a statement, and in the
presenting, running and erasing of a function. So both runs are followed step by step, with the two
modules that they have come to held fixed while something is told.
-/

namespace FloatLang

open Ssa

/-- The modules that have been lowered are twins. -/
def Lowering.AreTwins (ordered : Prop) (l l' : Lowering) : Prop :=
  ∃ T, Module.Twins ordered T l.program l'.program

namespace Session

/-! ## Two runs side by side -/

/-- The sessions have the same console and the same switch, and what they have lowered is
related. -/
structure Mirrors (b : Bool) (K : Lowering → Lowering → Prop) (s s' : Session) : Prop where
  evaluates : s.evaluates = b
  evaluates' : s'.evaluates = b
  console : s.console = s'.console
  lowering : K s.lowering s'.lowering

/-- Both runs succeed, and their values and what has been lowered are related by `Q`, or both fail
with the same error, and what has been lowered is related by `E`. -/
inductive EndAlike {α β : Type} (b : Bool) (Q : α → β → Lowering → Lowering → Prop)
    (E : Lowering → Lowering → Prop) :
    EStateM.Result Error Session α → EStateM.Result Error Session β → Prop
  | ok {a : α} {c : β} {s s' : Session} (h : Mirrors b (Q a c) s s') :
    EndAlike b Q E (.ok a s) (.ok c s')
  | error {e : Error} {s s' : Session} (h : Mirrors b E s s') :
    EndAlike b Q E (.error e s) (.error e s')

/-- Both runs end in the same way, with what has been lowered related by `K`. -/
abbrev EndWith (b : Bool) (K : Lowering → Lowering → Prop)
    (r r' : EStateM.Result Error Session Unit) : Prop :=
  EndAlike b (fun _ _ ↦ K) K r r'

/-- The two are these. -/
def Pinned (l l' k k' : Lowering) : Prop := k = l ∧ k' = l'

section EndAlike

variable {α β γ δ : Type} {b : Bool} {K K' E E' : Lowering → Lowering → Prop}
  {Q Q' : α → β → Lowering → Lowering → Prop} {R : γ → δ → Lowering → Lowering → Prop}
  {s s' : Session}

theorem Mirrors.imp (hs : Mirrors b K s s') (hK : ∀ l l', K l l' → K' l l') :
    Mirrors b K' s s' := ⟨hs.evaluates, hs.evaluates', hs.console, hK _ _ hs.lowering⟩

theorem Mirrors.pinned (hs : Mirrors b K s s') :
    Mirrors b (Pinned s.lowering s'.lowering) s s' :=
  ⟨hs.evaluates, hs.evaluates', hs.console, rfl, rfl⟩

theorem EndAlike.imp {r : EStateM.Result Error Session α} {r' : EStateM.Result Error Session β}
    (h : EndAlike b Q E r r') (hQ : ∀ a c l l', Q a c l l' → Q' a c l l')
    (hE : ∀ l l', E l l' → E' l l') : EndAlike b Q' E' r r' := by
  cases h with
  | ok h => exact .ok (h.imp (hQ _ _))
  | error h => exact .error (h.imp hE)

theorem EndAlike.bind {x : Action α} {x' : Action β} {f : α → Action γ} {g : β → Action δ}
    (hx : EndAlike b Q E (x.run s) (x'.run s'))
    (hf : ∀ a c t t', Mirrors b (Q a c) t t' → EndAlike b R E ((f a).run t) ((g c).run t')) :
    EndAlike b R E ((x >>= f).run s) ((x' >>= g).run s') := by
  rw [EStateM.run_bind, EStateM.run_bind]
  generalize x.run s = r, x'.run s' = r' at hx
  cases hx with
  | ok h => exact hf _ _ _ _ h
  | error h => exact .error h

/-- What is done to the console is done in both, and nothing is lowered. -/
theorem OnConsole.endAlike {x : Action α} (hx : OnConsole x) (hs : Mirrors b K s s') :
    EndAlike b (fun a c l l' ↦ a = c ∧ K l l') K (x.run s) (x.run s') := by
  obtain ⟨r, c, hrun⟩ := hx s.console
  rw [hrun s rfl, hrun s' hs.console.symm]
  cases r with
  | ok a => exact .ok ⟨hs.evaluates, hs.evaluates', rfl, rfl, hs.lowering⟩
  | error e => exact .error ⟨hs.evaluates, hs.evaluates', rfl, hs.lowering⟩

theorem EndWith.imp {r r' : EStateM.Result Error Session Unit} (h : EndWith b K r r')
    (hK : ∀ l l', K l l' → K' l l') : EndWith b K' r r' :=
  EndAlike.imp h (fun _ _ ↦ hK) hK

theorem OnConsole.endWith {x : Action Unit} (hx : OnConsole x) (hs : Mirrors b K s s') :
    EndWith b K (x.run s) (x.run s') :=
  (hx.endAlike hs).imp (fun _ _ _ _ hk ↦ hk.2) fun _ _ hk ↦ hk

/-- Log lines, which cannot fail, and then what is done in both anyway. -/
theorem Logs.endAlike_bind {x : Action α} {a : α} {f : α → Action γ} {g : α → Action δ}
    (hlogs : Logs x a) (hx : OnConsole x) (hs : Mirrors b K s s')
    (hf : ∀ t t', Mirrors b K t t' → EndAlike b R E ((f a).run t) ((g a).run t')) :
    EndAlike b R E ((x >>= f).run s) ((x >>= g).run s') := by
  have hend := hx.endAlike hs
  obtain ⟨lines, -, hrun⟩ := hlogs s
  obtain ⟨lines', -, hrun'⟩ := hlogs s'
  rw [hrun, hrun'] at hend
  cases hend with
  | ok ht =>
    rw [run_bind_of_run_ok hrun, run_bind_of_run_ok hrun']
    exact hf _ _ (ht.imp fun _ _ hk ↦ hk.2)

private theorem endAlike_log_bind (level : LogLevel) (message : String)
    (fields : List (String × String))
    {f : Unit → Action γ} {g : Unit → Action δ} (hs : Mirrors b K s s')
    (hf : ∀ t t', Mirrors b K t t' → EndAlike b R E ((f ()).run t) ((g ()).run t')) :
    EndAlike b R E ((log level message fields >>= f).run s)
      ((log level message fields >>= g).run s') :=
  (logs_log level message fields).endAlike_bind (onConsole_log level message fields) hs hf

end EndAlike

/-! ## Statements in both sessions -/

section Statements

variable {b : Bool} {ordered : Prop} {T T' : Sources} {l l' : Lowering} {h h' : FunctionId}
  {s s' : Session}

/-- What has been lowered is exchanged, and then the runs go on. -/
private theorem endAlike_lowering {α β : Type} {K E : Lowering → Lowering → Prop}
    {R : α → β → Lowering → Lowering → Prop} {f : Unit → Action α} {g : Unit → Action β}
    (l l' : Lowering) (hs : Mirrors b K s s')
    (hf : ∀ t t', Mirrors b (Pinned l l') t t' → EndAlike b R E ((f ()).run t) ((g ()).run t')) :
    EndAlike b R E (((modify fun s ↦ { s with lowering := l }) >>= f).run s)
      (((modify fun s ↦ { s with lowering := l' }) >>= g).run s') :=
  hf { s with lowering := l } { s' with lowering := l' }
    ⟨hs.evaluates, hs.evaluates', hs.console, rfl, rfl⟩

private theorem endAlike_lower (hm : l.program.Holds T) (hm' : l'.program.Holds T') {d : Definition}
    (ha : Module.AlikeAt d.proto.name l.program l'.program)
    (hcallees : ∀ name ∈ d.body.callees, Module.AlikeAt name l.program l'.program)
    (hs : Mirrors b (Pinned l l') s s') :
    EndAlike b (fun r r' k k' ↦ l.define d = (r, k) ∧ l'.define d = (r', k')) (fun _ _ ↦ False)
      ((lower d).run s) ((lower d).run s') := by
  have hdefine : ∀ t t', Mirrors b (Pinned l l') t t' →
      EndAlike b (fun r r' k k' ↦ l.define d = (r, k) ∧ l'.define d = (r', k')) (fun _ _ ↦ False)
        ((do
          modify fun s ↦ { s with lowering := (l.define d).2 }
          if (l.define d).1.toBool then log .debug "lowered function" [("name", d.proto.name)]
          return (l.define d).1 : Action (Except LoweringError FunctionId)).run t)
        ((do
          modify fun s ↦ { s with lowering := (l'.define d).2 }
          if (l'.define d).1.toBool then log .debug "lowered function" [("name", d.proto.name)]
          return (l'.define d).1 : Action (Except LoweringError FunctionId)).run t') := by
    intro t t' hpin
    refine endAlike_lowering _ _ hpin fun u u' hu ↦ ?_
    obtain ⟨e, hr, hr'⟩ | ⟨h, h', hr, hr'⟩ := Lowering.cases_define_of_alikeAt hm hm' ha hcallees
    · rw [hr, hr']
      exact .ok (hu.imp fun k k' hk ↦ ⟨Prod.ext hr hk.1.symm, Prod.ext hr' hk.2.symm⟩)
    · rw [hr, hr']
      refine endAlike_log_bind _ _ _ hu fun v v' hv ↦ ?_
      exact .ok (hv.imp fun k k' hk ↦ ⟨Prod.ext hr hk.1.symm, Prod.ext hr' hk.2.symm⟩)
  rw [lower, EStateM.run_bind, EStateM.run_get, EStateM.run_bind, EStateM.run_get]
  simp only [hs.lowering.1, hs.lowering.2, Lowering.refusal?_eq_of_alikeAt ha]
  split
  · exact (logs_forM _ fun _ ↦ logs_log _ _ _).endAlike_bind
      (onConsole_forM _ fun _ ↦ onConsole_log _ _ _) hs hdefine
  · exact hdefine s s' hs

theorem endAlike_present (heading : String) {text : String}
    (htext : l.program.functionText? h = some text)
    (htext' : l'.program.functionText? h' = some text) (hs : Mirrors b (Pinned l l') s s') :
    EndWith b (Pinned l l') ((present heading h).run s) ((present heading h').run s') := by
  rw [← hs.lowering.1] at htext
  rw [← hs.lowering.2] at htext'
  rw [run_present_eq htext, run_present_eq htext']
  exact ((onConsole_write _).bind fun _ ↦ onConsole_write _).endWith hs

private theorem endAlike_evaluate (hrun : l.program.run h [] = l'.program.run h' [])
    (hs : Mirrors b (Pinned l l') s s') :
    EndWith b (Pinned l l') ((evaluate h).run s) ((evaluate h').run s') := by
  rw [evaluate, evaluate, EStateM.run_bind, EStateM.run_get, EStateM.run_bind, EStateM.run_get]
  simp only [hs.lowering.1, hs.lowering.2, hrun]
  refine OnConsole.endWith ?_ hs
  split
  · exact (onConsole_relay _).bind fun _ ↦ onConsole_write _
  · exact (onConsole_relay _).bind fun _ ↦ onConsole_report _

/-- What is ensured is done in both, and what came before decides how the runs end. -/
private theorem endAlike_ensuring {K R : Lowering → Lowering → Prop} {x x' y y' : Action Unit}
    (hx : EndWith b K (x.run s) (x'.run s'))
    (hy : ∀ t t', Mirrors b K t t' → EndWith b R (y.run t) (y'.run t')) :
    EndWith b R ((ensuring x y).run s) ((ensuring x' y').run s') := by
  show EndWith b R (ensuring x y s) (ensuring x' y' s')
  rw [ensuring.eq_def, ensuring.eq_def]
  generalize x.run s = r, x'.run s' = r' at hx
  cases hx with
  | ok ht => exact hy _ _ ht
  | @error e t t' ht =>
    have hyt := hy t t' ht
    simp only
    generalize y.run t = r, y'.run t' = r' at hyt
    cases hyt with
    | ok hu => exact .error hu
    | error hu => exact .error hu

/-- After the lowering of a definition the runs go on with what it has left, whether or not it has
failed. -/
private theorem endAlike_lower_bind (hm : l.program.Holds T) (hm' : l'.program.Holds T')
    {d : Definition} (ha : Module.AlikeAt d.proto.name l.program l'.program)
    (hcallees : ∀ name ∈ d.body.callees, Module.AlikeAt name l.program l'.program)
    (hs : Mirrors b (Pinned l l') s s') {f g : Except LoweringError FunctionId → Action Unit}
    {R : Unit → Unit → Lowering → Lowering → Prop} {E : Lowering → Lowering → Prop}
    (herror : ∀ e k k' t t', l.define d = (.error e, k) → l'.define d = (.error e, k') →
      Mirrors b (Pinned k k') t t' →
        EndAlike b R E ((f (.error e)).run t) ((g (.error e)).run t'))
    (hok : ∀ h h' k k' t t', l.define d = (.ok h, k) → l'.define d = (.ok h', k') →
      Mirrors b (Pinned k k') t t' → EndAlike b R E ((f (.ok h)).run t) ((g (.ok h')).run t')) :
    EndAlike b R E ((lower d >>= f).run s) ((lower d >>= g).run s') := by
  refine ((endAlike_lower hm hm' ha hcallees hs).imp (fun _ _ _ _ hk ↦ hk)
    fun _ _ hk ↦ hk.elim).bind fun r r' t t' hrun ↦ ?_
  obtain ⟨hdefine, hdefine'⟩ := hrun.lowering
  rcases Lowering.cases_define_of_alikeAt hm hm' ha hcallees with
    ⟨e, hr, hr'⟩ | ⟨h, h', hr, hr'⟩
  · rw [hdefine] at hr
    rw [hdefine'] at hr'
    subst hr hr'
    exact herror e _ _ t t' hdefine hdefine' hrun.pinned
  · rw [hdefine] at hr
    rw [hdefine'] at hr'
    subst hr hr'
    exact hok h h' _ _ t t' hdefine hdefine' hrun.pinned

theorem endAlike_present_of_alikeAt (heading : String) {n : String} (hm : l.program.Holds T)
    (ha : Module.AlikeAt n l.program l'.program) (hl : l.program.lookup? n = some h)
    (hl' : l'.program.lookup? n = some h') (hs : Mirrors b (Pinned l l') s s') :
    EndWith b (Pinned l l') ((present heading h).run s) ((present heading h').run s') := by
  obtain ⟨text, htext⟩ := hm.wellFormed.exists_functionText? h
  exact endAlike_present heading htext ((ha.functionText? hl hl').symm.trans htext) hs

theorem endAlike_performDefinition (hm : l.program.Holds T) (hm' : l'.program.Holds T')
    {d : Definition} (hd : d.body.Named)
    (ha : Module.AlikeAt d.proto.name l.program l'.program)
    (hcallees : ∀ name ∈ d.body.callees, Module.AlikeAt name l.program l'.program)
    (hs : Mirrors b (Pinned l l') s s') :
    EndWith b (Pinned (l.define d).2 (l'.define d).2) ((performDefinition d).run s)
      ((performDefinition d).run s') := by
  have hdefined := Lowering.alikeAt_define hm hm' ha hcallees hd
  rw [performDefinition]
  refine endAlike_log_bind _ _ _ hs fun t t' hpin ↦ ?_
  refine endAlike_lower_bind hm hm' ha hcallees hpin (fun e k k' u u' hdefine hdefine' hu ↦ ?_)
    fun h h' k k' u u' hdefine hdefine' hu ↦ ?_
  · rw [hdefine, hdefine']
    exact (onConsole_report _).endWith hu
  · have hholds := Lowering.holds_define hm hd hdefine
    obtain ⟨-, hl, -⟩ := exists_body_of_define hm.toSettled hdefine
    obtain ⟨-, hl', -⟩ := exists_body_of_define hm'.toSettled hdefine'
    rw [hdefine, hdefine'] at hdefined ⊢
    exact endAlike_present_of_alikeAt _ hholds hdefined hl hl' hu

theorem endAlike_performDeclaration (hm : l.program.Holds T) (hm' : l'.program.Holds T')
    {p : Prototype} (ha : Module.AlikeAt p.name l.program l'.program)
    (hs : Mirrors b (Pinned l l') s s') :
    EndWith b (Pinned (l.declare p).2 (l'.declare p).2) ((performDeclaration p).run s)
      ((performDeclaration p).run s') := by
  have hdeclared := Lowering.alikeAt_declare hm hm' ha
  rw [performDeclaration]
  refine endAlike_log_bind _ _ _ hs fun t t' hpin ↦ ?_
  have hdeclare : ∀ u u', Mirrors b (Pinned l l') u u' →
      EndWith b (Pinned (l.declare p).2 (l'.declare p).2)
        ((do
          modify fun u ↦ { u with lowering := (l.declare p).2 }
          present "Read extern:" (l.declare p).1 : Action Unit).run u)
        ((do
          modify fun u ↦ { u with lowering := (l'.declare p).2 }
          present "Read extern:" (l'.declare p).1 : Action Unit).run u') := by
    intro u u' hu
    refine endAlike_lowering _ _ hu fun v v' hv ↦ ?_
    exact endAlike_present_of_alikeAt _ (Lowering.holds_declare hm p) hdeclared
      (Lowering.lookup?_declare_self _ p) (Lowering.lookup?_declare_self _ p) hv
  have hisSome : (l.program.lookup? p.name).isSome = (l'.program.lookup? p.name).isSome := by
    rw [Bool.eq_iff_iff, Option.isSome_iff_ne_none, Option.isSome_iff_ne_none, ne_eq, ne_eq,
      ha.lookup?_eq_none_iff]
  rw [EStateM.run_bind, EStateM.run_get, EStateM.run_bind, EStateM.run_get]
  simp only [hpin.lowering.1, hpin.lowering.2, hisSome]
  split
  · exact endAlike_log_bind _ _ _ hpin hdeclare
  · exact hdeclare t t' hpin

theorem Pinned.areTwins (ht : Module.Twins ordered T l.program l'.program) {k k' : Lowering}
    (hk : Pinned l l' k k') : k.AreTwins ordered k' := by
  obtain ⟨rfl, rfl⟩ := hk
  exact ⟨T, ht⟩

private theorem endAlike_performExpression {e : Expr} (he : e.Named)
    (hs : Mirrors b (Lowering.AreTwins ordered) s s') :
    EndWith b (Lowering.AreTwins ordered) ((performExpression e).run s)
      ((performExpression e).run s') := by
  obtain ⟨T, ht⟩ := hs.lowering
  have htwins := Lowering.twins_define ht (d := .ofExpr e) he
  rw [performExpression]
  refine endAlike_log_bind _ _ _ hs.pinned fun t t' hpin ↦ ?_
  refine endAlike_lower_bind ht.holds ht.holds' (d := .ofExpr e) (ht.alike _)
    (fun name _ ↦ ht.alike name) hpin (fun e k k' u u' hdefine hdefine' hu ↦ ?_)
    fun h h' k k' u u' hdefine hdefine' hu ↦ ?_
  · rw [hdefine, hdefine'] at htwins
    exact (onConsole_report _).endWith (hu.imp fun _ _ ↦ Pinned.areTwins htwins)
  · rw [hdefine, hdefine'] at htwins
    have hl := lookup?_empty_of_define ht.holds hdefine
    have hl' := lookup?_empty_of_define ht.holds' hdefine'
    have herase : ∀ v v', Mirrors b (Pinned k k') v v' →
        EndWith b (Lowering.AreTwins ordered) ((erase h).run v) ((erase h').run v') := by
      intro v v' hv
      refine .ok ⟨hv.evaluates, hv.evaluates', hv.console,
        (T.after (.statement (.definition (.ofExpr e)))).set "" none, ?_⟩
      show Module.Twins _ _ (v.lowering.program.erase h) (v'.lowering.program.erase h')
      rw [hv.lowering.1, hv.lowering.2]
      exact htwins.erase (Lowering.atEnd_define_expr ht.holds.toSettled ht.orderly hdefine)
        (Lowering.atEnd_define_expr ht.holds'.toSettled ht.orderly' hdefine') hl hl'
    have hrun : k.program.run h [] = k'.program.run h' [] :=
      (run_eq_evaluate ht.holds he hdefine).trans (run_eq_evaluate ht.holds' he hdefine').symm
    have hpresent := endAlike_present_of_alikeAt "Read top-level expression:" htwins.holds
      (htwins.alike "") hl hl' hu
    refine (EndAlike.imp hpresent (fun _ _ _ _ hk ↦ hk) fun _ _ ↦ Pinned.areTwins htwins).bind
      fun _ _ v v' hv ↦ ?_
    rw [EStateM.run_bind, EStateM.run_get, EStateM.run_bind, EStateM.run_get]
    simp only [hv.evaluates, hv.evaluates']
    split
    · exact endAlike_ensuring (endAlike_evaluate hrun hv) herase
    · exact herase v v' hv

theorem endAlike_actItem {i : Item} (hi : i.Named)
    (hs : Mirrors b (Lowering.AreTwins ordered) s s') :
    EndWith b (Lowering.AreTwins ordered) ((actItem i).run s) ((actItem i).run s') := by
  obtain ⟨T, ht⟩ := hs.lowering
  rcases i with (d | p | e) | what
  · exact (endAlike_performDefinition ht.holds ht.holds' hi.body (ht.alike _)
      (fun name _ ↦ ht.alike name) hs.pinned).imp
        fun _ _ ↦ Pinned.areTwins (Lowering.twins_define ht hi.body)
  · exact (endAlike_performDeclaration ht.holds ht.holds' (ht.alike _) hs.pinned).imp
      fun _ _ ↦ Pinned.areTwins (Lowering.twins_declare ht hi)
  · exact endAlike_performExpression hi hs
  · exact (onConsole_report _).endWith hs

end Statements

/-! ## Whole texts in both sessions -/

section Texts

variable {b : Bool} {ordered : Prop} {s s' : Session}

theorem endAlike_act {c : Script} (hc : ∀ i ∈ c.items, i.Named)
    (hs : Mirrors b (Lowering.AreTwins ordered) s s') :
    EndWith b (Lowering.AreTwins ordered) ((act c).run s) ((act c).run s') := by
  obtain ⟨items, fault⟩ := c
  induction items generalizing s s' with
  | nil =>
    cases fault with
    | none => exact .ok hs
    | some e => exact .error hs
  | cons i items ih =>
    rw [show act ⟨i :: items, fault⟩ = _ from act_cons i ⟨items, fault⟩]
    exact (endAlike_actItem (hc i List.mem_cons_self) hs).bind fun _ _ _ _ ht ↦
      ih ht fun j hj ↦ hc j (List.mem_cons_of_mem _ hj)

/-- A text is handled alike, and leaves twins. -/
theorem endAlike_handle (text : String) (hs : Mirrors b (Lowering.AreTwins ordered) s s') :
    EndWith b (Lowering.AreTwins ordered) ((handle text).run s) ((handle text).run s') := by
  rw [handle_eq]
  exact endAlike_act (Script.named_ofText text) hs

/-- The text of the module is written alike if the functions are in the same order. -/
theorem endAlike_dump (ho : ordered) (hs : Mirrors b (Lowering.AreTwins ordered) s s') :
    EndWith b (Lowering.AreTwins ordered) (dump.run s) (dump.run s') := by
  obtain ⟨T, ht⟩ := hs.lowering
  rw [dump, EStateM.run_bind, EStateM.run_get, EStateM.run_bind, EStateM.run_get]
  simp only [ht.text? ho]
  exact ((onConsole_printed _).bind fun _ ↦ onConsole_write _).endWith hs

end Texts

/-! ## Whole sessions -/

/-- How an action ends, and what it leaves on the console. -/
def reply (x : Action Unit) (s : Session) : Option Error × Console :=
  match x.run s with
  | .ok _ s' => (none, s'.console)
  | .error e s' => (some e, s'.console)

/-- The sessions have the same switch, and what they have lowered are twins. What they have on their
consoles is not compared. -/
structure AreTwins (ordered : Prop) (s s' : Session) : Prop where
  evaluates : s.evaluates = s'.evaluates
  lowering : s.lowering.AreTwins ordered s'.lowering

section Sessions

variable {b : Bool} {ordered : Prop} {x : Action Unit} {s s' : Session}

theorem EndAlike.reply_eq {K : Lowering → Lowering → Prop}
    (h : EndWith b K (x.run s) (x.run s')) : reply x s = reply x s' := by
  rw [reply, reply]
  generalize x.run s = r, x.run s' = r' at h
  cases h with
  | ok h => exact congrArg (Prod.mk none) h.console
  | @error e _ _ h => exact congrArg (Prod.mk (some e)) h.console

theorem EndAlike.mirrors_after {K : Lowering → Lowering → Prop}
    (h : EndWith b K (x.run s) (x.run s')) :
    Mirrors b K (after x s) (after x s') := by
  rw [after, after]
  generalize x.run s = r, x.run s' = r' at h
  cases h with
  | ok h => exact h
  | error h => exact h

theorem Mirrors.areTwins (hs : Mirrors b (Lowering.AreTwins ordered) s s') :
    s.AreTwins ordered s' :=
  ⟨hs.evaluates.trans hs.evaluates'.symm, hs.lowering⟩

namespace AreTwins

theorem withRoom (hs : s.AreTwins ordered s') (room : Option Nat) :
    Mirrors s'.evaluates (Lowering.AreTwins ordered) (s.withRoom room) (s'.withRoom room) :=
  ⟨hs.evaluates, rfl, rfl, hs.lowering⟩

/-- Twins stay twins when they are fed the same texts. -/
theorem feed (hs : s.AreTwins ordered s') (texts : List (Option Nat × String)) :
    (s.feed texts).AreTwins ordered (s'.feed texts) := by
  induction texts generalizing s s' with
  | nil => exact hs
  | cons t texts ih =>
    exact ih (endAlike_handle t.2 (hs.withRoom t.1)).mirrors_after.areTwins

/-- Twins give the same reply to every line. -/
theorem reply_handle (hs : s.AreTwins ordered s') (room : Option Nat) (line : String) :
    reply (handle line) (s.withRoom room) = reply (handle line) (s'.withRoom room) :=
  (endAlike_handle line (hs.withRoom room)).reply_eq

theorem reply_dump (ho : ordered) (hs : s.AreTwins ordered s') (room : Option Nat) :
    reply dump (s.withRoom room) = reply dump (s'.withRoom room) :=
  (endAlike_dump ho (hs.withRoom room)).reply_eq

end AreTwins

end Sessions

end Session

end FloatLang
