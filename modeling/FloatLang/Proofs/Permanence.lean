import FloatLang.Proofs.Rollback
import FloatLang.Proofs.Runs
import FloatLang.Proofs.WellFormed

/-!
# Declarations and definitions are permanent

A name that has been declared belongs to the same function for good, with as many parameters, and a
function that has been defined does not change any more. What a statement can do to the functions of
other names is nothing; to the function of its own name it can give a body, or other names for the
parameters, as long as there is no body. The function without a name is the only one that goes.

The text of a definition is not made of the function alone: a call is written with the name that the
callee has now. So it takes the permanence of the callees as well for the text to stay what it was
when it was first shown.
-/

namespace FloatLang

open Ssa

/-! ## What the text of a function depends on -/

namespace Ssa

/-- The instructions read the same, each in its function. -/
def Instruction.ReadsAs (m m' : Module) (f f' : Function) (i i' : Instruction) : Prop :=
  i.result = i'.result ∧ m.operationText? f i.operation = m'.operationText? f' i'.operation

/-- The blocks have the same label and instructions that read the same. -/
def Block.ReadsAs (m m' : Module) (f f' : Function) (b b' : Block) : Prop :=
  b.label = b'.label ∧
    List.Forall₂ (Instruction.ReadsAs m m' f f') b.instructions b'.instructions

namespace Module

variable {m m' m'' : Module} {f f' : Function} {h h' : FunctionId} {n : String}

theorem definitionText?_congr (hname : f.name = f'.name) (hparams : f.params = f'.params)
    (htemps : f.temps = f'.temps)
    (hblocks : List.Forall₂ (Block.ReadsAs m m' f f') f.blocks f'.blocks) :
    m.definitionText? f = m'.definitionText? f' := by
  have hbody : f.hasBody = f'.hasBody := by
    rw [Function.hasBody, Function.hasBody]
    generalize f.blocks = blocks, f'.blocks = blocks' at hblocks ⊢
    cases hblocks <;> rfl
  have hinstruction : ∀ i i', Instruction.ReadsAs m m' f f' i i' →
      m.instructionText? f i = m'.instructionText? f' i' := by
    rintro i i' ⟨hresult, hoperation⟩
    rw [instructionText?, instructionText?, hresult, hoperation, htemps]
  have hblock : ∀ b b', Block.ReadsAs m m' f f' b b' → m.blockText? f b = m'.blockText? f' b' := by
    rintro b b' ⟨hlabel, hinstructions⟩
    rw [blockText?, blockText?, hlabel, mapM_congr_forall₂ (hinstructions.imp hinstruction)]
  rw [definitionText?, definitionText?, hbody, Function.globalName, Function.globalName, hname,
    Function.paramsText, Function.paramsText, hparams, mapM_congr_forall₂ (hblocks.imp hblock)]

theorem calleeText_of_find? (hf : m.find? h = some f) : m.calleeText h = f.globalName := by
  rw [calleeText, hf]
  rfl

theorem exists_text?_eq (hm : m.WellFormed) (hlive : (m.find? h).isSome) {text : String}
    (htext : m.functionText? h = some text) :
    ∃ before behind, m.text? = some (before ++ text ++ behind) := by
  obtain ⟨before, behind, hhandles⟩ := List.append_of_mem (mem_handles_iff.mpr hlive)
  obtain ⟨earlier, hearlier⟩ := hm.exists_functionTexts before
  obtain ⟨later, hlater⟩ := hm.exists_functionTexts behind
  have hall : m.handles.mapM m.functionText? = some (earlier ++ text :: later) := by
    rw [hhandles, List.mapM_append, List.mapM_cons, hearlier, htext, hlater]
    rfl
  refine ⟨"; ModuleID = '" ++ m.name ++ "'\n" ++ String.join (earlier.map ("\n" ++ ·)) ++ "\n",
    String.join (later.map ("\n" ++ ·)), ?_⟩
  rw [text?, hall]
  simp only [Option.bind_eq_bind, Option.bind_some, List.map_append, List.map_cons,
    String.join_append, String.join_cons, String.append_assoc]
  rfl

/-! ## Modules that extend modules -/

/-- Whatever has a name in the first module is there in the second one, and is the same unless it
had no body. -/
structure Extends (m m' : Module) : Prop where
  /-- A name belongs to the same function. -/
  lookup? : ∀ {n h}, n ≠ "" → m.lookup? n = some h → m'.lookup? n = some h
  /-- A function has the same name and as many parameters. If it had a body, it is the same. -/
  find? : ∀ {h f}, m.find? h = some f → f.name ≠ "" → ∃ f', m'.find? h = some f' ∧
    f'.name = f.name ∧ f'.params.length = f.params.length ∧ (f.blocks ≠ [] → f' = f)

namespace Extends

theorem refl (m : Module) : m.Extends m := ⟨fun _ h ↦ h, fun hf _ ↦ ⟨_, hf, rfl, rfl, fun _ ↦ rfl⟩⟩

theorem trans (hm : m.Extends m') (hm' : m'.Extends m'') : m.Extends m'' := by
  refine ⟨fun hn hl ↦ hm'.lookup? hn (hm.lookup? hn hl), fun {h f} hf hn ↦ ?_⟩
  obtain ⟨f', hf', hname, hcount, hsame⟩ := hm.find? hf hn
  obtain ⟨f'', hf'', hname', hcount', hsame'⟩ := hm'.find? hf' (by rwa [hname])
  refine ⟨f'', hf'', hname'.trans hname, hcount'.trans hcount, fun hbody ↦ ?_⟩
  obtain rfl := hsame hbody
  exact hsame' hbody

theorem paramCount (hext : m.Extends m') (hf : m.find? h = some f) (hn : f.name ≠ "") :
    m'.paramCount h = m.paramCount h := by
  obtain ⟨f', hf', -, hcount, -⟩ := hext.find? hf hn
  rw [paramCount_of_find? hf', paramCount_of_find? hf, hcount]

/-- A well-formed function reads the same afterwards, since the functions that it calls have kept
their names. -/
theorem definitionText? (hext : m.Extends m') (hf : f.WellFormed m) :
    m'.definitionText? f = m.definitionText? f := by
  rcases hf with hblocks | ⟨b, hblocks, hb⟩
  · rw [definitionText?_of_blocks_eq_nil m hblocks, definitionText?_of_blocks_eq_nil m' hblocks]
  · refine definitionText?_congr rfl rfl rfl ?_
    rw [hblocks]
    refine .cons ⟨rfl, List.forall₂_same.mpr fun i hi ↦ ⟨rfl, ?_⟩⟩ .nil
    cases hop : i.operation with
    | call callee args =>
      obtain ⟨g, hg, -, hgname⟩ := hb.calls i hi callee args hop
      obtain ⟨g', hg', hname, -, -⟩ := hext.find? hg hgname
      rw [operationText?, operationText?, calleeText_of_find? hg, calleeText_of_find? hg',
        Function.globalName, Function.globalName, hname]
    | binary op l r => rfl
    | widen v => rfl
    | ret v => rfl

theorem functionText? (hext : m.Extends m') (hm : m.WellFormed) (hf : m.find? h = some f)
    (hn : f.name ≠ "") (hbody : f.blocks ≠ []) : m'.functionText? h = m.functionText? h := by
  obtain ⟨f', hf', -, -, hsame⟩ := hext.find? hf hn
  obtain rfl := hsame hbody
  rw [Module.functionText?, Module.functionText?, hf, hf']
  exact hext.definitionText? (hm h f' hf)

end Extends

theorem find?_erase_of_name_ne (hf : m.find? h = some f) (hf' : m.find? h' = some f')
    (hne : f.name ≠ f'.name) : (m.erase h').find? h = some f := by
  rw [find?_erase, if_neg, hf]
  rintro rfl
  obtain rfl := Option.some.inj (hf.symm.trans hf')
  exact hne rfl

theorem extends_erase (hf' : m.find? h' = some f') (hname : f'.name = "") :
    m.Extends (m.erase h') := by
  refine ⟨fun {n h} hn hl ↦ ?_, fun {h f} hf hn ↦ ?_⟩
  · rw [lookup?_erase, if_neg, hl]
    rintro ⟨hl', hc⟩
    rw [hf', Option.map_some, hname] at hc
    exact hn (Option.some.inj hc).symm
  · exact ⟨f, find?_erase_of_name_ne hf hf' (by rwa [hname]), rfl, rfl, fun _ ↦ rfl⟩

end Module

end Ssa

/-! ## What a statement leaves alone -/

namespace Lowering

variable {l : Lowering} {d : Definition} {p : Prototype} {h : FunctionId} {f : Function}

/-- A failed definition can rename the parameters of a function without a body that has its name. -/
private theorem find?_remnant (hm : l.program.Settled) (hf : l.program.find? h = some f) :
    (remnant l.program p).find? h = some f ∨
      f.name = p.name ∧ f.blocks = [] ∧
        (remnant l.program p).find? h = some (f.renamed p.params) := by
  rw [remnant]
  cases hr : refusal? l.program p with
  | some e => exact .inl hf
  | none =>
    cases hl : l.program.lookup? p.name with
    | none => exact .inl hf
    | some h' =>
      simp only [Module.find?_update, hf]
      by_cases hh : h = h'
      · subst hh
        obtain ⟨g, hg, hname⟩ := hm.find?_of_lookup? hl
        obtain rfl := Option.some.inj (hf.symm.trans hg)
        exact .inr ⟨hname, ((refusal?_eq_none_iff hl hf).mp hr).1, if_pos rfl⟩
      · exact .inl (if_neg hh)

/-- What a definition can do to a function that is there: nothing, unless it has its name and no
body. -/
theorem find?_define (hm : l.program.Settled) (hf : l.program.find? h = some f) :
    (l.define d).2.program.find? h = some f ∨
      f.name = d.proto.name ∧ f.blocks = [] ∧ ∃ f', (l.define d).2.program.find? h = some f' ∧
        f'.name = f.name ∧ f'.params.length = f.params.length := by
  cases hd : l.define d with
  | mk r l' =>
    cases r with
    | error e =>
      rw [(views_of_define_error hm hd).2]
      rcases find?_remnant hm hf with hsame | ⟨hname, hblocks, hren⟩
      · exact .inl hsame
      · exact .inr ⟨hname, hblocks, _, hren, f.name_renamed _, f.length_params_renamed _⟩
    | ok h' =>
      obtain ⟨-, g, v, steps, hc⟩ := exists_completes hm hd
      by_cases hh : h = h'
      · subst hh
        rcases hc.before with hg | ⟨hg, -⟩
        · obtain rfl := Option.some.inj (hf.symm.trans hg)
          exact .inr ⟨hc.name, hc.blocks, _, hc.find?_self, Function.name_completed,
            Function.length_params_completed⟩
        · rw [hf] at hg
          cases hg
      · exact .inl ((hc.find? h).trans ((if_neg hh).trans hf))

theorem lookup?_define (hm : l.program.Settled) {n : String}
    (hl : l.program.lookup? n = some h) : (l.define d).2.program.lookup? n = some h := by
  by_cases hn : n = d.proto.name
  · rcases hd : l.define d with ⟨e | h', l'⟩
    · exact ((views_of_define_error hm hd).1 n).trans hl
    · obtain ⟨-, g, v, steps, hc⟩ := exists_completes hm hd
      subst hn
      rcases hc.before with hg | ⟨-, hnone⟩
      · rw [← hc.name, hm.lookup?_of_find? hg] at hl
        exact (hc.lookup? _).trans ((if_pos rfl).trans hl)
      · rw [hl] at hnone
        cases hnone
  · rw [lookup?_define_of_ne hm hn, hl]

theorem extends_define (hm : l.program.Settled) (d : Definition) :
    l.program.Extends (l.define d).2.program := by
  refine ⟨fun _ hl ↦ lookup?_define hm hl, fun {h f} hf _ ↦ ?_⟩
  rcases find?_define hm hf with hsame | ⟨-, hblocks, f', hf', hname, hcount⟩
  · exact ⟨f, hsame, rfl, rfl, fun _ ↦ rfl⟩
  · exact ⟨f', hf', hname, hcount, fun hbody ↦ absurd hblocks hbody⟩

theorem find?_declare (hm : l.program.Settled) (hf : l.program.find? h = some f) :
    (l.declare p).2.program.find? h = some f := by
  cases hl : l.program.lookup? p.name with
  | some h' => rwa [declare_of_lookup? hl]
  | none =>
    rw [find?_declare_of_ne hm, hf]
    rintro rfl
    rw [declare_of_lookup?_eq_none hl, hm.find?_declare_fst] at hf
    cases hf

theorem extends_declare (hm : l.program.Settled) (p : Prototype) :
    l.program.Extends (l.declare p).2.program := by
  refine ⟨fun {n h} _ hl ↦ ?_, fun hf _ ↦ ⟨_, find?_declare hm hf, rfl, rfl, fun _ ↦ rfl⟩⟩
  by_cases hn : n = p.name
  · subst hn
    rwa [declare_of_lookup? hl]
  · rw [lookup?_declare_of_ne l hn, hl]

end Lowering

/-- The name of the function that a statement is about. A top-level expression has none. -/
def Statement.subject : Statement → String
  | .definition d => d.proto.name
  | .declaration p => p.name
  | .expression _ => ""

private theorem Statement.subject_eq (s : Statement) : s.subject = s.proto.name := by
  cases s <;> rfl

namespace Session

variable {s s' : Session} {h : FunctionId} {f : Function}

/-- What has been lowered after a statement: the definition or declaration is made, and the function
of a top-level expression is gone again, unless its text could not be written. -/
theorem lowering_after_perform (hs : s.lowering.program.Settled) (statement : Statement) :
    (∃ d, statement.proto = d.proto ∧
      (after (perform statement) s).lowering = (s.lowering.define d).2) ∨
    (∃ p, statement.proto = p ∧
      (after (perform statement) s).lowering = (s.lowering.declare p).2) ∨
    ∃ d g f, statement.proto = d.proto ∧ d.proto.name = "" ∧
      (s.lowering.define d).2.program.find? g = some f ∧ f.name = "" ∧
      (after (perform statement) s).lowering.program = (s.lowering.define d).2.program.erase g := by
  rcases statement with d | p | e
  · exact .inl ⟨d, rfl, lowering_after_performDefinition d s⟩
  · exact .inr (.inl ⟨p, rfl, lowering_after_performDeclaration p s⟩)
  · have hafter := lowering_after_performExpression e s
    rcases hd : s.lowering.define (.ofExpr e) with ⟨err | g, l⟩
    · rw [hd] at hafter
      exact .inl ⟨.ofExpr e, rfl, by rw [hd]; exact hafter⟩
    · rw [hd] at hafter
      obtain ⟨-, f, v, steps, hc⟩ := Lowering.exists_completes hs hd
      rcases hafter with ⟨hkept, -⟩ | herased
      · exact .inl ⟨.ofExpr e, rfl, by rw [hd]; exact hkept⟩
      · refine .inr (.inr ⟨.ofExpr e, g, _, rfl, rfl, by rw [hd]; exact hc.find?_self, ?_, ?_⟩)
        · exact Function.name_completed.trans hc.name
        · rw [hd]
          exact congrArg Lowering.program herased

/-- **A statement changes no function of another name.** -/
theorem find?_after_perform (hs : s.lowering.program.Settled) {statement : Statement}
    (hf : s.lowering.program.find? h = some f) (hne : f.name ≠ statement.subject) :
    (after (perform statement) s).lowering.program.find? h = some f := by
  have hdefine : ∀ d : Definition, f.name ≠ d.proto.name →
      (s.lowering.define d).2.program.find? h = some f := by
    intro d hd
    rcases Lowering.find?_define hs hf with hsame | ⟨hname, -⟩
    · exact hsame
    · exact absurd hname hd
  rcases lowering_after_perform hs statement with
    ⟨d, hproto, hafter⟩ | ⟨p, -, hafter⟩ | ⟨d, g, f', hproto, hd, hf', hname, hafter⟩
  · rw [hafter]
    exact hdefine d (hproto ▸ statement.subject_eq ▸ hne)
  · rw [hafter]
    exact Lowering.find?_declare hs hf
  · rw [hafter]
    rw [statement.subject_eq, hproto] at hne
    exact Module.find?_erase_of_name_ne (hdefine d hne) hf' (by rwa [hname, ← hd])

private theorem extends_after_perform (hs : s.lowering.program.Settled) (statement : Statement) :
    s.lowering.program.Extends (after (perform statement) s).lowering.program := by
  rcases lowering_after_perform hs statement with
    ⟨d, -, hafter⟩ | ⟨p, -, hafter⟩ | ⟨d, g, f', -, -, hf', hname, hafter⟩
  · rw [hafter]
    exact Lowering.extends_define hs d
  · rw [hafter]
    exact Lowering.extends_declare hs p
  · rw [hafter]
    exact (Lowering.extends_define hs d).trans (Module.extends_erase hf' hname)

/-- A run extends what has been lowered. -/
theorem Leads.extends (h : Leads s s') (hs : ∃ T, s.lowering.program.Holds T) :
    s.lowering.program.Extends s'.lowering.program := by
  induction h with
  | refl => exact .refl _
  | @answer s' hleads i _ ih =>
    refine ih.trans ?_
    obtain ⟨T, hT⟩ := hleads.exists_holds hs
    cases i with
    | statement statement => exact extends_after_perform hT.toSettled statement
    | misread what =>
      rw [show after (actItem (.misread what)) s' = after (report _) s' from rfl, quiet_report]
      exact .refl _
  | aside _ hsame ih => rwa [hsame]

/-- Presenting a function writes its text as it is then, wherever the sink is full. -/
theorem run_present_eq {text : String} (htext : s.lowering.program.functionText? h = some text)
    (heading : String) :
    (present heading h).run s = (do write (heading ++ "\n"); write text).run s := by
  have hquiet := quiet_write (heading ++ "\n") s
  cases hrun : (write (heading ++ "\n")).run s with
  | error e s' => rw [present, EStateM.run_bind, EStateM.run_bind, hrun]
  | ok u s' =>
    rw [after_of_run_ok hrun] at hquiet
    have htext' : s'.lowering.program.functionText? h = some text := by rw [hquiet, htext]
    rw [present, run_bind_of_run_ok hrun, run_bind_of_run_ok hrun, EStateM.run_bind,
      EStateM.run_get]
    simp only [htext', printed, pure_bind]

/-- What has been defined stays, and so does its text, which is part of the text of the module. -/
theorem Leads.keeps_definition (h' : Leads s s') (hs : ∃ T, s.lowering.program.Holds T)
    (hf : s.lowering.program.find? h = some f) (hn : f.name ≠ "") (hbody : f.blocks ≠ []) :
    ∃ text before behind,
      s'.lowering.program.find? h = some f ∧
      s.lowering.program.functionText? h = some text ∧
      s'.lowering.program.functionText? h = some text ∧
      s'.lowering.program.text? = some (before ++ text ++ behind) := by
  obtain ⟨T', hT'⟩ := h'.exists_holds hs
  have hext := h'.extends hs
  obtain ⟨T, hT⟩ := hs
  obtain ⟨f', hf', -, -, hsame⟩ := hext.find? hf hn
  obtain rfl := hsame hbody
  obtain ⟨text, htext⟩ := hT.wellFormed.exists_functionText? h
  have htext' := (hext.functionText? hT.wellFormed hf hn hbody).trans htext
  obtain ⟨before, behind, hall⟩ :=
    Module.exists_text?_eq hT'.wellFormed (Option.isSome_iff_exists.mpr ⟨f', hf'⟩) htext'
  exact ⟨text, before, behind, hf', htext, htext', hall⟩

theorem exists_body_of_define {l l' : Lowering} (hm : l.program.Settled) {d : Definition}
    (hd : l.define d = (.ok h, l')) :
    ∃ f, l'.program.lookup? d.proto.name = some h ∧ l'.program.find? h = some f ∧
      f.name = d.proto.name ∧ f.blocks ≠ [] := by
  obtain ⟨-, f, v, steps, hc⟩ := Lowering.exists_completes hm hd
  refine ⟨_, (hc.lookup? _).trans (if_pos rfl), hc.find?_self,
    Function.name_completed.trans hc.name, ?_⟩
  rw [Function.blocks_completed hc.blocks hc.temps]
  exact List.cons_ne_nil _ _

/-- **Declarations and definitions are permanent.** At every later point of a run a name that has
been declared belongs to the same function, with as many parameters; and if that has a body, the
function is the same, it has the same text, and the text is part of that of the module. A definition
that is accepted is answered with a text that is the text of its function ever after, and part of
the text of the module. A statement about one function leaves every other live one as it is. -/
theorem definitions_are_permanent (hs : s.Reachable) :
    (∀ s', Leads s s' → ∀ n h, n ≠ "" → s.lowering.program.lookup? n = some h →
      s'.lowering.program.lookup? n = some h ∧
      s'.lowering.program.paramCount h = s.lowering.program.paramCount h ∧
      ∀ f, s.lowering.program.find? h = some f → f.blocks ≠ [] → ∃ text before behind,
        s'.lowering.program.find? h = some f ∧
        s.lowering.program.functionText? h = some text ∧
        s'.lowering.program.functionText? h = some text ∧
        s'.lowering.program.text? = some (before ++ text ++ behind)) ∧
    (∀ d h l, d.Named → s.lowering.define d = (.ok h, l) → ∃ lines text,
      (∀ n ∈ lines, n.plain? = none) ∧
      (performDefinition d).run s =
        (do write ("Read function definition:" ++ "\n"); write text).run
          { s.noted lines with lowering := l } ∧
      ∀ s', Leads (after (performDefinition d) s) s' → ∃ before behind,
        s'.lowering.program.lookup? d.proto.name = some h ∧
        s'.lowering.program.functionText? h = some text ∧
        s'.lowering.program.text? = some (before ++ text ++ behind)) ∧
    ∀ statement h f, s.lowering.program.find? h = some f → f.name ≠ statement.subject →
      (after (perform statement) s).lowering.program.find? h = some f := by
  obtain ⟨T, hT⟩ := hs.exists_holds
  refine ⟨fun s' hleads n h hn hl ↦ ?_, fun d h l hnamed hd ↦ ?_,
    fun statement h f ↦ find?_after_perform hT.toSettled⟩
  · obtain ⟨f, hf, rfl⟩ := hT.find?_of_lookup? hl
    have hext := hleads.extends ⟨T, hT⟩
    refine ⟨hext.lookup? hn hl, hext.paramCount hf hn, fun f' hf' hbody ↦ ?_⟩
    obtain rfl := Option.some.inj (hf.symm.trans hf')
    exact hleads.keeps_definition ⟨T, hT⟩ hf hn hbody
  · have hafter : (after (performDefinition d) s).lowering = l := by
      rw [lowering_after_performDefinition, hd]
    obtain ⟨f, hl, hf, hname, hbody⟩ := exists_body_of_define hT.toSettled hd
    have hn : f.name ≠ "" := hname ▸ hnamed.proto
    have hT' := Lowering.holds_define hT hnamed.body hd
    obtain ⟨text, htext⟩ := hT'.wellFormed.exists_functionText? h
    obtain ⟨lines, hlines, hrun⟩ := run_performDefinition d s
    rw [hd] at hrun
    refine ⟨lines, text, hlines, hrun.trans (run_present_eq htext _), fun s' hleads ↦ ?_⟩
    rw [← hafter] at hl hf hT' htext
    obtain ⟨text', before, behind, -, htext', hlater, hall⟩ :=
      hleads.keeps_definition ⟨_, hT'⟩ hf hn hbody
    obtain rfl := Option.some.inj (htext.symm.trans htext')
    exact ⟨before, behind, (hleads.extends ⟨_, hT'⟩).lookup? hnamed.proto hl, hlater, hall⟩

/-- The identity stays what it is in every run that goes on from its definition. -/
theorem identity_is_permanent :
    let d : Definition := ⟨⟨"f", ["x"]⟩, .name "x"⟩
    let s := after (performDefinition d) (start "m" true)
    Reachable s ∧ ∀ s', Leads s s' →
      s'.lowering.program.lookup? "f" = some ⟨0, 0⟩ ∧
      s'.lowering.program.find? ⟨0, 0⟩ =
        some ⟨"f", ["x"], [⟨"entry", [⟨none, .ret (.param 0)⟩]⟩], []⟩ := by
  intro d s
  have hs : Reachable s :=
    ⟨"m", true, .answer .refl (i := .statement (.definition d)) ⟨show "f" ≠ "" by decide, trivial⟩⟩
  have hlowering : s.lowering = ((start "m" true).lowering.define d).2 :=
    lowering_after_performDefinition d _
  refine ⟨hs, fun s' hleads ↦ ?_⟩
  obtain ⟨hl, -, hbody⟩ := (definitions_are_permanent hs).1 s' hleads "f" ⟨0, 0⟩ (by decide)
    (by rw [hlowering]; rfl)
  obtain ⟨-, -, -, hf, -⟩ := hbody ⟨"f", ["x"], [⟨"entry", [⟨none, .ret (.param 0)⟩]⟩], []⟩
    (by rw [hlowering]; rfl) nofun
  exact ⟨hl, hf⟩

end Session

end FloatLang
