import FloatLang.Proofs.Definition
import FloatLang.Ssa.Print
import FloatLang.Ssa.Run

/-!
# Failed definitions

A definition that fails is taken back. What can be observed of a module is the function that each
name belongs to, the text, the number of parameters and the running of each function, and the text
of the whole; `Alike` says that two modules agree on all of it. By this measure a failed definition
leaves a module as it was, with one exception: a function that had been declared before keeps the
names that the failed definition gave to its parameters.

The exception is not always visible. `define_error_alike_iff` says exactly when it is: when the
header of that declaration reads differently afterwards.
-/

namespace FloatLang

open Ssa

namespace Ssa

/-- Nothing but the text of the header can tell a declaration from another one, and nothing at all
one definition from another. -/
structure Function.SameLook (f g : Function) : Prop where
  name : f.name = g.name
  length_params : f.params.length = g.params.length
  blocks : f.blocks = g.blocks
  temps : f.temps = g.temps
  paramsText : f.paramsText = g.paramsText
  params : f.blocks = [] ∨ f.params = g.params

theorem Function.SameLook.refl (f : Function) : f.SameLook f :=
  ⟨rfl, rfl, rfl, rfl, rfl, .inr rfl⟩

namespace Module

/-- All that can be observed of one module can be observed of the other. -/
structure Alike (m m' : Module) : Prop where
  /-- The names belong to the same functions. -/
  lookup? : ∀ name, m.lookup? name = m'.lookup? name
  /-- The same handles are live. -/
  live : ∀ h, (m.find? h).isSome = (m'.find? h).isSome
  /-- The functions have the same text, the names of the parameters included. -/
  functionText? : ∀ h, m.functionText? h = m'.functionText? h
  /-- The same functions have a body. -/
  hasBody : ∀ h, m.hasBody h = m'.hasBody h
  /-- The functions have the same number of parameters. -/
  paramCount : ∀ h, m.paramCount h = m'.paramCount h
  /-- The functions run alike, on any arguments. -/
  run : ∀ h args, m.run h args = m'.run h args
  /-- The modules have the same text. -/
  text? : m.text? = m'.text?

theorem Alike.refl (m : Module) : m.Alike m :=
  ⟨fun _ ↦ rfl, fun _ ↦ rfl, fun _ ↦ rfl, fun _ ↦ rfl, fun _ ↦ rfl, fun _ _ ↦ rfl, rfl⟩

theorem Alike.symm {m m' : Module} (hm : m.Alike m') : m'.Alike m :=
  ⟨fun n ↦ (hm.lookup? n).symm, fun h ↦ (hm.live h).symm, fun h ↦ (hm.functionText? h).symm,
    fun h ↦ (hm.hasBody h).symm, fun h ↦ (hm.paramCount h).symm,
    fun h args ↦ (hm.run h args).symm, hm.text?.symm⟩

theorem Alike.trans {m m' m'' : Module} (hm : m.Alike m') (hm' : m'.Alike m'') : m.Alike m'' :=
  ⟨fun n ↦ (hm.lookup? n).trans (hm'.lookup? n), fun h ↦ (hm.live h).trans (hm'.live h),
    fun h ↦ (hm.functionText? h).trans (hm'.functionText? h),
    fun h ↦ (hm.hasBody h).trans (hm'.hasBody h),
    fun h ↦ (hm.paramCount h).trans (hm'.paramCount h),
    fun h args ↦ (hm.run h args).trans (hm'.run h args), hm.text?.trans hm'.text?⟩

theorem definitionText?_of_blocks_eq_nil (m : Module) {f : Function} (hblocks : f.blocks = []) :
    m.definitionText? f =
      some ("declare double " ++ f.globalName ++ "(" ++ f.paramsText ++ ")\n") := by
  rw [definitionText?, if_neg (by simp [Function.hasBody, hblocks])]
  rfl

section SameLook

variable {m m' : Module}
  (hfind : ∀ h, m.find? h = none ∧ m'.find? h = none ∨
    ∃ f f', m.find? h = some f ∧ m'.find? h = some f' ∧ f.SameLook f')
include hfind

private theorem live_eq (h : FunctionId) : (m.find? h).isSome = (m'.find? h).isSome := by
  obtain ⟨hf, hf'⟩ | ⟨f, f', hf, hf', -⟩ := hfind h
  · rw [hf, hf']
  · rw [hf, hf']
    rfl

/-- Running depends on names, numbers of parameters and bodies only. -/
private theorem call_eq (frames : Nat) :
    ∀ (h : FunctionId) (args : List Double), m.call frames h args = m'.call frames h args := by
  induction frames with
  | zero => exact fun _ _ ↦ rfl
  | succ frames ih =>
    intro h args
    have hcall : m.call frames = m'.call frames := by
      funext h args
      exact ih h args
    rw [Module.call, Module.call]
    obtain ⟨hf, hf'⟩ | ⟨f, f', hf, hf', hlook⟩ := hfind h
    · rw [hf, hf']
    · rw [hf, hf']
      simp only [hlook.name, hlook.length_params, hlook.blocks, hcall, Frame.enter, hlook.temps]

private theorem calleeText_eq : m.calleeText = m'.calleeText := by
  funext h
  rw [calleeText, calleeText]
  obtain ⟨hf, hf'⟩ | ⟨f, f', hf, hf', hlook⟩ := hfind h
  · rw [hf, hf']
  · rw [hf, hf', Option.map_some, Option.map_some, Function.globalName, Function.globalName,
      hlook.name]

private theorem functionText?_eq (h : FunctionId) : m.functionText? h = m'.functionText? h := by
  have hop : m.operationText? = m'.operationText? := by
    funext f op
    cases op <;> simp only [operationText?, calleeText_eq hfind]
  have hblock : m.blockText? = m'.blockText? := by
    have hinst : m.instructionText? = m'.instructionText? := by
      funext f i
      simp only [instructionText?, hop]
    funext f b
    simp only [blockText?, hinst]
  rw [functionText?, functionText?]
  obtain ⟨hf, hf'⟩ | ⟨f, f', hf, hf', hlook⟩ := hfind h
  · rw [hf, hf']
  · rw [hf, hf']
    simp only
    obtain hempty | hparams := hlook.params
    · rw [definitionText?_of_blocks_eq_nil m hempty,
        definitionText?_of_blocks_eq_nil m' (hlook.blocks ▸ hempty), Function.globalName,
        Function.globalName, hlook.name, hlook.paramsText]
    · have hfg : f = f' := by
        cases f
        cases f'
        obtain ⟨hname, -, hblocks, htemps, -, -⟩ := hlook
        simp_all
      simp only [hfg, definitionText?, hblock]

private theorem alike_of_sameLook (hlookup : ∀ name, m.lookup? name = m'.lookup? name)
    (hname : m.name = m'.name) : m.Alike m' := by
  have htext : m.functionText? = m'.functionText? := by
    funext h
    exact functionText?_eq hfind h
  refine ⟨hlookup, live_eq hfind, functionText?_eq hfind, fun h ↦ ?_, fun h ↦ ?_,
    call_eq hfind _, ?_⟩
  · rw [hasBody, hasBody]
    obtain ⟨hf, hf'⟩ | ⟨f, f', hf, hf', hlook⟩ := hfind h
    · rw [hf, hf']
    · rw [hf, hf', Option.map_some, Option.map_some, Function.hasBody, Function.hasBody,
        hlook.blocks]
  · rw [paramCount, paramCount]
    obtain ⟨hf, hf'⟩ | ⟨f, f', hf, hf', hlook⟩ := hfind h
    · rw [hf, hf']
    · rw [hf, hf', Option.map_some, Option.map_some, hlook.length_params]
  · simp only [text?, htext, handles_congr (live_eq hfind), hname]

end SameLook

private theorem append_cancel {a b b' c : String} (h : a ++ b ++ c = a ++ b' ++ c) : b = b' := by
  have hlist := congrArg String.toList h
  rw [String.toList_append, String.toList_append, String.toList_append, String.toList_append,
    List.append_left_inj, List.append_right_inj] at hlist
  exact String.toList_inj.mp hlist

private theorem paramsText_eq_of_functionText? {m m' : Module} {h : FunctionId} {f f' : Function}
    (hf : m.find? h = some f) (hf' : m'.find? h = some f') (hblocks : f.blocks = [])
    (hblocks' : f'.blocks = []) (hname : f.name = f'.name)
    (htext : m.functionText? h = m'.functionText? h) : f.paramsText = f'.paramsText := by
  rw [functionText?, functionText?, hf, hf'] at htext
  simp only [definitionText?_of_blocks_eq_nil _ hblocks,
    definitionText?_of_blocks_eq_nil _ hblocks', Function.globalName, hname,
    Option.some.injEq] at htext
  exact append_cancel htext

end Module

end Ssa

/-! ## Failing -/

namespace Lowering

/-- A way in which a client changes a module. -/
inductive Edit
  | define (d : Definition)
  | declare (p : Prototype)
  | erase (h : FunctionId)

/-- Makes a change, whether or not it fails. -/
def edit (l : Lowering) : Edit → Lowering
  | .define d => (l.define d).2
  | .declare p => (l.declare p).2
  | .erase h => { l with program := l.program.erase h }

def edited (l : Lowering) (edits : List Edit) : Lowering := edits.foldl edit l

theorem settled_edited {l : Lowering} (hl : l.program.Settled) (edits : List Edit) :
    (l.edited edits).program.Settled := by
  induction edits generalizing l with
  | nil => exact hl
  | cons e edits ih =>
    refine ih ?_
    cases e with
    | define d => exact settled_define hl d
    | declare p => exact settled_declare hl p
    | erase h => exact hl.erase h

private theorem alike_remnant {l l' : Lowering} {d : Definition} {e : LoweringError}
    (hl : l.program.Settled) (hd : l.define d = (.error e, l')) :
    l'.program.Alike (remnant l.program d.proto) := by
  obtain ⟨hlookup, hfind⟩ := views_of_define_error hl hd
  have hname := name_define hl d
  rw [hd] at hname
  refine Module.alike_of_sameLook (fun h ↦ ?_) (fun n ↦ ?_) (hname.trans ?_)
  · rw [hfind]
    cases hf : (remnant l.program d.proto).find? h with
    | none => exact .inl ⟨rfl, rfl⟩
    | some f => exact .inr ⟨f, f, rfl, rfl, .refl f⟩
  · rw [hlookup, remnant]
    split <;> rfl
  · rw [remnant]
    split <;> rfl

/-- A definition of a function that there is goes on if and only if the function is a declaration
with as many parameters. -/
theorem refusal?_eq_none_iff {m : Module} {proto : Prototype} {h : FunctionId} {f : Function}
    (hl : m.lookup? proto.name = some h) (hf : m.find? h = some f) :
    refusal? m proto = none ↔ f.blocks = [] ∧ f.params.length = proto.params.length := by
  rw [refusal?, hl]
  simp only [Module.hasBody_of_find? hf, Module.paramCount_of_find? hf, Function.hasBody]
  by_cases hblocks : f.blocks = []
  · by_cases hcount : f.params.length = proto.params.length <;> simp [hblocks, hcount]
  · simp [hblocks]

/-- The remnant of a definition looks like the module before it if and only if the header of the
declaration that it was about reads the same. -/
theorem remnant_alike_iff (m : Module) (proto : Prototype) :
    (remnant m proto).Alike m ↔
      ∀ h f, m.lookup? proto.name = some h → m.find? h = some f → f.blocks = [] →
        f.params.length = proto.params.length →
        (f.renamed proto.params).paramsText = f.paramsText := by
  constructor
  · intro halike h f hl hf hblocks hcount
    have hr := (refusal?_eq_none_iff hl hf).mpr ⟨hblocks, hcount⟩
    rw [remnant, hr, hl] at halike
    -- the text of the function is observed, and it tells the text of the parameters
    refine Module.paramsText_eq_of_functionText? ?_ hf (by simpa using hblocks) hblocks
      (f.name_renamed _) (halike.functionText? h)
    rw [Module.find?_update_self, hf]
    rfl
  · intro hsame
    cases hr : refusal? m proto with
    | some e =>
      rw [remnant, hr]
      exact .refl m
    | none =>
      cases hl : m.lookup? proto.name with
      | none =>
        rw [remnant, hr, hl]
        exact .refl m
      | some h =>
        rw [remnant, hr, hl]
        refine Module.alike_of_sameLook (fun h' ↦ ?_) (fun _ ↦ rfl) rfl
        rw [Module.find?_update]
        cases hf : m.find? h' with
        | none => simp
        | some f =>
          by_cases hh : h' = h
          · subst hh
            obtain ⟨hblocks, hcount⟩ := (refusal?_eq_none_iff hl hf).mp hr
            refine .inr ⟨f.renamed proto.params, f, by simp, rfl, f.name_renamed _,
              f.length_params_renamed _, f.blocks_renamed _, f.temps_renamed _,
              hsame h' f hl hf hblocks hcount, .inl ?_⟩
            rw [Function.blocks_renamed, hblocks]
          · exact .inr ⟨f, f, by simp [hh], rfl, .refl f⟩

/-- **A failed definition leaves everything as it was but the names of declared parameters.** The
module afterwards cannot be told from its remnant; and it can be told from the module before if and
only if the definition was about a declaration, with as many parameters, whose header reads
differently under the new names. -/
theorem define_error_alike_iff (name : String) (edits : List Edit) (d : Definition)
    (e : LoweringError) (he : (((empty name).edited edits).define d).1 = .error e) :
    let l := (empty name).edited edits
    let l' := (l.define d).2
    l'.program.Alike (remnant l.program d.proto) ∧
      (l'.program.Alike l.program ↔
        ∀ h f, l.program.lookup? d.proto.name = some h → l.program.find? h = some f →
          f.blocks = [] → f.params.length = d.proto.params.length →
          (f.renamed d.proto.params).paramsText = f.paramsText) := by
  intro l l'
  have hl : l.program.Settled := settled_edited (Module.settled_empty name) edits
  have hrem : l'.program.Alike (remnant l.program d.proto) :=
    alike_remnant hl (Prod.ext he rfl : l.define d = (.error e, l'))
  refine ⟨hrem, Iff.trans ?_ (remnant_alike_iff l.program d.proto)⟩
  exact ⟨fun h ↦ hrem.symm.trans h, fun h ↦ hrem.trans h⟩

/-- A declaration `g(x)` reads `g(y)` after a failed definition of `g(y)`. -/
theorem not_alike_of_failed_definition :
    let l := (empty "m").edited [.declare ⟨"g", ["x"]⟩]
    let d : Definition := ⟨⟨"g", ["y"]⟩, .name "z"⟩
    (l.define d).1 = .error (.unknownVariable "z") ∧
      ¬(l.define d).2.program.Alike l.program := by
  have he : (((empty "m").edited [.declare ⟨"g", ["x"]⟩]).define
      ⟨⟨"g", ["y"]⟩, .name "z"⟩).1 = .error (.unknownVariable "z") := rfl
  refine ⟨he, fun halike ↦ ?_⟩
  have hsame := (define_error_alike_iff "m" [.declare ⟨"g", ["x"]⟩] ⟨⟨"g", ["y"]⟩, .name "z"⟩
    (.unknownVariable "z") he).2.mp halike ⟨0, 0⟩ ⟨"g", ["x"], [], []⟩ rfl rfl rfl rfl
  revert hsame
  decide

end Lowering

end FloatLang
