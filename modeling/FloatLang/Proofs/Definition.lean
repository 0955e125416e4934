import FloatLang.Proofs.Translation

/-!
# What lowering a statement does to a module

Lowering a definition goes through a declaration, a new block, new names for the parameters, the
body, and possibly the way back. All of it happens to one function, so that the outcome can be said
in one line each: `define_cases` lists the three ways a definition can end, with the function that
it leaves behind.

A function without a body has no temporaries, which is what makes the temporaries of a body start
from zero. `Settled` adds this to the consistency of the store; it holds between any two
definitions, whatever has been erased in between.
-/

namespace FloatLang

open Ssa

namespace Ssa

/-! ## The names of parameters -/

@[simp] theorem length_freshParams (params : List String) :
    (freshParams params).length = params.length := by
  have hfold : ∀ named : List String,
      (params.foldl (fun named p ↦ named ++ [freshName named p]) named).length
        = named.length + params.length := by
    induction params with
    | nil => exact fun _ ↦ rfl
    | cons p params ih =>
      intro named
      rw [List.foldl_cons, ih, List.length_append, List.length_cons, List.length_cons,
        List.length_nil]
      omega
  exact (hfold []).trans (Nat.zero_add _)

namespace Function

/-- Gives the parameters the names in the list, from left to right. -/
def renamed (f : Function) (params : List String) : Function :=
  params.zipIdx.foldl (fun f (name, i) ↦ f.nameParam i name) f

/-- What naming parameters does to the other parts of a function. -/
private theorem foldl_nameParam_frame (named : List (String × Nat)) :
    ∀ f : Function,
      (named.foldl (fun f (name, i) ↦ f.nameParam i name) f).name = f.name ∧
      (named.foldl (fun f (name, i) ↦ f.nameParam i name) f).params.length = f.params.length ∧
      (named.foldl (fun f (name, i) ↦ f.nameParam i name) f).blocks = f.blocks ∧
      (named.foldl (fun f (name, i) ↦ f.nameParam i name) f).temps = f.temps := by
  induction named with
  | nil => exact fun f ↦ ⟨rfl, rfl, rfl, rfl⟩
  | cons p named ih =>
    intro f
    obtain ⟨hname, hparams, hblocks, htemps⟩ := ih (f.nameParam p.2 p.1)
    exact ⟨hname, hparams.trans (length_params_nameParam f p.2 p.1), hblocks, htemps⟩

@[simp] theorem name_renamed (f : Function) (params : List String) :
    (f.renamed params).name = f.name := (foldl_nameParam_frame params.zipIdx f).1

@[simp] theorem length_params_renamed (f : Function) (params : List String) :
    (f.renamed params).params.length = f.params.length :=
  (foldl_nameParam_frame params.zipIdx f).2.1

@[simp] theorem blocks_renamed (f : Function) (params : List String) :
    (f.renamed params).blocks = f.blocks := (foldl_nameParam_frame params.zipIdx f).2.2.1

@[simp] theorem temps_renamed (f : Function) (params : List String) :
    (f.renamed params).temps = f.temps := (foldl_nameParam_frame params.zipIdx f).2.2.2

/-! ## The stages of a definition -/

/-- The function with a new block and its parameters named anew. -/
def opened (f : Function) (params : List String) : Function :=
  renamed { f with blocks := f.blocks ++ [⟨"entry", []⟩] } params

/-- The function whose body computes the steps and returns `v`. -/
def completed (f : Function) (params : List String) (steps : List Step) (v : Value) : Function :=
  ((f.opened params).addSteps 0 steps).addInstruction 0 ⟨none, .ret v⟩

end Function

/-- The instructions that carry out steps, the results numbered from `n` on. -/
def code (n : Nat) : List Step → List Instruction
  | [] => []
  | s :: steps => ⟨some n, s.operation⟩ :: code (n + 1) steps

@[simp] theorem length_code (steps : List Step) : ∀ n, (code n steps).length = steps.length := by
  induction steps with
  | nil => exact fun _ ↦ rfl
  | cons s steps ih => exact fun n ↦ by rw [code, List.length_cons, ih, List.length_cons]

theorem code_append (steps later : List Step) :
    ∀ n, code n (steps ++ later) = code n steps ++ code (n + steps.length) later := by
  induction steps with
  | nil => exact fun _ ↦ rfl
  | cons s steps ih =>
    intro n
    rw [List.cons_append, code, ih, code, List.cons_append, List.length_cons,
      show n + 1 + steps.length = n + (steps.length + 1) by omega]

theorem getElem?_code (steps : List Step) :
    ∀ n k : Nat, (code n steps)[k]? =
      steps[k]?.map fun s ↦ (⟨some (n + k), s.operation⟩ : Instruction) := by
  induction steps with
  | nil => exact fun _ _ ↦ rfl
  | cons s steps ih =>
    intro n k
    cases k with
    | zero => rfl
    | succ k =>
      rw [code, List.getElem?_cons_succ, ih, List.getElem?_cons_succ,
        show n + 1 + k = n + (k + 1) by omega]

namespace Function

theorem blocks_addSteps {f : Function} {b : Block} (steps : List Step) (hb : f.blocks = [b]) :
    (f.addSteps 0 steps).blocks =
      [{ b with instructions := b.instructions ++ code f.temps.length steps }] := by
  induction steps generalizing f b with
  | nil => simp [addSteps, hb, code]
  | cons s steps ih =>
    have hone : (f.addOperation 0 s.operation (some s.base)).blocks =
        [{ b with instructions := b.instructions ++ [⟨some f.temps.length, s.operation⟩] }] := by
      simp [addOperation, addInstruction, addTemp, hb]
    have htemps : (f.addOperation 0 s.operation (some s.base)).temps.length
        = f.temps.length + 1 := length_temps_addTemp f s.base
    have hrest := ih hone
    rw [htemps, List.append_assoc] at hrest
    exact hrest

variable {f : Function} {params : List String} {steps : List Step} {v : Value}

@[simp] theorem name_completed : (f.completed params steps v).name = f.name := by
  show ((f.opened params).addSteps 0 steps).name = f.name
  rw [name_addSteps, opened, name_renamed]

@[simp] theorem length_params_completed :
    (f.completed params steps v).params.length = f.params.length := by
  show ((f.opened params).addSteps 0 steps).params.length = f.params.length
  rw [params_addSteps, opened, length_params_renamed]

theorem length_temps_completed (htemps : f.temps = []) :
    (f.completed params steps v).temps.length = steps.length := by
  show ((f.opened params).addSteps 0 steps).temps.length = steps.length
  rw [length_temps_addSteps, opened, temps_renamed, htemps, List.length_nil, Nat.zero_add]

theorem blocks_completed (hblocks : f.blocks = []) (htemps : f.temps = []) :
    (f.completed params steps v).blocks =
      [⟨"entry", code 0 steps ++ [⟨none, .ret v⟩]⟩] := by
  have hopened : (f.opened params).blocks = [⟨"entry", []⟩] := by
    rw [opened, blocks_renamed, hblocks, List.nil_append]
  have hnone : (f.opened params).temps.length = 0 := by
    rw [opened, temps_renamed, htemps, List.length_nil]
  rw [completed, addInstruction, blocks_addSteps steps hopened, hnone]
  simp

/-- What taking a body back leaves of a function that had none. -/
private theorem withoutBody_addSteps_opened (hblocks : f.blocks = []) (htemps : f.temps = []) :
    ((f.opened params).addSteps 0 steps).withoutBody = f.renamed params := by
  have hopened : ∀ g : Function, g.blocks = [] → g.temps = [] →
      g = ⟨g.name, g.params, [], []⟩ := by
    rintro ⟨name, ps, blocks, temps⟩ rfl rfl
    rfl
  have hren : f.renamed params = ⟨f.name, (f.renamed params).params, [], []⟩ := by
    rw [hopened (f.renamed params) (by rw [blocks_renamed, hblocks])
      (by rw [temps_renamed, htemps]), name_renamed]
  -- the new block does not count for the names, and there are no temporaries that would
  have hparams : (f.opened params).params = (f.renamed params).params := by
    have hfold : ∀ (named : List (String × Nat)) (g g' : Function), g.params = g'.params →
        g.temps = g'.temps →
        (named.foldl (fun f (name, i) ↦ f.nameParam i name) g).params
          = (named.foldl (fun f (name, i) ↦ f.nameParam i name) g').params := by
      intro named
      induction named with
      | nil => exact fun _ _ h _ ↦ h
      | cons p named ih =>
        intro g g' hp ht
        refine ih _ _ ?_ ht
        simp only [nameParam, namesBeside, hp, ht]
    exact hfold params.zipIdx _ _ rfl rfl
  rw [withoutBody, name_addSteps, params_addSteps, hren, hparams, opened, name_renamed]

end Function

/-! ## Between definitions -/

namespace Module

/-- A consistent module in which a function without a body has no temporaries either. -/
structure Settled (m : Module) : Prop extends m.Consistent where
  /-- Temporaries come with a body. -/
  temps_eq_nil : ∀ {h f}, m.find? h = some f → f.blocks = [] → f.temps = []

variable {m : Module} {h : FunctionId} {f : Function}

theorem settled_empty (name : String) : (empty name).Settled where
  toConsistent := consistent_empty name
  temps_eq_nil := by simp [empty, find?]

theorem callee?_of_find? {name : String} (hl : m.lookup? name = some h)
    (hf : m.find? h = some f) : m.callee? name = some (h, f.params.length) := by
  rw [callee?, hl, Option.map_some, paramCount_of_find? hf]

/-- Neither the cursor nor a change that keeps the number of parameters affects what calls refer
to. -/
theorem callee?_update {cursor : Option BlockId} {change : Function → Function}
    (hchange : ∀ f, (change f).params.length = f.params.length) :
    ({ m.update h change with cursor } : Module).callee? = m.callee? := by
  have hcount : ∀ h', ({ m.update h change with cursor } : Module).paramCount h'
      = m.paramCount h' := by
    intro h'
    have hfind : ({ m.update h change with cursor } : Module).find? h'
        = (m.update h change).find? h' := rfl
    rw [paramCount, paramCount, hfind, find?_update]
    by_cases hh : h' = h
    · rw [if_pos hh, Option.map_map]
      congr 2
      funext f
      exact hchange f
    · rw [if_neg hh]
  funext name
  rw [callee?, callee?]
  simp only [hcount]
  rfl

namespace Settled

theorem erase (hm : m.Settled) (h : FunctionId) : (m.erase h).Settled where
  toConsistent := hm.toConsistent.erase h
  temps_eq_nil := fun {h' f} hf hb ↦ by
    rw [find?_erase] at hf
    by_cases hh : h' = h
    · simp [hh] at hf
    · rw [if_neg hh] at hf
      exact hm.temps_eq_nil hf hb

theorem declare (hm : m.Settled) {n : String} (hn : m.lookup? n = none) (params : List String) :
    (m.declare n params).2.Settled where
  toConsistent := hm.toConsistent.declare hn params
  temps_eq_nil := fun {h' f} hf hb ↦ by
    rw [hm.find?_declare] at hf
    by_cases hh : h' = (m.declare n params).1
    · rw [if_pos hh, Option.some.injEq] at hf
      subst hf
      rfl
    · rw [if_neg hh] at hf
      exact hm.temps_eq_nil hf hb

end Settled

end Module

end Ssa

/-! ## Declarations -/

namespace Lowering

variable {l : Lowering}

theorem declare_of_lookup? {proto : Prototype} {h : FunctionId}
    (hl : l.program.lookup? proto.name = some h) : l.declare proto = (h, l) := by
  rw [declare, hl]

theorem declare_of_lookup?_eq_none {proto : Prototype}
    (hl : l.program.lookup? proto.name = none) :
    l.declare proto = ((l.program.declare proto.name proto.params).1,
      { l with program := (l.program.declare proto.name proto.params).2 }) := by
  rw [declare, hl]

theorem settled_declare (hm : l.program.Settled) (proto : Prototype) :
    (l.declare proto).2.program.Settled := by
  cases hl : l.program.lookup? proto.name with
  | some h =>
    rw [declare_of_lookup? hl]
    exact hm
  | none =>
    rw [declare_of_lookup?_eq_none hl]
    exact hm.declare hl proto.params

theorem lookup?_declare_self (l : Lowering) (proto : Prototype) :
    (l.declare proto).2.program.lookup? proto.name = some (l.declare proto).1 := by
  cases hl : l.program.lookup? proto.name with
  | some h => rw [declare_of_lookup? hl, hl]
  | none =>
    rw [declare_of_lookup?_eq_none hl]
    exact (Module.lookup?_declare _ _ _ _).trans (if_pos ⟨rfl, hl⟩)

theorem lookup?_declare_of_ne (l : Lowering) {proto : Prototype} {name : String}
    (hne : name ≠ proto.name) :
    (l.declare proto).2.program.lookup? name = l.program.lookup? name := by
  cases hl : l.program.lookup? proto.name with
  | some h => rw [declare_of_lookup? hl]
  | none =>
    rw [declare_of_lookup?_eq_none hl]
    exact (Module.lookup?_declare _ _ _ _).trans (if_neg fun hc ↦ hne hc.1)

theorem find?_declare_of_ne (hm : l.program.Settled) {proto : Prototype} {h' : FunctionId}
    (hne : h' ≠ (l.declare proto).1) :
    (l.declare proto).2.program.find? h' = l.program.find? h' := by
  cases hl : l.program.lookup? proto.name with
  | some h => rw [declare_of_lookup? hl]
  | none =>
    rw [declare_of_lookup?_eq_none hl] at hne ⊢
    exact (hm.find?_declare _ _ _).trans (if_neg hne)

/-! ## Definitions -/

theorem nameParams_eq_update (m : Module) (h : FunctionId) (params : List String) :
    nameParams m h params = m.update h fun f ↦ f.renamed params := by
  have hfold : ∀ (named : List (String × Nat)) (m : Module),
      named.foldl (fun m (name, i) ↦ m.nameParam h i name) m
        = m.update h fun f ↦ named.foldl (fun f (name, i) ↦ f.nameParam i name) f := by
    intro named
    induction named with
    | nil => exact fun m ↦ (m.update_id h).symm
    | cons p named ih =>
      intro m
      rw [List.foldl_cons, ih]
      exact Module.update_update m h _ _
  exact hfold params.zipIdx m

theorem enterBody_eq {m : Module} {h : FunctionId} {f : Function} (hf : m.find? h = some f)
    (params : List String) :
    enterBody m h params =
      { m.update h fun f ↦ f.opened params with cursor := some ⟨h, f.blocks.length⟩ } := by
  rw [enterBody, Module.appendBlock, hf]
  simp only [nameParams_eq_update, Module.update_update, Module.positionAtEnd]
  rfl

/-- A definition that is not refused is about a function without a body, and with as many
parameters. -/
private theorem exists_find?_declare (hm : l.program.Settled) {proto : Prototype}
    (hr : refusal? l.program proto = none) :
    ∃ f, (l.declare proto).2.program.find? (l.declare proto).1 = some f ∧
      f.name = proto.name ∧ f.params.length = proto.params.length ∧ f.blocks = [] ∧
      f.temps = [] := by
  cases hl : l.program.lookup? proto.name with
  | none =>
    rw [declare_of_lookup?_eq_none hl]
    refine ⟨_, (hm.find?_declare _ _ _).trans (if_pos rfl), rfl, ?_, rfl, rfl⟩
    exact length_freshParams proto.params
  | some h =>
    rw [declare_of_lookup? hl]
    obtain ⟨f, hf, hname⟩ := hm.find?_of_lookup? hl
    rw [refusal?, hl] at hr
    simp only [Module.hasBody_of_find? hf, Module.paramCount_of_find? hf] at hr
    have hbody : f.hasBody = false := by
      by_contra hbody
      rw [if_pos (by simpa using hbody)] at hr
      cases hr
    have hcount : f.params.length = proto.params.length := by
      by_contra hcount
      rw [hbody, if_neg (by simp), if_pos hcount] at hr
      cases hr
    have hblocks : f.blocks = [] := by simpa [Function.hasBody] using hbody
    exact ⟨f, hf, hname, hcount, hblocks, hm.temps_eq_nil hf hblocks⟩

/-- What the names in the body of a definition refer to when they are called: the function itself,
and the functions that there are. -/
def calleeIn (m : Module) (proto : Prototype) (h : FunctionId) (name : String) :
    Option (FunctionId × Nat) :=
  if name = proto.name then some (h, proto.params.length) else m.callee? name

private theorem callee?_declare (hm : l.program.Settled) {proto : Prototype}
    (hr : refusal? l.program proto = none) :
    (l.declare proto).2.program.callee? = calleeIn l.program proto (l.declare proto).1 := by
  obtain ⟨f, hf, hname, hcount, -, -⟩ := exists_find?_declare hm hr
  have hself := lookup?_declare_self l proto
  funext name
  rw [calleeIn]
  by_cases hn : name = proto.name
  · rw [if_pos hn, hn, Module.callee?_of_find? hself hf, hcount]
  · rw [if_neg hn, Module.callee?, Module.callee?, lookup?_declare_of_ne l hn]
    cases hl : l.program.lookup? name with
    | none => rfl
    | some h' =>
      -- another name belongs to another function, whose parameters are what they were
      have hne : h' ≠ (l.declare proto).1 := by
        intro e
        have hl' := (lookup?_declare_of_ne l hn).trans hl
        obtain ⟨g, hg, hgname⟩ := (settled_declare hm proto).find?_of_lookup? hl'
        rw [e, hf] at hg
        obtain rfl := Option.some.inj hg
        exact hn (hgname.symm.trans hname)
      rw [Option.map_some, Option.map_some, Module.paramCount, Module.paramCount,
        find?_declare_of_ne hm hne]

/-- The module in which a definition that is not refused leaves the body that it could lower. -/
def withBody (m : Module) (h : FunctionId) (params : List String) (steps : List Step)
    (v : Value) : Module :=
  { m.update h fun f ↦ f.completed params steps v with cursor := some ⟨h, 0⟩ }

/-- The module in which a definition that is not refused notices that it cannot lower its body. -/
def withSteps (m : Module) (h : FunctionId) (params : List String) (steps : List Step) : Module :=
  { m.update h fun f ↦ (f.opened params).addSteps 0 steps with cursor := some ⟨h, 0⟩ }

/-- The translation of the body of a definition, once its name is declared. -/
def translated (l : Lowering) (d : Definition) : Except LoweringError (Value × List Step) :=
  translateExpr (calleeIn l.program d.proto (l.declare d.proto).1) (.ofParams d.proto.params)
    d.body 0

/-- What a definition leaves that could lower its body. -/
def withDefinition (l : Lowering) (d : Definition) (steps : List Step) (v : Value) : Lowering :=
  ⟨withBody (l.declare d.proto).2.program (l.declare d.proto).1 d.proto.params steps v,
    .ofParams d.proto.params⟩

/-- What a definition leaves that could not lower its body. -/
def withoutDefinition (l : Lowering) (d : Definition) (steps : List Step) : Lowering :=
  ⟨takeBack (withSteps (l.declare d.proto).2.program (l.declare d.proto).1 d.proto.params steps)
      (l.declare d.proto).1 (l.program.lookup? d.proto.name).isSome,
    .ofParams d.proto.params⟩

private theorem run_lowerBody_declare (hm : l.program.Settled) {d : Definition}
    (hr : refusal? l.program d.proto = none) :
    match l.translated d with
    | .ok (v, steps) =>
      (lowerBody (.ofParams d.proto.params) d.body).run (enterBody (l.declare d.proto).2.program
        (l.declare d.proto).1 d.proto.params) =
        .ok () (withBody (l.declare d.proto).2.program (l.declare d.proto).1 d.proto.params steps v)
    | .error e => ∃ steps,
      (lowerBody (.ofParams d.proto.params) d.body).run (enterBody (l.declare d.proto).2.program
        (l.declare d.proto).1 d.proto.params) =
        .error e (withSteps (l.declare d.proto).2.program (l.declare d.proto).1 d.proto.params
          steps) := by
  obtain ⟨f, hf, -, -, hblocks, htemps⟩ := exists_find?_declare hm hr
  have henter := enterBody_eq hf d.proto.params
  rw [hblocks, List.length_nil] at henter
  have hcallee : (enterBody (l.declare d.proto).2.program (l.declare d.proto).1
      d.proto.params).callee? = calleeIn l.program d.proto (l.declare d.proto).1 := by
    rw [henter, Module.callee?_update fun g ↦ by simp [Function.opened], callee?_declare hm hr]
  have hready : (enterBody (l.declare d.proto).2.program (l.declare d.proto).1
      d.proto.params).Ready ⟨(l.declare d.proto).1, 0⟩ 0 := by
    rw [henter]
    refine ⟨rfl, f.opened d.proto.params, ?_, ?_, ?_⟩
    · exact (Module.find?_update_self _ _ _).trans (by rw [hf]; rfl)
    · simp [Function.opened]
    · simp [Function.opened, htemps]
  have hbody := run_lowerBody hready (.ofParams d.proto.params) d.body
  rw [hcallee, ← translated] at hbody
  -- the changes of the function are made one after the other, and are one change in the end
  cases ht : l.translated d with
  | error e =>
    rw [ht] at hbody
    obtain ⟨steps, hbody⟩ := hbody
    refine ⟨steps, hbody.trans ?_⟩
    rw [henter]
    exact congrArg (fun m : Module ↦ EStateM.Result.error e
      { m with cursor := some ⟨(l.declare d.proto).1, 0⟩ }) (Module.update_update _ _ _ _)
  | ok p =>
    obtain ⟨v, steps⟩ := p
    rw [ht] at hbody
    refine hbody.trans ?_
    rw [henter]
    have hall := congrArg (fun m : Module ↦ m.update (l.declare d.proto).1
      fun f ↦ f.addInstruction 0 ⟨none, .ret v⟩)
      (Module.update_update (l.declare d.proto).2.program (l.declare d.proto).1
        (fun f ↦ f.opened d.proto.params) fun f ↦ f.addSteps 0 steps)
    rw [Module.update_update _ _ (_ ∘ _)] at hall
    exact congrArg (fun m : Module ↦ EStateM.Result.ok ()
      { m with cursor := some ⟨(l.declare d.proto).1, 0⟩ }) hall

/-- **How a definition ends.** It is refused, or its body is translated after its name has been
declared, and it succeeds or is taken back as the translation succeeds or fails. -/
theorem define_cases (hm : l.program.Settled) (d : Definition) :
    (∃ e, refusal? l.program d.proto = some e ∧ l.define d = (.error e, l)) ∨
    (∃ v steps, refusal? l.program d.proto = none ∧ l.translated d = .ok (v, steps) ∧
      l.define d = (.ok (l.declare d.proto).1, l.withDefinition d steps v)) ∨
    ∃ e steps, refusal? l.program d.proto = none ∧ l.translated d = .error e ∧
      l.define d = (.error e, l.withoutDefinition d steps) := by
  rw [define.eq_def]
  cases hr : refusal? l.program d.proto with
  | some e => exact .inl ⟨e, rfl, rfl⟩
  | none =>
    right
    have hbody := run_lowerBody_declare hm hr
    cases ht : l.translated d with
    | error e =>
      rw [ht] at hbody
      obtain ⟨steps, hbody⟩ := hbody
      refine .inr ⟨e, steps, rfl, rfl, ?_⟩
      simp only
      rw [hbody]
      rfl
    | ok p =>
      obtain ⟨v, steps⟩ := p
      rw [ht] at hbody
      refine .inl ⟨v, steps, rfl, rfl, ?_⟩
      simp only
      rw [hbody]
      rfl

private theorem find?_update_declare (hm : l.program.Settled) {proto : Prototype} {f : Function}
    (hf : (l.declare proto).2.program.find? (l.declare proto).1 = some f)
    (change : Function → Function) (h' : FunctionId) :
    ((l.declare proto).2.program.update (l.declare proto).1 change).find? h' =
      if h' = (l.declare proto).1 then some (change f) else l.program.find? h' := by
  rw [Module.find?_update]
  by_cases hh : h' = (l.declare proto).1
  · rw [if_pos hh, if_pos hh, hh, hf]
    rfl
  · rw [if_neg hh, if_neg hh, find?_declare_of_ne hm hh]

/-! ## What a definition leaves behind -/

section Effects

variable {d : Definition} {h : FunctionId} {l' : Lowering}

/-- What a definition that succeeds leaves behind: one function that is not a declaration any more,
and nothing else is different. -/
structure Completes (l : Lowering) (d : Definition) (h : FunctionId) (l' : Lowering)
    (f : Function) (v : Value) (steps : List Step) : Prop where
  /-- The body is the translated one. -/
  translated : translateExpr (calleeIn l.program d.proto h) (.ofParams d.proto.params) d.body 0
    = .ok (v, steps)
  /-- The function was a declaration of the same name with as many parameters. -/
  name : f.name = d.proto.name
  length_params : f.params.length = d.proto.params.length
  blocks : f.blocks = []
  temps : f.temps = []
  /-- It is the one that declaring the name comes to. -/
  declared : (l.declare d.proto).1 = h ∧ (l.declare d.proto).2.program.find? h = some f
  /-- If the declaration is new, then so is its handle. -/
  before : l.program.find? h = some f ∨ l.program.find? h = none ∧
    l.program.lookup? d.proto.name = none
  lookup? : ∀ n, l'.program.lookup? n = if n = d.proto.name then some h else l.program.lookup? n
  find? : ∀ h', l'.program.find? h' =
    if h' = h then some (f.completed d.proto.params steps v) else l.program.find? h'
  scope : l'.scope = .ofParams d.proto.params

theorem exists_completes (hm : l.program.Settled) (hd : l.define d = (.ok h, l')) :
    refusal? l.program d.proto = none ∧ ∃ f v steps, Completes l d h l' f v steps := by
  rcases define_cases hm d with ⟨e, -, heq⟩ | ⟨v, steps, hr, ht, heq⟩ | ⟨e, steps, -, -, heq⟩
  · simp [heq] at hd
  · obtain ⟨f, hf, hname, hcount, hblocks, htemps⟩ := exists_find?_declare hm hr
    simp only [hd, Prod.mk.injEq, Except.ok.injEq] at heq
    obtain ⟨rfl, rfl⟩ := heq
    refine ⟨hr, f, v, steps, ht, hname, hcount, hblocks, htemps, ⟨rfl, hf⟩, ?_, fun n ↦ ?_,
      find?_update_declare hm hf _, rfl⟩
    · cases hl : l.program.lookup? d.proto.name with
      | some h =>
        rw [declare_of_lookup? hl] at hf ⊢
        exact .inl hf
      | none =>
        rw [declare_of_lookup?_eq_none hl]
        exact .inr ⟨hm.find?_declare_fst _ _, rfl⟩
    · show (l.declare d.proto).2.program.lookup? n = _
      by_cases hn : n = d.proto.name
      · rw [if_pos hn, hn, lookup?_declare_self]
      · rw [if_neg hn, lookup?_declare_of_ne l hn]
  · simp [heq] at hd

theorem Completes.find?_of_ne {f : Function} {v : Value} {steps : List Step}
    (hc : Completes l d h l' f v steps) (hm : l.program.Settled) {n : String}
    (hn : n ≠ d.proto.name) {h' : FunctionId} (hl : l.program.lookup? n = some h') :
    l'.program.find? h' = l.program.find? h' := by
  rw [hc.find?, if_neg]
  rintro rfl
  obtain ⟨g, hg, hgname⟩ := hm.find?_of_lookup? hl
  rcases hc.before with hf | ⟨hnone, -⟩
  · obtain rfl := Option.some.inj (hg.symm.trans hf)
    exact hn (hgname.symm.trans hc.name)
  · rw [hg] at hnone
    cases hnone

theorem Completes.find?_self {f : Function} {v : Value} {steps : List Step}
    (hc : Completes l d h l' f v steps) :
    l'.program.find? h = some (f.completed d.proto.params steps v) :=
  (hc.find? h).trans (if_pos rfl)

/-- What can be called afterwards is what the body could call. -/
theorem Completes.callee? {f : Function} {v : Value} {steps : List Step}
    (hc : Completes l d h l' f v steps) (hm : l.program.Settled) :
    l'.program.callee? = calleeIn l.program d.proto h := by
  funext n
  rw [calleeIn]
  by_cases hn : n = d.proto.name
  · have hl : l'.program.lookup? n = some h := by rw [hc.lookup?, if_pos hn]
    rw [if_pos hn, Module.callee?_of_find? hl hc.find?_self, Function.length_params_completed,
      hc.length_params]
  · have hl : l'.program.lookup? n = l.program.lookup? n := by rw [hc.lookup?, if_neg hn]
    rw [if_neg hn, Module.callee?, Module.callee?, hl]
    refine Option.map_congr fun h' hl' ↦ ?_
    rw [Module.paramCount, Module.paramCount, hc.find?_of_ne hm hn hl']

theorem name_declare (l : Lowering) (proto : Prototype) :
    (l.declare proto).2.program.name = l.program.name := by
  cases hl : l.program.lookup? proto.name with
  | some h => rw [declare_of_lookup? hl]
  | none =>
    rw [declare_of_lookup?_eq_none hl]
    exact Module.name_declare _ _ _

theorem name_define (hm : l.program.Settled) (d : Definition) :
    (l.define d).2.program.name = l.program.name := by
  rcases define_cases hm d with ⟨e, -, heq⟩ | ⟨v, steps, -, -, heq⟩ | ⟨e, steps, -, -, heq⟩
  · rw [heq]
  · rw [heq]
    exact name_declare l d.proto
  · rw [heq]
    refine Eq.trans ?_ (name_declare l d.proto)
    simp only [withoutDefinition, takeBack]
    split
    · exact Module.name_dropBody _ _
    · exact Module.name_erase _ _

/-- The module with the one trace that a failed definition leaves: a function that had been
declared before keeps the new names of its parameters. -/
def remnant (m : Module) (proto : Prototype) : Module :=
  match refusal? m proto, m.lookup? proto.name with
  | none, some h => m.update h fun f ↦ f.renamed proto.params
  | _, _ => m

/-- Taking back the body of a function that had been declared leaves the function declared, with its
parameters renamed. -/
private theorem find?_withoutDefinition_of_lookup? (hm : l.program.Settled)
    (hr : refusal? l.program d.proto = none) {h : FunctionId}
    (hl : l.program.lookup? d.proto.name = some h) (steps : List Step) (h' : FunctionId) :
    (l.withoutDefinition d steps).program.find? h' = (remnant l.program d.proto).find? h' := by
  obtain ⟨f, hf, -, -, hblocks, htemps⟩ := exists_find?_declare hm hr
  have hsteps := find?_update_declare hm hf
    (fun f ↦ (f.opened d.proto.params).addSteps 0 steps) h'
  rw [declare_of_lookup? hl] at hf hsteps
  have htaken : (l.withoutDefinition d steps).program =
      (withSteps l.program h d.proto.params steps).dropBody h := by
    rw [withoutDefinition, declare_of_lookup? hl, hl]
    rfl
  rw [htaken, Module.find?_dropBody, remnant, hr, hl, Module.find?_update,
    show (withSteps l.program h d.proto.params steps).find? h' = _ from hsteps]
  by_cases hh : h' = h
  · rw [if_pos hh, if_pos hh, if_pos hh, hh, hf, Option.map_some, Option.map_some,
      Function.withoutBody_addSteps_opened hblocks htemps]
  · rw [if_neg hh, if_neg hh, if_neg hh]

/-- Taking back a function that is new leaves no trace of it. -/
private theorem views_withoutDefinition_of_lookup?_eq_none (hm : l.program.Settled)
    (hr : refusal? l.program d.proto = none) (hl : l.program.lookup? d.proto.name = none)
    (steps : List Step) :
    (∀ n, (l.withoutDefinition d steps).program.lookup? n = l.program.lookup? n) ∧
      ∀ h, (l.withoutDefinition d steps).program.find? h = l.program.find? h := by
  obtain ⟨f, hf, hname, -, -, -⟩ := exists_find?_declare hm hr
  have hsteps := find?_update_declare hm hf fun f ↦ (f.opened d.proto.params).addSteps 0 steps
  have hmiss := hm.find?_declare_fst d.proto.name d.proto.params
  have hdeclare := Module.lookup?_declare l.program d.proto.name d.proto.params
  rw [declare_of_lookup?_eq_none hl] at hsteps
  let m := (l.program.declare d.proto.name d.proto.params).2
  let h := (l.program.declare d.proto.name d.proto.params).1
  have htaken : (l.withoutDefinition d steps).program =
      (withSteps m h d.proto.params steps).erase h := by
    rw [withoutDefinition, declare_of_lookup?_eq_none hl, hl]
    rfl
  have hfind : ∀ h', (withSteps m h d.proto.params steps).find? h' = _ := hsteps
  have hlookup : ∀ n, (withSteps m h d.proto.params steps).lookup? n = _ := hdeclare
  rw [htaken]
  refine ⟨fun n ↦ ?_, fun h' ↦ ?_⟩
  · rw [Module.lookup?_erase, hlookup, hfind, if_pos rfl, Option.map_some,
      Function.name_addSteps, Function.opened, Function.name_renamed]
    show ite (_ ∧ some f.name = some n) _ _ = _
    by_cases hn : n = d.proto.name
    · rw [if_pos ⟨if_pos ⟨hn, hl⟩, by rw [hname, hn]⟩, hn, hl]
    · rw [if_neg fun hc ↦ hn (by rw [← hname, Option.some.inj hc.2]), if_neg fun hc ↦ hn hc.1]
  · rw [Module.find?_erase, hfind]
    by_cases hh : h' = h
    · -- the handle was given out for the definition, and had missed before
      rw [if_pos hh, hh, hmiss]
    · rw [if_neg hh, if_neg hh]

/-- What a definition that fails leaves behind. -/
theorem views_of_define_error {e : LoweringError} (hm : l.program.Settled)
    (hd : l.define d = (.error e, l')) :
    (∀ n, l'.program.lookup? n = l.program.lookup? n) ∧
      ∀ h, l'.program.find? h = (remnant l.program d.proto).find? h := by
  rcases define_cases hm d with ⟨e, hr, heq⟩ | ⟨v, steps, -, -, heq⟩ | ⟨e, steps, hr, -, heq⟩
  · simp only [hd, Prod.mk.injEq] at heq
    obtain ⟨-, rfl⟩ := heq
    exact ⟨fun _ ↦ rfl, fun h ↦ by rw [remnant, hr]⟩
  · simp [hd] at heq
  · simp only [hd, Prod.mk.injEq] at heq
    obtain ⟨-, rfl⟩ := heq
    cases hl : l.program.lookup? d.proto.name with
    | some h =>
      refine ⟨fun n ↦ ?_, find?_withoutDefinition_of_lookup? hm hr hl steps⟩
      rw [withoutDefinition, declare_of_lookup? hl, hl]
      exact Module.lookup?_dropBody _ _ _
    | none =>
      have hviews := views_withoutDefinition_of_lookup?_eq_none hm hr hl steps
      exact ⟨hviews.1, fun h ↦ by rw [hviews.2, remnant, hr, hl]⟩

theorem lookup?_define_of_ne (hm : l.program.Settled) {name : String}
    (hne : name ≠ d.proto.name) : (l.define d).2.program.lookup? name = l.program.lookup? name := by
  rcases hdefine : l.define d with ⟨e | h, l'⟩
  · exact (views_of_define_error hm hdefine).1 name
  · obtain ⟨-, f, v, steps, hc⟩ := exists_completes hm hdefine
    exact (hc.lookup? name).trans (if_neg hne)

private theorem settled_remnant (hm : l.program.Settled) (proto : Prototype) :
    (remnant l.program proto).Settled := by
  rw [remnant]
  split
  · rename_i h _ _
    refine ⟨hm.update h fun f ↦ f.name_renamed _, fun {h' f} hf hb ↦ ?_⟩
    rw [Module.find?_update] at hf
    by_cases hh : h' = h
    · rw [if_pos hh] at hf
      obtain ⟨g, hg, rfl⟩ := Option.map_eq_some_iff.mp hf
      rw [Function.temps_renamed]
      exact hm.temps_eq_nil hg (by simpa using hb)
    · rw [if_neg hh] at hf
      exact hm.temps_eq_nil hf hb
  · exact hm

theorem settled_define (hm : l.program.Settled) (d : Definition) :
    (l.define d).2.program.Settled := by
  have hdecl := settled_declare hm d.proto
  rcases define_cases hm d with ⟨e, -, heq⟩ | ⟨v, steps, hr, -, heq⟩ | ⟨e, steps, -, -, heq⟩
  · simpa only [heq] using hm
  · obtain ⟨f, hf, -, -, hblocks, htemps⟩ := exists_find?_declare hm hr
    simp only [heq]
    refine ⟨(hdecl.update _ fun g ↦ g.name_completed).of_eq rfl rfl rfl, fun {h' g} hg hb ↦ ?_⟩
    have hg' := (find?_update_declare hm hf _ h').symm.trans hg
    by_cases hh : h' = (l.declare d.proto).1
    · rw [if_pos hh, Option.some.injEq] at hg'
      rw [← hg', Function.blocks_completed hblocks htemps] at hb
      cases hb
    · rw [if_neg hh] at hg'
      exact hm.temps_eq_nil hg' hb
  · simp only [heq]
    have hopened : ∀ f : Function,
        ((f.opened d.proto.params).addSteps 0 steps).name = f.name := by
      intro f
      rw [Function.name_addSteps, Function.opened, Function.name_renamed]
    have hsteps : (withSteps (l.declare d.proto).2.program (l.declare d.proto).1 d.proto.params
        steps).Consistent :=
      (hdecl.update (l.declare d.proto).1 hopened).of_eq rfl rfl rfl
    have hback : (l.withoutDefinition d steps).program.Consistent := by
      simp only [withoutDefinition, takeBack]
      split
      · exact hsteps.dropBody _
      · exact hsteps.erase _
    -- a function that is still there is the one of the remnant, and that has no temporaries
    refine ⟨hback, fun {h' g} hg hb ↦ ?_⟩
    rw [(views_of_define_error hm heq).2 h'] at hg
    exact (settled_remnant hm d.proto).temps_eq_nil hg hb

end Effects

end Lowering

end FloatLang
