import FloatLang.Proofs.Definition
import FloatLang.Proofs.Reading

/-!
# The sources that a module has been lowered from

A client that gives statements to lowering can keep an account of its own, without any functions,
handles or instructions: which names have been declared, with which parameters, and which
expressions they have been defined by. That account is a `Sources`, and `Module.Holds` says that a
module is what the account says: each name belongs to a function, and the function is the
translation of its source.

A translation refers to other functions by handle, and was made when fewer functions were there.
That it is still the translation of its source later on is the point of `Holds`: handles are never
given to another function while the function that they were given to lives, and the only function
that is erased is the one without a name, which no source calls.
-/

namespace FloatLang

open Ssa

/-! ## Sources -/

/-- What a name has been given: parameters, and an expression once it has been defined. -/
structure Source where
  /-- The parameters, in order. A name may occur twice. -/
  params : List String
  /-- What the function computes. -/
  body? : Option Expr

/-- What the names have been given. -/
abbrev Sources := String → Option Source

namespace Sources

variable {T : Sources} {name n : String} {src? : Option Source}

def empty : Sources := fun _ ↦ none

def set (T : Sources) (name : String) (src? : Option Source) : Sources :=
  fun n ↦ if n = name then src? else T n

@[simp] theorem set_self : T.set name src? name = src? := if_pos rfl

theorem set_of_ne (hne : n ≠ name) : T.set name src? n = T n := if_neg hne

theorem set_eq_self (hname : T name = src?) : T.set name src? = T := by
  funext n
  by_cases hn : n = name
  · rw [hn, set_self, hname]
  · rw [set_of_ne hn]

theorem set_set (src?' : Option Source) :
    (T.set name src?).set name src?' = T.set name src?' := by
  funext n
  by_cases hn : n = name
  · rw [hn, set_self, set_self]
  · rw [set_of_ne hn, set_of_ne hn, set_of_ne hn]

theorem set_comm {name' : String} (hne : name ≠ name') (src?' : Option Source) :
    (T.set name src?).set name' src?' = (T.set name' src?').set name src? := by
  funext n
  by_cases hn : n = name
  · rw [hn, set_of_ne hne, set_self, set_self]
  · rw [set_of_ne hn]
    by_cases hn' : n = name'
    · rw [hn', set_self, set_self]
    · rw [set_of_ne hn', set_of_ne hn', set_of_ne hn]

/-- A declaration gives a name parameters, unless it has some. -/
def declare (T : Sources) (p : Prototype) : Sources :=
  if (T p.name).isSome then T else T.set p.name (some ⟨p.params, none⟩)

/-- A definition gives a name parameters and an expression. -/
def define (T : Sources) (d : Definition) : Sources :=
  T.set d.proto.name (some ⟨d.proto.params, some d.body⟩)

end Sources

/-! ## Translations stay what they are -/

/-- What could be called by a name can still be called, and is the same. -/
def CalleesPersist (callee? callee?' : String → Option (FunctionId × Nat)) : Prop :=
  ∀ name p, name ≠ "" → callee? name = some p → callee?' name = some p

mutual

theorem translateExpr_mono {callee? callee?' : String → Option (FunctionId × Nat)}
    (hmono : CalleesPersist callee? callee?') (scope : Scope) {e : Expr} (he : e.Named) {n : Nat}
    {v : Value} {steps : List Step} (ht : translateExpr callee? scope e n = .ok (v, steps)) :
    translateExpr callee?' scope e n = .ok (v, steps) := by
  cases e with
  | number d =>
    rw [translateExpr] at ht ⊢
    exact ht
  | name x =>
    rw [translateExpr] at ht ⊢
    exact ht
  | binary op lhs rhs =>
    rw [Expr.Named] at he
    obtain ⟨l, first, r, second, last, hl, hr, hop, rfl⟩ := translateExpr_binary_eq_ok_iff.mp ht
    exact translateExpr_binary_eq_ok_iff.mpr ⟨l, first, r, second, last,
      translateExpr_mono hmono scope he.1 hl, translateExpr_mono hmono scope he.2 hr, hop, rfl⟩
  | call name args =>
    rw [Expr.Named] at he
    obtain ⟨h, values, first, hh, hargs, rfl, rfl⟩ := translateExpr_call_eq_ok_iff.mp ht
    exact translateExpr_call_eq_ok_iff.mpr ⟨h, values, first, hmono name _ he.1 hh,
      translateArgs_mono hmono scope he.2 hargs, rfl, rfl⟩

theorem translateArgs_mono {callee? callee?' : String → Option (FunctionId × Nat)}
    (hmono : CalleesPersist callee? callee?') (scope : Scope) {args : List Expr}
    (hargs : Expr.AllNamed args) {n : Nat} {values : List Value} {steps : List Step}
    (ht : translateArgs callee? scope args n = .ok (values, steps)) :
    translateArgs callee?' scope args n = .ok (values, steps) := by
  cases args with
  | nil =>
    rw [translateArgs] at ht ⊢
    exact ht
  | cons arg args =>
    rw [Expr.AllNamed] at hargs
    obtain ⟨v, first, vs, later, hv, hvs, rfl, rfl⟩ := translateArgs_cons_eq_ok_iff.mp ht
    exact translateArgs_cons_eq_ok_iff.mpr ⟨v, first, vs, later,
      translateExpr_mono hmono scope hargs.1 hv, translateArgs_mono hmono scope hargs.2 hvs, rfl,
      rfl⟩

end

/-! ## Modules that hold sources -/

namespace Ssa

/-- The function has the body that computes `steps` and returns `v`. -/
structure Function.HasCode (f : Function) (v : Value) (steps : List Step) : Prop where
  blocks : f.blocks = [⟨"entry", code 0 steps ++ [⟨none, .ret v⟩]⟩]
  length_temps : f.temps.length = steps.length

/-- The function is the translation of a source. -/
structure Function.Translates (f : Function) (callee? : String → Option (FunctionId × Nat))
    (src : Source) : Prop where
  length_params : f.params.length = src.params.length
  /-- A name that is only declared belongs to a function without a body. -/
  blocks : src.body? = none → f.blocks = []
  /-- A name that is defined belongs to a function whose body is the translation. -/
  body : ∀ e, src.body? = some e → e.Named ∧ ∃ v steps,
    translateExpr callee? (.ofParams src.params) e 0 = .ok (v, steps) ∧ f.HasCode v steps

theorem Function.Translates.mono {f : Function} {src : Source}
    {callee? callee?' : String → Option (FunctionId × Nat)} (hf : f.Translates callee? src)
    (hmono : CalleesPersist callee? callee?') : f.Translates callee?' src := by
  refine ⟨hf.length_params, hf.blocks, fun e he ↦ ?_⟩
  obtain ⟨hnamed, v, steps, ht, hcode⟩ := hf.body e he
  exact ⟨hnamed, v, steps, translateExpr_mono hmono _ hnamed ht, hcode⟩

theorem Function.Translates.blocks_eq_nil_iff {f : Function} {src : Source}
    {callee? : String → Option (FunctionId × Nat)} (hf : f.Translates callee? src) :
    f.blocks = [] ↔ src.body? = none := by
  refine ⟨fun hblocks ↦ ?_, hf.blocks⟩
  by_contra hbody
  obtain ⟨e, he⟩ := Option.ne_none_iff_exists'.mp hbody
  obtain ⟨-, v, steps, -, hcode⟩ := hf.body e he
  rw [hcode.blocks] at hblocks
  cases hblocks

namespace Module

/-- The names belong to translations of their sources, and other names to nothing. -/
structure Holds (m : Module) (T : Sources) : Prop extends m.Settled where
  lookup?_eq_none : ∀ {name}, T name = none → m.lookup? name = none
  translates : ∀ {name src}, T name = some src →
    ∃ h f, m.lookup? name = some h ∧ m.find? h = some f ∧ f.Translates m.callee? src

variable {m m' : Module} {T T' : Sources} {h : FunctionId} {f : Function} {name : String}

theorem callee?_eq_some_iff {p : FunctionId × Nat} :
    m.callee? name = some p ↔ m.lookup? name = some p.1 ∧ m.paramCount p.1 = p.2 := by
  rw [callee?, Option.map_eq_some_iff]
  constructor
  · rintro ⟨h, hl, rfl⟩
    exact ⟨hl, rfl⟩
  · rintro ⟨hl, hcount⟩
    exact ⟨p.1, hl, by rw [hcount]⟩

theorem holds_empty (name : String) : (empty name).Holds .empty where
  toSettled := settled_empty name
  lookup?_eq_none := fun _ ↦ rfl
  translates := nofun

namespace Holds

theorem lookup?_eq_none_iff (hm : m.Holds T) : m.lookup? name = none ↔ T name = none := by
  refine ⟨fun hl ↦ ?_, hm.lookup?_eq_none⟩
  by_contra hT
  obtain ⟨src, hsrc⟩ := Option.ne_none_iff_exists'.mp hT
  obtain ⟨h, f, hl', -⟩ := hm.translates hsrc
  rw [hl] at hl'
  cases hl'

theorem exists_source (hm : m.Holds T) (hf : m.find? h = some f) :
    ∃ src, T f.name = some src ∧ f.Translates m.callee? src := by
  have hl := hm.lookup?_of_find? hf
  have hT : T f.name ≠ none := by
    intro hT
    rw [hm.lookup?_eq_none hT] at hl
    cases hl
  obtain ⟨src, hsrc⟩ := Option.ne_none_iff_exists'.mp hT
  obtain ⟨h', f', hl', hf', htrans⟩ := hm.translates hsrc
  obtain rfl := Option.some.inj (hl.symm.trans hl')
  obtain rfl := Option.some.inj (hf.symm.trans hf')
  exact ⟨src, hsrc, htrans⟩

/-- Sources are still held when the functions are as before and can still be called, the ones of
some names apart. -/
theorem of_views (hm : m.Holds T) (hm' : m'.Settled)
    (hcallee : CalleesPersist m.callee? m'.callee?)
    (hviews : ∀ name,
      (T' name = T name ∧ m'.lookup? name = m.lookup? name ∧
        ∀ h f, m.lookup? name = some h → m.find? h = some f → ∃ f', m'.find? h = some f' ∧
          f'.params.length = f.params.length ∧ f'.blocks = f.blocks ∧ f'.temps = f.temps) ∨
      (T' name = none ∧ m'.lookup? name = none) ∨
      ∃ src h f, T' name = some src ∧ m'.lookup? name = some h ∧ m'.find? h = some f ∧
        f.Translates m'.callee? src) : m'.Holds T' := by
  refine ⟨hm', fun {name} hT ↦ ?_, fun {name src} hT ↦ ?_⟩
  · rcases hviews name with ⟨hsame, hl, -⟩ | ⟨-, hl⟩ | ⟨src, h, f, hsome, -⟩
    · rw [hl]
      exact hm.lookup?_eq_none (hsame ▸ hT)
    · exact hl
    · rw [hT] at hsome
      cases hsome
  · rcases hviews name with ⟨hsame, hl, hkeep⟩ | ⟨hnone, -⟩ | ⟨src', h, f, hsome, hl, hf, htrans⟩
    · -- the code is the same, and it is still the translation although more can be called
      obtain ⟨h, f, hlookup, hf, htrans⟩ := hm.translates (hsame ▸ hT)
      obtain ⟨f', hf', hparams, hblocks, htemps⟩ := hkeep h f hlookup hf
      refine ⟨h, f', hl.trans hlookup, hf', hparams.trans htrans.length_params,
        fun hbody ↦ hblocks.trans (htrans.blocks hbody), fun e he ↦ ?_⟩
      obtain ⟨hnamed, v, steps, ht, hcode⟩ := (htrans.mono hcallee).body e he
      exact ⟨hnamed, v, steps, ht, hblocks.trans hcode.blocks, htemps ▸ hcode.length_temps⟩
    · rw [hT] at hnone
      cases hnone
    · rw [hT] at hsome
      obtain rfl := Option.some.inj hsome
      exact ⟨h, f, hl, hf, htrans⟩

/-- Erasing the function without a name only takes it from the sources. -/
theorem erase (hm : m.Holds T) (hl : m.lookup? "" = some h) :
    (m.erase h).Holds (T.set "" none) := by
  obtain ⟨f, hf, hname⟩ := hm.find?_of_lookup? hl
  have hfind := find?_erase m h
  have hlookup : ∀ n, (m.erase h).lookup? n = if n = "" then none else m.lookup? n := by
    intro n
    rw [lookup?_erase, hf, Option.map_some, hname]
    by_cases hn : n = ""
    · rw [if_pos hn, if_pos ⟨hn ▸ hl, congrArg some hn.symm⟩]
    · rw [if_neg hn, if_neg fun hc ↦ hn (Option.some.inj hc.2).symm]
  have hother : ∀ {n h'}, n ≠ "" → m.lookup? n = some h' → (m.erase h).find? h' = m.find? h' :=
    fun {n h'} hn hl' ↦ by
      rw [hfind, if_neg]
      rintro rfl
      obtain ⟨g, hg, hgname⟩ := hm.find?_of_lookup? hl'
      obtain rfl := Option.some.inj (hf.symm.trans hg)
      exact hn (hgname.symm.trans hname)
  -- the function without a name is the one that calls may lose
  refine hm.of_views (hm.toSettled.erase h) (fun n p hn hp ↦ ?_) fun n ↦ ?_
  · rw [callee?_eq_some_iff] at hp ⊢
    rw [hlookup, if_neg hn, paramCount, hother hn hp.1]
    exact hp
  · by_cases hn : n = ""
    · exact .inr (.inl ⟨by rw [hn, Sources.set_self], by rw [hlookup, if_pos hn]⟩)
    · refine .inl ⟨Sources.set_of_ne hn, by rw [hlookup, if_neg hn], fun h' g hl' hg ↦ ?_⟩
      exact ⟨g, (hother hn hl').trans hg, rfl, rfl, rfl⟩

end Holds

end Module

end Ssa

namespace Lowering

variable {l l' : Lowering} {T : Sources} {h : FunctionId}

theorem holds_declare (hm : l.program.Holds T) (p : Prototype) :
    (l.declare p).2.program.Holds (T.declare p) := by
  rw [Sources.declare]
  cases hl : l.program.lookup? p.name with
  | some h =>
    have hT : (T p.name).isSome = true := by
      rw [Option.isSome_iff_ne_none]
      intro hT
      rw [hm.lookup?_eq_none hT] at hl
      cases hl
    rw [if_pos hT, declare_of_lookup? hl]
    exact hm
  | none =>
    have hT : ¬(T p.name).isSome = true := by
      rw [hm.lookup?_eq_none_iff.mp hl]
      exact Bool.false_ne_true
    have hself := lookup?_declare_self l p
    -- the handle of the declaration is new, and refers to none of the functions that there were
    have hmiss : ∀ {h g}, l.program.find? h = some g → h ≠ (l.declare p).1 := fun hg e ↦ by
      rw [declare_of_lookup?_eq_none hl] at e
      rw [e, hm.find?_declare_fst] at hg
      cases hg
    have hkeep : ∀ {h g}, l.program.find? h = some g →
        (l.declare p).2.program.find? h = some g := fun hg ↦
      (find?_declare_of_ne hm.toSettled (hmiss hg)).trans hg
    rw [if_neg hT]
    refine hm.of_views (settled_declare hm.toSettled p) (fun n q _ hq ↦ ?_) fun n ↦ ?_
    · rw [Module.callee?_eq_some_iff] at hq ⊢
      have hn : n ≠ p.name := by
        intro e
        rw [e, hl] at hq
        cases hq.1
      obtain ⟨g, hg, -⟩ := hm.find?_of_lookup? hq.1
      rw [lookup?_declare_of_ne l hn, Module.paramCount_of_find? (hkeep hg),
        ← Module.paramCount_of_find? hg]
      exact hq
    · by_cases hn : n = p.name
      · refine .inr (.inr ⟨⟨p.params, none⟩, (l.declare p).1,
          ⟨p.name, freshParams p.params, [], []⟩, ?_, hn ▸ hself, ?_, ?_⟩)
        · rw [hn, Sources.set_self]
        · rw [declare_of_lookup?_eq_none hl]
          exact (hm.find?_declare _ _ _).trans (if_pos rfl)
        · exact ⟨length_freshParams p.params, fun _ ↦ rfl, nofun⟩
      · refine .inl ⟨Sources.set_of_ne hn, lookup?_declare_of_ne l hn, fun h g _ hg ↦ ?_⟩
        exact ⟨g, hkeep hg, rfl, rfl, rfl⟩

/-- After a definition that succeeds the sources are defined. -/
theorem holds_define (hm : l.program.Holds T) {d : Definition} (hbody : d.body.Named)
    (hd : l.define d = (.ok h, l')) : l'.program.Holds (T.define d) := by
  obtain ⟨hr, f, v, steps, hc⟩ := exists_completes hm.toSettled hd
  have hsettled : l'.program.Settled := by
    have hsettled := settled_define hm.toSettled d
    rwa [hd] at hsettled
  have hcallee := hc.callee? hm.toSettled
  refine hm.of_views hsettled (fun n p _ hp ↦ ?_) fun n ↦ ?_
  · -- a declaration that is defined has kept its handle, and has as many parameters
    rw [hcallee, calleeIn]
    by_cases hn : n = d.proto.name
    · obtain ⟨hl, hcount⟩ := Module.callee?_eq_some_iff.mp hp
      rcases hc.before with hf | ⟨-, hnone⟩
      · rw [hn, ← hc.name, hm.lookup?_of_find? hf, Option.some.injEq] at hl
        rw [← hl, Module.paramCount_of_find? hf, hc.length_params] at hcount
        rw [if_pos hn, hl, hcount]
      · rw [hn, hnone] at hl
        cases hl
    · rw [if_neg hn]
      exact hp
  · by_cases hn : n = d.proto.name
    · refine .inr (.inr ⟨⟨d.proto.params, some d.body⟩, h, f.completed d.proto.params steps v,
        ?_, ?_, hc.find?_self, ?_⟩)
      · rw [hn, Sources.define, Sources.set_self]
      · rw [hc.lookup?, if_pos hn]
      · refine ⟨Function.length_params_completed.trans hc.length_params,
          fun h ↦ absurd h (Option.some_ne_none _), fun e he ↦ ?_⟩
        obtain rfl := Option.some.inj he
        refine ⟨hbody, v, steps, by rw [hcallee]; exact hc.translated, ?_, ?_⟩
        · exact Function.blocks_completed hc.blocks hc.temps
        · exact Function.length_temps_completed hc.temps
    · refine .inl ⟨Sources.set_of_ne hn, by rw [hc.lookup?, if_neg hn], fun h' g hl hg ↦ ?_⟩
      exact ⟨g, (hc.find?_of_ne hm.toSettled hn hl).trans hg, rfl, rfl, rfl⟩

theorem holds_of_define_error (hm : l.program.Holds T) {d : Definition} {e : LoweringError}
    (hd : l.define d = (.error e, l')) : l'.program.Holds T := by
  obtain ⟨hlookup, hfind⟩ := views_of_define_error hm.toSettled hd
  have hsettled : l'.program.Settled := by
    have hsettled := settled_define hm.toSettled d
    rwa [hd] at hsettled
  have hkeep : ∀ {h g}, l.program.find? h = some g → ∃ g', l'.program.find? h = some g' ∧
      g'.params.length = g.params.length ∧ g'.blocks = g.blocks ∧ g'.temps = g.temps :=
    fun {h g} hg ↦ by
      rw [hfind, remnant]
      split
      · rename_i h' _ _
        rw [Module.find?_update, hg]
        by_cases hh : h = h'
        · exact ⟨_, if_pos hh, by simp, by simp, by simp⟩
        · exact ⟨g, if_neg hh, rfl, rfl, rfl⟩
      · exact ⟨g, hg, rfl, rfl, rfl⟩
  refine hm.of_views hsettled (fun n p _ hp ↦ ?_) fun n ↦
    .inl ⟨rfl, hlookup n, fun h g _ hg ↦ hkeep hg⟩
  rw [Module.callee?_eq_some_iff] at hp ⊢
  obtain ⟨g, hg, -⟩ := hm.find?_of_lookup? hp.1
  obtain ⟨g', hg', hcount, -⟩ := hkeep hg
  rw [hlookup, Module.paramCount_of_find? hg', hcount, ← Module.paramCount_of_find? hg]
  exact hp

end Lowering

end FloatLang
