import FloatLang.Proofs.Agreement
import FloatLang.Proofs.Order
import Mathlib.Data.List.Perm.Basic

/-!
# Modules that differ in their handles only

Two modules may hold the same functions under different handles, because one of them has seen
functions come and go that the other has not, or has seen them come in another order. What is
written for the one is then written for the other.

The modules are compared name by name. A name is alike in both (`AlikeAt`) when it belongs to
nothing in either, or to two functions with the same parameters and the same text. A definition is
accepted alike, and makes functions that are alike, as soon as its own name and the names that it
calls are alike; the other names it leaves alone. For a translation looks callees up by name, and so
the two translations of one expression differ in the handles of the callees and in nothing else; in
the text of the function the handle is not seen, the name of the callee is.

Modules are twins when they hold the same sources and all names are alike. Lowering the same
statement keeps twins twins. Whether they also list their functions in the same order is kept as
well, and asked for where the text of the whole module counts.
-/

namespace FloatLang

open Ssa Translation

/-! ## What an expression calls -/

mutual

/-- The names that an expression calls. -/
def Expr.callees : Expr → List String
  | .number _ => []
  | .name _ => []
  | .binary _ lhs rhs => lhs.callees ++ rhs.callees
  | .call callee args => callee :: Expr.allCallees args

def Expr.allCallees : List Expr → List String
  | [] => []
  | e :: es => e.callees ++ Expr.allCallees es

end

/-! ## Translations that differ in handles -/

namespace Ssa

variable {R : FunctionId → FunctionId → Prop}

/-- The operations are the same, or calls of related functions with the same arguments. -/
inductive Operation.Matches (R : FunctionId → FunctionId → Prop) : Operation → Operation → Prop
  | binary (op : BinaryOp) (lhs rhs : Value) : Matches R (.binary op lhs rhs) (.binary op lhs rhs)
  | widen (value : Value) : Matches R (.widen value) (.widen value)
  | call {callee callee' : FunctionId} (h : R callee callee') (args : List Value) :
    Matches R (.call callee args) (.call callee' args)
  | ret (value : Value) : Matches R (.ret value) (.ret value)

/-- The steps have matching operations, and names for the results that are made from the same. -/
def Step.Matches (R : FunctionId → FunctionId → Prop) (s s' : Step) : Prop :=
  s.base = s'.base ∧ s.operation.Matches R s'.operation

/-- The instructions have matching operations and set the same temporary. -/
def Instruction.Matches (R : FunctionId → FunctionId → Prop) (i i' : Instruction) : Prop :=
  i.result = i'.result ∧ i.operation.Matches R i'.operation

end Ssa

/-- The translations fail alike, or have related values and matching steps. -/
def Translation.Matches {α β : Type} (R : FunctionId → FunctionId → Prop) (V : α → β → Prop)
    (t : Translation α) (t' : Translation β) : Prop :=
  ∀ n, match t n, t' n with
    | .ok (a, steps), .ok (b, steps') => V a b ∧ List.Forall₂ (Step.Matches R) steps steps'
    | .error e, .error e' => e = e'
    | _, _ => False

section Matches

variable {α β γ δ : Type} {R : FunctionId → FunctionId → Prop}

theorem matches_pure {V : α → β → Prop} {a : α} {b : β} (h : V a b) :
    Translation.Matches R V (pure a) (pure b) := fun _ ↦ ⟨h, .nil⟩

theorem matches_fail {V : α → β → Prop} (e : LoweringError) :
    Translation.Matches R V (fail e) (fail e) := fun _ ↦ rfl

theorem matches_step {o o' : Operation} (h : o.Matches R o') (base : String) :
    Translation.Matches R Eq (step o base) (step o' base) := fun _ ↦ ⟨rfl, .cons ⟨rfl, h⟩ .nil⟩

theorem Translation.Matches.bind {V : α → β → Prop} {W : γ → δ → Prop} {t : Translation α}
    {t' : Translation β} {f : α → Translation γ} {g : β → Translation δ}
    (ht : Translation.Matches R V t t') (hf : ∀ a b, V a b → Translation.Matches R W (f a) (g b)) :
    Translation.Matches R W (t >>= f) (t' >>= g) := by
  intro n
  have hn := ht n
  rw [bind_apply, bind_apply]
  rcases hx : t n with e | ⟨a, steps⟩ <;> rcases hx' : t' n with e' | ⟨b, steps'⟩ <;>
    simp only [hx, hx'] at hn ⊢
  · exact hn
  · obtain ⟨hab, hsteps⟩ := hn
    have hlater := hf a b hab (n + steps.length)
    rw [← hsteps.length_eq]
    rcases hy : f a (n + steps.length) with e | ⟨c, later⟩ <;>
      rcases hy' : g b (n + steps.length) with e' | ⟨d, later'⟩ <;>
        simp only [hy, hy'] at hlater ⊢
    · exact hlater
    · exact ⟨hlater.1, List.rel_append hsteps hlater.2⟩

private theorem matches_translateOperation (op : BinaryOp) (l r : Value) (base : String) :
    Translation.Matches R Eq (translateOperation op l r base) (translateOperation op l r base) := by
  rw [translateOperation.eq_def]
  split
  · exact matches_pure rfl
  · exact matches_step (.binary op l r) base

private theorem matches_translateWiden (v : Value) (base : String) :
    Translation.Matches R Eq (translateWiden v base) (translateWiden v base) := by
  rw [translateWiden.eq_def]
  split
  · exact matches_pure rfl
  · exact matches_step (.widen v) base

private theorem matches_translateBinary (op : Char) (l r : Value) :
    Translation.Matches R Eq (translateBinary op l r) (translateBinary op l r) := by
  rw [translateBinary]
  split
  · exact matches_translateOperation _ l r _
  split
  · exact matches_translateOperation _ l r _
  split
  · exact matches_translateOperation _ l r _
  split
  · refine (matches_translateOperation _ l r _).bind fun v v' h ↦ ?_
    subst h
    exact matches_translateWiden v _
  · exact matches_fail _

variable {callee? callee?' : String → Option (FunctionId × Nat)} {scope : Scope}

/-- The name can be called with the same number of arguments, and refers to related functions. -/
structure CalleeMatches (R : FunctionId → FunctionId → Prop)
    (callee? callee?' : String → Option (FunctionId × Nat)) (name : String) : Prop where
  count : (callee? name).map Prod.snd = (callee?' name).map Prod.snd
  related : ∀ {p p'}, callee? name = some p → callee?' name = some p' → R p.1 p'.1

private theorem matches_translateCallee {name : String} (hc : CalleeMatches R callee? callee?' name)
    (count : Nat) :
    Translation.Matches R R (translateCallee callee? name count)
      (translateCallee callee?' name count) := by
  have hcount := hc.count
  rw [translateCallee, translateCallee]
  rcases hp : callee? name with _ | ⟨h, k⟩ <;> rcases hp' : callee?' name with _ | ⟨h', k'⟩ <;>
    simp only [hp, hp', Option.map_none, Option.map_some] at hcount ⊢
  · exact matches_fail _
  · cases hcount
  · cases hcount
  · obtain rfl := Option.some.inj hcount
    by_cases hk : k = count
    · rw [if_pos hk, if_pos hk]
      exact matches_pure (hc.related hp hp')
    · rw [if_neg hk, if_neg hk]
      exact matches_fail _

mutual

theorem matches_translateExpr (scope : Scope) {e : Expr}
    (hc : ∀ name ∈ e.callees, CalleeMatches R callee? callee?' name) :
    Translation.Matches R Eq (translateExpr callee? scope e) (translateExpr callee?' scope e) := by
  cases e with
  | number d =>
    rw [translateExpr, translateExpr]
    exact matches_pure rfl
  | name x =>
    rw [translateExpr, translateExpr]
    split
    · exact matches_pure rfl
    · exact matches_fail _
  | binary op lhs rhs =>
    rw [Expr.callees, List.forall_mem_append] at hc
    rw [translateExpr, translateExpr]
    refine (matches_translateExpr scope hc.1).bind fun l l' hl ↦ ?_
    refine (matches_translateExpr scope hc.2).bind fun r r' hr ↦ ?_
    subst hl hr
    exact matches_translateBinary op l r
  | call name args =>
    rw [Expr.callees, List.forall_mem_cons] at hc
    rw [translateExpr, translateExpr]
    refine (matches_translateCallee hc.1 args.length).bind fun h h' hR ↦ ?_
    refine (matches_translateArgs scope hc.2).bind fun values values' hvalues ↦ ?_
    subst hvalues
    exact matches_step (.call hR values) _

theorem matches_translateArgs (scope : Scope) {args : List Expr}
    (hc : ∀ name ∈ Expr.allCallees args, CalleeMatches R callee? callee?' name) :
    Translation.Matches R Eq (translateArgs callee? scope args)
      (translateArgs callee?' scope args) := by
  cases args with
  | nil =>
    rw [translateArgs, translateArgs]
    exact matches_pure rfl
  | cons arg args =>
    rw [Expr.allCallees, List.forall_mem_append] at hc
    rw [translateArgs, translateArgs]
    refine (matches_translateExpr scope hc.1).bind fun v v' hv ↦ ?_
    refine (matches_translateArgs scope hc.2).bind fun vs vs' hvs ↦ ?_
    exact matches_pure (by rw [hv, hvs])

end

end Matches

/-! ## Functions that differ in handles -/

namespace Ssa

section Texts

variable {R : FunctionId → FunctionId → Prop} {m m' : Module} {f g : Function}
  {steps steps' : List Step}

theorem Function.operandText?_congr (hparams : f.params = g.params) (htemps : f.temps = g.temps) :
    f.operandText? = g.operandText? := by
  funext v
  cases v with
  | const d => rfl
  | bool b => rfl
  | param i => rw [Function.operandText?, Function.operandText?, hparams]
  | temp i => rw [Function.operandText?, Function.operandText?, htemps]

theorem operationText?_of_matches (hR : ∀ {h h'}, R h h' → m.calleeText h = m'.calleeText h')
    (hparams : f.params = g.params) (htemps : f.temps = g.temps) {o o' : Operation}
    (ho : o.Matches R o') : m.operationText? f o = m'.operationText? g o' := by
  have hoperand := Function.operandText?_congr hparams htemps
  cases ho with
  | binary op l r => rw [Module.operationText?, Module.operationText?, hoperand]
  | widen v => rw [Module.operationText?, Module.operationText?, hoperand]
  | call h args => rw [Module.operationText?, Module.operationText?, hoperand, hR h]
  | ret v => rw [Module.operationText?, Module.operationText?, hoperand]

private theorem temps_addSteps_of_matches (hsteps : List.Forall₂ (Step.Matches R) steps steps')
    (hparams : f.params = g.params) (htemps : f.temps = g.temps) (block : Nat) :
    (f.addSteps block steps).temps = (g.addSteps block steps').temps := by
  induction hsteps generalizing f g with
  | nil => exact htemps
  | @cons s s' _ _ hs _ ih =>
    refine ih hparams ?_
    simp only [Function.addOperation, Function.addInstruction, Function.addTemp,
      Function.localNames, hparams, htemps, hs.1]

private theorem forall₂_code (hsteps : List.Forall₂ (Step.Matches R) steps steps') (n : Nat) :
    List.Forall₂ (Instruction.Matches R) (code n steps) (code n steps') := by
  induction hsteps generalizing n with
  | nil => exact .nil
  | cons hs _ ih => exact .cons ⟨rfl, hs.2⟩ (ih (n + 1))

theorem definitionText?_completed (hblocks : f.blocks = []) (htemps : f.temps = [])
    (hsteps : List.Forall₂ (Step.Matches R) steps steps')
    (hR : ∀ {h h'}, R h h' → m.calleeText h = m'.calleeText h') (params : List String)
    (v : Value) :
    (f.completed params steps v).params = (f.completed params steps' v).params ∧
      m.definitionText? (f.completed params steps v)
        = m'.definitionText? (f.completed params steps' v) := by
  have hparams : (f.completed params steps v).params = (f.completed params steps' v).params := by
    show ((f.opened params).addSteps 0 steps).params = ((f.opened params).addSteps 0 steps').params
    rw [Function.params_addSteps, Function.params_addSteps]
  have htemps' : (f.completed params steps v).temps = (f.completed params steps' v).temps :=
    temps_addSteps_of_matches hsteps rfl rfl 0
  refine ⟨hparams, Module.definitionText?_congr ?_ hparams htemps' ?_⟩
  · rw [Function.name_completed, Function.name_completed]
  · rw [Function.blocks_completed hblocks htemps, Function.blocks_completed hblocks htemps]
    have hret : Instruction.Matches R ⟨none, .ret v⟩ ⟨none, .ret v⟩ := ⟨rfl, .ret v⟩
    have hbody := List.rel_append (forall₂_code hsteps 0) (.cons hret .nil)
    refine .cons ⟨rfl, hbody.imp fun i i' hi ↦ ⟨hi.1, ?_⟩⟩ .nil
    exact operationText?_of_matches hR hparams htemps' hi.2

end Texts

/-! ## One name in two modules -/

namespace Module

variable {T T' : Sources} {m m' m₂ m₂' m₃ : Module} {h h' : FunctionId} {f f' : Function}
  {n : String}

/-- The name belongs to nothing in either module, or to two functions with the same parameters and
the same text, which both have a body or are both declared only. -/
inductive AlikeAt (n : String) (m m' : Module) : Prop
  | absent (hl : m.lookup? n = none) (hl' : m'.lookup? n = none)
  | present {h h' : FunctionId} {f f' : Function} (hl : m.lookup? n = some h)
      (hl' : m'.lookup? n = some h') (hf : m.find? h = some f) (hf' : m'.find? h' = some f')
      (hblocks : f.blocks = [] ↔ f'.blocks = []) (hparams : f.params = f'.params)
      (htext : m.definitionText? f = m'.definitionText? f')

namespace AlikeAt

theorem symm (ha : AlikeAt n m m') : AlikeAt n m' m := by
  cases ha with
  | absent hl hl' => exact .absent hl' hl
  | present hl hl' hf hf' hblocks hparams htext =>
    exact .present hl' hl hf' hf hblocks.symm hparams.symm htext.symm

theorem lookup?_eq_none_iff (ha : AlikeAt n m m') : m.lookup? n = none ↔ m'.lookup? n = none := by
  cases ha with
  | absent hl hl' => rw [hl, hl']
  | present hl hl' => simp [hl, hl']

theorem count (ha : AlikeAt n m m') :
    (m.callee? n).map Prod.snd = (m'.callee? n).map Prod.snd := by
  cases ha with
  | absent hl hl' => simp [callee?, hl, hl']
  | present hl hl' hf hf' hblocks hparams =>
    rw [callee?_of_find? hl hf, callee?_of_find? hl' hf', hparams]
    rfl

theorem functionText? (ha : AlikeAt n m m') (hl : m.lookup? n = some h)
    (hl' : m'.lookup? n = some h') : m.functionText? h = m'.functionText? h' := by
  cases ha with
  | absent hnone => cases hl.symm.trans hnone
  | present hk hk' hf hf' _ _ htext =>
    obtain rfl := Option.some.inj (hl.symm.trans hk)
    obtain rfl := Option.some.inj (hl'.symm.trans hk')
    rw [Module.functionText?, Module.functionText?, hf, hf']
    exact htext

theorem eq_of_blocks_eq_nil (ha : AlikeAt n m m') (hm : m.Settled) (hm' : m'.Settled)
    (hl : m.lookup? n = some h) (hl' : m'.lookup? n = some h') (hf : m.find? h = some f)
    (hf' : m'.find? h' = some f') (hnil : f.blocks = []) : f = f' := by
  cases ha with
  | absent hnone => cases hl.symm.trans hnone
  | present hk hk' hg hg' hblocks hparams =>
    obtain rfl := Option.some.inj (hl.symm.trans hk)
    obtain rfl := Option.some.inj (hl'.symm.trans hk')
    obtain rfl := Option.some.inj (hf.symm.trans hg)
    obtain rfl := Option.some.inj (hf'.symm.trans hg')
    obtain ⟨g, hg, hname⟩ := hm.find?_of_lookup? hl
    obtain ⟨g', hg', hname'⟩ := hm'.find?_of_lookup? hl'
    obtain rfl := Option.some.inj (hf.symm.trans hg)
    obtain rfl := Option.some.inj (hf'.symm.trans hg')
    have hnil' := hblocks.mp hnil
    have htemps := hm.temps_eq_nil hf hnil
    have htemps' := hm'.temps_eq_nil hf' hnil'
    cases f
    cases f'
    simp_all

theorem of_blocks_eq_nil (hl : m.lookup? n = some h) (hl' : m'.lookup? n = some h')
    (hf : m.find? h = some f) (hf' : m'.find? h' = some f) (hnil : f.blocks = []) :
    AlikeAt n m m' :=
  .present hl hl' hf hf' .rfl rfl ((definitionText?_of_blocks_eq_nil _ hnil).trans
    (definitionText?_of_blocks_eq_nil _ hnil).symm)

end AlikeAt

/-- The name belongs to the same function in the second module as in the first, and the function
reads the same. -/
structure SameAt (n : String) (m m₂ : Module) : Prop where
  lookup? : m₂.lookup? n = m.lookup? n
  find? : ∀ {h f}, m.lookup? n = some h → m.find? h = some f →
    m₂.find? h = some f ∧ m₂.definitionText? f = m.definitionText? f

theorem SameAt.refl (n : String) (m : Module) : SameAt n m m := ⟨rfl, fun _ hf ↦ ⟨hf, rfl⟩⟩

theorem SameAt.alikeAt (hs : SameAt n m m₂) (hm : m.Consistent) : AlikeAt n m m₂ := by
  cases hl : m.lookup? n with
  | none => exact .absent hl (hs.lookup?.trans hl)
  | some h =>
    obtain ⟨f, hf, -⟩ := hm.find?_of_lookup? hl
    obtain ⟨hf₂, htext⟩ := hs.find? hl hf
    exact .present hl (hs.lookup?.trans hl) hf hf₂ .rfl rfl htext.symm

theorem AlikeAt.of_sameAt (ha : AlikeAt n m m') (hs : SameAt n m m₂) (hs' : SameAt n m' m₂') :
    AlikeAt n m₂ m₂' := by
  cases ha with
  | absent hl hl' => exact .absent (hs.lookup?.trans hl) (hs'.lookup?.trans hl')
  | present hl hl' hf hf' hblocks hparams htext =>
    obtain ⟨hf₂, htext₂⟩ := hs.find? hl hf
    obtain ⟨hf₂', htext₂'⟩ := hs'.find? hl' hf'
    exact .present (hs.lookup?.trans hl) (hs'.lookup?.trans hl') hf₂ hf₂' hblocks hparams
      (htext₂.trans (htext.trans htext₂'.symm))

theorem Extends.sameAt (hext : m.Extends m₂) (hm : m.Holds T)
    (hl : m₂.lookup? n = m.lookup? n)
    (hf : ∀ {h f}, m.lookup? n = some h → m.find? h = some f → m₂.find? h = some f) :
    SameAt n m m₂ :=
  ⟨hl, fun hl hfind ↦ ⟨hf hl hfind, hext.definitionText? (hm.wellFormed _ _ hfind)⟩⟩

private theorem calleeText_eq_of_callee? {p p' : FunctionId × Nat} (hm : m.Holds T)
    (hm' : m'.Holds T') (hp : m.callee? n = some p) (hp' : m'.callee? n = some p') :
    m.calleeText p.1 = m'.calleeText p'.1 := by
  obtain ⟨g, hg, hname⟩ := hm.find?_of_lookup? (callee?_eq_some_iff.mp hp).1
  obtain ⟨g', hg', hname'⟩ := hm'.find?_of_lookup? (callee?_eq_some_iff.mp hp').1
  rw [calleeText_of_find? hg, calleeText_of_find? hg', Function.globalName, Function.globalName,
    hname, hname']

theorem sameAt_erase (hm : m.Holds T) (hl : m.lookup? "" = some h) (hn : n ≠ "") :
    SameAt n m (m.erase h) := by
  obtain ⟨f, hf, hname⟩ := hm.find?_of_lookup? hl
  refine (extends_erase hf hname).sameAt hm ?_ fun {h' f'} hl' hf' ↦ ?_
  · rw [lookup?_erase, hf, Option.map_some, hname, if_neg fun hc ↦ hn (Option.some.inj hc.2).symm]
  · obtain ⟨g, hg, hgname⟩ := hm.find?_of_lookup? hl'
    obtain rfl := Option.some.inj (hf'.symm.trans hg)
    exact find?_erase_of_name_ne hf' hf (by rwa [hgname, hname])

end Module

end Ssa

/-! ## One name before and after lowering -/

namespace Lowering

variable {T T' : Sources} {l l' : Lowering} {n : String}

theorem sameAt_declare (hm : l.program.Holds T) (p : Prototype)
    (hn : n ≠ p.name ∨ l.program.lookup? p.name ≠ none) :
    Module.SameAt n l.program (l.declare p).2.program := by
  refine (extends_declare hm.toSettled p).sameAt hm ?_ fun _ hf ↦ find?_declare hm.toSettled hf
  rcases hn with hn | hsome
  · exact lookup?_declare_of_ne l hn
  · obtain ⟨h, hl⟩ := Option.ne_none_iff_exists'.mp hsome
    rw [declare_of_lookup? hl]

/-- A definition leaves the other names as they are, and its own if it is refused. -/
theorem sameAt_define (hm : l.program.Holds T) {d : Definition}
    (hn : n ≠ d.proto.name ∨ refusal? l.program d.proto ≠ none) :
    Module.SameAt n l.program (l.define d).2.program := by
  have hname {h f} (hl : l.program.lookup? n = some h) (hf : l.program.find? h = some f) :
      f.name = n := by
    obtain ⟨g, hg, hname⟩ := hm.find?_of_lookup? hl
    rwa [Option.some.inj (hf.symm.trans hg)]
  rcases define_cases hm.toSettled d with ⟨e, hr, heq⟩ | ⟨v, steps, hr, -, -⟩ | ⟨e, steps, hr, -, -⟩
  · rw [heq]
    exact .refl n l.program
  all_goals
    have hne := hn.resolve_right (not_not_intro hr)
    refine (extends_define hm.toSettled d).sameAt hm ?_ fun {h f} hl hf ↦ ?_
    · exact lookup?_define_of_ne hm.toSettled hne
    · exact (find?_define hm.toSettled hf).resolve_right fun h ↦ hne ((hname hl hf).symm.trans h.1)

theorem refusal?_eq_of_alikeAt {p : Prototype} (ha : Module.AlikeAt p.name l.program l'.program) :
    refusal? l.program p = refusal? l'.program p := by
  cases ha with
  | absent hl hl' => rw [refusal?, refusal?, hl, hl']
  | @present h h' f f' hl hl' hf hf' hblocks hparams =>
    have hbody : f.hasBody = f'.hasBody := by
      rw [Function.hasBody, Function.hasBody, Bool.not_inj_iff, Bool.eq_iff_iff,
        List.isEmpty_iff, List.isEmpty_iff, hblocks]
    rw [refusal?, refusal?, hl, hl']
    simp only [Module.hasBody_of_find? hf, Module.hasBody_of_find? hf', hbody,
      Module.paramCount_of_find? hf, Module.paramCount_of_find? hf', hparams]

section SameStatement

variable (hm : l.program.Holds T) (hm' : l'.program.Holds T')
include hm hm'

theorem eq_declared {p : Prototype} (ha : Module.AlikeAt p.name l.program l'.program)
    {f f' : Function} (hf : (l.declare p).2.program.find? (l.declare p).1 = some f)
    (hf' : (l'.declare p).2.program.find? (l'.declare p).1 = some f') (hnil : f.blocks = []) :
    f = f' := by
  have hnone := ha.lookup?_eq_none_iff
  cases hl : l.program.lookup? p.name with
  | none =>
    rw [declare_of_lookup?_eq_none hl, hm.find?_declare, if_pos rfl] at hf
    rw [declare_of_lookup?_eq_none (hnone.mp hl), hm'.find?_declare, if_pos rfl] at hf'
    exact Option.some.inj (hf.symm.trans hf')
  | some h =>
    obtain ⟨h', hl'⟩ : ∃ h', l'.program.lookup? p.name = some h' :=
      Option.ne_none_iff_exists'.mp (mt hnone.mpr (by simp [hl]))
    rw [declare_of_lookup? hl] at hf
    rw [declare_of_lookup? hl'] at hf'
    exact ha.eq_of_blocks_eq_nil hm.toSettled hm'.toSettled hl hl' hf hf' hnil

/-- A name that is declared in both stays alike. -/
theorem alikeAt_declare {p : Prototype} (ha : Module.AlikeAt p.name l.program l'.program) :
    Module.AlikeAt p.name (l.declare p).2.program (l'.declare p).2.program := by
  have hnone := ha.lookup?_eq_none_iff
  by_cases hnew : l.program.lookup? p.name = none
  · -- the function is new, and in both modules it is a declaration with the parameters given
    have hself {l : Lowering} {T : Sources} (hm : l.program.Holds T)
        (hnew : l.program.lookup? p.name = none) :
        (l.declare p).2.program.find? (l.declare p).1 =
          some ⟨p.name, freshParams p.params, [], []⟩ := by
      rw [declare_of_lookup?_eq_none hnew]
      exact (hm.find?_declare _ _ _).trans (if_pos rfl)
    exact .of_blocks_eq_nil (lookup?_declare_self l p) (lookup?_declare_self l' p)
      (hself hm hnew) (hself hm' (hnone.mp hnew)) rfl
  · exact ha.of_sameAt (sameAt_declare hm p (.inr hnew))
      (sameAt_declare hm' p (.inr (mt hnone.mpr hnew)))

variable {d : Definition} (ha : Module.AlikeAt d.proto.name l.program l'.program)
  (hcallees : ∀ name ∈ d.body.callees, Module.AlikeAt name l.program l'.program)
include ha

omit hm hm' ha in
private theorem count_calleeIn (p : Prototype) (h h' : FunctionId) {name : String}
    (hname : Module.AlikeAt name l.program l'.program) :
    (calleeIn l.program p h name).map Prod.snd = (calleeIn l'.program p h' name).map Prod.snd := by
  rw [calleeIn, calleeIn]
  split
  · rfl
  · exact hname.count

include hcallees in
/-- A definition fails alike in both, or is accepted in both. -/
theorem cases_define_of_alikeAt :
    (∃ e, (l.define d).1 = .error e ∧ (l'.define d).1 = .error e) ∨
      ∃ h h', (l.define d).1 = .ok h ∧ (l'.define d).1 = .ok h' := by
  have hr := refusal?_eq_of_alikeAt ha
  have hmatch := matches_translateExpr (.ofParams d.proto.params) (fun name hname ↦
    CalleeMatches.mk (R := fun _ _ ↦ True) (count_calleeIn d.proto (l.declare d.proto).1
      (l'.declare d.proto).1 (hcallees name hname)) fun _ _ ↦ trivial) 0
  rw [← translated, ← translated] at hmatch
  rcases define_cases hm.toSettled d with
    ⟨e, hre, heq⟩ | ⟨v, steps, hre, hok, heq⟩ | ⟨e, steps, hre, hok, heq⟩ <;>
  rcases define_cases hm'.toSettled d with
    ⟨e', hre', heq'⟩ | ⟨v', steps', hre', hok', heq'⟩ | ⟨e', steps', hre', hok', heq'⟩
  · obtain rfl := Option.some.inj (hre.symm.trans (hr.trans hre'))
    exact .inl ⟨_, congrArg Prod.fst heq, congrArg Prod.fst heq'⟩
  · simp [hre, hre'] at hr
  · simp [hre, hre'] at hr
  · simp [hre, hre'] at hr
  · exact .inr ⟨_, _, congrArg Prod.fst heq, congrArg Prod.fst heq'⟩
  · simp [hok, hok'] at hmatch
  · simp [hre, hre'] at hr
  · simp [hok, hok'] at hmatch
  · rw [hok, hok'] at hmatch
    obtain rfl := hmatch
    exact .inl ⟨_, congrArg Prod.fst heq, congrArg Prod.fst heq'⟩

private theorem alikeAt_define_error {e : LoweringError} (hd : (l.define d).1 = .error e)
    (hd' : (l'.define d).1 = .error e) :
    Module.AlikeAt d.proto.name (l.define d).2.program (l'.define d).2.program := by
  have hpair : l.define d = (.error e, (l.define d).2) := Prod.ext hd rfl
  have hpair' : l'.define d = (.error e, (l'.define d).2) := Prod.ext hd' rfl
  obtain ⟨hlookup, hfind⟩ := views_of_define_error hm.toSettled hpair
  obtain ⟨hlookup', hfind'⟩ := views_of_define_error hm'.toSettled hpair'
  have hr := refusal?_eq_of_alikeAt ha
  by_cases hre : refusal? l.program d.proto = none
  · rcases ha with ⟨hl, hl'⟩ | @⟨h, h', f, f', hl, hl', hf, hf', hblocks, hparams, htext⟩
    · exact .absent ((hlookup _).trans hl) ((hlookup' _).trans hl')
    · -- the functions are declarations, and are renamed alike
      have hnil := ((refusal?_eq_none_iff hl hf).mp hre).1
      have ha := Module.AlikeAt.present hl hl' hf hf' hblocks hparams htext
      obtain rfl := ha.eq_of_blocks_eq_nil hm.toSettled hm'.toSettled hl hl' hf hf' hnil
      have hrenamed {l : Lowering} {h : FunctionId} (hl : l.program.lookup? d.proto.name = some h)
          (hf : l.program.find? h = some f) (hr : refusal? l.program d.proto = none) :
          (remnant l.program d.proto).find? h = some (f.renamed d.proto.params) := by
        rw [remnant, hr, hl, Module.find?_update_self, hf, Option.map_some]
      exact .of_blocks_eq_nil ((hlookup _).trans hl) ((hlookup' _).trans hl')
        ((hfind _).trans (hrenamed hl hf hre)) ((hfind' _).trans (hrenamed hl' hf' (hr ▸ hre)))
        (by rw [Function.blocks_renamed, hnil])
  · exact ha.of_sameAt (sameAt_define hm (.inr hre)) (sameAt_define hm' (.inr (hr ▸ hre)))

/-- What the same definition makes of the same declaration reads the same in both modules: the
bodies differ in the handles of the callees, and those have the same names. -/
private theorem alike_of_completes {l₂ l₂' : Lowering} {T₂ T₂' : Sources} {h h' : FunctionId}
    {f f' : Function} {v v' : Value} {steps steps' : List Step}
    (hcallees : ∀ name ∈ d.body.callees, Module.AlikeAt name l.program l'.program)
    (hc : Completes l d h l₂ f v steps) (hc' : Completes l' d h' l₂' f' v' steps')
    (hm₂ : l₂.program.Holds T₂) (hm₂' : l₂'.program.Holds T₂') :
    (f.completed d.proto.params steps v).params = (f'.completed d.proto.params steps' v').params ∧
      l₂.program.definitionText? (f.completed d.proto.params steps v)
        = l₂'.program.definitionText? (f'.completed d.proto.params steps' v') := by
  obtain rfl : f = f' := eq_declared hm hm' ha (hc.declared.1.symm ▸ hc.declared.2)
    (hc'.declared.1.symm ▸ hc'.declared.2) hc.blocks
  have hmatch := matches_translateExpr (.ofParams d.proto.params) (fun name hname ↦
    CalleeMatches.mk (R := fun k k' ↦ l₂.program.calleeText k = l₂'.program.calleeText k')
      (count_calleeIn d.proto h h' (hcallees name hname)) fun hp hp' ↦ by
        rw [← hc.callee? hm.toSettled] at hp
        rw [← hc'.callee? hm'.toSettled] at hp'
        exact Module.calleeText_eq_of_callee? hm₂ hm₂' hp hp') 0
  rw [hc.translated, hc'.translated] at hmatch
  obtain ⟨rfl, hsteps⟩ := hmatch
  exact definitionText?_completed hc.blocks hc.temps hsteps id d.proto.params v

include hcallees in
/-- A name stays alike when it is defined in both. -/
theorem alikeAt_define (hbody : d.body.Named) :
    Module.AlikeAt d.proto.name (l.define d).2.program (l'.define d).2.program := by
  rcases cases_define_of_alikeAt hm hm' ha hcallees with ⟨e, hd, hd'⟩ | ⟨h, h', hd, hd'⟩
  · exact alikeAt_define_error hm hm' ha hd hd'
  · have hpair : l.define d = (.ok h, (l.define d).2) := Prod.ext hd rfl
    have hpair' : l'.define d = (.ok h', (l'.define d).2) := Prod.ext hd' rfl
    obtain ⟨-, f, v, steps, hc⟩ := exists_completes hm.toSettled hpair
    obtain ⟨-, f', v', steps', hc'⟩ := exists_completes hm'.toSettled hpair'
    obtain ⟨hparams, htext⟩ := alike_of_completes hm hm' ha hcallees hc hc'
      (holds_define hm hbody hpair) (holds_define hm' hbody hpair')
    refine .present ((hc.lookup? _).trans (if_pos rfl)) ((hc'.lookup? _).trans (if_pos rfl))
      hc.find?_self hc'.find?_self ?_ hparams htext
    simp [Function.blocks_completed hc.blocks hc.temps,
      Function.blocks_completed hc'.blocks hc'.temps]

end SameStatement

theorem holds_after_define (hm : l.program.Holds T) {d : Definition} (hbody : d.body.Named) :
    (l.define d).2.program.Holds (T.after (.statement (.definition d))) := by
  rw [Sources.after, ← isOk_define hm hbody]
  rcases hd : l.define d with ⟨e | h, l'⟩
  · exact holds_of_define_error hm hd
  · exact holds_define hm hbody hd

end Lowering

/-! ## Twins -/

namespace Ssa

/-- The modules hold the same sources, and each name is alike in both. If they are *ordered*, they
list their functions in the same order as well. -/
structure Module.Twins (ordered : Prop) (T : Sources) (m m' : Module) : Prop where
  name : m.name = m'.name
  holds : m.Holds T
  holds' : m'.Holds T
  orderly : m.Orderly
  orderly' : m'.Orderly
  functionNames : ordered → m.functionNames = m'.functionNames
  alike : ∀ n, m.AlikeAt n m'

namespace Module.Twins

variable {ordered : Prop} {T : Sources} {m m' : Module} {h h' : FunctionId} {n : String}

theorem symm (ht : Twins ordered T m m') : Twins ordered T m' m :=
  ⟨ht.name.symm, ht.holds', ht.holds, ht.orderly', ht.orderly, fun ho ↦ (ht.functionNames ho).symm,
    fun n ↦ (ht.alike n).symm⟩

private theorem functionTexts_eq (ht : Twins ordered T m m') :
    (fun n ↦ (m.lookup? n).bind m.functionText?) =
      fun n ↦ (m'.lookup? n).bind m'.functionText? := by
  funext n
  rcases ht.alike n with ⟨hl, hl'⟩ | ⟨hl, hl'⟩
  · rw [hl, hl', Option.bind_none, Option.bind_none]
  · rw [hl, hl', Option.bind_some, Option.bind_some]
    exact (ht.alike n).functionText? hl hl'

theorem text? (ht : Twins ordered T m m') (ho : ordered) : m.text? = m'.text? := by
  rw [Module.text?, Module.text?, Module.mapM_functionText? ht.holds.toConsistent,
    Module.mapM_functionText? ht.holds'.toConsistent, ht.functionNames ho, ht.functionTexts_eq,
    ht.name]

theorem functionNames_perm (ht : Twins ordered T m m') :
    m.functionNames.Perm m'.functionNames := by
  have hm := ht.holds.toConsistent
  have hm' := ht.holds'.toConsistent
  refine (List.perm_ext_iff_of_nodup (nodup_functionNames hm) (nodup_functionNames hm')).mpr
    fun n ↦ ?_
  rw [mem_functionNames_iff hm, mem_functionNames_iff hm', Option.isSome_iff_ne_none,
    Option.isSome_iff_ne_none, ne_eq, ne_eq, (ht.alike n).lookup?_eq_none_iff]

/-- The functions of twins read the same, the order apart. -/
theorem exists_texts_perm (ht : Twins ordered T m m') : ∃ texts texts', texts.Perm texts' ∧
    m.handles.mapM m.functionText? = some texts ∧
    m'.handles.mapM m'.functionText? = some texts' := by
  obtain ⟨texts, htexts⟩ := ht.holds.wellFormed.exists_functionTexts m.handles
  obtain ⟨texts', htexts'⟩ := ht.holds'.wellFormed.exists_functionTexts m'.handles
  refine ⟨texts, texts', ?_, htexts, htexts'⟩
  rw [mapM_functionText? ht.holds.toConsistent] at htexts
  rw [mapM_functionText? ht.holds'.toConsistent, ← ht.functionTexts_eq] at htexts'
  have hmap := ht.functionNames_perm.map fun n ↦ (m.lookup? n).bind m.functionText?
  rw [map_of_mapM_eq_some htexts, map_of_mapM_eq_some htexts'] at hmap
  exact (List.map_perm_map_iff fun _ _ ↦ Option.some.inj).mp hmap

/-- Twins stay twins when the function without a name, which is the last one, is erased. -/
theorem erase (ht : Twins ordered T m m') (hend : m.AtEnd h) (hend' : m'.AtEnd h')
    (hl : m.lookup? "" = some h) (hl' : m'.lookup? "" = some h') :
    Twins ordered (T.set "" none) (m.erase h) (m'.erase h') := by
  obtain ⟨f, hf, hname⟩ := ht.holds.find?_of_lookup? hl
  obtain ⟨f', hf', hname'⟩ := ht.holds'.find?_of_lookup? hl'
  have hholds := ht.holds.erase hl
  have hholds' := ht.holds'.erase hl'
  refine ⟨?_, hholds, hholds', ht.orderly.erase hend, ht.orderly'.erase hend', fun ho ↦ ?_,
    fun n ↦ ?_⟩
  · rw [name_erase, name_erase, ht.name]
  · have hnames := ht.functionNames ho
    rw [hend.functionNames_eq hf, hend'.functionNames_eq hf', hname, hname'] at hnames
    exact List.append_cancel_right hnames
  · by_cases hn : n = ""
    · subst hn
      exact .absent (hholds.lookup?_eq_none Sources.set_self)
        (hholds'.lookup?_eq_none Sources.set_self)
    · exact (ht.alike n).of_sameAt (sameAt_erase ht.holds hl hn) (sameAt_erase ht.holds' hl' hn)

end Module.Twins

end Ssa

namespace Lowering

variable {ordered : Prop} {T : Sources} {l l' : Lowering}

/-- Twins stay twins when a declaration is made in both. -/
theorem twins_declare (ht : Module.Twins ordered T l.program l'.program) {p : Prototype}
    (hp : p.Named) :
    Module.Twins ordered (T.declare p) (l.declare p).2.program (l'.declare p).2.program := by
  have hm := ht.holds.toSettled
  have hm' := ht.holds'.toSettled
  refine ⟨?_, holds_declare ht.holds p, holds_declare ht.holds' p,
    orderly_declare hm ht.orderly hp, orderly_declare hm' ht.orderly' hp, fun ho ↦ ?_, fun n ↦ ?_⟩
  · rw [name_declare, name_declare, ht.name]
  · rw [functionNames_declare hm ht.orderly.tight, functionNames_declare hm' ht.orderly'.tight,
      ht.functionNames ho]
    simp only [Option.isSome_iff_ne_none, ne_eq, (ht.alike p.name).lookup?_eq_none_iff]
  · by_cases hn : n = p.name
    · subst hn
      exact alikeAt_declare ht.holds ht.holds' (ht.alike _)
    · exact (ht.alike n).of_sameAt (sameAt_declare ht.holds p (.inl hn))
        (sameAt_declare ht.holds' p (.inl hn))

/-- Twins stay twins when a definition is lowered in both, and whether it is accepted. -/
theorem twins_define (ht : Module.Twins ordered T l.program l'.program) {d : Definition}
    (hbody : d.body.Named) :
    Module.Twins ordered (T.after (.statement (.definition d))) (l.define d).2.program
      (l'.define d).2.program := by
  have hm := ht.holds.toSettled
  have hm' := ht.holds'.toSettled
  refine ⟨?_, holds_after_define ht.holds hbody, holds_after_define ht.holds' hbody,
    orderly_define hm ht.orderly d, orderly_define hm' ht.orderly' d, fun ho ↦ ?_, fun n ↦ ?_⟩
  · rw [name_define hm, name_define hm', ht.name]
  · rw [functionNames_define hm ht.orderly.tight, functionNames_define hm' ht.orderly'.tight,
      ht.functionNames ho, isOk_define ht.holds hbody, isOk_define ht.holds' hbody]
    simp only [(ht.alike d.proto.name).lookup?_eq_none_iff]
  · by_cases hn : n = d.proto.name
    · subst hn
      exact alikeAt_define ht.holds ht.holds' (ht.alike _) (fun name _ ↦ ht.alike name) hbody
    · exact (ht.alike n).of_sameAt (sameAt_define ht.holds (.inl hn))
        (sameAt_define ht.holds' (.inl hn))

end Lowering

end FloatLang
