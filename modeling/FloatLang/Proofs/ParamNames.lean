import FloatLang.Proofs.FreshNames
import FloatLang.Proofs.Rollback

/-!
# The names that a definition gives its parameters

A definition names the parameters of its function after its own list, one after the other. If the
function is new, they have been named after the same list already, and keep their names. If it was
declared before, each of them takes the place of one that the declaration named, while the later
ones still have the names that they had; so a parameter can find its own name taken, by one that is
going to lose it.

`own_params_iff` says when this happens: when a name that the definition would give on its own is,
in the declaration, the name of a later parameter. In all other cases the header of the definition
reads as if there had been no declaration.
-/

namespace FloatLang

open Ssa

namespace Ssa

/-- Names that are made different stay what they are when they are given again. -/
theorem namesOver_freshParams (params : List String) :
    namesOver [] (freshParams params) params = freshParams params := by
  refine (namesOver_eq_iff (length_freshParams params)).mpr fun i j x hij hi hj ↦ ?_
  rw [List.length_nil, Nat.zero_add, ← freshParams_eq_namesOnto] at hi
  have hlt : i < (freshParams params).length := (List.getElem?_eq_some_iff.mp hi).1
  have heq := (List.getElem?_inj hlt (nodup_freshParams params)).mp (hi.trans hj.symm)
  omega

namespace Function

variable {f : Function} {params : List String} {steps : List Step} {v : Value}

private theorem params_foldl_nameParam (params : List String) :
    ∀ {f : Function} {named old : List String}, f.temps = [] → f.params = named ++ old →
      old.length = params.length →
      ((params.zipIdx named.length).foldl (fun f (name, i) ↦ f.nameParam i name) f).params
        = namesOver named old params := by
  induction params with
  | nil =>
    intro f named old _ hparams hlength
    obtain rfl : old = [] := List.length_eq_zero_iff.mp hlength
    exact hparams.trans (List.append_nil named)
  | cons p params ih =>
    intro f named old htemps hparams hlength
    cases old with
    | nil => cases hlength
    | cons o old =>
      have hbeside : f.namesBeside named.length = named ++ old := by
        rw [namesBeside, htemps, hparams, List.append_nil, List.eraseIdx_append_of_length_le
          (Nat.le_refl _), Nat.sub_self, List.eraseIdx_cons_zero]
      have hnext : (f.nameParam named.length p).params =
          named ++ [freshName (named ++ old) p] ++ old := by
        rw [nameParam, hbeside, hparams, List.set_append_right _ _ (Nat.le_refl _), Nat.sub_self,
          List.set_cons_zero, List.append_assoc, List.singleton_append]
      have hrest := ih (f := f.nameParam named.length p) htemps hnext (Nat.succ.inj hlength)
      rw [List.length_append, List.length_singleton] at hrest
      exact hrest

theorem params_renamed (htemps : f.temps = []) (hlength : f.params.length = params.length) :
    (f.renamed params).params = namesOver [] f.params params :=
  params_foldl_nameParam params htemps (List.nil_append f.params).symm hlength

theorem params_completed (htemps : f.temps = []) (hlength : f.params.length = params.length) :
    (f.completed params steps v).params = namesOver [] f.params params := by
  show ((f.opened params).addSteps 0 steps).params = _
  rw [params_addSteps]
  exact params_renamed htemps hlength

end Function

end Ssa

namespace Lowering

variable {l l' : Lowering} {d : Definition} {h : FunctionId} {f : Function} {v : Value}
  {steps : List Step}

theorem exists_completes_define (hm : l.program.Settled) (hd : (l.define d).1 = .ok h) :
    ∃ f v steps, Completes l d h (l.define d).2 f v steps :=
  (exists_completes hm (Prod.ext hd rfl)).2

/-- A definition of a name that had not been declared names its parameters after its own list. -/
theorem Completes.params_eq_freshParams (hc : Completes l d h l' f v steps) (hm : l.program.Settled)
    (hl : l.program.lookup? d.proto.name = none) :
    (f.completed d.proto.params steps v).params = freshParams d.proto.params := by
  obtain ⟨hh, hf⟩ := hc.declared
  rw [declare_of_lookup?_eq_none hl] at hh hf
  rw [hm.find?_declare, if_pos hh.symm, Option.some.injEq] at hf
  rw [Function.params_completed hc.temps hc.length_params, ← hf]
  exact namesOver_freshParams d.proto.params

/-- **The header of a definition shows its own parameters, unless a declaration is in the way.** If
the function was declared before, each parameter is named after the list of the definition, but
different from the names before it and from those that the declaration gives the later ones. The
names are those that the list comes to on its own exactly if none of these is, in the declaration,
the name of a later parameter; and they are the written ones if no two of these are equal. -/
theorem own_params_iff {name : String} {edits : List Edit} {d : Definition} {h : FunctionId}
    (hd : (((empty name).edited edits).define d).1 = .ok h) :
    let l := (empty name).edited edits
    ∃ f, (l.define d).2.program.find? h = some f ∧ f.name = d.proto.name ∧
      f.params.length = d.proto.params.length ∧
      (∀ g, l.program.find? h = some g → ∀ i p, d.proto.params[i]? = some p →
        f.params[i]? = some (freshName (f.params.take i ++ g.params.drop (i + 1)) p)) ∧
      (f.params = freshParams d.proto.params ↔
        ∀ g, l.program.find? h = some g → ∀ (i j : Nat) x, i < j →
          (freshParams d.proto.params)[i]? = some x → g.params[j]? ≠ some x) ∧
      (d.proto.params.Nodup → freshParams d.proto.params = d.proto.params) := by
  intro l
  have hm : l.program.Settled := settled_edited (Module.settled_empty name) edits
  obtain ⟨g, v, steps, hc⟩ := exists_completes_define hm hd
  have hparams : (g.completed d.proto.params steps v).params =
      namesOver [] g.params d.proto.params :=
    Function.params_completed hc.temps hc.length_params
  refine ⟨_, hc.find?_self, Function.name_completed.trans hc.name,
    Function.length_params_completed.trans hc.length_params, ?_, ?_, freshParams_eq_self⟩
  · intro g' hg' i p hp
    obtain rfl : g = g' := by
      rcases hc.before with hg | ⟨hnone, -⟩
      · exact Option.some.inj (hg.symm.trans hg')
      · rw [hg'] at hnone
        cases hnone
    have hi : (namesOver [] g.params d.proto.params)[([] : List String).length + i]? = _ :=
      getElem?_namesOver hc.length_params hp
    rw [List.length_nil, Nat.zero_add] at hi
    rw [hparams]
    exact hi
  · rcases hc.before with hg | ⟨hnone, hl⟩
    · rw [hparams, freshParams_eq_namesOnto, namesOver_eq_iff hc.length_params, hg]
      simp only [List.length_nil, Nat.zero_add, Option.some.injEq, forall_eq']
    · exact iff_of_true (hc.params_eq_freshParams hm hl) fun g' hg' ↦ by
        rw [hnone] at hg'
        cases hg'

/-- A definition `f(b a)` of what was declared as `f(a b)` has the header `f(b1 a)`. -/
theorem params_of_swapped :
    let l := (empty "m").edited [.declare ⟨"f", ["a", "b"]⟩]
    let d : Definition := ⟨⟨"f", ["b", "a"]⟩, .name "a"⟩
    (l.define d).1 = .ok ⟨0, 0⟩ ∧ ∃ f, (l.define d).2.program.find? ⟨0, 0⟩ = some f ∧
      f.params = ["b1", "a"] ∧ f.params ≠ freshParams d.proto.params := by
  intro l d
  have hd : (((empty "m").edited [.declare ⟨"f", ["a", "b"]⟩]).define
      ⟨⟨"f", ["b", "a"]⟩, .name "a"⟩).1 = .ok ⟨0, 0⟩ := rfl
  obtain ⟨f, hf, -, -, -, hown, -⟩ := own_params_iff hd
  refine ⟨hd, f, hf, ?_, fun heq ↦ ?_⟩
  · have hparams : ((l.define d).2.program.find? ⟨0, 0⟩).map Function.params
        = some ["b1", "a"] := by decide +kernel
    rw [hf] at hparams
    exact Option.some.inj hparams
  · -- the first name that the definition gives is that of the second parameter of the declaration
    exact hown.mp heq ⟨"f", ["a", "b"], [], []⟩ rfl 0 1 "b" (by decide) rfl rfl

end Lowering

end FloatLang
