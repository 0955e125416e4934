import FloatLang.Proofs.CallTree
import FloatLang.Proofs.Labels
import FloatLang.Proofs.Legible

/-!
# The text of a function in a session

Every name in a function of a session is a word. The names of the function and of its parameters
come from the text of a program, and what makes a name different from others is digits; the names of
the temporaries are made from a few bases in the same way. Together with what is known about
functions of sessions otherwise, that makes all of them legible.

So what a session shows of a function is all that there is to it, but for the handles of its callees
and the handle under which it is stored. This holds of functions of different sessions as well, and
of the function of a top-level expression, which is shown before it is run and erased.
-/

namespace FloatLang

open Ssa

/-! ## Names made from words -/

/-- Whether the names that a prototype gives are words. -/
def Prototype.Spelled (p : Prototype) : Prop := ∀ x ∈ p.names, Alphanumeric x

private theorem spelled_anonymous : Prototype.anonymous.Spelled := by
  intro x hx
  rw [List.mem_singleton.mp hx]
  decide

namespace Ssa

variable {base : String} {f : Function} {params : List String}

private theorem alphanumeric_candidate (hbase : Alphanumeric base) (n : Nat) :
    Alphanumeric (candidate base n) := by
  cases n with
  | zero => exact hbase
  | succ n =>
    intro c hc
    rw [candidate, String.toList_append] at hc
    rcases List.mem_append.mp hc with hc | hc
    · exact hbase c hc
    · exact Text.isAlphanumeric_of_isDigit (isDigit_of_mem_toString hc)

private theorem alphanumeric_freshName (hbase : Alphanumeric base) (taken : List String) :
    Alphanumeric (freshName taken base) := by
  obtain ⟨n, -, hn⟩ := exists_firstFree taken base
  rw [hn]
  exact alphanumeric_candidate hbase n

theorem alphanumeric_of_mem_freshParams (hparams : ∀ p ∈ params, Alphanumeric p) :
    ∀ x ∈ freshParams params, Alphanumeric x := by
  intro x hx
  rw [← namesOver_freshParams] at hx
  rcases exists_candidate_of_mem_namesOver hx with hnone | ⟨p, hp, n, rfl⟩
  · cases hnone
  · exact alphanumeric_candidate (hparams p hp) n

namespace Function

/-- What naming one parameter keeps is kept by naming them all. -/
theorem renamed_induction {P : Function → Prop}
    (hname : ∀ g i, ∀ base ∈ params, P g → P (g.nameParam i base)) (hf : P f) :
    P (f.renamed params) :=
  List.foldlRecOn params.zipIdx _ hf fun g hg p hp ↦
    hname g p.2 p.1 (List.fst_mem_of_mem_zipIdx hp) hg

theorem Spelled.renamed (hf : f.Spelled) (hparams : ∀ p ∈ params, Alphanumeric p) :
    (f.renamed params).Spelled := by
  refine renamed_induction (fun g i base hbase hg ↦ ⟨hg.name, fun x hx ↦ ?_, hg.temps⟩) hf
  rcases List.mem_or_eq_of_mem_set hx with hx | rfl
  · exact hg.params x hx
  · exact alphanumeric_freshName (hparams base hbase) _

theorem Lowered.alphanumeric_temps (hf : f.Lowered) : ∀ t ∈ f.temps, Alphanumeric t := by
  have hbases : ∀ base ∈ tempBases, Alphanumeric base := by decide
  intro t ht
  obtain ⟨base, hbase, n, rfl⟩ := hf.temps t ht
  exact alphanumeric_candidate (hbases base hbase) n

namespace Unambiguous

theorem renamed (hf : f.Unambiguous) (params : List String) : (f.renamed params).Unambiguous :=
  renamed_induction (fun _ i base _ hg ↦ hg.nameParam i base) hf

theorem addSteps (hf : f.Unambiguous) {block : Nat} (hlt : block < f.blocks.length)
    (steps : List Step) : (f.addSteps block steps).Unambiguous := by
  induction steps generalizing f with
  | nil => exact hf
  | cons s steps ih =>
    refine ih (hf.addOperation hlt s.operation (some s.base)) ?_
    simpa [Function.addOperation, addInstruction, addTemp] using hlt

theorem completed (hf : f.Unambiguous) (params : List String) (steps : List Step) (v : Value) :
    (f.completed params steps v).Unambiguous := by
  have hopened : (f.opened params).Unambiguous := (hf.appendBlock "entry").renamed params
  have hlt : 0 < (f.opened params).blocks.length := by simp [opened]
  have hsteps := hopened.addSteps hlt steps
  exact hsteps.addOperation (by rwa [length_blocks_addSteps]) (.ret v) none

end Unambiguous

end Function

end Ssa

namespace Lowering

private theorem kept_unambiguous {N : Prototype → Prop} : Kept N Function.Unambiguous where
  declared p _ := .declared p.name p.params
  renamed _ hf := hf.renamed _
  completed _ _ hf := hf.completed _ _ _

private theorem kept_spelled : Kept Prototype.Spelled Function.Spelled where
  declared p hp := by
    obtain ⟨hname, hparams⟩ := List.forall_mem_cons.mp hp
    exact ⟨hname, alphanumeric_of_mem_freshParams hparams, nofun⟩
  renamed hp hf := hf.renamed (List.forall_mem_cons.mp hp).2
  completed {l d h l' f v steps} hp hc hf := by
    have hopened : (f.opened d.proto.params).Spelled :=
      Function.Spelled.renamed (f := { f with blocks := f.blocks ++ [⟨"entry", []⟩] })
        ⟨hf.name, hf.params, hf.temps⟩ (List.forall_mem_cons.mp hp).2
    have hlowered : (f.completed d.proto.params steps v).Lowered :=
      Function.lowered_completed hc.blocks hc.temps
        (namesTemps_translateExpr _ _ _ _ _ hc.translated)
    refine ⟨?_, fun x hx ↦ ?_, hlowered.alphanumeric_temps⟩
    · rw [Function.name_completed]
      exact hf.name
    · have hx : x ∈ ((f.opened d.proto.params).addSteps 0 steps).params := hx
      rw [Function.params_addSteps] at hx
      exact hopened.params x hx

end Lowering

/-! ## Sessions -/

namespace Session

variable {P : Function → Prop} {name : String} {evaluates : Bool}
  {texts : List (Option Nat × String)} {m : Module}

theorem all_of_works (hP : Lowering.Kept Prototype.Spelled P)
    (hm : ((start name evaluates).feed texts).Works m) : m.All P := by
  have hstart : (∃ T, (start name evaluates).lowering.program.Holds T) ∧
      (start name evaluates).lowering.program.All P :=
    ⟨⟨.empty, Module.holds_empty name⟩, Module.all_empty name⟩
  obtain ⟨⟨T, hT⟩, hall⟩ :=
    feed_induction (K := fun l ↦ (∃ T, l.program.Holds T) ∧ l.program.All P)
      (Q := fun i ↦ i.Named ∧ ∀ x ∈ i.names, Alphanumeric x)
      (fun s i hi hs ↦ by
        obtain ⟨⟨T, hT⟩, hall⟩ := hs
        refine ⟨exists_holds_actItem ⟨T, hT⟩ hi.1, all_after_actItem hP hT.toSettled hall ?_⟩
        rintro statement rfl
        exact hi.2)
      Script.names_ofText hstart texts
  rcases hm with rfl | ⟨e, -, rfl⟩
  · exact hall
  · exact hP.define hT.toSettled hall (d := .ofExpr e) spelled_anonymous

theorem legible_of_works (hm : ((start name evaluates).feed texts).Works m) : m.Legible := by
  intro h f hf
  exact {
    wellFormed := wellFormed_of_works hm h f hf
    unambiguous := all_of_works Lowering.kept_unambiguous hm h f hf
    spelled := all_of_works Lowering.kept_spelled hm h f hf
    label := fun b hb ↦ (all_of_works Lowering.kept_lowered hm h f hf).label_eq hb }

/-- **The text of a function determines it.** Take any two functions that are live in modules that
sessions work with, in the same session or in different ones. Each has a text, and the texts are
equal exactly if both functions are declarations or both have a body, their names, parameters and
temporaries are called the same, and their instructions are the same in the same order: the same
operations on the same operands, constants with the same bits, and calls of functions that are
called the same. -/
theorem text_determines_function {name name' : String} {evaluates evaluates' : Bool}
    {texts texts' : List (Option Nat × String)} {m m' : Module}
    (hm : ((start name evaluates).feed texts).Works m)
    (hm' : ((start name' evaluates').feed texts').Works m') {h h' : FunctionId} {f f' : Function}
    (hf : m.find? h = some f) (hf' : m'.find? h' = some f') :
    ∃ text, m.functionText? h = some text ∧ (m'.functionText? h' = some text ↔
      f.hasBody = f'.hasBody ∧ f.name = f'.name ∧ f.params = f'.params ∧ f.temps = f'.temps ∧
        List.Forall₂ (Block.Matches (m.Namesakes m')) f.blocks f'.blocks) := by
  have hlegible := legible_of_works hm
  have hlegible' := legible_of_works hm'
  obtain ⟨text, htext⟩ := (hlegible h f hf).wellFormed.exists_definitionText?
  rw [Module.functionText?, Module.functionText?, hf, hf']
  refine ⟨text, htext, fun htext' ↦ ?_, fun hsame ↦ ?_⟩
  · obtain ⟨hname, hparams, htemps, hblocks⟩ :=
      (hlegible h f hf).eq_of_text (hlegible' h' f' hf') hlegible hlegible' htext htext'
    refine ⟨?_, hname, hparams, htemps, hblocks⟩
    rw [Function.hasBody, Function.hasBody]
    generalize f.blocks = blocks, f'.blocks = blocks' at hblocks ⊢
    cases hblocks <;> rfl
  · obtain ⟨-, hname, hparams, htemps, hblocks⟩ := hsame
    exact (definitionText?_of_matches hname hparams htemps hblocks).symm.trans htext

/-- The two zeros are equal as numbers, but not as constants. -/
theorem text_of_signed_zeros :
    let lowered (d : Double) := ((start "m" true).lowering.define (.ofExpr (.number d))).2.program
    let f (d : Double) : Function := ⟨"", [], [⟨"entry", [⟨none, .ret (.const d)⟩]⟩], []⟩
    (lowered .zero).find? ⟨0, 0⟩ = some (f .zero) ∧
      (lowered (.negated .zero)).find? ⟨0, 0⟩ = some (f (.negated .zero)) ∧
      ∃ text, (lowered .zero).functionText? ⟨0, 0⟩ = some text ∧
        (lowered (.negated .zero)).functionText? ⟨0, 0⟩ ≠ some text := by
  intro lowered f
  have hworks : ∀ d, ((start "m" true).feed []).Works (lowered d) :=
    fun d ↦ .inr ⟨.number d, trivial, rfl⟩
  have hf : ∀ d, (lowered d).find? ⟨0, 0⟩ = some (f d) := fun _ ↦ rfl
  obtain ⟨text, htext, hiff⟩ := text_determines_function (hworks .zero) (hworks (.negated .zero))
    (hf .zero) (hf (.negated .zero))
  refine ⟨hf _, hf _, text, htext, fun htext' ↦ ?_⟩
  obtain ⟨-, -, -, -, hblocks⟩ := hiff.mp htext'
  rcases hblocks with _ | ⟨⟨-, hinstructions⟩, -⟩
  rcases hinstructions with _ | ⟨⟨-, hret⟩, -⟩
  generalize hzero : Double.negated .zero = d at hret
  cases hret
  exact absurd hzero (by decide)

end Session

end FloatLang
