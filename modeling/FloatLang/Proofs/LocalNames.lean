import FloatLang.Proofs.Constants
import FloatLang.Proofs.FreshNames
import FloatLang.Proofs.Handles
import FloatLang.Ssa.Print
import Mathlib.Data.List.Perm.Basic

/-!
# What a local name denotes

The names behind `%` are those of the parameters and temporaries of one function. They are invented
in three ways, by a declaration, by renaming a parameter and by inserting an instruction, and each
leaves out other names: a declaration looks at the parameters before, an insertion at everything,
and a renaming at everything but the parameter itself.

`Unambiguous` is what all of them keep: no two values of the function have the same name, and a
temporary is set by exactly one instruction. So a name behind `%` denotes one value, whatever calls
of the builder have been made, in whatever order and with whatever names.
-/

namespace FloatLang.Ssa

/-! ## Every live function -/

namespace Module

/-- Every live function of the module is one of these. -/
def All (m : Module) (P : Function → Prop) : Prop := ∀ h f, m.find? h = some f → P f

variable {m m' : Module} {P : Function → Prop}

theorem all_empty (name : String) : (empty name).All P := by
  intro h f hf
  simp [empty, find?] at hf

theorem All.of_slots_eq (hP : m.All P) (hslots : m'.slots = m.slots) : m'.All P := by
  intro h f hf
  rw [find?, hslots] at hf
  exact hP h f hf

theorem All.update (hP : m.All P) (h : FunctionId) {change : Function → Function}
    (hchange : ∀ f, m.find? h = some f → P f → P (change f)) : (m.update h change).All P := by
  intro h' f' hf'
  rw [find?_update] at hf'
  by_cases hh : h' = h
  · rw [if_pos hh, hh] at hf'
    obtain ⟨f, hf, rfl⟩ := Option.map_eq_some_iff.mp hf'
    exact hchange f hf (hP h f hf)
  · rw [if_neg hh] at hf'
    exact hP h' f' hf'

theorem All.declare (hP : m.All P) (hm : m.Tidy) {n : String} {params : List String}
    (hnew : P ⟨n, freshParams params, [], []⟩) : (m.declare n params).2.All P := by
  intro h f hf
  rw [hm.find?_declare] at hf
  by_cases hh : h = (m.declare n params).1
  · rw [if_pos hh, Option.some.injEq] at hf
    exact hf ▸ hnew
  · rw [if_neg hh] at hf
    exact hP h f hf

theorem All.dropBody (hP : m.All P) (h : FunctionId)
    (hdrop : ∀ f, P f → P f.withoutBody) : (m.dropBody h).All P :=
  (hP.update h fun f _ ↦ hdrop f).of_slots_eq (slots_dropBody m h)

theorem All.erase (hP : m.All P) (h : FunctionId) : (m.erase h).All P := by
  intro h' f hf
  rw [find?_erase] at hf
  by_cases hh : h' = h
  · rw [if_pos hh] at hf
    cases hf
  · rw [if_neg hh] at hf
    exact hP h' f hf

/-- An insertion that is made changes the function at the cursor, which has the block. -/
private theorem left_insert_cases (m : Module) (op : Operation) (base : Option String) :
    m.left (insert op base) = m ∨
      ∃ (c : BlockId) (f : Function), m.find? c.function = some f ∧ c.index < f.blocks.length ∧
        m.left (insert op base) = m.update c.function fun f ↦ f.addOperation c.index op base := by
  rw [left, insert, EStateM.run_bind, EStateM.run_get]
  cases hc : m.cursor with
  | none => exact .inl (by simp only [hc]; rfl)
  | some c =>
    cases hf : m.find? c.function with
    | none => exact .inl (by simp only [hc, hf]; rfl)
    | some f =>
      by_cases hlt : c.index < f.blocks.length
      · exact .inr ⟨c, f, hf, hlt, by simp only [hc, hf, if_pos hlt]; rfl⟩
      · exact .inl (by simp only [hc, hf, if_neg hlt]; rfl)

theorem All.insert (hP : m.All P) (op : Operation) (base : Option String)
    (hop : ∀ f block, P f → block < f.blocks.length → P (f.addOperation block op base)) :
    (m.left (insert op base)).All P := by
  rcases m.left_insert_cases op base with hsame | ⟨c, f, hf, hlt, hleft⟩
  · rwa [hsame]
  · rw [hleft]
    refine hP.update c.function fun g hg hPg ↦ hop g c.index hPg ?_
    rwa [Option.some.inj (hg.symm.trans hf)]

end Module

/-! ## Functions in which names denote one value -/

namespace Function

/-- The temporaries that the instructions set, from the first block to the last. -/
def results (f : Function) : List Nat :=
  (f.blocks.flatMap Block.instructions).filterMap Instruction.result

/-- No two parameters or temporaries have the same name, and each temporary is set once. -/
structure Unambiguous (f : Function) : Prop where
  nodup : f.localNames.Nodup
  results : f.results.Perm (List.range f.temps.length)

variable {f : Function} {block : Nat}

private theorem results_addInstruction (hlt : block < f.blocks.length) (i : Instruction) :
    (f.addInstruction block i).results.Perm (f.results ++ i.result.toList) := by
  obtain ⟨before, b, behind, hblocks, -, hmodify⟩ := List.exists_of_modify
    (fun b : Block ↦ { b with instructions := b.instructions ++ [i] }) hlt
  have hlast : [i].filterMap Instruction.result = i.result.toList := by
    cases hi : i.result <;> simp [hi]
  rw [results, results, addInstruction]
  simp only [hmodify]
  simp only [hblocks, List.flatMap_append, List.flatMap_cons, List.filterMap_append, hlast,
    List.append_assoc, List.perm_append_left_iff]
  -- the new instruction stands before those of the later blocks
  exact List.perm_append_comm

namespace Unambiguous

theorem declared (name : String) (params : List String) :
    Unambiguous ⟨name, freshParams params, [], []⟩ where
  nodup := by
    rw [localNames, List.append_nil]
    exact nodup_freshParams params
  results := List.Perm.refl _

theorem withoutBody (hf : f.Unambiguous) : f.withoutBody.Unambiguous where
  nodup := by
    rw [localNames, Function.withoutBody, List.append_nil]
    exact (List.nodup_append.mp hf.nodup).1
  results := List.Perm.refl _

theorem appendBlock (hf : f.Unambiguous) (label : String) :
    Unambiguous { f with blocks := f.blocks ++ [⟨label, []⟩] } where
  nodup := hf.nodup
  results := by simpa [Function.results] using hf.results

/-- The parameter that is renamed is the one name that its new name need not differ from. -/
theorem nameParam (hf : f.Unambiguous) (i : Nat) (base : String) :
    (f.nameParam i base).Unambiguous where
  nodup := by
    by_cases hlt : i < f.params.length
    · have hbeside : (f.namesBeside i).Nodup :=
        hf.nodup.sublist ((List.eraseIdx_sublist f.params i).append_right f.temps)
      have hperm : (f.nameParam i base).localNames.Perm
          (freshName (f.namesBeside i) base :: f.namesBeside i) :=
        (List.set_perm_cons_eraseIdx hlt _).append_right f.temps
      exact hperm.nodup_iff.mpr (List.nodup_cons.mpr ⟨freshName_notMem _ _, hbeside⟩)
    · rw [localNames, Function.nameParam, List.set_eq_of_length_le (Nat.le_of_not_lt hlt)]
      exact hf.nodup
  results := hf.results

theorem addTemp_nodup (hf : f.Unambiguous) (base : String) : (f.addTemp base).localNames.Nodup := by
  rw [localNames, addTemp, ← List.append_assoc]
  refine List.nodup_append.mpr ⟨hf.nodup, List.nodup_singleton _, fun x hx y hy ↦ ?_⟩
  rintro rfl
  rw [List.mem_singleton.mp hy] at hx
  exact freshName_notMem f.localNames base hx

theorem addOperation (hf : f.Unambiguous) (hlt : block < f.blocks.length) (op : Operation)
    (base : Option String) : (f.addOperation block op base).Unambiguous := by
  cases base with
  | none =>
    refine ⟨hf.nodup, (results_addInstruction hlt ⟨none, op⟩).trans ?_⟩
    rw [Option.toList_none, List.append_nil]
    exact hf.results
  | some base =>
    refine ⟨hf.addTemp_nodup base, ?_⟩
    have hnew : ((f.addTemp base).addInstruction block ⟨some f.temps.length, op⟩).results.Perm
        (f.results ++ [f.temps.length]) :=
      results_addInstruction (f := f.addTemp base) hlt ⟨some f.temps.length, op⟩
    refine hnew.trans ?_
    show (f.results ++ [f.temps.length]).Perm (List.range (f.addTemp base).temps.length)
    rw [length_temps_addTemp, List.range_succ]
    exact hf.results.append_right _

end Unambiguous

end Function

end Ssa

/-! ## The texts of operands -/

private theorem Double.head?_scientific_ne (d : Double) : d.scientific.head? ≠ some '%' := by
  have hdigits : ∀ n : Nat, (((toString n).toList.drop 1).take 1).head? ≠ some '%' := by
    intro n hn
    have hmem := List.mem_of_mem_drop (List.mem_of_mem_take (List.mem_of_mem_head? hn))
    exact absurd (Ssa.isDigit_of_mem_toString hmem) (by decide)
  rw [scientific]
  cases d.isNegative with
  | true => simp
  | false =>
    -- without a sign the text begins with a digit, or with the point
    have hfirst := hdigits (10 ^ (7 : Nat) + (d.rounded 6).coefficient)
    cases hcases :
        ((toString (10 ^ (7 : Nat) + (d.rounded 6).coefficient)).toList.drop 1).take 1 with
    | nil => simp
    | cons c cs =>
      rw [hcases] at hfirst
      simpa using hfirst

private theorem Double.head?_constantText_ne (d : Double) : d.constantText.head? ≠ some '%' := by
  rw [constantText]
  cases htext : d.exponential? with
  | none => simp [bitsText]
  | some text =>
    have hhead := head?_of_respelled? (exponential?_eq_some_iff.mp htext).2.1
    exact fun h ↦ d.head?_scientific_ne (hhead ▸ h)

namespace Ssa

namespace Function

variable {f : Function} {v w : Value} {x : String}

private theorem operandText?_eq_local (hv : f.operandText? v = some ("%" ++ x)) :
    (∃ i, v = .param i ∧ f.params[i]? = some x) ∨ ∃ i, v = .temp i ∧ f.temps[i]? = some x := by
  have hlocal : ∀ (names : List String) (i : Nat), (names[i]?.map ("%" ++ ·)) = some ("%" ++ x) →
      names[i]? = some x := by
    intro names i hi
    obtain ⟨y, hy, hxy⟩ := Option.map_eq_some_iff.mp hi
    rw [hy, (String.append_right_inj "%").mp hxy]
  cases v with
  | const d =>
    have htext := congrArg String.toList (Option.some.inj hv)
    rw [String.toList_ofList, String.toList_append] at htext
    exact absurd (congrArg List.head? htext) d.head?_constantText_ne
  | bool b =>
    have htext := congrArg (fun s ↦ s.toList.head?) (Option.some.inj hv)
    rw [String.toList_append] at htext
    cases b <;> exact absurd htext (by simp)
  | param i => exact .inl ⟨i, rfl, hlocal f.params i hv⟩
  | temp i => exact .inr ⟨i, rfl, hlocal f.temps i hv⟩

theorem Unambiguous.eq_of_operandText? (hf : f.Unambiguous)
    (hv : f.operandText? v = some ("%" ++ x)) (hw : f.operandText? w = some ("%" ++ x)) :
    v = w := by
  obtain ⟨hparams, htemps, hdisjoint⟩ := List.nodup_append.mp hf.nodup
  have hinj : ∀ {names : List String} {i j : Nat}, names.Nodup → names[i]? = some x →
      names[j]? = some x → i = j := fun hnames hi hj ↦
    (List.getElem?_inj (List.getElem?_eq_some_iff.mp hi).1 hnames).mp (hi.trans hj.symm)
  rcases operandText?_eq_local hv with ⟨i, rfl, hi⟩ | ⟨i, rfl, hi⟩ <;>
    rcases operandText?_eq_local hw with ⟨j, rfl, hj⟩ | ⟨j, rfl, hj⟩
  · exact congrArg Value.param (hinj hparams hi hj)
  · exact absurd rfl (hdisjoint x (List.mem_of_getElem? hi) x (List.mem_of_getElem? hj))
  · exact absurd rfl (hdisjoint x (List.mem_of_getElem? hj) x (List.mem_of_getElem? hi))
  · exact congrArg Value.temp (hinj htemps hi hj)

end Function

/-! ## After any calls -/

namespace Module

variable {m : Module}

theorem unambiguous_perform (hm : m.Tidy) (hall : m.All Function.Unambiguous) (c : BuilderCall) :
    (m.perform c).All Function.Unambiguous := by
  have hinsert : ∀ op base, (m.left (insert op base)).All Function.Unambiguous := fun op base ↦
    hall.insert op base fun f block hf hlt ↦ hf.addOperation hlt op base
  have hvalue : ∀ op base, (m.left (insertValue op base)).All Function.Unambiguous := by
    intro op base
    rw [insertValue, left_map]
    exact hinsert op (some base)
  cases c with
  | declare name params => exact hall.declare hm (.declared name params)
  | nameParam h i base => exact hall.update h fun f _ hf ↦ hf.nameParam i base
  | appendBlock h label => exact hall.update h fun f _ hf ↦ hf.appendBlock label
  | positionAtEnd b => exact hall.of_slots_eq rfl
  | binary op l r base =>
    rw [perform, buildBinary.eq_def]
    split
    · exact hall
    · exact hvalue _ base
  | widen value base =>
    rw [perform, buildWiden.eq_def]
    split
    · exact hall
    · exact hvalue _ base
  | call callee args base => exact hvalue _ base
  | ret value =>
    rw [perform, buildRet, left_map]
    exact hinsert (.ret value) none
  | dropBody h => exact hall.dropBody h fun f hf ↦ hf.withoutBody
  | erase h => exact hall.erase h

theorem unambiguous_performed (hm : m.Tidy) (hall : m.All Function.Unambiguous)
    (calls : List BuilderCall) : (m.performed calls).All Function.Unambiguous := by
  induction calls generalizing m with
  | nil => exact hall
  | cons c calls ih => exact ih (hm.perform c) (unambiguous_perform hm hall c)

/-- **A local name denotes one value.** After any calls of the builder, in every live function the
names of the parameters and temporaries are pairwise different, each temporary is set by exactly one
instruction, and no two operands are written as the same name. -/
theorem local_names_denote_one_value {moduleName : String} {calls : List BuilderCall}
    {h : FunctionId} {f : Function}
    (hf : ((empty moduleName).performed calls).find? h = some f) :
    (f.params ++ f.temps).Nodup ∧ f.results.Perm (List.range f.temps.length) ∧
      ∀ v w x, f.operandText? v = some ("%" ++ x) → f.operandText? w = some ("%" ++ x) → v = w := by
  have hunambiguous :=
    unambiguous_performed (tidy_empty moduleName) (all_empty moduleName) calls h f hf
  exact ⟨hunambiguous.nodup, hunambiguous.results, fun v w x ↦ hunambiguous.eq_of_operandText?⟩

/-- Parameters called as temporaries will be, and renamed when there are temporaries. -/
theorem local_names_of_renamed :
    let h : FunctionId := ⟨0, 0⟩
    let f : Function := ⟨"f", ["addtmp11", "addtmp", "addtmp3"],
      [⟨"entry", [⟨some 0, .binary .add (.param 0) (.param 1)⟩,
        ⟨some 1, .binary .add (.temp 0) (.param 2)⟩]⟩], ["addtmp1", "addtmp2"]⟩
    ((empty "m").performed [.declare "f" ["x", "addtmp", "x"], .appendBlock h "entry",
      .positionAtEnd ⟨h, 0⟩, .binary .add (.param 0) (.param 1) "addtmp",
      .nameParam h 0 "addtmp1", .binary .add (.temp 0) (.param 2) "addtmp",
      .nameParam h 2 "addtmp"]).find? h = some f ∧
    (f.params ++ f.temps).Nodup ∧ f.results.Perm (List.range f.temps.length) ∧
      ∀ v w x, f.operandText? v = some ("%" ++ x) → f.operandText? w = some ("%" ++ x) → v = w := by
  intro h f
  have hf : ((empty "m").performed [.declare "f" ["x", "addtmp", "x"], .appendBlock h "entry",
      .positionAtEnd ⟨h, 0⟩, .binary .add (.param 0) (.param 1) "addtmp",
      .nameParam h 0 "addtmp1", .binary .add (.temp 0) (.param 2) "addtmp",
      .nameParam h 2 "addtmp"]).find? h = some f := by
    decide +kernel
  exact ⟨hf, local_names_denote_one_value hf⟩

end Module

end FloatLang.Ssa
