import FloatLang.Proofs.MapM
import FloatLang.Proofs.Perform

/-!
# Well-formed functions

Every function that a session holds is well-formed: it is a declaration, or one block whose
instructions set the temporaries in order and use only what has been set before, with one return at
the end. The running and the printing of functions rely on it, since they look operands up by index.

There are two kinds of results, numbers and truth values, and only a comparison gives a truth value.
Which kind a temporary has can be read off the instruction that sets it, so the kinds of the
temporaries so far are a context in which the next instruction can be typed. A translation is
well-typed in the context in which it was made, and that is all that well-formedness needs.
-/

namespace FloatLang

open Ssa

namespace Ssa

/-! ## What is to be shown -/

def Operation.operands : Operation → List Value
  | .binary _ l r => [l, r]
  | .widen v => [v]
  | .call _ args => args
  | .ret v => [v]

def Instruction.Sets (i : Instruction) (j : Nat) : Prop := i.result = some j

def Instruction.IsRet (i : Instruction) : Prop := ∃ v, i.operation = .ret v

def Instruction.IsComparison (i : Instruction) : Prop := ∃ l r, i.operation = .binary .less l r

def Instruction.IsWiden (i : Instruction) : Prop := ∃ v, i.operation = .widen v

/-- A block in the single-assignment form of a function `f` of the module `m`. -/
structure Block.WellFormed (m : Module) (f : Function) (b : Block) : Prop where
  /-- The last instruction is a return, which sets nothing. -/
  last : ∃ i, b.instructions.getLast? = some i ∧ i.IsRet ∧ i.result = none
  /-- No other instruction is a return. -/
  others : ∀ i ∈ b.instructions.dropLast, ¬i.IsRet
  /-- The other instructions set the temporaries, in order. -/
  sets : ∀ k (i : Instruction), b.instructions.dropLast[k]? = some i → i.Sets k
  /-- There are no further temporaries. -/
  temps : f.temps.length = b.instructions.dropLast.length
  /-- A parameter that is used exists. -/
  params : ∀ i ∈ b.instructions, ∀ j, .param j ∈ i.operation.operands → j < f.params.length
  /-- A temporary that is used has been set before. -/
  earlier : ∀ (k : Nat) (i : Instruction), b.instructions[k]? = some i →
    ∀ j, .temp j ∈ i.operation.operands →
      ∃ k' < k, ∃ i' : Instruction, b.instructions[k']? = some i' ∧ i'.Sets j
  /-- No truth value is written out. -/
  bools : ∀ i ∈ b.instructions, ∀ c, .bool c ∉ i.operation.operands
  /-- The result of a comparison is only widened. -/
  comparisons : ∀ i ∈ b.instructions, ∀ i' ∈ b.instructions, ∀ j, i.IsComparison → i.Sets j →
    .temp j ∈ i'.operation.operands → i'.IsWiden
  /-- Only the result of a comparison is widened. -/
  widens : ∀ i ∈ b.instructions, ∀ v, i.operation = .widen v →
    ∃ i' ∈ b.instructions, ∃ j, v = .temp j ∧ i'.IsComparison ∧ i'.Sets j
  /-- A call is of a live function with a name, with as many arguments as that has parameters. -/
  calls : ∀ i ∈ b.instructions, ∀ h args, i.operation = .call h args →
    ∃ g, m.find? h = some g ∧ g.params.length = args.length ∧ g.name ≠ ""

/-- A function that is a declaration, or has one block and that is well-formed. -/
def Function.WellFormed (m : Module) (f : Function) : Prop :=
  f.blocks = [] ∨ ∃ b, f.blocks = [b] ∧ b.WellFormed m f

def Module.WellFormed (m : Module) : Prop := ∀ h f, m.find? h = some f → f.WellFormed m

/-! ## Kinds -/

/-- What a temporary holds. -/
inductive Kind
  | number
  | truth
deriving DecidableEq

/-- What the result of an operation is. -/
def Operation.kind : Operation → Kind
  | .binary .less _ _ => .truth
  | _ => .number

/-- In a function with `count` parameters, after temporaries of these kinds, the operand exists and
is of kind `k`. -/
def Value.HasKind (count : Nat) (kinds : List Kind) (k : Kind) : Value → Prop
  | .const _ => k = .number
  | .bool _ => False
  | .param i => i < count ∧ k = .number
  | .temp j => kinds[j]? = some k

variable {valid : FunctionId → Nat → Prop} {count : Nat} {kinds more : List Kind}

theorem Value.HasKind.append {k : Kind} {v : Value} (hv : v.HasKind count kinds k) :
    v.HasKind count (kinds ++ more) k := by
  cases v with
  | const d => exact hv
  | bool b => exact hv
  | param i => exact hv
  | temp j =>
    rw [Value.HasKind] at hv ⊢
    rw [List.getElem?_append_left (List.getElem?_eq_some_iff.mp hv).1, hv]

/-- The operands are of the kinds that the operation is for, and calls are valid. -/
def Operation.Typed (valid : FunctionId → Nat → Prop) (count : Nat) (kinds : List Kind) :
    Operation → Prop
  | .binary _ l r => l.HasKind count kinds .number ∧ r.HasKind count kinds .number
  | .widen v => v.HasKind count kinds .truth
  | .call h args => valid h args.length ∧ ∀ v ∈ args, v.HasKind count kinds .number
  | .ret v => v.HasKind count kinds .number

/-- Whether a step is the step of an instruction that has a result. -/
def Step.HasResult (s : Step) : Prop := ∀ v, s.operation ≠ .ret v

/-- What the results of steps are. -/
def kindsOf (steps : List Step) : List Kind := steps.map fun s ↦ s.operation.kind

@[simp] theorem length_kindsOf (steps : List Step) : (kindsOf steps).length = steps.length :=
  List.length_map _

/-- Each step is typed after the ones before it. -/
def StepsTyped (valid : FunctionId → Nat → Prop) (count : Nat) (kinds : List Kind) :
    List Step → Prop
  | [] => True
  | s :: steps => s.operation.Typed valid count kinds ∧ s.HasResult ∧
      StepsTyped valid count (kinds ++ [s.operation.kind]) steps

theorem stepsTyped_append_iff {steps later : List Step} :
    StepsTyped valid count kinds (steps ++ later) ↔
      StepsTyped valid count kinds steps ∧
        StepsTyped valid count (kinds ++ kindsOf steps) later := by
  induction steps generalizing kinds with
  | nil => simp [StepsTyped, kindsOf]
  | cons s steps ih =>
    rw [List.cons_append, StepsTyped, StepsTyped, ih, kindsOf, kindsOf, List.map_cons,
      List.append_assoc, List.singleton_append]
    simp only [and_assoc]

theorem StepsTyped.getElem? {steps : List Step} (hs : StepsTyped valid count kinds steps)
    {k : Nat} {s : Step} (hk : steps[k]? = some s) :
    s.operation.Typed valid count (kinds ++ kindsOf (steps.take k)) ∧ s.HasResult := by
  obtain ⟨hlt, rfl⟩ := List.getElem?_eq_some_iff.mp hk
  have hsplit := List.take_append_drop k steps
  rw [List.drop_eq_getElem_cons hlt] at hsplit
  rw [← hsplit, stepsTyped_append_iff, StepsTyped] at hs
  exact ⟨hs.2.1, hs.2.2.1⟩

end Ssa

/-! ## Translations are typed -/

section Translations

variable {valid : FunctionId → Nat → Prop} {count : Nat}
  {callee? : String → Option (FunctionId × Nat)} {scope : Scope}

theorem BinarySteps.typed {op : BinaryOp} {l r v : Value} {kinds : List Kind} {steps : List Step}
    (hs : BinarySteps op l r kinds.length v steps) (hl : l.HasKind count kinds .number)
    (hr : r.HasKind count kinds .number) :
    StepsTyped valid count kinds steps ∧
      v.HasKind count (kinds ++ kindsOf steps) .number := by
  rcases hs with ⟨rfl, rfl⟩ | ⟨hop, base⟩ | ⟨rfl, base, base'⟩
  · exact ⟨trivial, rfl⟩
  · have hkind : (Operation.binary op l r).kind = .number := by
      cases op with
      | less => exact absurd rfl hop
      | _ => rfl
    refine ⟨⟨⟨hl, hr⟩, nofun, trivial⟩, ?_⟩
    rw [Value.HasKind, kindsOf, List.map_singleton, hkind, List.getElem?_concat_length]
  · refine ⟨⟨⟨hl, hr⟩, nofun, ?_, nofun, trivial⟩, ?_⟩
    · rw [Operation.Typed, Value.HasKind, List.getElem?_concat_length]
      rfl
    · rw [Value.HasKind, kindsOf, List.getElem?_append_right (by omega), Nat.add_sub_cancel_left]
      rfl

mutual

/-- A translation is typed after the temporaries that there were, and its value is a number. -/
theorem typed_translateExpr
    (hvalid : ∀ name h n, name ≠ "" → callee? name = some (h, n) → valid h n)
    (hscope : ∀ x v, scope.lookup x = some v → v.HasKind count [] .number) {e : Expr}
    (he : e.Named) {kinds : List Kind} {v : Value} {steps : List Step}
    (ht : translateExpr callee? scope e kinds.length = .ok (v, steps)) :
    StepsTyped valid count kinds steps ∧
      v.HasKind count (kinds ++ kindsOf steps) .number := by
  cases e with
  | number d =>
    rw [translateExpr] at ht
    cases ht
    exact ⟨trivial, rfl⟩
  | name x =>
    obtain ⟨hx, rfl⟩ := translateExpr_name_eq_ok_iff.mp ht
    exact ⟨trivial, (hscope x v hx).append⟩
  | binary op lhs rhs =>
    rw [Expr.Named] at he
    obtain ⟨l, first, r, second, last, hl, hr, hop, rfl⟩ := translateExpr_binary_eq_ok_iff.mp ht
    obtain ⟨o, -, hbinary⟩ := translateBinary_eq_ok hop
    -- each part is typed after the temporaries of the parts before it
    obtain ⟨hfirst, hl⟩ := typed_translateExpr hvalid hscope he.1 hl
    rw [show kinds.length + first.length = (kinds ++ kindsOf first).length by simp] at hr hbinary
    obtain ⟨hsecond, hr⟩ := typed_translateExpr hvalid hscope he.2 hr
    rw [show (kinds ++ kindsOf first).length + second.length
      = (kinds ++ kindsOf first ++ kindsOf second).length by simp [Nat.add_assoc]] at hbinary
    obtain ⟨hlast, hv⟩ := hbinary.typed hl.append hr
    have hkinds : kinds ++ kindsOf (first ++ (second ++ last))
        = kinds ++ kindsOf first ++ kindsOf second ++ kindsOf last := by simp [kindsOf]
    rw [hkinds, stepsTyped_append_iff, stepsTyped_append_iff]
    exact ⟨⟨hfirst, hsecond, hlast⟩, hv⟩
  | call name args =>
    rw [Expr.Named] at he
    obtain ⟨h, values, first, hh, hargs, rfl, rfl⟩ := translateExpr_call_eq_ok_iff.mp ht
    obtain ⟨hlength, hfirst, hvalues⟩ := typed_translateArgs hvalid hscope he.2 hargs
    have hcall := hvalid name h _ he.1 hh
    rw [← hlength] at hcall
    refine ⟨stepsTyped_append_iff.mpr ⟨hfirst, ⟨hcall, hvalues⟩, nofun, trivial⟩, ?_⟩
    rw [Value.HasKind, kindsOf, List.map_append, ← kindsOf, ← List.append_assoc,
      ← length_kindsOf first, ← List.length_append]
    exact List.getElem?_concat_length

theorem typed_translateArgs
    (hvalid : ∀ name h n, name ≠ "" → callee? name = some (h, n) → valid h n)
    (hscope : ∀ x v, scope.lookup x = some v → v.HasKind count [] .number) {args : List Expr}
    (hargs : Expr.AllNamed args) {kinds : List Kind} {values : List Value} {steps : List Step}
    (ht : translateArgs callee? scope args kinds.length = .ok (values, steps)) :
    values.length = args.length ∧ StepsTyped valid count kinds steps ∧
      ∀ v ∈ values, v.HasKind count (kinds ++ kindsOf steps) .number := by
  cases args with
  | nil =>
    rw [translateArgs] at ht
    cases ht
    exact ⟨rfl, trivial, nofun⟩
  | cons arg args =>
    rw [Expr.AllNamed] at hargs
    obtain ⟨v, first, vs, later, hv, hvs, rfl, rfl⟩ := translateArgs_cons_eq_ok_iff.mp ht
    obtain ⟨hfirst, hv⟩ := typed_translateExpr hvalid hscope hargs.1 hv
    rw [show kinds.length + first.length = (kinds ++ kindsOf first).length by simp] at hvs
    obtain ⟨hlength, hlater, hvs⟩ := typed_translateArgs hvalid hscope hargs.2 hvs
    have hkinds : kinds ++ kindsOf (first ++ later)
        = kinds ++ kindsOf first ++ kindsOf later := by simp [kindsOf]
    refine ⟨congrArg (· + 1) hlength, stepsTyped_append_iff.mpr ⟨hfirst, hlater⟩, ?_⟩
    rw [hkinds]
    intro w hw
    rcases List.mem_cons.mp hw with rfl | hw
    · exact hv.append
    · exact hvs w hw

end

end Translations

/-! ## Typed code is well-formed -/

namespace Ssa

section Code

variable {valid : FunctionId → Nat → Prop} {count : Nat} {steps : List Step} {v : Value}
  {i : Instruction}

private theorem getElem?_body {k : Nat} (hk : (code 0 steps ++ [⟨none, .ret v⟩])[k]? = some i) :
    (∃ s, steps[k]? = some s ∧ i = ⟨some k, s.operation⟩) ∨
      k = steps.length ∧ i = ⟨none, .ret v⟩ := by
  by_cases hlt : k < steps.length
  · left
    rw [List.getElem?_append_left (by simpa using hlt), getElem?_code, Nat.zero_add,
      Option.map_eq_some_iff] at hk
    obtain ⟨s, hs, rfl⟩ := hk
    exact ⟨s, hs, rfl⟩
  · right
    rw [List.getElem?_append_right (by simpa using hlt), length_code,
      List.getElem?_singleton] at hk
    split at hk
    · exact ⟨by omega, (Option.some.inj hk).symm⟩
    · cases hk

private theorem typed_body (hs : StepsTyped valid count [] steps)
    (hv : v.HasKind count (kindsOf steps) .number) {k : Nat}
    (hk : (code 0 steps ++ [⟨none, .ret v⟩])[k]? = some i) :
    i.operation.Typed valid count (kindsOf (steps.take k)) := by
  rcases getElem?_body hk with ⟨s, hstep, rfl⟩ | ⟨rfl, rfl⟩
  · exact (hs.getElem? hstep).1
  · rw [List.take_length]
    exact hv

private theorem Operation.Typed.operand {op : Operation} {kinds : List Kind} {w : Value}
    (hop : op.Typed valid count kinds) (hw : w ∈ op.operands) :
    ∃ k, w.HasKind count kinds k ∧ (k = .truth → op = .widen w) := by
  cases op with
  | binary o l r =>
    rcases List.mem_pair.mp hw with rfl | rfl
    · exact ⟨.number, hop.1, nofun⟩
    · exact ⟨.number, hop.2, nofun⟩
  | widen u =>
    obtain rfl := List.mem_singleton.mp hw
    exact ⟨.truth, hop, fun _ ↦ rfl⟩
  | call h args => exact ⟨.number, hop.2 w hw, nofun⟩
  | ret u =>
    obtain rfl := List.mem_singleton.mp hw
    exact ⟨.number, hop, nofun⟩

private theorem exists_step_of_hasKind {k j : Nat} {kind : Kind}
    (hj : (Value.temp j).HasKind count (kindsOf (steps.take k)) kind) :
    j < k ∧ ∃ s, steps[j]? = some s ∧ s.operation.kind = kind := by
  rw [Value.HasKind, kindsOf, List.getElem?_map, Option.map_eq_some_iff] at hj
  obtain ⟨s, hs, hkind⟩ := hj
  rw [List.getElem?_take] at hs
  split at hs
  · rename_i hlt
    exact ⟨hlt, s, hs, hkind⟩
  · cases hs

theorem Operation.kind_eq_truth_iff {op : Operation} :
    op.kind = .truth ↔ ∃ l r, op = .binary .less l r := by
  constructor
  · intro h
    rcases op with ⟨_ | _ | _ | _, l, r⟩ | _ | _ | _
    case binary.less => exact ⟨l, r, rfl⟩
    all_goals cases h
  · rintro ⟨l, r, rfl⟩
    rfl

private theorem exists_step_of_sets {k j : Nat}
    (hk : (code 0 steps ++ [⟨none, .ret v⟩])[k]? = some i)
    (hj : i.Sets j) : k = j ∧ ∃ s, steps[j]? = some s ∧ i = ⟨some j, s.operation⟩ := by
  rcases getElem?_body hk with ⟨s, hs, rfl⟩ | ⟨-, rfl⟩
  · obtain rfl := Option.some.inj hj
    exact ⟨rfl, s, hs, rfl⟩
  · cases hj

private theorem getElem?_body_of_step {j : Nat} {s : Step} (hs : steps[j]? = some s) :
    (code 0 steps ++ [⟨none, .ret v⟩])[j]? = some ⟨some j, s.operation⟩ := by
  have hlt : j < steps.length := (List.getElem?_eq_some_iff.mp hs).1
  rw [List.getElem?_append_left (by simpa using hlt), getElem?_code, hs, Nat.zero_add]
  rfl

theorem wellFormed_body {m : Module} {f : Function}
    (hvalid : ∀ h n, valid h n → ∃ g, m.find? h = some g ∧ g.params.length = n ∧ g.name ≠ "")
    (hs : StepsTyped valid f.params.length [] steps)
    (hv : v.HasKind f.params.length (kindsOf steps) .number)
    (htemps : f.temps.length = steps.length) :
    Block.WellFormed m f ⟨"entry", code 0 steps ++ [⟨none, .ret v⟩]⟩ where
  last := ⟨_, List.getLast?_concat, ⟨v, rfl⟩, rfl⟩
  others := by
    rintro i hi ⟨w, hw⟩
    rw [List.dropLast_concat] at hi
    obtain ⟨k, hk⟩ := List.mem_iff_getElem?.mp hi
    rw [getElem?_code, Option.map_eq_some_iff] at hk
    obtain ⟨s, hstep, rfl⟩ := hk
    exact (hs.getElem? hstep).2 w hw
  sets := by
    intro k i hk
    rw [List.dropLast_concat, getElem?_code, Nat.zero_add, Option.map_eq_some_iff] at hk
    obtain ⟨s, -, rfl⟩ := hk
    rfl
  temps := by rw [List.dropLast_concat, length_code, htemps]
  params := by
    intro i hi j hj
    obtain ⟨k, hk⟩ := List.mem_iff_getElem?.mp hi
    obtain ⟨kind, hkind, -⟩ := (typed_body hs hv hk).operand hj
    exact hkind.1
  earlier := by
    intro k i hk j hj
    obtain ⟨kind, hkind, -⟩ := (typed_body hs hv hk).operand hj
    obtain ⟨hlt, s, hstep, -⟩ := exists_step_of_hasKind hkind
    exact ⟨j, hlt, _, getElem?_body_of_step hstep, rfl⟩
  bools := by
    intro i hi c hc
    obtain ⟨k, hk⟩ := List.mem_iff_getElem?.mp hi
    obtain ⟨kind, hkind, -⟩ := (typed_body hs hv hk).operand hc
    exact hkind
  comparisons := by
    rintro i hi i' hi' j ⟨l, r, hcomp⟩ hsets huse
    -- one step sets the temporary, and it gives a truth value, which has but one use
    obtain ⟨k, hk⟩ := List.mem_iff_getElem?.mp hi
    obtain ⟨k', hk'⟩ := List.mem_iff_getElem?.mp hi'
    obtain ⟨-, s, hstep, rfl⟩ := exists_step_of_sets hk hsets
    obtain ⟨kind, hkind, htruth⟩ := (typed_body hs hv hk').operand huse
    obtain ⟨-, s', hstep', rfl⟩ := exists_step_of_hasKind hkind
    obtain rfl := Option.some.inj (hstep.symm.trans hstep')
    exact ⟨_, htruth (Operation.kind_eq_truth_iff.mpr ⟨l, r, hcomp⟩)⟩
  widens := by
    intro i hi u hu
    obtain ⟨k, hk⟩ := List.mem_iff_getElem?.mp hi
    have htyped := typed_body hs hv hk
    rw [hu, Operation.Typed] at htyped
    cases u with
    | const d => cases htyped
    | bool c => exact htyped.elim
    | param j => cases htyped.2
    | temp j =>
      obtain ⟨-, s, hstep, hkind⟩ := exists_step_of_hasKind htyped
      exact ⟨_, List.mem_of_getElem? (getElem?_body_of_step hstep), j, rfl,
        Operation.kind_eq_truth_iff.mp hkind, rfl⟩
  calls := by
    intro i hi h args hcall
    obtain ⟨k, hk⟩ := List.mem_iff_getElem?.mp hi
    have htyped := typed_body hs hv hk
    rw [hcall] at htyped
    exact hvalid h _ htyped.1

end Code

/-! ## What a module holds is well-formed -/

private theorem hasKind_ofParams {params : List String} {x : String} {v : Value}
    (hx : (Scope.ofParams params).lookup x = some v) :
    v.HasKind params.length [] .number := by
  obtain ⟨before, later, hsplit, -⟩ := List.lookup_eq_some_iff.mp hx
  have hmem : (x, v) ∈ Scope.ofParams params := by
    rw [hsplit]
    exact List.mem_append_right _ List.mem_cons_self
  rw [Scope.ofParams, List.mem_reverse, List.mem_map] at hmem
  obtain ⟨⟨name, i⟩, hi, hpair⟩ := hmem
  obtain ⟨rfl, rfl⟩ := Prod.mk.inj hpair
  have hget := List.mk_mem_zipIdx_iff_getElem?.mp hi
  exact ⟨(List.getElem?_eq_some_iff.mp hget).1, rfl⟩

theorem Function.Translates.wellFormed {m : Module} {T : Sources} (hm : m.Holds T) {f : Function}
    {src : Source} (hf : f.Translates m.callee? src) : f.WellFormed m := by
  cases hbody : src.body? with
  | none => exact .inl (hf.blocks hbody)
  | some e =>
    obtain ⟨hnamed, v, steps, ht, hcode⟩ := hf.body e hbody
    have hvalid : ∀ name h n, name ≠ "" → m.callee? name = some (h, n) →
        ∃ g, m.find? h = some g ∧ g.params.length = n ∧ g.name ≠ "" := by
      intro name h n hname hc
      obtain ⟨hl, hcount⟩ := Module.callee?_eq_some_iff.mp hc
      obtain ⟨g, hg, hgname⟩ := hm.find?_of_lookup? hl
      exact ⟨g, hg, (Module.paramCount_of_find? hg).symm.trans hcount, by rw [hgname]; exact hname⟩
    rw [← List.length_nil] at ht
    obtain ⟨hsteps, hv⟩ := typed_translateExpr hvalid (fun x v ↦ hasKind_ofParams) hnamed ht
    rw [← hf.length_params] at hsteps hv
    exact .inr ⟨_, hcode.blocks, wellFormed_body (fun _ _ h ↦ h) hsteps hv hcode.length_temps⟩

/-- A module that holds the translations of some sources is well-formed. -/
theorem Module.Holds.wellFormed {m : Module} {T : Sources} (hm : m.Holds T) : m.WellFormed := by
  intro h f hf
  obtain ⟨src, -, htrans⟩ := hm.exists_source hf
  exact htrans.wellFormed hm

/-! ## What is well-formed has a text -/

variable {m : Module} {f : Function} {b : Block}

theorem Block.WellFormed.length_eq (hb : b.WellFormed m f) :
    b.instructions.length = f.temps.length + 1 := by
  obtain ⟨i, hi, -⟩ := hb.last
  have hne : b.instructions ≠ [] := fun hnil ↦ by simp [hnil] at hi
  have hpos := List.length_pos_iff.mpr hne
  rw [hb.temps, List.length_dropLast]
  omega

theorem Block.WellFormed.lt_of_sets (hb : b.WellFormed m f) {k j : Nat} {i : Instruction}
    (hk : b.instructions[k]? = some i) (hj : i.Sets j) : j < f.temps.length := by
  have hlt := (List.getElem?_eq_some_iff.mp hk).1
  rw [hb.length_eq] at hlt
  by_cases hlast : k = f.temps.length
  · -- the return is the last instruction, and it sets nothing
    obtain ⟨i', hi', -, hnone⟩ := hb.last
    rw [List.getLast?_eq_getElem?, hb.length_eq, Nat.add_sub_cancel, ← hlast, hk] at hi'
    obtain rfl := Option.some.inj hi'
    rw [Instruction.Sets, hnone] at hj
    cases hj
  · have hdrop : b.instructions.dropLast[k]? = some i := by
      rw [List.getElem?_dropLast, if_pos (by rw [hb.length_eq]; omega), hk]
    rw [Instruction.Sets, hb.sets k i hdrop] at hj
    obtain rfl := Option.some.inj hj
    omega

theorem Block.WellFormed.isSome_operandText? (hb : b.WellFormed m f) {i : Instruction}
    (hi : i ∈ b.instructions) {v : Value} (hv : v ∈ i.operation.operands) :
    (f.operandText? v).isSome = true := by
  cases v with
  | const d => rfl
  | bool c => rfl
  | param j =>
    rw [Function.operandText?, List.getElem?_eq_getElem (hb.params i hi j hv)]
    rfl
  | temp j =>
    obtain ⟨k, hk⟩ := List.mem_iff_getElem?.mp hi
    obtain ⟨k', -, i', hk', hj⟩ := hb.earlier k i hk j hv
    rw [Function.operandText?, List.getElem?_eq_getElem (hb.lt_of_sets hk' hj)]
    rfl

private theorem isSome_operationText? {op : Operation}
    (hop : ∀ v ∈ op.operands, (f.operandText? v).isSome = true) :
    (m.operationText? f op).isSome = true := by
  have htext : ∀ v ∈ op.operands, ∃ text, f.operandText? v = some text := fun v hv ↦
    Option.isSome_iff_exists.mp (hop v hv)
  cases op with
  | binary o l r =>
    obtain ⟨lhs, hlhs⟩ := htext l List.mem_cons_self
    obtain ⟨rhs, hrhs⟩ := htext r (List.mem_cons_of_mem _ List.mem_cons_self)
    rw [Module.operationText?, hlhs, hrhs]
    rfl
  | widen v =>
    obtain ⟨text, htext⟩ := htext v List.mem_cons_self
    rw [Module.operationText?, htext]
    rfl
  | call h args =>
    obtain ⟨texts, htexts⟩ := Option.isSome_iff_exists.mp (isSome_mapM hop)
    rw [Module.operationText?, show args.mapM f.operandText? = some texts from htexts]
    rfl
  | ret v =>
    obtain ⟨text, htext⟩ := htext v List.mem_cons_self
    rw [Module.operationText?, htext]
    rfl

theorem Block.WellFormed.isSome_instructionText? (hb : b.WellFormed m f) {i : Instruction}
    (hi : i ∈ b.instructions) : (m.instructionText? f i).isSome = true := by
  obtain ⟨text, htext⟩ := Option.isSome_iff_exists.mp
    (isSome_operationText? (m := m) fun v hv ↦ hb.isSome_operandText? hi hv)
  rw [Module.instructionText?, htext]
  cases hresult : i.result with
  | none => rfl
  | some t =>
    obtain ⟨k, hk⟩ := List.mem_iff_getElem?.mp hi
    have hlt := hb.lt_of_sets hk hresult
    simp only [Option.bind_eq_bind, Option.bind_some, List.getElem?_eq_getElem hlt]
    rfl

theorem Function.WellFormed.exists_definitionText? (hf : f.WellFormed m) :
    ∃ text, m.definitionText? f = some text := by
  rw [Module.definitionText?]
  rcases hf with hblocks | ⟨b, hblocks, hb⟩
  · rw [if_neg (by simp [Function.hasBody, hblocks])]
    exact ⟨_, rfl⟩
  · obtain ⟨lines, hlines⟩ := Option.isSome_iff_exists.mp
      (isSome_mapM fun i hi ↦ hb.isSome_instructionText? hi)
    rw [if_pos (by simp [Function.hasBody, hblocks]), hblocks, List.mapM_cons, Module.blockText?,
      hlines]
    exact ⟨_, rfl⟩

theorem Module.WellFormed.exists_functionText? (hm : m.WellFormed) (h : FunctionId) :
    ∃ text, m.functionText? h = some text := by
  rw [functionText?]
  cases hf : m.find? h with
  | none => exact ⟨"", rfl⟩
  | some f => exact (hm h f hf).exists_definitionText?

theorem Module.WellFormed.exists_functionTexts (hm : m.WellFormed) (hs : List FunctionId) :
    ∃ texts, hs.mapM m.functionText? = some texts :=
  Option.isSome_iff_exists.mp
    (isSome_mapM fun h _ ↦ Option.isSome_iff_exists.mpr (hm.exists_functionText? h))

end Ssa

/-- **Every function of a session is well-formed**, whatever texts it has been fed, where they
failed, how much of the results could be written, and whether expressions are run. -/
theorem Session.wellFormed_feed (name : String) (evaluates : Bool)
    (texts : List (Option Nat × String)) :
    ((start name evaluates).feed texts).lowering.program.WellFormed := by
  have hstart : ∃ T, (start name evaluates).lowering.program.Holds T :=
    ⟨.empty, Module.holds_empty name⟩
  obtain ⟨T, hT⟩ := exists_holds_feed hstart texts
  exact hT.wellFormed

end FloatLang
