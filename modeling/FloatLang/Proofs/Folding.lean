import FloatLang.Proofs.Definition
import FloatLang.Proofs.Interpreter

/-!
# What is folded while an expression is lowered

An operation is carried out at once if both operands are constants, and the operands of an operation
are whatever the expressions below it have become. So folding looks at one operation at a time, and
it is only by induction that it is complete: an expression without names and calls becomes a
constant, whatever it is made of, and no instruction is inserted for any part of it.

The induction has to say what every expression becomes. A comparison of constants is a truth value
for a moment, which is widened before anything else sees it; so no expression becomes a truth value,
and the operands of an operation are constants exactly if they contain no name and no call.
-/

namespace FloatLang

open Ssa

namespace Expr

/-! ## Constant expressions -/

/-- Whether the expression contains neither a name nor a call. -/
def isConstant : Expr → Bool
  | .number _ => true
  | .name _ => false
  | .binary _ lhs rhs => lhs.isConstant && rhs.isConstant
  | .call _ _ => false

/-- The number that a constant expression comes to, from the bottom up. -/
def value? : Expr → Option Double
  | .number d => some d
  | .name _ => none
  | .binary op lhs rhs => do
    let l ← lhs.value?
    let r ← rhs.value?
    operate? op l r
  | .call _ _ => none

mutual

/-- The number of instructions for an expression: one for each call, and for each operation with a
name or a call below it two if it is a comparison and one if it is not. -/
def instructionCount : Expr → Nat
  | .number _ => 0
  | .name _ => 0
  | .binary op lhs rhs =>
    lhs.instructionCount + rhs.instructionCount +
      if lhs.isConstant && rhs.isConstant then 0 else if op = '<' then 2 else 1
  | .call _ args => argumentCount args + 1

def argumentCount : List Expr → Nat
  | [] => 0
  | arg :: args => arg.instructionCount + argumentCount args

end

/-- What an expression becomes: its number if it is constant, a parameter if it is a name, and the
result of an instruction otherwise. -/
inductive Becomes : Expr → Value → Prop
  | constant {e : Expr} {d : Double} (h : e.value? = some d) : Becomes e (.const d)
  | param (x : String) (i : Nat) : Becomes (.name x) (.param i)
  | temp {e : Expr} (hconstant : e.isConstant = false) (hname : ∀ x, e ≠ .name x) (t : Nat) :
    Becomes e (.temp t)

variable {e : Expr} {v : Value}

private theorem value?_binary_eq_some_iff {op : Char} {lhs rhs : Expr} {d : Double} :
    (binary op lhs rhs).value? = some d ↔
      ∃ l r, lhs.value? = some l ∧ rhs.value? = some r ∧ operate? op l r = some d := by
  simp [value?, Option.bind_eq_some_iff]

private theorem isConstant_of_value? {d : Double} (h : e.value? = some d) :
    e.isConstant = true := by
  induction e using Expr.rec (motive_2 := fun _ ↦ True) generalizing d with
  | number v => rfl
  | name x => cases h
  | binary op lhs rhs ihl ihr =>
    obtain ⟨l, r, hl, hr, -⟩ := value?_binary_eq_some_iff.mp h
    rw [isConstant, ihl hl, ihr hr]
    rfl
  | call f args _ => cases h
  | nil => trivial
  | cons e es _ _ => trivial

theorem Becomes.isConst_iff (h : e.Becomes v) : (∃ d, v = .const d) ↔ e.isConstant = true := by
  rcases h with hvalue | ⟨x, i⟩ | ⟨hconstant, hname, t⟩
  · exact iff_of_true ⟨_, rfl⟩ (isConstant_of_value? hvalue)
  · exact iff_of_false nofun Bool.false_ne_true
  · rw [hconstant]
    exact iff_of_false nofun Bool.false_ne_true

theorem Becomes.isParam_iff (h : e.Becomes v) : (∃ i, v = .param i) ↔ ∃ x, e = .name x := by
  rcases h with hvalue | ⟨x, i⟩ | ⟨hconstant, hname, t⟩
  · refine iff_of_false nofun ?_
    rintro ⟨x, rfl⟩
    cases hvalue
  · exact iff_of_true ⟨i, rfl⟩ ⟨x, rfl⟩
  · exact iff_of_false nofun fun ⟨x, hx⟩ ↦ hname x hx

theorem Becomes.isTemp_iff (h : e.Becomes v) :
    (∃ t, v = .temp t) ↔ e.isConstant = false ∧ ∀ x, e ≠ .name x := by
  rcases h with hvalue | ⟨x, i⟩ | ⟨hconstant, hname, t⟩
  · rw [isConstant_of_value? hvalue]
    exact iff_of_false nofun fun ⟨htrue, _⟩ ↦ Bool.false_ne_true htrue.symm
  · exact iff_of_false nofun fun ⟨_, hname⟩ ↦ hname x rfl
  · exact iff_of_true ⟨t, rfl⟩ ⟨hconstant, hname⟩

theorem Becomes.ne_bool (h : e.Becomes v) (b : Bool) : v ≠ .bool b := by
  rintro rfl
  cases h

theorem Becomes.value? {d : Double} (h : e.Becomes (.const d)) : e.value? = some d := by
  cases h with
  | constant hvalue => exact hvalue

private theorem instructionCount_of_isConstant (h : e.isConstant = true) :
    e.instructionCount = 0 := by
  induction e using Expr.rec (motive_2 := fun _ ↦ True) with
  | number v => rfl
  | name x => rfl
  | binary op lhs rhs ihl ihr =>
    obtain ⟨hl, hr⟩ := (Bool.and_eq_true _ _).mp h
    rw [instructionCount, ihl hl, ihr hr, hl, hr]
    rfl
  | call f args _ => cases h
  | nil => trivial
  | cons e es _ _ => trivial

end Expr

/-! ## Operations -/

section Operations

variable {op : Char} {l r v : Value} {n : Nat} {steps : List Step}

private theorem translateBinary_const {a b : Double}
    (ht : translateBinary op (.const a) (.const b) n = .ok (v, steps)) :
    ∃ d, operate? op a b = some d ∧ v = .const d ∧ steps = [] := by
  have ht' := ht
  rw [translateBinary] at ht
  obtain ⟨o, ho, -⟩ := translateBinary_eq_ok ht'
  refine ⟨_, operate?_of_binaryOp? ho a b, ?_⟩
  rcases binaryOp?_cases ho with ⟨rfl, rfl⟩ | ⟨rfl, rfl⟩ | ⟨rfl, rfl⟩ | ⟨rfl, rfl⟩ <;>
  · cases ht
    exact ⟨rfl, rfl⟩

private theorem translateBinary_of_not_const (hconst : ¬∃ a b, l = .const a ∧ r = .const b)
    (ht : translateBinary op l r n = .ok (v, steps)) :
    (∃ t, v = .temp t) ∧ steps.length = if op = '<' then 2 else 1 := by
  obtain ⟨o, ho, hsteps⟩ := translateBinary_eq_ok ht
  rcases hsteps with ⟨hl, hr⟩ | ⟨hless, base⟩ | ⟨hless, base, base'⟩
  · exact absurd ⟨_, _, hl, hr⟩ hconst
  · refine ⟨⟨_, rfl⟩, ?_⟩
    rcases binaryOp?_cases ho with ⟨rfl, -⟩ | ⟨rfl, -⟩ | ⟨rfl, -⟩ | ⟨-, rfl⟩
    · rfl
    · rfl
    · rfl
    · exact absurd rfl hless
  · refine ⟨⟨_, rfl⟩, ?_⟩
    subst hless
    rcases binaryOp?_cases ho with ⟨-, ho⟩ | ⟨-, ho⟩ | ⟨-, ho⟩ | ⟨rfl, -⟩
    · cases ho
    · cases ho
    · cases ho
    · rfl

end Operations

/-! ## Expressions -/

section Translations

variable {callee? : String → Option (FunctionId × Nat)} {scope : Scope}

mutual

/-- What a translation is of the kind that the expression says, and has as many steps. -/
theorem becomes_translateExpr (hscope : ∀ x v, scope.lookup x = some v → ∃ i, v = .param i)
    {e : Expr} {n : Nat} {v : Value} {steps : List Step}
    (ht : translateExpr callee? scope e n = .ok (v, steps)) :
    e.Becomes v ∧ steps.length = e.instructionCount := by
  cases e with
  | number d =>
    rw [translateExpr] at ht
    cases ht
    exact ⟨.constant rfl, rfl⟩
  | name x =>
    obtain ⟨hx, rfl⟩ := translateExpr_name_eq_ok_iff.mp ht
    obtain ⟨i, rfl⟩ := hscope x v hx
    exact ⟨.param x i, rfl⟩
  | binary op lhs rhs =>
    obtain ⟨l, first, r, second, last, hl, hr, hop, rfl⟩ := translateExpr_binary_eq_ok_iff.mp ht
    obtain ⟨hlhs, hfirst⟩ := becomes_translateExpr hscope hl
    obtain ⟨hrhs, hsecond⟩ := becomes_translateExpr hscope hr
    rw [List.length_append, List.length_append, hfirst, hsecond, Expr.instructionCount]
    by_cases hconst : ∃ a b, l = .const a ∧ r = .const b
    · obtain ⟨a, b, rfl, rfl⟩ := hconst
      obtain ⟨d, hd, rfl, rfl⟩ := translateBinary_const hop
      have hvalue := Expr.value?_binary_eq_some_iff.mpr ⟨a, b, hlhs.value?, hrhs.value?, hd⟩
      refine ⟨.constant hvalue, ?_⟩
      have hboth : (lhs.isConstant && rhs.isConstant) = true := Expr.isConstant_of_value? hvalue
      rw [if_pos hboth]
      rfl
    · obtain ⟨⟨t, rfl⟩, hlast⟩ := translateBinary_of_not_const hconst hop
      -- one of the operands is no constant, and so contains a name or a call
      have hconstant : ¬(lhs.isConstant && rhs.isConstant) = true := by
        intro hboth
        obtain ⟨hleft, hright⟩ := (Bool.and_eq_true _ _).mp hboth
        obtain ⟨a, ha⟩ := hlhs.isConst_iff.mpr hleft
        obtain ⟨b, hb⟩ := hrhs.isConst_iff.mpr hright
        exact hconst ⟨a, b, ha, hb⟩
      refine ⟨.temp (by simpa only [Expr.isConstant, Bool.not_eq_true] using hconstant)
        (fun _ h ↦ Expr.noConfusion h) t, ?_⟩
      rw [if_neg hconstant, hlast, Nat.add_assoc]
  | call name args =>
    obtain ⟨h, values, first, -, hargs, rfl, rfl⟩ := translateExpr_call_eq_ok_iff.mp ht
    refine ⟨.temp rfl (fun _ h ↦ Expr.noConfusion h) _, ?_⟩
    rw [List.length_append, List.length_singleton, length_translateArgs hscope hargs,
      Expr.instructionCount]

theorem length_translateArgs (hscope : ∀ x v, scope.lookup x = some v → ∃ i, v = .param i)
    {args : List Expr} {n : Nat} {values : List Value} {steps : List Step}
    (ht : translateArgs callee? scope args n = .ok (values, steps)) :
    steps.length = Expr.argumentCount args := by
  cases args with
  | nil =>
    rw [translateArgs] at ht
    cases ht
    rfl
  | cons arg args =>
    obtain ⟨v, first, vs, later, hv, hvs, rfl, rfl⟩ := translateArgs_cons_eq_ok_iff.mp ht
    rw [List.length_append, (becomes_translateExpr hscope hv).2, length_translateArgs hscope hvs,
      Expr.argumentCount]

end

end Translations

/-! ## Lowering constants -/

private theorem exists_binaryOp?_of_operate? {op : Char} {a b d : Double}
    (hd : operate? op a b = some d) :
    ∃ o, binaryOp? op = some o ∧ d = o.apply a b := by
  obtain ⟨o, ho⟩ : ∃ o, binaryOp? op = some o := by
    rw [operate?] at hd
    rw [binaryOp?]
    split
    · exact ⟨_, rfl⟩
    split
    · exact ⟨_, rfl⟩
    split
    · exact ⟨_, rfl⟩
    split
    · exact ⟨_, rfl⟩
    · simp_all
  exact ⟨o, ho, Option.some.inj (hd.symm.trans (operate?_of_binaryOp? ho a b))⟩

private theorem run_lowerBinary_const {op : Char} {a b d : Double} (hd : operate? op a b = some d)
    (m : Module) : (lowerBinary op (.const a) (.const b)).run m = .ok (.const d) m := by
  obtain ⟨o, ho, rfl⟩ := exists_binaryOp?_of_operate? hd
  rcases binaryOp?_cases ho with ⟨rfl, rfl⟩ | ⟨rfl, rfl⟩ | ⟨rfl, rfl⟩ | ⟨rfl, rfl⟩ <;> rfl

/-- A constant expression is lowered to its number, wherever the cursor is. -/
private theorem run_lowerExpr_of_value? (scope : Scope) {e : Expr} {d : Double}
    (hd : e.value? = some d) (m : Module) : (lowerExpr scope e).run m = .ok (.const d) m := by
  induction e using Expr.rec (motive_2 := fun _ ↦ True) generalizing d with
  | number v =>
    obtain rfl := Option.some.inj hd
    rw [lowerExpr]
    rfl
  | name x => cases hd
  | binary op lhs rhs ihl ihr =>
    obtain ⟨a, b, ha, hb, hop⟩ := Expr.value?_binary_eq_some_iff.mp hd
    rw [lowerExpr]
    simp only [EStateM.run_bind, ihl ha, ihr hb]
    exact run_lowerBinary_const hop m
  | call f args _ => cases hd
  | nil => trivial
  | cons e es _ _ => trivial

/-! ## Lowering at a cursor -/

private theorem Ssa.Function.blocks_addSteps_eq_modify (f : Function) (block : Nat)
    (steps : List Step) : (f.addSteps block steps).blocks = f.blocks.modify block fun b ↦
      { b with instructions := b.instructions ++ code f.temps.length steps } := by
  induction steps generalizing f with
  | nil =>
    simp only [code, List.append_nil]
    exact (List.modify_id block f.blocks).symm
  | cons s steps ih =>
    have hblocks : (f.addOperation block s.operation (some s.base)).blocks =
        f.blocks.modify block fun b ↦
          { b with instructions := b.instructions ++ [⟨some f.temps.length, s.operation⟩] } := rfl
    have htemps : (f.addOperation block s.operation (some s.base)).temps.length
        = f.temps.length + 1 := length_temps_addTemp f s.base
    refine (ih _).trans ?_
    rw [htemps, hblocks, List.modify_modify_eq]
    congr 1
    funext b
    simp only [Function.comp_apply, List.append_assoc]
    rfl

private theorem exists_param_of_lookup_ofParams {params : List String} {x : String} {v : Value}
    (hx : (Scope.ofParams params).lookup x = some v) : ∃ i, v = .param i := by
  obtain ⟨before, later, hsplit, -⟩ := List.lookup_eq_some_iff.mp hx
  have hmem : (x, v) ∈ Scope.ofParams params := by
    rw [hsplit]
    exact List.mem_append_right _ List.mem_cons_self
  rw [Scope.ofParams, List.mem_reverse, List.mem_map] at hmem
  obtain ⟨⟨name, i⟩, -, hpair⟩ := hmem
  exact ⟨i, (Prod.mk.inj hpair).2.symm⟩

/-- What lowering an expression at the end of the block `c` does, if it succeeds. -/
structure Lowering.Folds (e : Expr) (c : BlockId) (l : Lowering) (v : Value) (l' : Lowering) :
    Prop where
  /-- The value is a constant exactly for an expression without names and calls. -/
  isConst_iff : (∃ d, v = .const d) ↔ e.isConstant = true
  /-- The constant is the number that the expression comes to, and nothing has changed. -/
  value : ∀ d, v = .const d → e.value? = some d ∧ l' = l
  /-- Only a name is a parameter. -/
  isParam_iff : (∃ i, v = .param i) ↔ ∃ x, e = .name x
  /-- All else is a temporary. -/
  isTemp_iff : (∃ t, v = .temp t) ↔ e.isConstant = false ∧ ∀ x, e ≠ .name x
  /-- No truth value is left. -/
  ne_bool : ∀ b, v ≠ .bool b
  /-- As many instructions as the expression says are appended to the block. -/
  instructions : ∃ f f' more, l.program.find? c.function = some f ∧ c.index < f.blocks.length ∧
    l'.program.find? c.function = some f' ∧ List.length more = e.instructionCount ∧
    f'.blocks = f.blocks.modify c.index fun b ↦ { b with instructions := b.instructions ++ more }
  /-- The other functions stay as they are. -/
  others : ∀ h, h ≠ c.function → l'.program.find? h = l.program.find? h

/-- **Folding is complete, and nothing but constants is folded.** An expression that comes to a
number is lowered to that number everywhere, and changes nothing. At the end of a block, with a
scope that holds parameters, an expression that can be lowered becomes a constant exactly if it
contains no name and no call, a parameter if it is a name, and a temporary otherwise; and the
instructions for it are one for each call, and one or two for each operation with a name or a call
below it. -/
theorem folds_expr (e : Expr) :
    (∀ (l : Lowering) d, e.value? = some d → l.expr e = (.ok (.const d), l)) ∧
    ∀ (l : Lowering) c n v l', l.program.Ready c n →
      (∀ x w, l.scope.lookup x = some w → ∃ i, w = .param i) →
      l.expr e = (.ok v, l') → Lowering.Folds e c l v l' := by
  have hconstant : ∀ (l : Lowering) d, e.value? = some d → l.expr e = (.ok (.const d), l) := by
    intro l d hd
    rw [Lowering.expr, run_lowerExpr_of_value? l.scope hd]
  refine ⟨hconstant, fun l c n v l' hready hscope hl ↦ ?_⟩
  have hrun := realizes_lowerExpr l.scope e l.program c n hready rfl
  cases ht : translateExpr l.program.callee? l.scope e n with
  | error err =>
    rw [ht] at hrun
    obtain ⟨steps, hrun⟩ := hrun
    rw [Lowering.expr, hrun] at hl
    cases hl
  | ok p =>
    obtain ⟨w, steps⟩ := p
    rw [ht] at hrun
    rw [Lowering.expr, hrun] at hl
    obtain ⟨rfl, rfl⟩ : w = v ∧ Lowering.mk (l.program.append c steps) l.scope = l' := by
      cases hl
      exact ⟨rfl, rfl⟩
    obtain ⟨hbecomes, hlength⟩ := becomes_translateExpr hscope ht
    obtain ⟨f, hf, hindex, rfl⟩ := hready.block
    refine ⟨hbecomes.isConst_iff, ?_, hbecomes.isParam_iff, hbecomes.isTemp_iff, hbecomes.ne_bool,
      ?_, ?_⟩
    · rintro d rfl
      have hd := hbecomes.value?
      have hnone : steps = [] := List.eq_nil_of_length_eq_zero
        (hlength.trans (Expr.instructionCount_of_isConstant (Expr.isConstant_of_value? hd)))
      rw [hnone, Module.append_nil]
      exact ⟨hd, rfl⟩
    · refine ⟨f, f.addSteps c.index steps, code f.temps.length steps, hf, hindex, ?_, ?_, ?_⟩
      · exact (Module.find?_update_self ..).trans (congrArg _ hf)
      · rw [length_code, hlength]
      · exact f.blocks_addSteps_eq_modify c.index steps
    · intro h hne
      exact Module.find?_update_of_ne _ hne _

/-- A function of one parameter, entered at its first block. -/
def oneParameter : Lowering :=
  let (h, m) := (Module.empty "m").declare "f" ["x"]
  ⟨Lowering.enterBody m h ["x"], .ofParams ["x"]⟩

/-- The sum of the numbers is a constant, the comparison with it is two instructions. -/
theorem folds_comparison_of_sum :
    let e : Expr := .binary '<' (.name "x") (.binary '+' (.number .one) (.number .one))
    Lowering.Folds e ⟨⟨0, 0⟩, 0⟩ oneParameter (.temp 1) (oneParameter.expr e).2 := by
  intro e
  refine (folds_expr e).2 oneParameter ⟨⟨0, 0⟩, 0⟩ 0 _ _ ⟨rfl, ?_⟩ ?_ rfl
  · exact ⟨_, rfl, by decide, rfl⟩
  · exact fun x w ↦ exists_param_of_lookup_ofParams

end FloatLang
