import FloatLang.Lowering
import FloatLang.Proofs.Store

/-!
# Lowering as a translation into straight-line code

Lowering an expression works on a module: it looks names up, and it inserts instructions at the
cursor. Both uses of the module are narrow. Names and numbers of parameters do not change while an
expression is lowered, and all that is inserted goes to the end of one block of one function. So
lowering is a function of the expression, of the scope, of what calls refer to, and of the number
that the next temporary gets; its result is an operand together with the steps to be inserted.

That function is `translateExpr`. It is written in a monad of its own that mirrors the one that
lowering is written in, construct for construct, and `realizes_lowerExpr` says that lowering at a
cursor does what the translation says: on success exactly its steps are appended, on failure some
steps are, and the error is the same.
-/

namespace FloatLang

open Ssa

namespace Ssa

/-! ## Appending steps -/

/-- An operation whose result is a new temporary, with the base of the name of that temporary. -/
structure Step where
  /-- What is done. -/
  operation : Operation
  /-- What the name of the result is made from. -/
  base : String

namespace Function

def addSteps (f : Function) (block : Nat) (steps : List Step) : Function :=
  steps.foldl (fun f s ↦ f.addOperation block s.operation (some s.base)) f

theorem addSteps_append (f : Function) (block : Nat) (steps later : List Step) :
    f.addSteps block (steps ++ later) = (f.addSteps block steps).addSteps block later :=
  List.foldl_append

/-- What appending steps does to the parts of a function that do not depend on the steps. -/
private theorem addSteps_frame (block : Nat) (steps : List Step) :
    ∀ f : Function, (f.addSteps block steps).name = f.name ∧
      (f.addSteps block steps).params = f.params ∧
      (f.addSteps block steps).blocks.length = f.blocks.length ∧
      (f.addSteps block steps).temps.length = f.temps.length + steps.length := by
  induction steps with
  | nil => exact fun f ↦ ⟨rfl, rfl, rfl, rfl⟩
  | cons s steps ih =>
    intro f
    obtain ⟨hname, hparams, hblocks, htemps⟩ := ih (f.addOperation block s.operation (some s.base))
    refine ⟨hname, hparams, ?_, ?_⟩
    · exact hblocks.trans (by simp [addOperation, addInstruction, addTemp])
    · refine htemps.trans ?_
      simp only [addOperation, addInstruction, length_temps_addTemp, List.length_cons]
      omega

@[simp] theorem name_addSteps (f : Function) (block : Nat) (steps : List Step) :
    (f.addSteps block steps).name = f.name := (addSteps_frame block steps f).1

@[simp] theorem params_addSteps (f : Function) (block : Nat) (steps : List Step) :
    (f.addSteps block steps).params = f.params := (addSteps_frame block steps f).2.1

@[simp] theorem length_blocks_addSteps (f : Function) (block : Nat) (steps : List Step) :
    (f.addSteps block steps).blocks.length = f.blocks.length := (addSteps_frame block steps f).2.2.1

@[simp] theorem length_temps_addSteps (f : Function) (block : Nat) (steps : List Step) :
    (f.addSteps block steps).temps.length = f.temps.length + steps.length :=
  (addSteps_frame block steps f).2.2.2

end Function

namespace Module

/-- What a call of `name` refers to: the handle and the number of parameters. -/
def callee? (m : Module) (name : String) : Option (FunctionId × Nat) :=
  (m.lookup? name).map fun h ↦ (h, m.paramCount h)

def append (m : Module) (c : BlockId) (steps : List Step) : Module :=
  m.update c.function fun f ↦ f.addSteps c.index steps

theorem append_nil (m : Module) (c : BlockId) : m.append c [] = m := m.update_id c.function

theorem append_append (m : Module) (c : BlockId) (steps later : List Step) :
    (m.append c steps).append c later = m.append c (steps ++ later) := by
  rw [append, append, append, update_update]
  congr 1
  funext f
  exact (f.addSteps_append c.index steps later).symm

@[simp] theorem callee?_append (m : Module) (c : BlockId) (steps : List Step) :
    (m.append c steps).callee? = m.callee? := by
  have hcount : ∀ h, (m.append c steps).paramCount h = m.paramCount h := by
    intro h
    rw [paramCount, paramCount, append, find?_update]
    by_cases hh : h = c.function
    · rw [if_pos hh, Option.map_map]
      congr 2
      funext f
      simp
    · rw [if_neg hh]
  funext name
  rw [callee?, callee?, append, lookup?_update, ← append]
  simp only [hcount]

/-- The cursor stands at the end of the block `c`, in a function with `n` temporaries. -/
structure Ready (m : Module) (c : BlockId) (n : Nat) : Prop where
  /-- The cursor is there. -/
  cursor : m.cursor = some c
  /-- The block is there. -/
  block : ∃ f, m.find? c.function = some f ∧ c.index < f.blocks.length ∧ f.temps.length = n

theorem Ready.append {m : Module} {c : BlockId} {n : Nat} (hm : m.Ready c n)
    (steps : List Step) : (m.append c steps).Ready c (n + steps.length) := by
  obtain ⟨f, hf, hblock, htemps⟩ := hm.block
  refine ⟨hm.cursor, f.addSteps c.index steps, ?_, by simpa using hblock, by simp [htemps]⟩
  rw [Module.append, find?_update_self, hf]
  rfl

end Module

end Ssa

/-! ## The monad of translations -/

/-- A part of lowering as a function of the number that the next temporary gets: it fails, or it
has a value and the steps to be inserted. -/
def Translation (α : Type) : Type := Nat → Except LoweringError (α × List Step)

namespace Translation

instance : Monad Translation where
  pure a := fun _ ↦ .ok (a, [])
  bind x f := fun n ↦
    match x n with
    | .error e => .error e
    | .ok (a, steps) =>
      match f a (n + steps.length) with
      | .error e => .error e
      | .ok (b, later) => .ok (b, steps ++ later)

variable {α β : Type}

def fail (e : LoweringError) : Translation α := fun _ ↦ .error e

/-- The translation that inserts one step, whose result is its value. -/
def step (operation : Operation) (base : String) : Translation Value := fun n ↦
  .ok (.temp n, [⟨operation, base⟩])

@[simp] theorem pure_apply (a : α) (n : Nat) : (pure a : Translation α) n = .ok (a, []) := rfl

@[simp] theorem fail_apply (e : LoweringError) (n : Nat) :
    (fail e : Translation α) n = .error e := rfl

@[simp] theorem step_apply (operation : Operation) (base : String) (n : Nat) :
    step operation base n = .ok (.temp n, [⟨operation, base⟩]) := rfl

theorem bind_apply (x : Translation α) (f : α → Translation β) (n : Nat) :
    (x >>= f) n =
      match x n with
      | .error e => .error e
      | .ok (a, steps) =>
        match f a (n + steps.length) with
        | .error e => .error e
        | .ok (b, later) => .ok (b, steps ++ later) := rfl

theorem bind_eq_ok_iff {x : Translation α} {f : α → Translation β} {n : Nat} {b : β}
    {steps : List Step} :
    (x >>= f) n = .ok (b, steps) ↔ ∃ a first later, x n = .ok (a, first) ∧
      f a (n + first.length) = .ok (b, later) ∧ steps = first ++ later := by
  rw [bind_apply]
  constructor
  · intro h
    cases hx : x n with
    | error e => simp [hx] at h
    | ok p =>
      obtain ⟨a, first⟩ := p
      cases hf : f a (n + first.length) with
      | error e => simp [hx, hf] at h
      | ok q =>
        obtain ⟨b', later⟩ := q
        simp only [hx, hf, Except.ok.injEq, Prod.mk.injEq] at h
        exact ⟨a, first, later, rfl, by rw [hf, h.1], h.2.symm⟩
  · rintro ⟨a, first, later, hx, hf, rfl⟩
    simp [hx, hf]

end Translation

/-! ## Translating -/

open Translation

def translateOperation (op : BinaryOp) (l r : Value) (base : String) : Translation Value :=
  match l, r with
  | .const a, .const b => pure (op.fold a b)
  | l, r => step (.binary op l r) base

def translateWiden (value : Value) (base : String) : Translation Value :=
  match value with
  | .bool b => pure (.const (.ofBool b))
  | value => step (.widen value) base

def translateBinary (op : Char) (l r : Value) : Translation Value :=
  if op = '+' then translateOperation .add l r "addtmp"
  else if op = '-' then translateOperation .sub l r "subtmp"
  else if op = '*' then translateOperation .mul l r "multmp"
  else if op = '<' then do
    let truth ← translateOperation .less l r "cmptmp"
    translateWiden truth "booltmp"
  else fail (.invalidOperator op)

/-- The handle that `name` refers to, if the function takes `count` arguments. -/
def translateCallee (callee? : String → Option (FunctionId × Nat)) (name : String)
    (count : Nat) : Translation FunctionId :=
  match callee? name with
  | none => fail (.unknownFunction name)
  | some (h, expected) =>
    if expected = count then pure h else fail (.wrongArity name expected count)

mutual

def translateExpr (callee? : String → Option (FunctionId × Nat)) (scope : Scope) :
    Expr → Translation Value
  | .number d => pure (.const d)
  | .name x =>
    match scope.lookup x with
    | some v => pure v
    | none => fail (.unknownVariable x)
  | .binary op lhs rhs => do
    let l ← translateExpr callee? scope lhs
    let r ← translateExpr callee? scope rhs
    translateBinary op l r
  | .call name args => do
    let h ← translateCallee callee? name args.length
    let values ← translateArgs callee? scope args
    step (.call h values) "calltmp"

def translateArgs (callee? : String → Option (FunctionId × Nat)) (scope : Scope) :
    List Expr → Translation (List Value)
  | [] => pure []
  | arg :: args => do
    let v ← translateExpr callee? scope arg
    let vs ← translateArgs callee? scope args
    return v :: vs

end

/-! ## Operators -/

/-- The operation that an operator of the language stands for. -/
def binaryOp? (op : Char) : Option BinaryOp :=
  if op = '+' then some .add
  else if op = '-' then some .sub
  else if op = '*' then some .mul
  else if op = '<' then some .less
  else none

theorem binaryOp?_cases {op : Char} {o : BinaryOp} (hop : binaryOp? op = some o) :
    op = '+' ∧ o = .add ∨ op = '-' ∧ o = .sub ∨ op = '*' ∧ o = .mul ∨ op = '<' ∧ o = .less := by
  rw [binaryOp?] at hop
  split at hop
  · exact .inl ⟨‹_›, (Option.some.inj hop).symm⟩
  split at hop
  · exact .inr (.inl ⟨‹_›, (Option.some.inj hop).symm⟩)
  split at hop
  · exact .inr (.inr (.inl ⟨‹_›, (Option.some.inj hop).symm⟩))
  split at hop
  · exact .inr (.inr (.inr ⟨‹_›, (Option.some.inj hop).symm⟩))
  · cases hop

/-- What an operation on two operands comes to: a constant if they are constants, and otherwise one
step, or two if it is the comparison. -/
inductive BinarySteps (op : BinaryOp) (l r : Value) (n : Nat) : Value → List Step → Prop
  | constant {a b : Double} (hl : l = .const a) (hr : r = .const b) :
    BinarySteps op l r n (.const (op.apply a b)) []
  | arithmetic (hop : op ≠ .less) (base : String) :
    BinarySteps op l r n (.temp n) [⟨.binary op l r, base⟩]
  | comparison (hop : op = .less) (base base' : String) :
    BinarySteps op l r n (.temp (n + 1)) [⟨.binary op l r, base⟩, ⟨.widen (.temp n), base'⟩]

private theorem translateOperation_cases (op : BinaryOp) (l r : Value) (base : String) (n : Nat) :
    (∃ a b, l = .const a ∧ r = .const b ∧
      translateOperation op l r base n = .ok (op.fold a b, [])) ∨
    translateOperation op l r base n = .ok (.temp n, [⟨.binary op l r, base⟩]) := by
  unfold translateOperation
  split
  · exact .inl ⟨_, _, rfl, rfl, rfl⟩
  · exact .inr rfl

private theorem binarySteps_arithmetic {op : BinaryOp} (hop : op ≠ .less) {l r v : Value}
    {base : String} {n : Nat} {steps : List Step}
    (ht : translateOperation op l r base n = .ok (v, steps)) : BinarySteps op l r n v steps := by
  rcases translateOperation_cases op l r base n with ⟨a, b, rfl, rfl, hconst⟩ | hstep
  · rw [hconst] at ht
    cases ht
    cases op with
    | less => exact absurd rfl hop
    | _ => exact .constant rfl rfl
  · rw [hstep] at ht
    cases ht
    exact .arithmetic hop base

private theorem binarySteps_comparison {l r v : Value} {base base' : String} {n : Nat}
    {steps : List Step}
    (ht : (do let truth ← translateOperation .less l r base
              translateWiden truth base' : Translation Value) n = .ok (v, steps)) :
    BinarySteps .less l r n v steps := by
  obtain ⟨truth, first, later, hl, hw, rfl⟩ := bind_eq_ok_iff.mp ht
  rcases translateOperation_cases .less l r base n with ⟨a, b, rfl, rfl, hconst⟩ | hstep
  · rw [hconst] at hl
    cases hl
    cases hw
    exact .constant rfl rfl
  · rw [hstep] at hl
    cases hl
    cases hw
    exact .comparison rfl base base'

theorem translateBinary_eq_ok {op : Char} {l r v : Value} {n : Nat} {steps : List Step}
    (ht : translateBinary op l r n = .ok (v, steps)) :
    ∃ o, binaryOp? op = some o ∧ BinarySteps o l r n v steps := by
  rw [translateBinary] at ht
  rw [binaryOp?]
  split at ht
  · rename_i h
    exact ⟨.add, if_pos h, binarySteps_arithmetic (by decide) ht⟩
  rename_i h
  rw [if_neg h]
  split at ht
  · rename_i h
    exact ⟨.sub, if_pos h, binarySteps_arithmetic (by decide) ht⟩
  rename_i h
  rw [if_neg h]
  split at ht
  · rename_i h
    exact ⟨.mul, if_pos h, binarySteps_arithmetic (by decide) ht⟩
  rename_i h
  rw [if_neg h]
  split at ht
  · rename_i h
    exact ⟨.less, if_pos h, binarySteps_comparison ht⟩
  · cases ht

/-! ## What a translation is made of -/

section Inversion

variable {callee? : String → Option (FunctionId × Nat)} {scope : Scope} {n : Nat}
  {steps : List Step}

theorem translateExpr_name_eq_ok_iff {x : String} {v : Value} :
    translateExpr callee? scope (.name x) n = .ok (v, steps) ↔
      scope.lookup x = some v ∧ steps = [] := by
  rw [translateExpr]
  cases scope.lookup x with
  | none => simp
  | some w => simp [eq_comm]

theorem translateCallee_eq_ok_iff {name : String} {count : Nat} {h : FunctionId} :
    translateCallee callee? name count n = .ok (h, steps) ↔
      callee? name = some (h, count) ∧ steps = [] := by
  rw [translateCallee]
  rcases callee? name with _ | ⟨h', expected⟩
  · simp
  · simp only [Option.some.injEq, Prod.mk.injEq]
    by_cases hcount : expected = count
    · simp [hcount, eq_comm]
    · simp [hcount]

/-- The operands come first, the left one before the right one. -/
theorem translateExpr_binary_eq_ok_iff {op : Char} {lhs rhs : Expr} {v : Value} :
    translateExpr callee? scope (.binary op lhs rhs) n = .ok (v, steps) ↔
      ∃ l first r second last,
        translateExpr callee? scope lhs n = .ok (l, first) ∧
        translateExpr callee? scope rhs (n + first.length) = .ok (r, second) ∧
        translateBinary op l r (n + first.length + second.length) = .ok (v, last) ∧
        steps = first ++ (second ++ last) := by
  rw [translateExpr]
  simp only [bind_eq_ok_iff]
  constructor
  · rintro ⟨l, first, -, hl, ⟨r, second, last, hr, hop, rfl⟩, rfl⟩
    exact ⟨l, first, r, second, last, hl, hr, hop, rfl⟩
  · rintro ⟨l, first, r, second, last, hl, hr, hop, rfl⟩
    exact ⟨l, first, _, hl, ⟨r, second, last, hr, hop, rfl⟩, rfl⟩

/-- The arguments come first, and the call is the last step. -/
theorem translateExpr_call_eq_ok_iff {name : String} {args : List Expr} {v : Value} :
    translateExpr callee? scope (.call name args) n = .ok (v, steps) ↔
      ∃ h values first, callee? name = some (h, args.length) ∧
        translateArgs callee? scope args n = .ok (values, first) ∧
        v = .temp (n + first.length) ∧ steps = first ++ [⟨.call h values, "calltmp"⟩] := by
  rw [translateExpr]
  simp only [bind_eq_ok_iff, translateCallee_eq_ok_iff, step_apply, Except.ok.injEq,
    Prod.mk.injEq]
  constructor
  · rintro ⟨h, -, -, ⟨hh, rfl⟩, ⟨values, first, -, hargs, ⟨rfl, rfl⟩, rfl⟩, rfl⟩
    exact ⟨h, values, first, hh, hargs, rfl, rfl⟩
  · rintro ⟨h, values, first, hh, hargs, rfl, rfl⟩
    exact ⟨h, [], _, ⟨hh, rfl⟩, ⟨values, first, _, hargs, ⟨rfl, rfl⟩, rfl⟩, rfl⟩

theorem translateArgs_cons_eq_ok_iff {arg : Expr} {args : List Expr} {values : List Value} :
    translateArgs callee? scope (arg :: args) n = .ok (values, steps) ↔
      ∃ v first vs later, translateExpr callee? scope arg n = .ok (v, first) ∧
        translateArgs callee? scope args (n + first.length) = .ok (vs, later) ∧
        values = v :: vs ∧ steps = first ++ later := by
  rw [translateArgs]
  simp only [bind_eq_ok_iff, pure_apply, Except.ok.injEq, Prod.mk.injEq]
  constructor
  · rintro ⟨v, first, -, hv, ⟨vs, later, -, hvs, ⟨rfl, rfl⟩, rfl⟩, rfl⟩
    exact ⟨v, first, vs, later, hv, hvs, rfl, by rw [List.append_nil]⟩
  · rintro ⟨v, first, vs, later, hv, hvs, rfl, rfl⟩
    exact ⟨v, first, _, hv, ⟨vs, later, [], hvs, ⟨rfl, rfl⟩, (List.append_nil later).symm⟩, rfl⟩

end Inversion

/-! ## Lowering realizes the translation -/

/-- At a cursor, `x` does what `t` says: it succeeds with the same value and appends the steps, or
it fails with the same error, some steps appended. -/
def Realizes {α : Type} (callee? : String → Option (FunctionId × Nat)) (x : Lower α)
    (t : Translation α) : Prop :=
  ∀ m c n, m.Ready c n → m.callee? = callee? →
    match t n with
    | .ok (a, steps) => x.run m = .ok a (m.append c steps)
    | .error e => ∃ steps, x.run m = .error e (m.append c steps)

namespace Realizes

variable {α β : Type} {callee? : String → Option (FunctionId × Nat)}

theorem pure (a : α) : Realizes callee? (Pure.pure a) (Pure.pure a) := by
  intro m c n _ _
  simp only [pure_apply, Module.append_nil]
  rfl

theorem fail (e : LoweringError) : Realizes (α := α) callee? (throw e) (Translation.fail e) := by
  intro m c n _ _
  exact ⟨[], by rw [Module.append_nil]; rfl⟩

theorem bind {x : Lower α} {t : Translation α} {f : α → Lower β} {g : α → Translation β}
    (hx : Realizes callee? x t) (hf : ∀ a, Realizes callee? (f a) (g a)) :
    Realizes callee? (x >>= f) (t >>= g) := by
  intro m c n hm hcallee
  have hx := hx m c n hm hcallee
  rw [EStateM.run_bind, bind_apply]
  cases ht : t n with
  | error e =>
    rw [ht] at hx
    obtain ⟨steps, hx⟩ := hx
    exact ⟨steps, by rw [hx]⟩
  | ok p =>
    obtain ⟨a, steps⟩ := p
    rw [ht] at hx
    simp only at hx ⊢
    -- the steps leave the cursor where it is and the calls what they are
    have hf := hf a (m.append c steps) c (n + steps.length) (hm.append steps)
      ((m.callee?_append c steps).trans hcallee)
    cases hg : g a (n + steps.length) with
    | error e =>
      rw [hg] at hf
      obtain ⟨later, hf⟩ := hf
      exact ⟨steps ++ later, by simp only [hx, hf, Module.append_append]⟩
    | ok q =>
      obtain ⟨b, later⟩ := q
      rw [hg] at hf
      simp only [hx, ← Module.append_append]
      exact hf

end Realizes

/-- An insertion at a cursor appends the operation and answers how many temporaries there were. -/
theorem run_insert {m : Module} {c : BlockId} {n : Nat} (hm : m.Ready c n) (op : Operation)
    (base : Option String) :
    (Ssa.insert op base).run m =
      .ok n (m.update c.function fun f ↦ f.addOperation c.index op base) := by
  obtain ⟨f, hf, hblock, rfl⟩ := hm.block
  rw [Ssa.insert]
  simp only [EStateM.run_bind, EStateM.run_get, hm.cursor, hf, if_pos hblock, EStateM.run_set,
    EStateM.run_pure]

section Operations

variable {callee? : String → Option (FunctionId × Nat)}

private theorem realizes_insertValue (op : Operation) (base : String) :
    Realizes callee? (emit (insertValue op base)) (step op base) := by
  intro m c n hm _
  rw [step_apply, emit, insertValue]
  simp only [EStateM.run_adaptExcept, EStateM.run_bind, run_insert hm, EStateM.run_pure]
  rfl

private theorem realizes_buildBinary (op : BinaryOp) (l r : Value) (base : String) :
    Realizes callee? (emit (buildBinary op l r base)) (translateOperation op l r base) := by
  by_cases hconst : ∃ a b, l = .const a ∧ r = .const b
  · -- an operation on constants is done at once, without a step
    obtain ⟨a, b, rfl, rfl⟩ := hconst
    exact Realizes.pure _
  · have hbuild : buildBinary op l r base = insertValue (.binary op l r) base := by
      unfold buildBinary
      split
      · exact absurd ⟨_, _, rfl, rfl⟩ hconst
      · rfl
    have htranslate : translateOperation op l r base = step (.binary op l r) base := by
      unfold translateOperation
      split
      · exact absurd ⟨_, _, rfl, rfl⟩ hconst
      · rfl
    rw [hbuild, htranslate]
    exact realizes_insertValue _ _

private theorem realizes_buildWiden (v : Value) (base : String) :
    Realizes callee? (emit (buildWiden v base)) (translateWiden v base) := by
  cases v with
  | bool b => exact Realizes.pure _
  | const d => exact realizes_insertValue _ _
  | param i => exact realizes_insertValue _ _
  | temp i => exact realizes_insertValue _ _

private theorem realizes_lowerBinary (op : Char) (l r : Value) :
    Realizes callee? (lowerBinary op l r) (translateBinary op l r) := by
  rw [lowerBinary, translateBinary]
  by_cases hadd : op = '+'
  · rw [if_pos hadd, if_pos hadd]
    exact realizes_buildBinary _ _ _ _
  rw [if_neg hadd, if_neg hadd]
  by_cases hsub : op = '-'
  · rw [if_pos hsub, if_pos hsub]
    exact realizes_buildBinary _ _ _ _
  rw [if_neg hsub, if_neg hsub]
  by_cases hmul : op = '*'
  · rw [if_pos hmul, if_pos hmul]
    exact realizes_buildBinary _ _ _ _
  rw [if_neg hmul, if_neg hmul]
  by_cases hless : op = '<'
  · rw [if_pos hless, if_pos hless]
    exact (realizes_buildBinary _ _ _ _).bind fun truth ↦ realizes_buildWiden truth _
  rw [if_neg hless, if_neg hless]
  exact Realizes.fail _

private theorem realizes_resolveCallee (name : String) (count : Nat) :
    Realizes callee? (resolveCallee name count) (translateCallee callee? name count) := by
  intro m c n hm hcallee
  rw [resolveCallee, translateCallee, ← hcallee, Module.callee?]
  simp only [EStateM.run_bind, EStateM.run_get]
  cases m.lookup? name with
  | none => exact ⟨[], by rw [Module.append_nil]; rfl⟩
  | some h =>
    simp only [Option.map_some]
    by_cases hcount : m.paramCount h = count
    · rw [if_pos hcount, if_pos hcount, pure_apply]
      simp only [Module.append_nil, EStateM.run_pure]
    · rw [if_neg hcount, if_neg hcount]
      exact ⟨[], by rw [Module.append_nil]; rfl⟩

mutual

/-- Lowering an expression at a cursor does what its translation says. -/
theorem realizes_lowerExpr (scope : Scope) (e : Expr) :
    Realizes callee? (lowerExpr scope e) (translateExpr callee? scope e) := by
  cases e with
  | number d =>
    rw [lowerExpr, translateExpr]
    exact Realizes.pure _
  | name x =>
    rw [lowerExpr, translateExpr]
    cases scope.lookup x with
    | some v => exact Realizes.pure v
    | none => exact Realizes.fail _
  | binary op lhs rhs =>
    rw [lowerExpr, translateExpr]
    exact (realizes_lowerExpr scope lhs).bind fun l ↦
      (realizes_lowerExpr scope rhs).bind fun r ↦ realizes_lowerBinary op l r
  | call name args =>
    rw [lowerExpr, translateExpr]
    exact (realizes_resolveCallee name args.length).bind fun h ↦
      (realizes_lowerArgs scope args).bind fun values ↦ realizes_insertValue _ _

theorem realizes_lowerArgs (scope : Scope) (args : List Expr) :
    Realizes callee? (lowerArgs scope args) (translateArgs callee? scope args) := by
  cases args with
  | nil =>
    rw [lowerArgs, translateArgs]
    exact Realizes.pure _
  | cons arg args =>
    rw [lowerArgs, translateArgs]
    exact (realizes_lowerExpr scope arg).bind fun v ↦
      (realizes_lowerArgs scope args).bind fun vs ↦ Realizes.pure _

end

end Operations

/-- Lowering a body at a cursor appends the steps of its translation and a return. -/
theorem run_lowerBody {m : Module} {c : BlockId} {n : Nat} (hm : m.Ready c n) (scope : Scope)
    (body : Expr) :
    match translateExpr m.callee? scope body n with
    | .ok (v, steps) => (lowerBody scope body).run m = .ok ()
        ((m.append c steps).update c.function fun f ↦ f.addInstruction c.index ⟨none, .ret v⟩)
    | .error e => ∃ steps, (lowerBody scope body).run m = .error e (m.append c steps) := by
  have hexpr := realizes_lowerExpr scope body m c n hm rfl
  rw [lowerBody, EStateM.run_bind]
  cases ht : translateExpr m.callee? scope body n with
  | error e =>
    rw [ht] at hexpr
    obtain ⟨steps, hexpr⟩ := hexpr
    exact ⟨steps, by rw [hexpr]⟩
  | ok p =>
    obtain ⟨v, steps⟩ := p
    rw [ht] at hexpr
    simp only at hexpr ⊢
    rw [hexpr]
    simp only [emit, buildRet, EStateM.run_adaptExcept, EStateM.run_bind,
      run_insert (hm.append steps), EStateM.run_pure]
    rfl

end FloatLang
