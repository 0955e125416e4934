import FloatLang.Proofs.Agreement

/-!
# Why a definition is refused

A definition can be at fault in several places at once, and only one of the faults is told. `faults`
lists all of them, in the order in which they are looked for: first the header, whose name may have
a body or another number of parameters, then the expression, in which the callee of a call comes
before the arguments and the operator of a binary expression after the operands. The list is made
without lowering anything. It needs no handles, no operands and no module under construction, only
the numbers of parameters of the functions that can be called.

What is told is the first of the list, and a definition is accepted if the list is empty
(`define_reports_first_fault`). So looking for a fault is not disturbed by the instructions that
have been inserted before it was found, and inserting never fails.
-/

namespace FloatLang

open Ssa

/-! ## Faults of expressions -/

mutual

/-- The expression and all that it is made of. -/
def Expr.parts : Expr → List Expr
  | .number d => [.number d]
  | .name x => [.name x]
  | .binary op lhs rhs => .binary op lhs rhs :: (lhs.parts ++ rhs.parts)
  | .call callee args => .call callee args :: Expr.allParts args

def Expr.allParts : List Expr → List Expr
  | [] => []
  | e :: es => e.parts ++ Expr.allParts es

end

section Faults

variable (arity? : String → Option Nat) (params : List String)

/-- A name that is not among the parameters. -/
def variableFaults (x : String) : List LoweringError :=
  if x ∈ params then [] else [.unknownVariable x]

/-- An operator that the language does not have. -/
def operatorFaults (op : Char) : List LoweringError :=
  if op ∈ ['+', '-', '*', '<'] then [] else [.invalidOperator op]

/-- A callee that there is not, or that takes another number of arguments. -/
def calleeFaults (callee : String) (count : Nat) : List LoweringError :=
  match arity? callee with
  | none => [.unknownFunction callee]
  | some expected => if expected = count then [] else [.wrongArity callee expected count]

/-- The faults of an expression that are not those of a smaller one. -/
def Expr.ownFaults : Expr → List LoweringError
  | .number _ => []
  | .name x => variableFaults params x
  | .binary op _ _ => operatorFaults op
  | .call callee args => calleeFaults arity? callee args.length

mutual

/-- The faults of an expression, in the order in which they are looked for. -/
def Expr.faults : Expr → List LoweringError
  | .number _ => []
  | .name x => variableFaults params x
  | .binary op lhs rhs => lhs.faults ++ (rhs.faults ++ operatorFaults op)
  | .call callee args => calleeFaults arity? callee args.length ++ Expr.allFaults args

def Expr.allFaults : List Expr → List LoweringError
  | [] => []
  | e :: es => e.faults ++ Expr.allFaults es

end

/-- The variables are parameters, the calls are of functions that take as many arguments, and the
operators are those of the language. -/
structure Expr.WellScoped (e : Expr) : Prop where
  names : ∀ x, .name x ∈ e.parts → x ∈ params
  calls : ∀ callee args, .call callee args ∈ e.parts → arity? callee = some args.length
  operators : ∀ op lhs rhs, .binary op lhs rhs ∈ e.parts → op ∈ ['+', '-', '*', '<']

end Faults

section Parts

variable {arity? : String → Option Nat} {params : List String} {fault : LoweringError}

private theorem variableFaults_eq_nil_iff {x : String} :
    variableFaults params x = [] ↔ x ∈ params := by
  by_cases hx : x ∈ params <;> simp [variableFaults, hx]

private theorem operatorFaults_eq_nil_iff {op : Char} :
    operatorFaults op = [] ↔ op ∈ ['+', '-', '*', '<'] := by
  by_cases hop : op ∈ ['+', '-', '*', '<'] <;> simp only [operatorFaults, hop] <;> simp

private theorem calleeFaults_eq_nil_iff {callee : String} {count : Nat} :
    calleeFaults arity? callee count = [] ↔ arity? callee = some count := by
  rw [calleeFaults]
  cases arity? callee with
  | none => simp
  | some expected => by_cases hcount : expected = count <;> simp [hcount]

mutual

theorem Expr.mem_faults_iff {e : Expr} :
    fault ∈ e.faults arity? params ↔ ∃ p ∈ e.parts, fault ∈ p.ownFaults arity? params := by
  cases e with
  | number d => simp [Expr.faults, Expr.parts, Expr.ownFaults]
  | name x => simp [Expr.faults, Expr.parts, Expr.ownFaults]
  | binary op lhs rhs =>
    rw [Expr.faults, Expr.parts, List.mem_append, List.mem_append, lhs.mem_faults_iff,
      rhs.mem_faults_iff]
    simp only [List.mem_cons, List.mem_append, or_and_right, exists_or, exists_eq_left]
    rw [Expr.ownFaults, ← or_assoc, or_comm]
  | call callee args =>
    rw [Expr.faults, Expr.parts, List.mem_append, Expr.mem_allFaults_iff]
    simp only [List.mem_cons, or_and_right, exists_or, exists_eq_left, Expr.ownFaults]

theorem Expr.mem_allFaults_iff {es : List Expr} :
    fault ∈ Expr.allFaults arity? params es ↔
      ∃ p ∈ Expr.allParts es, fault ∈ p.ownFaults arity? params := by
  cases es with
  | nil => simp [Expr.allFaults, Expr.allParts]
  | cons e es =>
    rw [Expr.allFaults, Expr.allParts, List.mem_append, e.mem_faults_iff, Expr.mem_allFaults_iff]
    simp only [List.mem_append, or_and_right, exists_or]

end

theorem Expr.faults_eq_nil_iff {e : Expr} :
    e.faults arity? params = [] ↔ e.WellScoped arity? params := by
  have hparts : e.faults arity? params = [] ↔ ∀ p ∈ e.parts, p.ownFaults arity? params = [] := by
    simp only [List.eq_nil_iff_forall_not_mem, Expr.mem_faults_iff, not_exists, not_and]
    exact ⟨fun h p hp fault ↦ h fault p hp, fun h fault p hp ↦ h p hp fault⟩
  rw [hparts]
  constructor
  · intro h
    exact ⟨fun x hx ↦ variableFaults_eq_nil_iff.mp (h _ hx),
      fun callee args hcall ↦ calleeFaults_eq_nil_iff.mp (h _ hcall),
      fun op lhs rhs hop ↦ operatorFaults_eq_nil_iff.mp (h _ hop)⟩
  · intro h p hp
    cases p with
    | number d => rfl
    | name x => exact variableFaults_eq_nil_iff.mpr (h.names x hp)
    | binary op lhs rhs => exact operatorFaults_eq_nil_iff.mpr (h.operators op lhs rhs hp)
    | call callee args => exact calleeFaults_eq_nil_iff.mpr (h.calls callee args hp)

/-- That there is no block to insert into is not a fault of an expression. -/
theorem Expr.build_notMem_faults {e : Expr} {b : BuildError} :
    .build b ∉ e.faults arity? params := by
  rw [Expr.mem_faults_iff]
  rintro ⟨p, -, hp⟩
  cases p with
  | number d => cases hp
  | name x =>
    rw [Expr.ownFaults, variableFaults] at hp
    split at hp <;> simp at hp
  | binary op lhs rhs =>
    rw [Expr.ownFaults, operatorFaults] at hp
    split at hp <;> simp at hp
  | call callee args =>
    rw [Expr.ownFaults, calleeFaults] at hp
    split at hp
    · simp at hp
    · split at hp <;> simp at hp

end Parts

/-! ## Telling the first fault -/

/-- The result is an error exactly if there are faults, and then it is the first one. -/
def ReportsFirst {α : Type} (r : Except LoweringError α) (faults : List LoweringError) : Prop :=
  match r with
  | .ok _ => faults = []
  | .error e => faults.head? = some e

namespace ReportsFirst

variable {α : Type} {r : Except LoweringError α} {faults : List LoweringError}

theorem exists_ok_iff (h : ReportsFirst r faults) : (∃ a, r = .ok a) ↔ faults = [] := by
  cases r with
  | ok a => exact iff_of_true ⟨a, rfl⟩ h
  | error e =>
    refine iff_of_false nofun ?_
    rintro rfl
    cases h

theorem eq_error_iff (h : ReportsFirst r faults) {e : LoweringError} :
    r = .error e ↔ faults.head? = some e := by
  cases r with
  | ok a =>
    obtain rfl : faults = [] := h
    exact iff_of_false nofun nofun
  | error e' =>
    rw [show faults.head? = some e' from h, Except.error.injEq, Option.some.injEq]

end ReportsFirst

namespace Translation

variable {α β : Type}

/-- Wherever the temporaries start, the translation fails with the first of the faults. -/
def Reports (x : Translation α) (faults : List LoweringError) : Prop :=
  ∀ n, ReportsFirst (x n) faults

theorem Reports.pure (a : α) : Reports (Pure.pure a) [] := fun _ ↦ rfl

theorem Reports.fail (e : LoweringError) : Reports (fail e : Translation α) [e] := fun _ ↦ rfl

theorem Reports.step (op : Operation) (base : String) : Reports (step op base) [] := fun _ ↦ rfl

theorem Reports.bind {x : Translation α} {f : α → Translation β}
    {faults later : List LoweringError} (hx : Reports x faults) (hf : ∀ a, Reports (f a) later) :
    Reports (x >>= f) (faults ++ later) := by
  intro n
  have hx := hx n
  rw [bind_apply]
  cases hxn : x n with
  | error e =>
    rw [hxn] at hx
    show (faults ++ later).head? = some e
    rw [List.head?_append, show faults.head? = some e from hx, Option.some_or]
  | ok p =>
    obtain ⟨a, steps⟩ := p
    rw [hxn] at hx
    rw [show faults = [] from hx, List.nil_append]
    have hf := hf a (n + steps.length)
    simp only
    cases hfn : f a (n + steps.length) with
    | error e =>
      rw [hfn] at hf
      exact hf
    | ok q =>
      rw [hfn] at hf
      exact hf

end Translation

section Translating

open Translation

variable {callee? : String → Option (FunctionId × Nat)} {arity? : String → Option Nat}
  {scope : Scope} {params : List String}

private theorem reports_translateBinary (op : Char) (l r : Value) :
    Reports (translateBinary op l r) (operatorFaults op) := by
  rw [operatorFaults]
  by_cases hop : op ∈ ['+', '-', '*', '<']
  · rw [if_pos hop]
    intro n
    obtain ⟨p, hp⟩ : ∃ p, translateBinary op l r n = .ok p :=
      exists_translateBinary_iff.mpr (List.contains_iff_mem.mpr hop)
    rw [hp]
    rfl
  · rw [if_neg hop]
    simp only [List.mem_cons, List.not_mem_nil, or_false, not_or] at hop
    obtain ⟨hadd, hsub, hmul, hless⟩ := hop
    rw [translateBinary, if_neg hadd, if_neg hsub, if_neg hmul, if_neg hless]
    exact .fail _

private theorem reports_translateCallee
    (hcallee : ∀ name, (callee? name).map Prod.snd = arity? name) (name : String) (count : Nat) :
    Reports (translateCallee callee? name count) (calleeFaults arity? name count) := by
  rw [translateCallee, calleeFaults, ← hcallee]
  rcases callee? name with _ | ⟨h, expected⟩
  · exact .fail _
  · by_cases hcount : expected = count
    · simp only [Option.map_some, if_pos hcount]
      exact .pure h
    · simp only [Option.map_some, if_neg hcount]
      exact .fail _

mutual

/-- Translating an expression fails with the first of its faults. -/
theorem reports_translateExpr (hcallee : ∀ name, (callee? name).map Prod.snd = arity? name)
    (hscope : ∀ x, (scope.lookup x).isSome = params.contains x) (e : Expr) :
    Reports (translateExpr callee? scope e) (e.faults arity? params) := by
  cases e with
  | number d =>
    rw [translateExpr, Expr.faults]
    exact .pure _
  | name x =>
    have hx := hscope x
    rw [translateExpr, Expr.faults, variableFaults]
    cases hl : scope.lookup x with
    | some v =>
      rw [hl, Option.isSome_some, eq_comm, List.contains_iff_mem] at hx
      rw [if_pos hx]
      exact .pure v
    | none =>
      rw [hl, Option.isSome_none, eq_comm, ← Bool.not_eq_true, List.contains_iff_mem] at hx
      rw [if_neg hx]
      exact .fail _
  | binary op lhs rhs =>
    rw [translateExpr, Expr.faults]
    exact (reports_translateExpr hcallee hscope lhs).bind fun l ↦
      (reports_translateExpr hcallee hscope rhs).bind fun r ↦ reports_translateBinary op l r
  | call name args =>
    rw [translateExpr, Expr.faults, ← List.append_nil (Expr.allFaults _ _ _)]
    exact (reports_translateCallee hcallee name args.length).bind fun h ↦
      (reports_translateArgs hcallee hscope args).bind fun values ↦ .step _ _

theorem reports_translateArgs (hcallee : ∀ name, (callee? name).map Prod.snd = arity? name)
    (hscope : ∀ x, (scope.lookup x).isSome = params.contains x) (es : List Expr) :
    Reports (translateArgs callee? scope es) (Expr.allFaults arity? params es) := by
  cases es with
  | nil =>
    rw [translateArgs, Expr.allFaults]
    exact .pure _
  | cons e es =>
    rw [translateArgs, Expr.allFaults, ← List.append_nil (Expr.allFaults _ _ _)]
    exact (reports_translateExpr hcallee hscope e).bind fun v ↦
      (reports_translateArgs hcallee hscope es).bind fun vs ↦ .pure _

end

end Translating

/-! ## Faults of definitions -/

namespace Lowering

/-- The faults of a prototype that is to be given a body. -/
def headerFaults (m : Module) (proto : Prototype) : List LoweringError :=
  match m.lookup? proto.name with
  | none => []
  | some h =>
    (if m.hasBody h then [.redefinition proto.name] else []) ++
      if m.paramCount h = proto.params.length then [] else [.otherArity proto.name]

/-- How many arguments a call in the body of a definition takes: the function itself as many as it
has parameters, whether or not it has been declared. -/
def arityIn (m : Module) (proto : Prototype) (name : String) : Option Nat :=
  if name = proto.name then some proto.params.length else (m.lookup? name).map m.paramCount

/-- The faults of a definition, in the order in which they are looked for. -/
def faults (m : Module) (d : Definition) : List LoweringError :=
  headerFaults m d.proto ++ d.body.faults (arityIn m d.proto) d.proto.params

/-- The name is free or declared with as many parameters, the variables are parameters, the calls
are of the function itself or of a declared one and with the right number of arguments, and the
operators are those of the language. -/
structure WellScoped (m : Module) (d : Definition) : Prop where
  header : ∀ h, m.lookup? d.proto.name = some h →
    ∃ f, m.find? h = some f ∧ f.blocks = [] ∧ f.params.length = d.proto.params.length
  names : ∀ x, .name x ∈ d.body.parts → x ∈ d.proto.params
  calls : ∀ callee args, .call callee args ∈ d.body.parts →
    callee = d.proto.name ∧ args.length = d.proto.params.length ∨
      ∃ h f, m.lookup? callee = some h ∧ m.find? h = some f ∧ f.params.length = args.length
  operators : ∀ op lhs rhs, .binary op lhs rhs ∈ d.body.parts → op ∈ ['+', '-', '*', '<']

variable {m : Module} {proto : Prototype} {d : Definition}

private theorem head?_headerFaults (m : Module) (proto : Prototype) :
    (headerFaults m proto).head? = refusal? m proto := by
  rw [headerFaults, refusal?]
  cases m.lookup? proto.name with
  | none => rfl
  | some h =>
    by_cases hbody : m.hasBody h
    · simp [hbody]
    · by_cases hcount : m.paramCount h = proto.params.length <;> simp [hbody, hcount]

private theorem headerFaults_eq_nil_iff (hm : m.Settled) :
    headerFaults m proto = [] ↔ ∀ h, m.lookup? proto.name = some h →
      ∃ f, m.find? h = some f ∧ f.blocks = [] ∧ f.params.length = proto.params.length := by
  rw [← List.head?_eq_none_iff, head?_headerFaults]
  cases hl : m.lookup? proto.name with
  | none =>
    rw [refusal?, hl]
    refine iff_of_true rfl fun h hl' ↦ ?_
    cases hl'
  | some h =>
    obtain ⟨f, hf, -⟩ := hm.find?_of_lookup? hl
    rw [refusal?_eq_none_iff hl hf]
    constructor
    · rintro hdeclared h' ⟨⟩
      exact ⟨f, hf, hdeclared⟩
    · intro hall
      obtain ⟨f', hf', hdeclared⟩ := hall h rfl
      rwa [Option.some.inj (hf.symm.trans hf')]

/-- If the header is without fault, a call is of the function itself or of a declared one. -/
private theorem arityIn_eq_some_iff (hm : m.Settled) (hheader : headerFaults m d.proto = [])
    {callee : String} {count : Nat} :
    arityIn m d.proto callee = some count ↔
      callee = d.proto.name ∧ count = d.proto.params.length ∨
        ∃ h f, m.lookup? callee = some h ∧ m.find? h = some f ∧ f.params.length = count := by
  rw [arityIn]
  by_cases hself : callee = d.proto.name
  · subst hself
    rw [if_pos rfl, Option.some.injEq]
    constructor
    · exact fun hcount ↦ .inl ⟨rfl, hcount.symm⟩
    · rintro (⟨-, hcount⟩ | ⟨h, f, hl, hf, hcount⟩)
      · exact hcount.symm
      · obtain ⟨f', hf', -, hcount'⟩ := (headerFaults_eq_nil_iff hm).mp hheader h hl
        rw [← hcount', ← hcount, Option.some.inj (hf.symm.trans hf')]
  · rw [if_neg hself, Option.map_eq_some_iff]
    constructor
    · rintro ⟨h, hl, hcount⟩
      obtain ⟨f, hf, -⟩ := hm.find?_of_lookup? hl
      exact .inr ⟨h, f, hl, hf, (Module.paramCount_of_find? hf).symm.trans hcount⟩
    · rintro (⟨hself', -⟩ | ⟨h, f, hl, hf, hcount⟩)
      · exact absurd hself' hself
      · exact ⟨h, hl, (Module.paramCount_of_find? hf).trans hcount⟩

theorem faults_eq_nil_iff (hm : m.Settled) : faults m d = [] ↔ WellScoped m d := by
  rw [faults, List.append_eq_nil_iff, Expr.faults_eq_nil_iff]
  constructor
  · rintro ⟨hheader, hbody⟩
    exact ⟨(headerFaults_eq_nil_iff hm).mp hheader, hbody.names, fun callee args hcall ↦
      (arityIn_eq_some_iff hm hheader).mp (hbody.calls callee args hcall), hbody.operators⟩
  · intro h
    have hheader := (headerFaults_eq_nil_iff hm).mpr h.header
    exact ⟨hheader, h.names, fun callee args hcall ↦
      (arityIn_eq_some_iff hm hheader).mpr (h.calls callee args hcall), h.operators⟩

theorem build_notMem_faults {b : BuildError} : .build b ∉ faults m d := by
  rw [faults, List.mem_append]
  rintro (hheader | hbody)
  · rw [headerFaults] at hheader
    split at hheader
    · cases hheader
    · rcases List.mem_append.mp hheader with hbody | hcount
      · split at hbody <;> simp at hbody
      · split at hcount <;> simp at hcount
  · exact Expr.build_notMem_faults hbody

/-- A definition fails with the first of its faults. -/
theorem reportsFirst_define {l : Lowering} (hm : l.program.Settled) (d : Definition) :
    ReportsFirst (l.define d).1 (faults l.program d) := by
  have hcallee : ∀ name,
      (calleeIn l.program d.proto (l.declare d.proto).1 name).map Prod.snd =
        arityIn l.program d.proto name := by
    intro name
    rw [calleeIn, arityIn]
    split
    · rfl
    · rw [Module.callee?, Option.map_map]
      rfl
  have hbody : ReportsFirst (l.translated d)
      (d.body.faults (arityIn l.program d.proto) d.proto.params) :=
    reports_translateExpr hcallee (isSome_lookup_ofParams d.proto.params) d.body 0
  have hheader := head?_headerFaults l.program d.proto
  rcases define_cases hm d with
    ⟨e, hr, heq⟩ | ⟨v, steps, hr, ht, heq⟩ | ⟨e, steps, hr, ht, heq⟩
  · rw [heq]
    show (faults l.program d).head? = some e
    rw [faults, List.head?_append, hheader, hr, Option.some_or]
  -- the header is without fault, and the body is looked at
  all_goals
    rw [hr, List.head?_eq_none_iff] at hheader
    rw [ht] at hbody
    rw [heq, faults, hheader, List.nil_append]
    exact hbody

/-- **A definition is accepted if it is well-scoped, and otherwise its first fault is told.** What
has been defined, declared and erased before only counts for which names are declared, with how many
parameters and with or without a body. That there is no block to insert into is never told. -/
theorem define_reports_first_fault (name : String) (edits : List Edit) (d : Definition) :
    let l := (empty name).edited edits
    ((∃ h, (l.define d).1 = .ok h) ↔ WellScoped l.program d) ∧
      (∀ e, (l.define d).1 = .error e ↔ (faults l.program d).head? = some e) ∧
      ∀ b, (l.define d).1 ≠ .error (.build b) := by
  intro l
  have hm : l.program.Settled := settled_edited (Module.settled_empty name) edits
  have hreports := reportsFirst_define hm d
  refine ⟨hreports.exists_ok_iff.trans (faults_eq_nil_iff hm), fun e ↦ hreports.eq_error_iff,
    fun b hb ↦ ?_⟩
  exact build_notMem_faults (List.mem_of_mem_head? (hreports.eq_error_iff.mp hb))

/-- Of an unknown variable, an unknown callee and an operator that there is not, the first operand
is told. -/
example : ((empty "m").define ⟨⟨"f", ["x"]⟩, .binary '/' (.name "y") (.call "g" [.name "z"])⟩).1 =
    .error (.unknownVariable "y") := rfl

end Lowering

end FloatLang
