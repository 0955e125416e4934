import FloatLang.Proofs.MapM
import FloatLang.Proofs.Sources
import FloatLang.Ssa.Run

/-!
# Running translations is interpreting their sources

The sources of a module can be interpreted directly: an expression is evaluated from left to right,
a name stands for the last argument given for it, and a call evaluates its arguments and then the
expression that the name has been given *by then*, or, if it has only been declared, does what the
function of the machine of that name does. Nothing is lowered for it.

`call_eq_call` says that the functions of a module that holds the sources run in the same way, with
the same printing in the same order and the same failures.

## The simulation

The code of a translation starts at some temporary `n` and leaves the ones below alone. What it does
in a frame is compared with an evaluation by `Follows`: if the evaluation has a value, the code
comes to its end, with everything printed that the evaluation has printed, and in a frame in which
the operand of the translation can be read as that value, now and as long as only later temporaries
are set; if the evaluation fails, so does the code. Stating it with the rest of the code appended is
what lets the parts of an expression be put together.
-/

namespace FloatLang

open Ssa

/-! ## The interpreter -/

/-- What names stand for while an expression is evaluated, the latest binding first. -/
abbrev Environment := List (String × Double)

/-- The names of parameters stand for the arguments. The last of equal names wins. -/
def Environment.ofParams (params : List String) (args : List Double) : Environment :=
  (params.zip args).reverse

/-- An operator on two numbers. A comparison is one unless the left number is at least the right
one, and zero otherwise. -/
def operate? (op : Char) (l r : Double) : Option Double :=
  if op = '+' then some (l.add r)
  else if op = '-' then some (l.sub r)
  else if op = '*' then some (l.mul r)
  else if op = '<' then some (if l.toFloat ≥ r.toFloat then .zero else .one)
  else none

mutual

/-- Evaluates an expression. Operands and arguments are evaluated from left to right, and calls are
made by `call`. -/
def evalExpr (call : String → List Double → Eval Double) (env : Environment) : Expr → Eval Double
  | .number d => return d
  | .name x =>
    match env.lookup x with
    | some d => return d
    | none => throw .danglingOperand
  | .binary op lhs rhs => do
    let l ← evalExpr call env lhs
    let r ← evalExpr call env rhs
    match operate? op l r with
    | some d => return d
    | none => throw .danglingOperand
  | .call name args => do
    let ds ← evalArgs call env args
    call name ds

def evalArgs (call : String → List Double → Eval Double) (env : Environment) :
    List Expr → Eval (List Double)
  | [] => return []
  | arg :: args => do
    let d ← evalExpr call env arg
    let ds ← evalArgs call env args
    return d :: ds

end

namespace Sources

/-- Calls a function by its name while `frames` more calls may be entered. -/
def call (T : Sources) : (frames : Nat) → String → List Double → Eval Double
  | 0, _, _ => throw .tooDeep
  | frames + 1, name, args =>
    match T name with
    | none => throw (.unresolved name)
    | some src =>
      if src.params.length ≠ args.length then
        throw (.wrongArity name src.params.length args.length)
      else
        match src.body? with
        | some body => evalExpr (T.call frames) (.ofParams src.params args) body
        | none =>
          match Builtin.resolve? name args with
          | some b => b.perform
          | none => throw (.unresolved name)

/-- Evaluates a top-level expression, below which calls nest to the greatest depth. -/
def evaluate (T : Sources) (e : Expr) : Eval Double := evalExpr (T.call maxDepth) [] e

end Sources

theorem operate?_of_binaryOp? {op : Char} {o : BinaryOp} (hop : binaryOp? op = some o)
    (l r : Double) : operate? op l r = some (o.apply l r) := by
  rcases binaryOp?_cases hop with ⟨rfl, rfl⟩ | ⟨rfl, rfl⟩ | ⟨rfl, rfl⟩ | ⟨rfl, rfl⟩
  · rfl
  · rfl
  · rfl
  · -- a comparison has a truth value first, which is then made a number
    show some (if l.toFloat ≥ r.toFloat then Double.zero else .one) = some (.ofBool (l.less r))
    rw [Double.less, Double.ofBool]
    by_cases h : l.toFloat ≥ r.toFloat
    · simp [h]
    · simp [h]

/-! ## Frames -/

/-- The same number of temporaries, of which the first `n` hold the same. -/
structure Agree (n : Nat) (temps temps' : List Double) : Prop where
  length : temps'.length = temps.length
  getElem? : ∀ i < n, temps'[i]? = temps[i]?

namespace Agree

variable {n n' : Nat} {temps temps' temps'' : List Double}

theorem refl (n : Nat) (temps : List Double) : Agree n temps temps := ⟨rfl, fun _ _ ↦ rfl⟩

theorem trans (h : Agree n temps temps') (h' : Agree n temps' temps'') : Agree n temps temps'' :=
  ⟨h'.length.trans h.length, fun i hi ↦ (h'.getElem? i hi).trans (h.getElem? i hi)⟩

theorem mono (h : Agree n temps temps') (hn : n' ≤ n) : Agree n' temps temps' :=
  ⟨h.length, fun i hi ↦ h.getElem? i (Nat.lt_of_lt_of_le hi hn)⟩

theorem set (temps : List Double) {t : Nat} (ht : n ≤ t) (d : Double) :
    Agree n temps (temps.set t d) := by
  refine ⟨List.length_set, fun i hi ↦ ?_⟩
  rw [List.getElem?_set_ne (by omega)]

end Agree

/-- The operand is `d` with these temporaries, and stays so when temporaries from `n` on are set. -/
def Reads (args : List Double) (n : Nat) (temps : List Double) (v : Value) (d : Double) : Prop :=
  ∀ temps', Agree n temps temps' → (⟨args, temps'⟩ : Frame).read? v = some d

/-- The operands are `ds` with these temporaries, and stay so when temporaries from `n` on are
set. -/
def ReadsAll (args : List Double) (n : Nat) (temps : List Double) (vs : List Value)
    (ds : List Double) : Prop :=
  ∀ temps', Agree n temps temps' → vs.mapM (⟨args, temps'⟩ : Frame).read? = some ds

section Reading

variable {args : List Double} {n n' : Nat} {temps temps' : List Double} {v : Value} {d : Double}

theorem Reads.read? (h : Reads args n temps v d) :
    (⟨args, temps⟩ : Frame).read? v = some d := h temps (.refl n temps)

theorem Reads.mono (h : Reads args n temps v d) (hagree : Agree n temps temps') (hn : n ≤ n') :
    Reads args n' temps' v d := fun _ hagree' ↦ h _ (hagree.trans (hagree'.mono hn))

private theorem reads_set {t : Nat} (ht : t < temps.length) (d : Double) :
    Reads args (t + 1) (temps.set t d) (.temp t) d := by
  intro temps' hagree
  show temps'[t]? = some d
  rw [hagree.getElem? t (Nat.lt_succ_self t), List.getElem?_set_self ht]

end Reading

/-! ## Single instructions -/

section Instructions

variable {call : FunctionId → List Double → Eval Double} {frame : Frame} {rest : List Instruction}
  {t : Nat} {printed : Array String}

theorem run_read {v : Value} {d : Double} (hv : frame.read? v = some d) :
    (frame.read v).run printed = .ok d printed := by
  rw [Frame.read, hv]
  rfl

private theorem run_mapM_read {vs : List Value} {ds : List Double}
    (hvs : vs.mapM frame.read? = some ds) : (vs.mapM frame.read).run printed = .ok ds printed := by
  rw [mapM_eq_some_iff] at hvs
  induction hvs with
  | nil => rfl
  | cons hv _ ih =>
    rw [List.mapM_cons]
    simp only [EStateM.run_bind, run_read hv, ih, EStateM.run_pure]

private theorem run_binary {op : BinaryOp} {l r : Value} {a b : Double}
    (hl : frame.read? l = some a) (hr : frame.read? r = some b) :
    (runInstructions call (⟨some t, .binary op l r⟩ :: rest) frame).run printed =
      (runInstructions call rest (frame.store (some t) (op.apply a b))).run printed := by
  rw [runInstructions]
  simp only [EStateM.run_bind, run_read hl, run_read hr]

private theorem run_widen {v : Value} {d : Double} (hv : frame.read? v = some d) :
    (runInstructions call (⟨some t, .widen v⟩ :: rest) frame).run printed =
      (runInstructions call rest (frame.store (some t) d)).run printed := by
  rw [runInstructions]
  simp only [EStateM.run_bind, run_read hv]

private theorem run_call {h : FunctionId} {vs : List Value} {ds : List Double}
    (hvs : vs.mapM frame.read? = some ds) :
    (runInstructions call (⟨some t, .call h vs⟩ :: rest) frame).run printed =
      (do let d ← call h ds
          runInstructions call rest (frame.store (some t) d)).run printed := by
  rw [runInstructions]
  simp only [EStateM.run_bind, run_mapM_read hvs]

end Instructions

/-! ## Following an evaluation -/

/-- In a frame with these arguments and temporaries, and with `printed` printed so far, the code
`is` does what `x` does, and leaves the temporaries below `n` alone. If `x` has a value, then `p`
holds of the temporaries afterwards and the value. -/
def Follows {α : Type} (call : FunctionId → List Double → Eval Double) (args : List Double)
    (n : Nat) (temps : List Double) (is : List Instruction) (printed : Array String) (x : Eval α)
    (p : List Double → α → Prop) : Prop :=
  match x.run printed with
  | .ok a printed' => ∃ temps', Agree n temps temps' ∧ p temps' a ∧
      ∀ rest, (runInstructions call (is ++ rest) ⟨args, temps⟩).run printed =
        (runInstructions call rest ⟨args, temps'⟩).run printed'
  | .error e printed' => ∀ rest,
      (runInstructions call (is ++ rest) ⟨args, temps⟩).run printed = .error e printed'

namespace Follows

variable {α β : Type} {call : FunctionId → List Double → Eval Double} {args : List Double}
  {n n' : Nat} {temps : List Double} {is is' : List Instruction} {printed : Array String}
  {x : Eval α} {p p' : List Double → α → Prop} {q : List Double → β → Prop}

theorem pure {a : α} (ha : p temps a) :
    Follows call args n temps [] printed (Pure.pure a) p :=
  ⟨temps, .refl n temps, ha, fun _ ↦ rfl⟩

theorem mono (hx : Follows call args n temps is printed x p) (hn : n' ≤ n)
    (hp : ∀ temps' a, p temps' a → p' temps' a) : Follows call args n' temps is printed x p' := by
  rw [Follows] at hx ⊢
  cases hrun : x.run printed with
  | error e printed' =>
    rw [hrun] at hx
    exact hx
  | ok a printed' =>
    rw [hrun] at hx
    obtain ⟨temps', hagree, ha, hrest⟩ := hx
    exact ⟨temps', hagree.mono hn, hp _ _ ha, hrest⟩

/-- The code of one part and then the code of the next. -/
theorem bind {f : α → Eval β} (hx : Follows call args n temps is printed x p)
    (hf : ∀ a temps' printed', Agree n temps temps' → p temps' a →
      Follows call args n temps' is' printed' (f a) q) :
    Follows call args n temps (is ++ is') printed (x >>= f) q := by
  rw [Follows] at hx ⊢
  rw [EStateM.run_bind]
  cases hrun : x.run printed with
  | error e printed' =>
    rw [hrun] at hx
    intro rest
    rw [List.append_assoc]
    exact hx _
  | ok a printed' =>
    rw [hrun] at hx
    obtain ⟨temps', hagree, ha, hrest⟩ := hx
    have hf := hf a temps' printed' hagree ha
    rw [Follows] at hf
    simp only
    cases hrun' : (f a).run printed' with
    | error e printed'' =>
      rw [hrun'] at hf
      intro rest
      rw [List.append_assoc, hrest]
      exact hf rest
    | ok b printed'' =>
      rw [hrun'] at hf
      obtain ⟨temps'', hagree', hb, hrest'⟩ := hf
      refine ⟨temps'', hagree.trans hagree', hb, fun rest ↦ ?_⟩
      rw [List.append_assoc, hrest, hrest']

/-- An instruction that sets the temporary `n` to a number known beforehand. -/
theorem set {i : Instruction} {d : Double}
    (hi : ∀ rest, (runInstructions call (i :: rest) ⟨args, temps⟩).run printed =
      (runInstructions call rest (Frame.store ⟨args, temps⟩ (some n) d)).run printed) :
    Follows call args n temps [i] printed (Pure.pure d) fun temps' d ↦
      temps' = temps.set n d :=
  ⟨temps.set n d, .set temps (Nat.le_refl n) d, rfl, hi⟩

end Follows

private theorem follows_binarySteps {call : FunctionId → List Double → Eval Double}
    {args : List Double}
    {n : Nat} {temps : List Double} {printed : Array String} {op : BinaryOp} {l r v : Value}
    {a b : Double} {steps : List Step} (hs : BinarySteps op l r n v steps)
    (hl : Reads args n temps l a) (hr : Reads args n temps r b)
    (hlen : n + steps.length ≤ temps.length) :
    Follows call args n temps (code n steps) printed (pure (op.apply a b))
      fun temps' d ↦ Reads args (n + steps.length) temps' v d := by
  rcases hs with ⟨rfl, rfl⟩ | ⟨-, base⟩ | ⟨rfl, base, base'⟩
  · obtain rfl := Option.some.inj hl.read?
    obtain rfl := Option.some.inj hr.read?
    exact .pure fun _ _ ↦ rfl
  · refine (Follows.set fun rest ↦ run_binary hl.read? hr.read?).mono (Nat.le_refl n) ?_
    rintro temps' d rfl
    exact reads_set hlen d
  · -- the truth value is kept as a number already, so that widening it only copies it
    have hlt : n + 1 < temps.length := hlen
    let d := BinaryOp.less.apply a b
    refine ⟨(temps.set n d).set (n + 1) d,
      (Agree.set temps (Nat.le_refl n) d).trans (.set _ (Nat.le_succ n) d), ?_, fun rest ↦ ?_⟩
    · exact reads_set (by rwa [List.length_set]) d
    · rw [code, code, code, List.cons_append, List.cons_append, List.nil_append,
        run_binary hl.read? hr.read?]
      exact run_widen (List.getElem?_set_self (Nat.lt_of_succ_lt hlt))

section Translations

variable {callee? : String → Option (FunctionId × Nat)} {scope : Scope} {env : Environment}
  {args : List Double} {call : FunctionId → List Double → Eval Double}
  {call' : String → List Double → Eval Double}

mutual

/-- The code of a translation follows the evaluation of the expression. -/
theorem follows_translateExpr
    (hcall : ∀ name h k, name ≠ "" → callee? name = some (h, k) → call h = call' name)
    (hscope : ∀ x v, scope.lookup x = some v →
      ∃ d, env.lookup x = some d ∧ ∀ temps, Reads args 0 temps v d)
    {e : Expr} (he : e.Named) {n : Nat} {v : Value} {steps : List Step}
    (ht : translateExpr callee? scope e n = .ok (v, steps)) (temps : List Double)
    (hlen : n + steps.length ≤ temps.length) (printed : Array String) :
    Follows call args n temps (code n steps) printed (evalExpr call' env e)
      fun temps' d ↦ Reads args (n + steps.length) temps' v d := by
  cases e with
  | number d =>
    rw [translateExpr] at ht
    cases ht
    rw [evalExpr]
    exact .pure fun _ _ ↦ rfl
  | name x =>
    obtain ⟨hx, rfl⟩ := translateExpr_name_eq_ok_iff.mp ht
    obtain ⟨d, hd, hreads⟩ := hscope x v hx
    rw [evalExpr, hd]
    exact .pure ((hreads temps).mono (.refl 0 temps) (Nat.zero_le _))
  | binary op lhs rhs =>
    rw [Expr.Named] at he
    obtain ⟨l, first, r, second, last, hl, hr, hop, rfl⟩ := translateExpr_binary_eq_ok_iff.mp ht
    obtain ⟨o, ho, hbinary⟩ := translateBinary_eq_ok hop
    rw [List.length_append, List.length_append] at hlen ⊢
    rw [evalExpr, code_append, code_append]
    refine .bind (follows_translateExpr hcall hscope he.1 hl temps (by omega) printed)
      fun a temps' printed' hagree ha ↦ ?_
    have hright := follows_translateExpr hcall hscope he.2 hr temps'
      (by rw [hagree.length]; omega) printed'
    refine .mono (.bind hright fun b temps'' printed'' hagree' hb ↦ ?_) (Nat.le_add_right _ _)
      fun _ _ h ↦ h
    -- the code of the right operand leaves the left one readable
    have ha' := ha.mono hagree' (Nat.le_add_right _ second.length)
    have hlast : Follows call args _ temps'' _ printed'' _ _ :=
      follows_binarySteps hbinary ha' hb (by rw [hagree'.length, hagree.length]; omega)
    simp only [operate?_of_binaryOp? ho]
    refine hlast.mono (by omega) fun _ _ h ↦ ?_
    rwa [show n + (first.length + (second.length + last.length))
      = n + first.length + second.length + last.length by omega]
  | call name args' =>
    rw [Expr.Named] at he
    obtain ⟨h, values, first, hh, hargs, rfl, rfl⟩ := translateExpr_call_eq_ok_iff.mp ht
    rw [List.length_append, List.length_singleton] at hlen ⊢
    rw [evalExpr, code_append]
    refine .bind (follows_translateArgs hcall hscope he.2 hargs temps (by omega) printed)
      fun ds temps' printed' hagree hds ↦ ?_
    have hlt : n + first.length < temps'.length := by
      rw [hagree.length]
      omega
    rw [← hcall name h _ he.1 hh, Follows]
    cases hrun : (call h ds).run printed' with
    | error e printed'' =>
      intro rest
      rw [code, code, List.singleton_append, run_call (hds temps' (.refl _ _)),
        EStateM.run_bind, hrun]
    | ok d printed'' =>
      refine ⟨temps'.set (n + first.length) d, .set temps' (Nat.le_add_right _ _) d,
        reads_set hlt d, fun rest ↦ ?_⟩
      rw [code, code, List.singleton_append, run_call (hds temps' (.refl _ _)),
        EStateM.run_bind, hrun]
      rfl

theorem follows_translateArgs
    (hcall : ∀ name h k, name ≠ "" → callee? name = some (h, k) → call h = call' name)
    (hscope : ∀ x v, scope.lookup x = some v →
      ∃ d, env.lookup x = some d ∧ ∀ temps, Reads args 0 temps v d)
    {es : List Expr} (hes : Expr.AllNamed es) {n : Nat} {values : List Value} {steps : List Step}
    (ht : translateArgs callee? scope es n = .ok (values, steps)) (temps : List Double)
    (hlen : n + steps.length ≤ temps.length) (printed : Array String) :
    Follows call args n temps (code n steps) printed (evalArgs call' env es)
      fun temps' ds ↦ ReadsAll args (n + steps.length) temps' values ds := by
  cases es with
  | nil =>
    rw [translateArgs] at ht
    cases ht
    rw [evalArgs]
    exact .pure fun _ _ ↦ rfl
  | cons e es =>
    rw [Expr.AllNamed] at hes
    obtain ⟨v, first, vs, later, hv, hvs, rfl, rfl⟩ := translateArgs_cons_eq_ok_iff.mp ht
    rw [List.length_append] at hlen ⊢
    rw [evalArgs, code_append]
    refine .bind (follows_translateExpr hcall hscope hes.1 hv temps (by omega) printed)
      fun d temps' printed' hagree hd ↦ ?_
    have hlater := follows_translateArgs hcall hscope hes.2 hvs temps'
      (by rw [hagree.length]; omega) printed'
    -- nothing is left to be done once the last argument has a value
    rw [← List.append_nil (code (n + first.length) later)]
    refine .mono (.bind hlater fun ds temps'' printed'' hagree' hds ↦ .pure ?_)
      (Nat.le_add_right _ _) fun _ _ h ↦ h
    intro temps₃ hagree''
    rw [← Nat.add_assoc] at hagree''
    have hd' := hd.mono hagree' (Nat.le_add_right _ later.length)
    rw [List.mapM_cons, hd' temps₃ hagree'', hds temps₃ hagree'']
    rfl

end

end Translations

/-! ## Calls -/

private theorem lookup_of_forall₂ {α β : Type} {r : α → β → Prop} {scope : List (String × α)}
    {env : List (String × β)}
    (h : List.Forall₂ (fun p q ↦ p.1 = q.1 ∧ r p.2 q.2) scope env) {x : String} {a : α}
    (ha : scope.lookup x = some a) : ∃ b, env.lookup x = some b ∧ r a b := by
  induction h with
  | nil => cases ha
  | @cons p q scope env hpq _ ih =>
    obtain ⟨k, a'⟩ := p
    obtain ⟨k', b⟩ := q
    obtain ⟨rfl, hr⟩ := hpq
    rw [List.lookup_cons] at ha ⊢
    cases hx : x == k with
    | true =>
      rw [hx] at ha
      obtain rfl := Option.some.inj ha
      exact ⟨b, rfl, hr⟩
    | false =>
      rw [hx] at ha
      exact ih ha

private theorem exists_lookup_ofParams {params : List String} {args : List Double}
    (hlen : params.length = args.length) {x : String} {v : Value}
    (hx : (Scope.ofParams params).lookup x = some v) :
    ∃ d, (Environment.ofParams params args).lookup x = some d ∧
      ∀ temps, Reads args 0 temps v d := by
  have hpairs : List.Forall₂
      (fun p q ↦ p.1 = q.1 ∧ ∀ temps, Reads args 0 temps p.2 q.2)
      (params.zipIdx.map fun q ↦ (q.1, Value.param q.2)) (params.zip args) := by
    rw [List.forall₂_iff_get]
    refine ⟨by simp [hlen], fun i hi hi' ↦ ?_⟩
    simp only [List.get_eq_getElem, List.getElem_map, List.getElem_zipIdx, List.getElem_zip,
      Nat.zero_add]
    exact ⟨trivial, fun temps temps' _ ↦ List.getElem?_eq_getElem _⟩
  exact lookup_of_forall₂ (r := fun v d ↦ ∀ temps, Reads args 0 temps v d)
    (List.rel_reverse hpairs) hx

namespace Ssa.Module

/-- Every name belongs to the translation of what it has been given; the function without a name is
left out of account. -/
def Knows (m : Module) (T : Sources) : Prop :=
  ∀ {name h}, name ≠ "" → m.lookup? name = some h →
    ∃ src f, T name = some src ∧ m.find? h = some f ∧ f.name = name ∧ f.Translates m.callee? src

theorem Holds.knows {m : Module} {T T' : Sources} (hm : m.Holds T')
    (hT : ∀ name, name ≠ "" → T' name = T name) : m.Knows T := by
  intro name h hname hl
  obtain ⟨f, hf, hfname⟩ := hm.find?_of_lookup? hl
  obtain ⟨src, hsrc, htrans⟩ := hm.exists_source hf
  rw [hfname] at hsrc
  exact ⟨src, f, (hT name hname).symm.trans hsrc, hf, hfname, htrans⟩

variable {m : Module} {T : Sources}

/-- A function whose body is the translation of an expression is run by evaluating it. -/
theorem call_eq_evalExpr {frames : Nat}
    (hcall : ∀ name h k, name ≠ "" → m.callee? name = some (h, k) →
      m.call frames h = T.call frames name)
    {h : FunctionId} {f : Function} {src : Source} (hf : m.find? h = some f)
    (htrans : f.Translates m.callee? src) {e : Expr} (he : src.body? = some e)
    {args : List Double} (hlen : src.params.length = args.length) :
    m.call (frames + 1) h args =
      evalExpr (T.call frames) (.ofParams src.params args) e := by
  obtain ⟨hnamed, v, steps, ht, hcode⟩ := htrans.body e he
  funext printed
  have hfollows := follows_translateExpr hcall (fun x v ↦ exists_lookup_ofParams hlen) hnamed ht
    (List.replicate f.temps.length .zero) (by simp [hcode.length_temps]) printed
  rw [Follows] at hfollows
  rw [Module.call, hf]
  simp only [htrans.length_params, hlen, ne_eq, not_true_eq_false, if_false, hcode.blocks,
    Frame.enter]
  show EStateM.run _ printed = EStateM.run _ printed
  rw [EStateM.run_bind]
  cases hrun : (evalExpr (T.call frames) (.ofParams src.params args) e).run printed with
  | error err printed' =>
    rw [hrun] at hfollows
    rw [hfollows]
  | ok d printed' =>
    rw [hrun] at hfollows
    obtain ⟨temps', -, hd, hrest⟩ := hfollows
    rw [hrest, runInstructions]
    simp only [EStateM.run_bind, run_read hd.read?, EStateM.run_pure]

/-- **Running a function of a module is interpreting its source**, to any depth, for any number of
arguments, and whatever has been printed before. -/
theorem call_eq_call (hm : m.Knows T) :
    ∀ (frames : Nat) {name : String} {h : FunctionId}, name ≠ "" → m.lookup? name = some h →
      m.call frames h = T.call frames name := by
  intro frames
  induction frames with
  | zero =>
    intro name h _ _
    rfl
  | succ frames ih =>
    intro name h hname hl
    obtain ⟨src, f, hsrc, hf, hfname, htrans⟩ := hm hname hl
    funext args
    rw [Sources.call, hsrc]
    simp only
    by_cases hlen : src.params.length = args.length
    · cases hbody : src.body? with
      | some e =>
        simp only [hlen, ne_eq, not_true_eq_false, if_false]
        -- the calls in the body are entered with one frame less
        refine call_eq_evalExpr (fun n h' k hn hc ↦ ?_) hf htrans hbody hlen
        exact ih hn (callee?_eq_some_iff.mp hc).1
      | none =>
        rw [Module.call, hf]
        cases hbuiltin : Builtin.resolve? name args <;>
          simp only [htrans.length_params, htrans.blocks hbody, hfname, hbuiltin]
    · rw [Module.call, hf]
      simp only [htrans.length_params, ne_eq, hlen, not_false_eq_true, if_true, hfname]

end Ssa.Module

end FloatLang
