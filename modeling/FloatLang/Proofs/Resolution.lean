import FloatLang.Proofs.Definition

/-!
# Names and the cursor under any requests

Lowering can be asked for definitions, declarations and single expressions, and whoever asks can
also take bodies and functions away, in any order and with any handle. A single expression goes to
wherever the last definition left the cursor, with the scope that it left, so it may land in a
function that is complete, or find that the function is gone.

Two things never go wrong. The index of names stays exact, because a name is declared only when it
belongs to no function. And the cursor never refers to a block that is not there: `Anchored` says
so, and it is kept because a body is only taken away together with the cursor in it. A part of
lowering is `Safe` if it keeps a module anchored and does not miss the block at the cursor. This is
closed under sequencing, and for any property that is, it is enough to look at the smallest parts of
lowering: that is `Compositional`.
-/

namespace FloatLang

open Ssa

namespace Ssa.Module

/-! ## The cursor -/

/-- A consistent module whose cursor, if there is one, stands in a block of a live function. -/
structure Anchored (m : Module) : Prop extends m.Consistent where
  /-- The block at the cursor is there. -/
  block : ∀ {c}, m.cursor = some c →
    ∃ f, m.find? c.function = some f ∧ c.index < f.blocks.length

theorem anchored_empty (name : String) : (empty name).Anchored where
  toConsistent := consistent_empty name
  block := by simp [empty]

theorem cursor_dropBody_eq_some_iff {m : Module} {h : FunctionId} {c : BlockId} :
    (m.dropBody h).cursor = some c ↔ m.cursor = some c ∧ c.function ≠ h := by
  rw [dropBody]
  split
  next hin =>
    have hin : m.cursor.map BlockId.function = some h := hin
    constructor
    · intro hc
      cases hc
    · rintro ⟨hc, hne⟩
      rw [hc, Option.map_some, Option.some.injEq] at hin
      exact absurd hin hne
  next hout =>
    have hout : m.cursor.map BlockId.function ≠ some h := hout
    refine ⟨fun hc ↦ ⟨hc, ?_⟩, And.left⟩
    rintro rfl
    exact hout (congrArg (Option.map BlockId.function) hc)

theorem cursor_erase (m : Module) (h : FunctionId) :
    (m.erase h).cursor = (m.dropBody h).cursor := by
  rw [erase]
  cases (m.dropBody h).find? h with
  | none => rfl
  | some f =>
    simp only [unbind]
    split <;> rfl

private theorem cursor_declare (m : Module) (n : String) (params : List String) :
    (m.declare n params).2.cursor = m.cursor := by
  have halloc : ∀ f, (m.allocate f).2.cursor = m.cursor := by
    intro f
    rw [allocate]
    split <;> rfl
  have hbind : ∀ (m : Module) h, (m.bind n h).cursor = m.cursor := by
    intro m h
    rw [Module.bind]
    split <;> rfl
  exact (hbind _ _).trans (halloc _)

namespace Anchored

variable {m : Module}

theorem update (hm : m.Anchored) (h : FunctionId) {change : Function → Function}
    (hname : ∀ f, (change f).name = f.name)
    (hblocks : ∀ f, f.blocks.length ≤ (change f).blocks.length) :
    (m.update h change).Anchored where
  toConsistent := hm.toConsistent.update h hname
  block := fun {c} hc ↦ by
    obtain ⟨f, hf, hlt⟩ := hm.block hc
    rw [find?_update, hf]
    by_cases hh : c.function = h
    · exact ⟨change f, if_pos hh, Nat.lt_of_lt_of_le hlt (hblocks f)⟩
    · exact ⟨f, if_neg hh, hlt⟩

theorem declare (hm : m.Anchored) {n : String} (hn : m.lookup? n = none) (params : List String) :
    (m.declare n params).2.Anchored where
  toConsistent := hm.toConsistent.declare hn params
  block := fun {c} hc ↦ by
    obtain ⟨f, hf, hlt⟩ := hm.block ((m.cursor_declare n params).symm.trans hc)
    refine ⟨f, ?_, hlt⟩
    -- the new handle had missed, so it is not the one at the cursor
    rw [hm.find?_declare, if_neg, hf]
    intro hnew
    rw [hnew, hm.find?_declare_fst] at hf
    cases hf

theorem dropBody (hm : m.Anchored) (h : FunctionId) : (m.dropBody h).Anchored where
  toConsistent := hm.toConsistent.dropBody h
  block := fun {c} hc ↦ by
    obtain ⟨hcur, hne⟩ := cursor_dropBody_eq_some_iff.mp hc
    rw [find?_dropBody, if_neg hne]
    exact hm.block hcur

theorem erase (hm : m.Anchored) (h : FunctionId) : (m.erase h).Anchored where
  toConsistent := hm.toConsistent.erase h
  block := fun {c} hc ↦ by
    rw [cursor_erase] at hc
    obtain ⟨hcur, hne⟩ := cursor_dropBody_eq_some_iff.mp hc
    rw [find?_erase, if_neg hne]
    exact hm.block hcur

theorem enterBody (hm : m.Anchored) {h : FunctionId} {f : Function} (hf : m.find? h = some f)
    (params : List String) : (Lowering.enterBody m h params).Anchored := by
  rw [Lowering.enterBody_eq hf]
  have hname : ∀ f : Function, (f.opened params).name = f.name := fun f ↦
    Function.name_renamed _ params
  refine ⟨(hm.toConsistent.update h hname).of_eq rfl rfl rfl, fun {c} hc ↦ ?_⟩
  obtain rfl := Option.some.inj hc
  refine ⟨f.opened params, ?_, ?_⟩
  · refine (find?_update_self m h _).trans ?_
    rw [hf]
    rfl
  · simp [Function.opened]

end Anchored

end Ssa.Module

/-! ## The parts of lowering -/

/-- A property that the smallest parts of lowering have, and that whatever is put together of parts
that have it has as well. -/
structure Compositional (P : (α : Type) → Lower α → Prop) : Prop where
  pure : ∀ {α : Type} (a : α), P α (Pure.pure a)
  /-- Lowering itself can fail; inserting fails in ways of its own. -/
  fail : ∀ {α : Type} {e : LoweringError}, (∀ b, e ≠ .build b) → P α (throw e)
  bind : ∀ {α β : Type} {x : Lower α} {f : α → Lower β}, P α x → (∀ a, P β (f a)) → P β (x >>= f)
  insert : ∀ (op : Operation) (base : Option String), P Nat (emit (Ssa.insert op base))
  resolveCallee : ∀ (callee : String) (count : Nat),
    P FunctionId (FloatLang.resolveCallee callee count)

private theorem emit_bind {α β : Type} (x : Build α) (f : α → Build β) :
    emit (x >>= f) = emit x >>= fun a ↦ emit (f a) := by
  funext m
  show (emit (x >>= f)).run m = (emit x >>= fun a ↦ emit (f a)).run m
  rw [emit, emit, EStateM.run_adaptExcept, EStateM.run_bind, EStateM.run_bind,
    EStateM.run_adaptExcept]
  cases x.run m with
  | error e m' => rfl
  | ok a m' => exact (EStateM.run_adaptExcept _ _ _).symm

namespace Compositional

variable {P : (α : Type) → Lower α → Prop} (hP : Compositional P)
include hP

theorem insertValue (op : Operation) (base : String) :
    P Value (emit (Ssa.insertValue op base)) := by
  rw [Ssa.insertValue, emit_bind]
  exact hP.bind (hP.insert op (some base)) fun n ↦ hP.pure (Value.temp n)

theorem buildRet (v : Value) : P Unit (emit (Ssa.buildRet v)) := by
  rw [Ssa.buildRet, emit_bind]
  exact hP.bind (hP.insert (.ret v) none) fun _ ↦ hP.pure ()

theorem buildBinary (op : BinaryOp) (l r : Value) (base : String) :
    P Value (emit (Ssa.buildBinary op l r base)) := by
  rw [buildBinary.eq_def]
  split
  · exact hP.pure _
  · exact hP.insertValue _ base

theorem buildWiden (v : Value) (base : String) : P Value (emit (Ssa.buildWiden v base)) := by
  rw [buildWiden.eq_def]
  split
  · exact hP.pure _
  · exact hP.insertValue _ base

theorem lowerBinary (op : Char) (l r : Value) : P Value (FloatLang.lowerBinary op l r) := by
  rw [FloatLang.lowerBinary]
  split
  · exact hP.buildBinary .add l r "addtmp"
  split
  · exact hP.buildBinary .sub l r "subtmp"
  split
  · exact hP.buildBinary .mul l r "multmp"
  split
  · exact hP.bind (hP.buildBinary .less l r "cmptmp") fun truth ↦ hP.buildWiden truth "booltmp"
  · exact hP.fail fun b ↦ by simp

mutual

theorem lowerExpr (scope : Scope) (e : Expr) : P Value (FloatLang.lowerExpr scope e) := by
  cases e with
  | number d =>
    rw [FloatLang.lowerExpr]
    exact hP.pure _
  | name x =>
    rw [FloatLang.lowerExpr]
    cases scope.lookup x with
    | some v => exact hP.pure v
    | none => exact hP.fail fun b ↦ by simp
  | binary op lhs rhs =>
    rw [FloatLang.lowerExpr]
    exact hP.bind (lowerExpr scope lhs) fun l ↦
      hP.bind (lowerExpr scope rhs) fun r ↦ hP.lowerBinary op l r
  | call callee args =>
    rw [FloatLang.lowerExpr]
    exact hP.bind (hP.resolveCallee callee args.length) fun h ↦
      hP.bind (lowerArgs scope args) fun values ↦ hP.insertValue _ _

theorem lowerArgs (scope : Scope) (args : List Expr) :
    P (List Value) (FloatLang.lowerArgs scope args) := by
  cases args with
  | nil =>
    rw [FloatLang.lowerArgs]
    exact hP.pure _
  | cons arg args =>
    rw [FloatLang.lowerArgs]
    exact hP.bind (lowerExpr scope arg) fun v ↦
      hP.bind (lowerArgs scope args) fun vs ↦ hP.pure _

end

theorem lowerBody (scope : Scope) (body : Expr) : P Unit (FloatLang.lowerBody scope body) :=
  hP.bind (hP.lowerExpr scope body) fun v ↦ hP.buildRet v

end Compositional

/-! ## Lowering at the cursor -/

/-- A part of lowering that keeps a module anchored, whether it fails or not, and that does not
miss the block at the cursor. -/
def Safe {α : Type} (x : Lower α) : Prop :=
  ∀ m : Module, m.Anchored →
    match x.run m with
    | .ok _ m' => m'.Anchored
    | .error e m' => m'.Anchored ∧ e ≠ .build .missingBlock

namespace Safe

variable {α β : Type}

theorem pure (a : α) : Safe (Pure.pure a) := fun _ hm ↦ hm

theorem fail {e : LoweringError} (he : ∀ b, e ≠ .build b) : Safe (throw e : Lower α) :=
  fun _ hm ↦ ⟨hm, he .missingBlock⟩

theorem bind {x : Lower α} {f : α → Lower β} (hx : Safe x) (hf : ∀ a, Safe (f a)) :
    Safe (x >>= f) := by
  intro m hm
  have hxm := hx m hm
  rw [EStateM.run_bind]
  cases hr : x.run m with
  | error e m' =>
    rw [hr] at hxm
    exact hxm
  | ok a m' =>
    rw [hr] at hxm
    exact hf a m' hxm

end Safe

/-- An insertion at the cursor of an anchored module is made, unless there is no cursor. -/
private theorem run_insert_of_anchored {m : Module} (hm : m.Anchored) (op : Operation)
    (base : Option String) :
    (m.cursor = none ∧ (Ssa.insert op base).run m = .error .noInsertionPoint m) ∨
    ∃ c n, m.cursor = some c ∧ (Ssa.insert op base).run m =
      .ok n (m.update c.function fun f ↦ f.addOperation c.index op base) := by
  cases hc : m.cursor with
  | none =>
    refine .inl ⟨rfl, ?_⟩
    rw [Ssa.insert]
    simp only [EStateM.run_bind, EStateM.run_get, hc]
    rfl
  | some c =>
    obtain ⟨f, hf, hlt⟩ := hm.block hc
    exact .inr ⟨c, f.temps.length, rfl, run_insert ⟨hc, f, hf, hlt, rfl⟩ op base⟩

private theorem safe_insert (op : Operation) (base : Option String) :
    Safe (emit (Ssa.insert op base)) := by
  intro m hm
  rw [emit, EStateM.run_adaptExcept]
  obtain ⟨-, hrun⟩ | ⟨c, n, -, hrun⟩ := run_insert_of_anchored hm op base
  · rw [hrun]
    exact ⟨hm, by simp⟩
  · rw [hrun]
    exact hm.update c.function (fun f ↦ by cases base <;> rfl) fun f ↦ by
      cases base <;> simp [Function.addOperation, Function.addInstruction, Function.addTemp]

private theorem safe_resolveCallee (callee : String) (count : Nat) :
    Safe (resolveCallee callee count) := by
  have hget : Safe (get : Lower Module) := fun _ hm ↦ hm
  refine hget.bind fun m ↦ ?_
  split
  · exact Safe.fail (by simp)
  split
  · exact Safe.pure _
  · exact Safe.fail (by simp)

theorem compositional_safe : Compositional fun _ ↦ Safe where
  pure := Safe.pure
  fail := Safe.fail
  bind := Safe.bind
  insert := safe_insert
  resolveCallee := safe_resolveCallee

namespace Lowering

variable {l : Lowering}

/-! ## Requests -/

private theorem anchored_declare (hl : l.program.Anchored) (proto : Prototype) :
    (l.declare proto).2.program.Anchored := by
  cases hn : l.program.lookup? proto.name with
  | some h =>
    rw [declare_of_lookup? hn]
    exact hl
  | none =>
    rw [declare_of_lookup?_eq_none hn]
    exact hl.declare hn proto.params

private theorem refusal?_ne_build (m : Module) (proto : Prototype) (e : BuildError) :
    refusal? m proto ≠ some (.build e) := by
  rw [refusal?]
  cases m.lookup? proto.name with
  | none => simp
  | some h =>
    simp only
    split
    · simp
    split
    · simp
    · simp

private theorem anchored_takeBack {m : Module} (hm : m.Anchored) (h : FunctionId)
    (wasDeclared : Bool) : (takeBack m h wasDeclared).Anchored := by
  cases wasDeclared with
  | true => exact hm.dropBody h
  | false => exact hm.erase h

theorem anchored_define (hl : l.program.Anchored) (d : Definition) :
    (l.define d).2.program.Anchored ∧ (l.define d).1 ≠ .error (.build .missingBlock) := by
  rw [define.eq_def]
  cases hr : refusal? l.program d.proto with
  | some e =>
    refine ⟨hl, fun he ↦ refusal?_ne_build l.program d.proto .missingBlock ?_⟩
    rw [hr, Except.error.inj he]
  | none =>
    have hdecl := anchored_declare hl d.proto
    obtain ⟨f, hf, -⟩ := hdecl.find?_of_lookup? (lookup?_declare_self l d.proto)
    have hbody := compositional_safe.lowerBody (.ofParams d.proto.params) d.body _
      (hdecl.enterBody hf d.proto.params)
    simp only
    split at hbody
    next m hrun =>
      simp only [hrun]
      exact ⟨hbody, by simp⟩
    next e m hrun =>
      simp only [hrun]
      exact ⟨anchored_takeBack hbody.1 _ _, fun he ↦ hbody.2 (Except.error.inj he)⟩

private theorem anchored_expr (hl : l.program.Anchored) (e : Expr) :
    (l.expr e).2.program.Anchored ∧ (l.expr e).1 ≠ .error (.build .missingBlock) := by
  have hexpr := compositional_safe.lowerExpr l.scope e l.program hl
  rw [expr.eq_def]
  split at hexpr
  next v m hrun =>
    simp only [hrun]
    exact ⟨hexpr, by simp⟩
  next err m hrun =>
    simp only [hrun]
    exact ⟨hexpr.1, fun he ↦ hexpr.2 (Except.error.inj he)⟩

/-- What can be asked of a module under construction: something to be lowered, or something to be
taken away. -/
inductive Request
  | define (d : Definition)
  | declare (proto : Prototype)
  | expr (e : Expr)
  | dropBody (h : FunctionId)
  | erase (h : FunctionId)

/-- Serves a request: the error, if it fails, and what it leaves either way. -/
def serve (l : Lowering) : Request → Option LoweringError × Lowering
  | .define d =>
    match l.define d with
    | (.ok _, l') => (none, l')
    | (.error e, l') => (some e, l')
  | .declare proto => (none, (l.declare proto).2)
  | .expr e =>
    match l.expr e with
    | (.ok _, l') => (none, l')
    | (.error err, l') => (some err, l')
  | .dropBody h => (none, { l with program := l.program.dropBody h })
  | .erase h => (none, { l with program := l.program.erase h })

def served (l : Lowering) (requests : List Request) : Lowering :=
  requests.foldl (fun l r ↦ (l.serve r).2) l

/-- No request, whatever comes of it, unsettles the names or the cursor. -/
theorem anchored_serve (hl : l.program.Anchored) (r : Request) :
    (l.serve r).2.program.Anchored ∧ (l.serve r).1 ≠ some (.build .missingBlock) := by
  cases r with
  | define d =>
    obtain ⟨hkept, herr⟩ := anchored_define hl d
    rcases hd : l.define d with ⟨h | e, l'⟩ <;> simp_all [serve]
  | declare proto => exact ⟨anchored_declare hl proto, by simp [serve]⟩
  | expr e =>
    obtain ⟨hkept, herr⟩ := anchored_expr hl e
    rcases he : l.expr e with ⟨err | v, l'⟩ <;> simp_all [serve]
  | dropBody h => exact ⟨hl.dropBody h, by simp [serve]⟩
  | erase h => exact ⟨hl.erase h, by simp [serve]⟩

theorem anchored_served (hl : l.program.Anchored) (requests : List Request) :
    (l.served requests).program.Anchored := by
  induction requests generalizing l with
  | nil => exact hl
  | cons r requests ih => exact ih (anchored_serve hl r).1

/-- **Names are resolved exactly, and the cursor stands where something can be inserted.** After any
requests, with any handles, no two live functions have the same name, a name belongs to a handle
exactly if that refers to a function of this name, and the cursor is gone or in a block of a live
function. No further request misses the block at the cursor. -/
theorem resolution_is_exact (name : String) (requests : List Request) :
    let l := (empty name).served requests
    (∀ h h' f f', l.program.find? h = some f → l.program.find? h' = some f' →
      f.name = f'.name → h = h') ∧
    (∀ n h, l.program.lookup? n = some h ↔ ∃ f, l.program.find? h = some f ∧ f.name = n) ∧
    (l.program.cursor = none ∨ ∃ c f b, l.program.cursor = some c ∧
      l.program.find? c.function = some f ∧ f.blocks[c.index]? = some b) ∧
    ∀ r, (l.serve r).1 ≠ some (.build .missingBlock) := by
  intro l
  have hl : l.program.Anchored := anchored_served (Module.anchored_empty name) requests
  refine ⟨fun h h' f f' ↦ hl.eq_of_name_eq, fun n h ↦ hl.lookup?_eq_some_iff, ?_,
    fun r ↦ (anchored_serve hl r).2⟩
  cases hc : l.program.cursor with
  | none => exact .inl rfl
  | some c =>
    obtain ⟨f, hf, hlt⟩ := hl.block hc
    exact .inr ⟨c, f, f.blocks[c.index], rfl, hf, List.getElem?_eq_getElem hlt⟩

end Lowering

end FloatLang
