import FloatLang.Proofs.Resolution

/-!
# What one definition leaves to the next

A definition that has been lowered leaves more than its function: the scope of its parameters, and
the cursor in its body. The next definition makes a scope and a block of its own before it looks at
either, so that neither reaches it. Two states of lowering that hold the same functions, and differ
in scope and cursor in any way, come to the same result and hold the same functions again, whether
the definition is refused, fails in the middle of its body and is taken back, or succeeds.

The states need not be ones that lowering has come to. `SameStore` compares everything in them that
a definition may see; once a block has been entered the cursors agree as well, and from there on two
runs are compared by `Blind`, which is `Compositional`.
-/

namespace FloatLang

open Ssa

namespace Ssa.Module

/-! ## The same store -/

/-- The modules have the same functions in the same slots, the same slots to use next, and the same
function for each name. Where the cursors are is not compared. -/
structure SameStore (m m' : Module) : Prop where
  slots : m.slots = m'.slots
  free : m.free = m'.free
  lookup? : ∀ name, m.lookup? name = m'.lookup? name

/-- The modules have the same store, and the cursors are in the same place. -/
structure SameState (m m' : Module) : Prop extends SameStore m m' where
  cursor : m.cursor = m'.cursor

namespace SameStore

variable {m m' : Module}

theorem find? (hm : SameStore m m') (h : FunctionId) : m.find? h = m'.find? h := by
  rw [Module.find?, Module.find?, hm.slots]

theorem paramCount (hm : SameStore m m') (h : FunctionId) : m.paramCount h = m'.paramCount h := by
  rw [Module.paramCount, Module.paramCount, hm.find?]

theorem hasBody (hm : SameStore m m') (h : FunctionId) : m.hasBody h = m'.hasBody h := by
  rw [Module.hasBody, Module.hasBody, hm.find?]

theorem update (hm : SameStore m m') (h : FunctionId) (change : Function → Function) :
    SameStore (m.update h change) (m'.update h change) where
  slots := by rw [Module.update, Module.update, hm.slots]
  free := hm.free
  lookup? := hm.lookup?

theorem allocate (hm : SameStore m m') (f : Function) :
    (m.allocate f).1 = (m'.allocate f).1 ∧ SameStore (m.allocate f).2 (m'.allocate f).2 := by
  rw [Module.allocate, Module.allocate, hm.slots, hm.free]
  cases m'.free with
  | nil => exact ⟨rfl, rfl, rfl, hm.lookup?⟩
  | cons i free => exact ⟨rfl, rfl, rfl, hm.lookup?⟩

theorem declare (hm : SameStore m m') (name : String) (params : List String) :
    (m.declare name params).1 = (m'.declare name params).1 ∧
      SameStore (m.declare name params).2 (m'.declare name params).2 := by
  obtain ⟨hhandle, halloc⟩ := hm.allocate ⟨name, freshParams params, [], []⟩
  refine ⟨hhandle, ?_, ?_, fun n ↦ ?_⟩
  · rw [Module.declare, Module.declare, slots_bind, slots_bind, halloc.slots]
  · rw [Module.declare, Module.declare, free_bind, free_bind, halloc.free]
  · rw [Module.declare, Module.declare, lookup?_bind, lookup?_bind, hhandle, halloc.lookup?,
      halloc.lookup?]

/-- Once a block is entered, it does not matter any more where the cursor was. -/
theorem enterBody (hm : SameStore m m') (h : FunctionId) (params : List String) :
    SameState (Lowering.enterBody m h params) (Lowering.enterBody m' h params) := by
  have hnamed : SameStore (Lowering.nameParams (m.appendBlock h "entry").2 h params)
      (Lowering.nameParams (m'.appendBlock h "entry").2 h params) := by
    rw [Lowering.nameParams_eq_update, Lowering.nameParams_eq_update]
    exact (hm.update h _).update h _
  refine ⟨⟨hnamed.slots, hnamed.free, hnamed.lookup?⟩, ?_⟩
  show some (m.appendBlock h "entry").1 = some (m'.appendBlock h "entry").1
  rw [appendBlock, appendBlock, hm.find?]

end SameStore

namespace SameState

variable {m m' : Module}

theorem update (hm : SameState m m') (h : FunctionId) (change : Function → Function) :
    SameState (m.update h change) (m'.update h change) :=
  ⟨hm.toSameStore.update h change, hm.cursor⟩

theorem dropBody (hm : SameState m m') (h : FunctionId) :
    SameState (m.dropBody h) (m'.dropBody h) := by
  refine ⟨⟨?_, ?_, fun n ↦ ?_⟩, Option.ext fun c ↦ ?_⟩
  · rw [slots_dropBody, slots_dropBody, (hm.toSameStore.update h _).slots]
  · rw [free_dropBody, free_dropBody, hm.free]
  · rw [lookup?_dropBody, lookup?_dropBody, hm.lookup?]
  · rw [cursor_dropBody_eq_some_iff, cursor_dropBody_eq_some_iff, hm.cursor]

theorem erase (hm : SameState m m') (h : FunctionId) : SameState (m.erase h) (m'.erase h) := by
  have hdrop := hm.dropBody h
  refine ⟨⟨?_, ?_, fun n ↦ ?_⟩, ?_⟩
  · rw [Module.erase, Module.erase, hdrop.find?]
    cases (m'.dropBody h).find? h with
    | none => exact hdrop.slots
    | some f => simp only [slots_unbind, hdrop.slots]
  · rw [Module.erase, Module.erase, hdrop.find?]
    cases (m'.dropBody h).find? h with
    | none => exact hdrop.free
    | some f => simp only [free_unbind, hdrop.free]
  · rw [lookup?_erase, lookup?_erase, hm.lookup?, hm.find?]
  · rw [cursor_erase, cursor_erase, hdrop.cursor]

theorem takeBack (hm : SameState m m') (h : FunctionId) (wasDeclared : Bool) :
    SameState (Lowering.takeBack m h wasDeclared) (Lowering.takeBack m' h wasDeclared) := by
  cases wasDeclared with
  | true => exact hm.dropBody h
  | false => exact hm.erase h

end SameState

end Ssa.Module

/-! ## Two runs -/

/-- The runs have the same value or the same failure, and end in the same state. -/
inductive EndSame {α : Type} :
    EStateM.Result LoweringError Module α → EStateM.Result LoweringError Module α → Prop
  | ok (a : α) {m m' : Module} (hm : Module.SameState m m') : EndSame (.ok a m) (.ok a m')
  | error (e : LoweringError) {m m' : Module} (hm : Module.SameState m m') :
    EndSame (.error e m) (.error e m')

/-- A part of lowering that tells nothing apart in modules of the same state. -/
def Blind {α : Type} (x : Lower α) : Prop :=
  ∀ m m' : Module, Module.SameState m m' → EndSame (x.run m) (x.run m')

theorem Blind.bind {α β : Type} {x : Lower α} {f : α → Lower β} (hx : Blind x)
    (hf : ∀ a, Blind (f a)) : Blind (x >>= f) := by
  intro m m' hm
  have hxm := hx m m' hm
  rw [EStateM.run_bind, EStateM.run_bind]
  generalize x.run m = r, x.run m' = r' at hxm
  cases hxm with
  | ok a hm => exact hf a _ _ hm
  | error e hm => exact .error e hm

private theorem blind_insert (op : Operation) (base : Option String) :
    Blind (emit (Ssa.insert op base)) := by
  intro m m' hm
  rw [emit, EStateM.run_adaptExcept, EStateM.run_adaptExcept, Ssa.insert]
  simp only [EStateM.run_bind, EStateM.run_get, hm.cursor]
  cases m'.cursor with
  | none => exact .error _ hm
  | some c =>
    simp only [hm.find?]
    cases m'.find? c.function with
    | none => exact .error _ hm
    | some f =>
      by_cases hlt : c.index < f.blocks.length
      · simp only [if_pos hlt]
        exact .ok _ (hm.update c.function _)
      · simp only [if_neg hlt]
        exact .error _ hm

private theorem blind_resolveCallee (callee : String) (count : Nat) :
    Blind (resolveCallee callee count) := by
  intro m m' hm
  rw [resolveCallee, EStateM.run_bind, EStateM.run_bind, EStateM.run_get, EStateM.run_get]
  simp only [hm.lookup?]
  cases m'.lookup? callee with
  | none => exact .error _ hm
  | some h =>
    simp only [hm.paramCount]
    by_cases hcount : m'.paramCount h = count
    · simp only [if_pos hcount]
      exact .ok _ hm
    · simp only [if_neg hcount]
      exact .error _ hm

theorem compositional_blind : Compositional fun _ ↦ Blind where
  pure := fun a _ _ hm ↦ .ok a hm
  fail := fun _ _ _ hm ↦ .error _ hm
  bind := Blind.bind
  insert := blind_insert
  resolveCallee := blind_resolveCallee

/-! ## Definitions -/

namespace Lowering

variable {m m' : Module}

private theorem refusal?_eq_of_sameStore (hm : Module.SameStore m m') (p : Prototype) :
    refusal? m p = refusal? m' p := by
  rw [refusal?, refusal?, hm.lookup?]
  simp only [hm.hasBody, hm.paramCount]

private theorem declare_of_sameStore (hm : Module.SameStore m m') (scope scope' : Scope)
    (p : Prototype) : (declare ⟨m, scope⟩ p).1 = (declare ⟨m', scope'⟩ p).1 ∧
      Module.SameStore (declare ⟨m, scope⟩ p).2.program (declare ⟨m', scope'⟩ p).2.program := by
  cases hl : m'.lookup? p.name with
  | some h =>
    rw [declare_of_lookup? (l := ⟨m, scope⟩) ((hm.lookup? _).trans hl),
      declare_of_lookup? (l := ⟨m', scope'⟩) hl]
    exact ⟨rfl, hm⟩
  | none =>
    rw [declare_of_lookup?_eq_none (l := ⟨m, scope⟩) ((hm.lookup? _).trans hl),
      declare_of_lookup?_eq_none (l := ⟨m', scope'⟩) hl]
    exact hm.declare p.name p.params

/-- **Nothing leaks into a definition.** Let two modules have the same functions in the same slots,
the same free slots and the same names, and let the scopes and the cursors that earlier work has
left be anything. Then a definition has the same result in both, the same handle or the same error,
and leaves the same functions, free slots and names. Unless it is refused, it also leaves the same
scope and the same cursor. -/
theorem define_sees_no_leftovers (hm : Module.SameStore m m') (scope scope' : Scope)
    (d : Definition) :
    let l := define ⟨m, scope⟩ d
    let l' := define ⟨m', scope'⟩ d
    l.1 = l'.1 ∧ Module.SameStore l.2.program l'.2.program ∧
      (refusal? m d.proto = none →
        l.2.scope = l'.2.scope ∧ l.2.program.cursor = l'.2.program.cursor) := by
  have hrefusal := refusal?_eq_of_sameStore hm d.proto
  obtain ⟨hhandle, hdeclared⟩ := declare_of_sameStore hm scope scope' d.proto
  have hrun := compositional_blind.lowerBody (.ofParams d.proto.params) d.body _ _
    (hdeclared.enterBody (declare ⟨m', scope'⟩ d.proto).1 d.proto.params)
  rw [define.eq_def, define.eq_def]
  simp only [hrefusal, hhandle, hm.lookup?]
  cases refusal? m' d.proto with
  | some e => exact ⟨rfl, hm, fun h ↦ absurd h (Option.some_ne_none e)⟩
  | none =>
    revert hrun
    generalize (lowerBody _ _).run _ = r
    generalize (lowerBody _ _).run _ = r'
    intro hrun
    cases hrun with
    | ok u hm => exact ⟨rfl, hm.toSameStore, fun _ ↦ ⟨rfl, hm.cursor⟩⟩
    | error e hm =>
      have hback := hm.takeBack (declare ⟨m', scope'⟩ d.proto).1
        (m'.lookup? d.proto.name).isSome
      exact ⟨rfl, hback.toSameStore, fun _ ↦ ⟨rfl, hback.cursor⟩⟩

/-- A name that stood for a parameter in the definition before is as unknown as any other. -/
theorem define_sees_no_leftovers_of_parameter :
    let l := ((empty "m").define ⟨⟨"f", ["x"]⟩, .name "x"⟩).2
    let moved : Module := { l.program with cursor := none }
    let d : Definition := ⟨⟨"g", []⟩, .name "x"⟩
    l.scope.lookup "x" = some (.param 0) ∧ l.program.cursor ≠ moved.cursor ∧
      Module.SameStore l.program moved ∧ (define l d).1 = .error (.unknownVariable "x") ∧
      (define l d).1 = (define ⟨moved, []⟩ d).1 ∧
      Module.SameStore (define l d).2.program (define ⟨moved, []⟩ d).2.program ∧
      (refusal? l.program d.proto = none →
        (define l d).2.scope = (define ⟨moved, []⟩ d).2.scope ∧
          (define l d).2.program.cursor = (define ⟨moved, []⟩ d).2.program.cursor) := by
  intro l moved d
  have hm : Module.SameStore l.program moved := ⟨rfl, rfl, fun _ ↦ rfl⟩
  exact ⟨rfl, by decide, hm, rfl, define_sees_no_leftovers hm l.scope [] d⟩

end Lowering

end FloatLang
