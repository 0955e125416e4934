import FloatLang.Proofs.Store
import FloatLang.Ssa.Build
import FloatLang.Ssa.Run

/-!
# Handles that have gone stale

The operations of the builder take any handle, and in any order: a name may be declared twice, a
function erased twice, and a handle used long after its function is gone and its slot has been given
to another. What keeps such a handle from reaching the wrong function is the generation of the slot.

The generation counts the erasures of the slot, and nothing else touches it. So a handle fits its
slot again exactly when the erasures since it was given out have brought the counter once around, or
several times; and until then whatever is done with it is done to nothing.

The calls of the builder stand here as data, so that a history is a list of them. A call that fails
leaves what it did before it failed.
-/

namespace FloatLang.Ssa

/-- A call of an operation that can change a module. -/
inductive BuilderCall
  | declare (name : String) (params : List String)
  | nameParam (h : FunctionId) (i : Nat) (base : String)
  | appendBlock (h : FunctionId) (label : String)
  | positionAtEnd (b : BlockId)
  | binary (op : BinaryOp) (lhs rhs : Value) (base : String)
  | widen (value : Value) (base : String)
  | call (callee : FunctionId) (args : List Value) (base : String)
  | ret (value : Value)
  | dropBody (h : FunctionId)
  | erase (h : FunctionId)

namespace Module

/-- The module that an insertion leaves, whether it fails or not. -/
def left {α : Type} (m : Module) (x : Build α) : Module :=
  match x.run m with
  | .ok _ m' => m'
  | .error _ m' => m'

def perform (m : Module) : BuilderCall → Module
  | .declare name params => (m.declare name params).2
  | .nameParam h i base => m.nameParam h i base
  | .appendBlock h label => (m.appendBlock h label).2
  | .positionAtEnd b => m.positionAtEnd b
  | .binary op lhs rhs base => m.left (buildBinary op lhs rhs base)
  | .widen value base => m.left (buildWiden value base)
  | .call callee args base => m.left (buildCall callee args base)
  | .ret value => m.left (buildRet value)
  | .dropBody h => m.dropBody h
  | .erase h => m.erase h

def performed (m : Module) (calls : List BuilderCall) : Module := calls.foldl perform m

/-- Whether a call erases the function that is in the slot `i`. -/
def erases (m : Module) (i : Nat) : BuilderCall → Bool
  | .erase h => h.index = i ∧ (m.find? h).isSome
  | _ => false

/-- How often the calls erase the function that is in the slot `i` then. -/
def erasures (m : Module) (i : Nat) : List BuilderCall → Nat
  | [] => 0
  | c :: calls => (m.erases i c).toNat + (m.perform c).erasures i calls

/-- Among the calls is one that erases the function of `h` while `h` refers to it. -/
def Erased (m : Module) (h : FunctionId) (calls : List BuilderCall) : Prop :=
  ∃ before later, calls = before ++ .erase h :: later ∧ ((m.performed before).find? h).isSome

def Occupied (m : Module) (i : Nat) : Prop := ∃ s, m.slots[i]? = some s ∧ s.function?.isSome

/-- The generation of the slot `i`, zero for a slot that is not there yet. -/
def generation (m : Module) (i : Nat) : UInt32 := (m.slots[i]?.map Slot.generation).getD 0

variable {m : Module} {h : FunctionId}

/-! ## What a call can do -/

/-- The second module is the first one with, at most, a function changed otherwise than in its name
and the cursor moved. -/
def Touched (m m' : Module) : Prop :=
  ∃ h change cursor, (∀ f : Function, (change f).name = f.name) ∧
    m' = { m.update h change with cursor }

private theorem touched_update (m : Module) (h : FunctionId) {change : Function → Function}
    (hchange : ∀ f, (change f).name = f.name) : m.Touched (m.update h change) :=
  ⟨h, change, m.cursor, hchange, rfl⟩

private theorem touched_positionAtEnd (m : Module) (b : BlockId) : m.Touched (m.positionAtEnd b) :=
  ⟨b.function, id, some b, fun _ ↦ rfl, by rw [update_id]; rfl⟩

private theorem touched_dropBody (m : Module) (h : FunctionId) : m.Touched (m.dropBody h) := by
  refine ⟨h, Function.withoutBody, (m.dropBody h).cursor, fun _ ↦ rfl, ?_⟩
  rw [dropBody]
  split <;> rfl

theorem Touched.refl (m : Module) : m.Touched m :=
  ⟨⟨0, 0⟩, id, m.cursor, fun _ ↦ rfl, by rw [update_id]⟩

theorem left_map {α β : Type} (m : Module) (x : Build α) (f : α → β) :
    m.left (do return f (← x)) = m.left x := by
  rw [left, left, EStateM.run_bind]
  cases x.run m <;> rfl

private theorem touched_insert (m : Module) (op : Operation) (base : Option String) :
    m.Touched (m.left (insert op base)) := by
  rw [left, insert, EStateM.run_bind, EStateM.run_get]
  cases hc : m.cursor with
  | none => simpa only [hc] using .refl m
  | some c =>
    cases hf : m.find? c.function with
    | none => simpa only [hc, hf] using .refl m
    | some f =>
      by_cases hlt : c.index < f.blocks.length
      · simp only [hc, hf, if_pos hlt]
        exact m.touched_update c.function fun f ↦ by cases base <;> rfl
      · simpa only [hc, hf, if_neg hlt] using .refl m

private theorem touched_insertValue (m : Module) (op : Operation) (base : String) :
    m.Touched (m.left (insertValue op base)) := by
  rw [insertValue, left_map]
  exact m.touched_insert op (some base)

private theorem touched_buildBinary (m : Module) (op : BinaryOp) (l r : Value) (base : String) :
    m.Touched (m.left (buildBinary op l r base)) := by
  rw [buildBinary.eq_def]
  split
  · exact .refl m
  · exact m.touched_insertValue _ base

private theorem touched_buildWiden (m : Module) (value : Value) (base : String) :
    m.Touched (m.left (buildWiden value base)) := by
  rw [buildWiden.eq_def]
  split
  · exact .refl m
  · exact m.touched_insertValue _ base

private theorem touched_buildRet (m : Module) (value : Value) :
    m.Touched (m.left (buildRet value)) := by
  rw [buildRet, left_map]
  exact m.touched_insert (.ret value) none

/-- What one call can do: declare, erase, or change one function and the cursor. -/
theorem perform_cases (m : Module) (c : BuilderCall) :
    (∃ name params, c = .declare name params) ∨ (∃ h, c = .erase h) ∨
      m.Touched (m.perform c) ∧ ∀ i, m.erases i c = false := by
  cases c with
  | declare name params => exact .inl ⟨name, params, rfl⟩
  | erase h => exact .inr (.inl ⟨h, rfl⟩)
  | nameParam h i base => exact .inr (.inr ⟨m.touched_update h fun _ ↦ rfl, fun _ ↦ rfl⟩)
  | appendBlock h label => exact .inr (.inr ⟨m.touched_update h fun _ ↦ rfl, fun _ ↦ rfl⟩)
  | positionAtEnd b => exact .inr (.inr ⟨m.touched_positionAtEnd b, fun _ ↦ rfl⟩)
  | binary op l r base => exact .inr (.inr ⟨m.touched_buildBinary op l r base, fun _ ↦ rfl⟩)
  | widen value base => exact .inr (.inr ⟨m.touched_buildWiden value base, fun _ ↦ rfl⟩)
  | call callee args base => exact .inr (.inr ⟨m.touched_insertValue _ base, fun _ ↦ rfl⟩)
  | ret value => exact .inr (.inr ⟨m.touched_buildRet value, fun _ ↦ rfl⟩)
  | dropBody h => exact .inr (.inr ⟨m.touched_dropBody h, fun _ ↦ rfl⟩)

theorem Tidy.touched {m' : Module} (hm : m.Tidy) (ht : m.Touched m') : m'.Tidy := by
  obtain ⟨h, change, cursor, hchange, rfl⟩ := ht
  exact (hm.update h hchange).of_eq rfl rfl rfl

/-- Every call of the builder keeps the module tidy. -/
theorem Tidy.perform (hm : m.Tidy) (c : BuilderCall) : (m.perform c).Tidy := by
  obtain ⟨name, params, rfl⟩ | ⟨h, rfl⟩ | ⟨ht, -⟩ := m.perform_cases c
  · exact hm.declare name params
  · exact hm.erase h
  · exact hm.touched ht

theorem Tidy.performed (hm : m.Tidy) (calls : List BuilderCall) : (m.performed calls).Tidy := by
  induction calls generalizing m with
  | nil => exact hm
  | cons c calls ih => exact ih (hm.perform c)

/-! ## Generations -/

theorem find?_isSome_iff :
    (m.find? h).isSome ↔ m.Occupied h.index ∧ m.generation h.index = h.generation := by
  rw [find?, Occupied, generation]
  cases m.slots[h.index]? with
  | none => simp
  | some s => by_cases hg : s.generation = h.generation <;> simp [hg]

theorem generation_update (m : Module) (h : FunctionId) (change : Function → Function) (i : Nat) :
    (m.update h change).generation i = m.generation i := by
  rw [generation, generation, update, List.getElem?_modify]
  cases m.slots[i]? with
  | none => rfl
  | some s =>
    by_cases hi : h.index = i
    · by_cases hg : s.generation = h.generation <;> simp [hi, hg]
    · simp [hi]

private theorem generation_of_touched {m' : Module} (ht : m.Touched m') (i : Nat) :
    m'.generation i = m.generation i := by
  obtain ⟨h, change, cursor, -, rfl⟩ := ht
  exact generation_update m h change i

/-- A declaration gives out the generation that its slot has, and leaves it. -/
theorem generation_declare (hm : m.Tidy) (name : String) (params : List String) :
    (m.declare name params).1.generation = m.generation (m.declare name params).1.index ∧
      ∀ i, (m.declare name params).2.generation i = m.generation i := by
  simp only [generation, declare, slots_bind]
  obtain ⟨i, free, s, -, hs, -, halloc⟩ | ⟨-, halloc⟩ :=
    hm.allocate_cases ⟨name, freshParams params, [], []⟩
  · rw [halloc]
    refine ⟨by simp [hs], fun k ↦ ?_⟩
    have hlt : i < m.slots.length := (List.getElem?_eq_some_iff.mp hs).1
    by_cases hk : i = k
    · subst hk
      simp [List.getElem?_set_self hlt, hs]
    · simp [List.getElem?_set_ne hk]
  · rw [halloc]
    refine ⟨by simp, fun k ↦ ?_⟩
    by_cases hlt : k < m.slots.length
    · simp [List.getElem?_append_left hlt]
    · -- beyond the last slot there is at most the new one, and its generation is zero
      by_cases hk : k = m.slots.length
      · simp [hk]
      · rw [List.getElem?_eq_none (by simp; omega), List.getElem?_eq_none (by omega)]

/-- Erasing a function puts its slot into the next generation, and leaves the others. -/
theorem generation_erase (m : Module) (h : FunctionId) (i : Nat) :
    (m.erase h).generation i =
      m.generation i + if h.index = i ∧ (m.find? h).isSome then 1 else 0 := by
  have hdrop : ∀ i, (m.dropBody h).generation i = m.generation i :=
    generation_of_touched (m.touched_dropBody h)
  have hfind : ((m.dropBody h).find? h).isSome = (m.find? h).isSome := by
    rw [find?_dropBody, if_pos rfl, Option.isSome_map]
  rw [← hdrop, ← hfind, erase]
  cases hf : (m.dropBody h).find? h with
  | none => simp
  | some f =>
    obtain ⟨s, hs, hg, -⟩ := find?_eq_some_iff.mp hf
    have hlt : h.index < (m.dropBody h).slots.length := (List.getElem?_eq_some_iff.mp hs).1
    simp only [generation, slots_unbind]
    by_cases hi : h.index = i
    · subst hi
      simp [List.getElem?_set_self hlt, hs, hg]
    · simp [List.getElem?_set_ne hi, hi]

/-- **The generation counts the erasures of the slot.** -/
theorem generation_perform (hm : m.Tidy) (c : BuilderCall) (i : Nat) :
    (m.perform c).generation i = m.generation i + UInt32.ofNat (m.erases i c).toNat := by
  obtain ⟨name, params, rfl⟩ | ⟨h, rfl⟩ | ⟨ht, hnone⟩ := m.perform_cases c
  · exact ((generation_declare hm name params).2 i).trans (by simp [erases])
  · refine (generation_erase m h i).trans ?_
    by_cases he : h.index = i ∧ (m.find? h).isSome <;> simp [erases, he]
  · rw [generation_of_touched ht, hnone]
    simp

theorem generation_performed (hm : m.Tidy) (calls : List BuilderCall) (i : Nat) :
    (m.performed calls).generation i = m.generation i + UInt32.ofNat (m.erasures i calls) := by
  induction calls generalizing m with
  | nil => simp [performed, erasures]
  | cons c calls ih =>
    rw [erasures, UInt32.ofNat_add, ← UInt32.add_assoc, ← generation_perform hm c i]
    exact ih (hm.perform c)

/-! ## Handles -/

private theorem ofNat_eq_zero_iff (k : Nat) : UInt32.ofNat k = 0 ↔ UInt32.size ∣ k := by
  rw [← UInt32.toNat_inj, UInt32.toNat_ofNat', Nat.dvd_iff_mod_eq_zero]
  rfl

theorem performed_append (m : Module) (calls later : List BuilderCall) :
    m.performed (calls ++ later) = (m.performed calls).performed later := List.foldl_append

theorem erasures_append (m : Module) (i : Nat) (calls later : List BuilderCall) :
    m.erasures i (calls ++ later) = m.erasures i calls + (m.performed calls).erasures i later := by
  induction calls generalizing m with
  | nil => exact (Nat.zero_add _).symm
  | cons c calls ih =>
    rw [List.cons_append, erasures, erasures, ih, Nat.add_assoc]
    rfl

/-- The erasure of a function is one of the erasures of its slot. -/
theorem Erased.erasures_pos {calls : List BuilderCall} (he : m.Erased h calls) :
    0 < m.erasures h.index calls := by
  obtain ⟨before, later, rfl, hlive⟩ := he
  rw [erasures_append, erasures, erases, decide_eq_true ⟨rfl, hlive⟩, Bool.toNat_true]
  omega

/-- A handle refers to a function after any calls that follow the declaration that gave it out,
exactly when there is a function in its slot and the erasures of the slot have brought the counter
back. -/
theorem find?_performed_isSome_iff (hm : m.Tidy) (name : String) (params : List String)
    (later : List BuilderCall) :
    let h := (m.declare name params).1
    let m' := (m.declare name params).2
    ((m'.performed later).find? h).isSome ↔
      (m'.performed later).Occupied h.index ∧ UInt32.size ∣ m'.erasures h.index later := by
  intro h m'
  obtain ⟨hgiven, hleft⟩ := generation_declare hm name params
  have hself : m'.generation h.index = h.generation := (hleft h.index).trans hgiven.symm
  rw [find?_isSome_iff, generation_performed (hm.declare name params), hself, ← ofNat_eq_zero_iff]
  refine and_congr_right fun _ ↦ ?_
  constructor
  · intro hg
    exact UInt32.add_eq_left.mp hg
  · intro hk
    rw [hk, UInt32.add_zero]

/-! ## What a handle that misses does -/

private theorem update_of_find?_eq_none (hmiss : m.find? h = none) (change : Function → Function) :
    m.update h change = m := by
  have hslot : ∀ s, m.slots[h.index]? = some s →
      (if s.generation = h.generation then { s with function? := s.function?.map change } else s)
        = s := by
    rintro ⟨generation, function?⟩ hs
    by_cases hg : generation = h.generation
    · rw [find?, hs] at hmiss
      simp only [hg, if_true] at hmiss ⊢
      rw [hmiss]
      rfl
    · exact if_neg hg
  rw [update]
  congr 1
  apply List.ext_getElem?
  intro i
  rw [List.getElem?_modify]
  by_cases hi : h.index = i
  · subst hi
    cases hs : m.slots[h.index]? with
    | none => rfl
    | some s => simp [hslot s hs]
  · simp [hi]

private theorem dropBody_of_find?_eq_none (hmiss : m.find? h = none) :
    m.dropBody h = { m with cursor := (m.dropBody h).cursor } := by
  rw [dropBody, update_of_find?_eq_none hmiss]
  split <;> rfl

private theorem erase_of_find?_eq_none (hmiss : m.find? h = none) : m.erase h = m.dropBody h := by
  have hgone : (m.dropBody h).find? h = none := by rw [find?_dropBody, if_pos rfl, hmiss]; rfl
  rw [erase, hgone]

private theorem run_of_find?_eq_none (hmiss : m.find? h = none) (args : List Double)
    (printed : Array String) : (m.run h args).run printed = .error .erasedFunction printed := by
  rw [run, call, hmiss]
  rfl

/-- **Stale handles miss until the counter has come around.** Whatever calls of the builder have
been made, the free list holds the empty slots, each once, a name belongs to a live function of that
name, and a declaration gives out a handle that no live function has. A handle that has been erased
refers to a function again exactly when there is one in its slot and the erasures of the slot since
the handle was given out are a positive multiple of the range of the counter. As long as they are
fewer, what is done with the handle moves the cursor at most, and running it fails. -/
theorem handles_through_calls (moduleName : String) :
    (∀ calls,
      let m := (empty moduleName).performed calls
      m.free.Nodup ∧
      (∀ i, i ∈ m.free ↔ ∃ s, m.slots[i]? = some s ∧ s.function? = none) ∧
      (∀ name h, m.lookup? name = some h → ∃ f, m.find? h = some f ∧ f.name = name) ∧
      ∀ name params, ∀ h ∈ m.handles, (m.declare name params).1 ≠ h) ∧
    ∀ before name params later,
      let given := ((empty moduleName).performed before).declare name params
      let h := given.1
      let k := given.2.erasures h.index later
      let m := (empty moduleName).performed (before ++ .declare name params :: later)
      given.2.Erased h later →
        ((m.find? h).isSome ↔ m.Occupied h.index ∧ 0 < k ∧ UInt32.size ∣ k) ∧
        (k < UInt32.size →
          (∀ i base, m.nameParam h i base = m) ∧
          (∀ label, (m.appendBlock h label).2 = m) ∧
          (∃ cursor, m.dropBody h = { m with cursor }) ∧
          (∃ cursor, m.erase h = { m with cursor }) ∧
          ∀ args printed, (m.run h args).run printed = .error .erasedFunction printed) := by
  refine ⟨fun calls ↦ ?_, fun before name params later ↦ ?_⟩
  · intro m
    have hm : m.Tidy := (tidy_empty moduleName).performed calls
    refine ⟨hm.nodup_free, hm.mem_free_iff, fun _ _ ↦ hm.find?_of_lookup?, ?_⟩
    rintro name params h hlive rfl
    rw [mem_handles_iff, hm.find?_declare_fst] at hlive
    cases hlive
  · intro given h k m herased
    have hm : m = given.2.performed later := performed_append _ before _
    have hpos : 0 < k := herased.erasures_pos
    have hresolves : (m.find? h).isSome ↔ m.Occupied h.index ∧ UInt32.size ∣ k := by
      rw [hm]
      exact find?_performed_isSome_iff ((tidy_empty moduleName).performed before) name params later
    refine ⟨by rw [hresolves, and_iff_right hpos], fun hk ↦ ?_⟩
    have hmiss : m.find? h = none := by
      rw [← Option.not_isSome_iff_eq_none, hresolves]
      rintro ⟨-, hdvd⟩
      exact Nat.not_le_of_lt hk (Nat.le_of_dvd hpos hdvd)
    have hdrop := dropBody_of_find?_eq_none hmiss
    exact ⟨fun _ _ ↦ update_of_find?_eq_none hmiss _, fun _ ↦ update_of_find?_eq_none hmiss _,
      ⟨_, hdrop⟩, ⟨_, (erase_of_find?_eq_none hmiss).trans hdrop⟩, run_of_find?_eq_none hmiss⟩

/-- The slot of an erased function is given to the next one, which the old handle does not reach. -/
example :
    let m := (empty "m").performed
      [.declare "f" [], .erase ⟨0, 0⟩, .declare "g" ["x"], .nameParam ⟨0, 0⟩ 0 "y", .erase ⟨0, 0⟩]
    m.find? ⟨0, 0⟩ = none ∧ m.find? ⟨0, 1⟩ = some ⟨"g", ["x"], [], []⟩ := by
  decide +kernel

/-! ## Once around -/

/-- A module whose only slot has been erased `n` times, and holds a function. -/
def turned (n : Nat) : Module :=
  ⟨"m", [⟨UInt32.ofNat n, some ⟨"f", [], [], []⟩⟩], [], [("f", ⟨0, UInt32.ofNat n⟩)], none⟩

/-- Erasing the function and declaring it again, `n` times. -/
def turns : Nat → List BuilderCall
  | 0 => []
  | n + 1 => turns n ++ [.erase ⟨0, UInt32.ofNat n⟩, .declare "f" []]

theorem performed_turns (n : Nat) : (turned 0).performed (turns n) = turned n := by
  induction n with
  | zero => rfl
  | succ n ih =>
    rw [turns, performed_append, ih, turned, turned, UInt32.ofNat_add]
    simp [performed, perform, erase, dropBody, update, find?, unbind, lookup?, declare, allocate,
      Module.bind, freshParams]

/-- The bound is sharp: after as many erasures as the counter has values, a handle that has been
erased refers to the function that has been declared last. -/
theorem find?_after_turns :
    let given := (empty "m").declare "f" []
    given.2.Erased given.1 (turns UInt32.size) ∧
      (given.2.performed (turns UInt32.size)).find? given.1 = some ⟨"f", [], [], []⟩ := by
  intro given
  have hgiven : given = (⟨0, 0⟩, turned 0) := rfl
  rw [hgiven]
  have hfirst : ∀ n, (turned 0).Erased ⟨0, 0⟩ (turns (n + 1)) := by
    intro n
    induction n with
    | zero => exact ⟨[], [.declare "f" []], rfl, rfl⟩
    | succ n ih =>
      obtain ⟨before, later, hturns, hlive⟩ := ih
      exact ⟨before, later ++ _, by rw [turns, hturns, List.append_assoc]; rfl, hlive⟩
  constructor
  · have hall := hfirst (UInt32.size - 1)
    rwa [Nat.sub_add_cancel (show 1 ≤ UInt32.size by decide)] at hall
  · rw [performed_turns]
    rfl

end Module

end FloatLang.Ssa
