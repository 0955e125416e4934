import FloatLang.Ssa.Module
import Mathlib.Data.List.Basic

/-!
# The store of functions, seen through its handles

Slots, generations and the free list are the representation; what a client can observe is which
function a handle refers to and which handle a name belongs to. Each operation of the store is
described here by what it does to these two views, and later modules use nothing else.

The free list matters for one thing only: a slot that is used again must be empty, since otherwise
a declaration would overwrite a live function. `Tidy` says so, together with the fact that a name
belongs to a live function of that name, and `Consistent` adds that a live function has its name.
-/

namespace FloatLang.Ssa

/-- The function without its body. -/
def Function.withoutBody (f : Function) : Function := { f with blocks := [], temps := [] }

namespace Module

variable {m : Module} {h h' : FunctionId} {f : Function} {name : String}

/-! ## Updates -/

theorem find?_eq_some_iff :
    m.find? h = some f ↔
      ∃ s, m.slots[h.index]? = some s ∧ s.generation = h.generation ∧ s.function? = some f := by
  rw [find?]
  cases hs : m.slots[h.index]? with
  | none => simp
  | some s =>
    by_cases hg : s.generation = h.generation
    · simp [hg]
    · simp [hg]

theorem find?_update (m : Module) (h h' : FunctionId) (change : Function → Function) :
    (m.update h change).find? h' =
      if h' = h then (m.find? h').map change else m.find? h' := by
  by_cases hh : h' = h
  · subst hh
    rw [if_pos rfl, find?_update_self]
  · rw [if_neg hh, find?_update_of_ne m hh]

theorem update_update (m : Module) (h : FunctionId) (change change' : Function → Function) :
    (m.update h change).update h change' = m.update h (change' ∘ change) := by
  rw [update, update, update]
  congr 1
  apply List.ext_getElem?
  intro i
  by_cases hi : h.index = i
  · subst hi
    simp only [List.getElem?_modify_eq]
    cases m.slots[h.index]? with
    | none => rfl
    | some s => by_cases hg : s.generation = h.generation <;> simp [hg]
  · rw [List.getElem?_modify_ne _ _ hi, List.getElem?_modify_ne _ _ hi,
      List.getElem?_modify_ne _ _ hi]

theorem update_id (m : Module) (h : FunctionId) : m.update h id = m := by
  rw [update]
  have hid : (fun s : Slot ↦ if s.generation = h.generation
      then { s with function? := s.function?.map id } else s) = id := by
    funext s
    simp
  rw [hid, List.modify_id]

theorem paramCount_of_find? (hf : m.find? h = some f) : m.paramCount h = f.params.length := by
  rw [paramCount, hf]
  rfl

theorem hasBody_of_find? (hf : m.find? h = some f) : m.hasBody h = f.hasBody := by
  rw [hasBody, hf]
  rfl

theorem name_dropBody (m : Module) (h : FunctionId) : (m.dropBody h).name = m.name := by
  rw [dropBody]
  split <;> rfl

theorem name_erase (m : Module) (h : FunctionId) : (m.erase h).name = m.name := by
  rw [erase]
  cases (m.dropBody h).find? h with
  | none => exact name_dropBody m h
  | some f =>
    simp only [unbind]
    split <;> exact name_dropBody m h

theorem name_declare (m : Module) (n : String) (params : List String) :
    (m.declare n params).2.name = m.name := by
  have halloc : ∀ f, (m.allocate f).2.name = m.name := by
    intro f
    rw [allocate]
    split <;> rfl
  have hbind : ∀ (m : Module) h, (m.bind n h).name = m.name := by
    intro m h
    rw [Module.bind]
    split <;> rfl
  exact (hbind _ _).trans (halloc _)

/-! ## The live handles -/

/-- The handle of the function in the slot `i`, if there is a function. -/
private def liveAt (slots : List Slot) (i : Nat) : Option FunctionId :=
  match slots[i]? with
  | some s => if s.function?.isSome then some ⟨i, s.generation⟩ else none
  | none => none

private theorem liveAt_eq_some_iff {i : Nat} :
    liveAt m.slots i = some h ↔ h.index = i ∧ (m.find? h).isSome = true := by
  rw [liveAt, find?]
  constructor
  · intro hlive
    cases hs : m.slots[i]? with
    | none => simp [hs] at hlive
    | some s =>
      by_cases hf : s.function?.isSome = true
      · simp only [hs, hf, if_true, Option.some.injEq] at hlive
        subst hlive
        simp [hs, hf]
      · simp [hs, hf] at hlive
  · rintro ⟨rfl, hfound⟩
    cases hs : m.slots[h.index]? with
    | none => simp [hs] at hfound
    | some s =>
      by_cases hg : s.generation = h.generation
      · have hf : s.function?.isSome = true := by simpa [hs, hg] using hfound
        simp only [hf, if_true, Option.some.injEq]
        cases h
        simp_all
      · simp [hs, hg] at hfound

/-- The slots can be walked through by their numbers, however far beyond the last one. -/
private theorem filterMap_zipIdx_eq (slots : List Slot) :
    ∀ (n N : Nat), slots.length ≤ N →
      ((slots.zipIdx n).filterMap fun (s, i) ↦
          if s.function?.isSome then some (⟨i, s.generation⟩ : FunctionId) else none)
        = (List.range' n N).filterMap fun i ↦
            (liveAt slots (i - n)).map fun h ↦ { h with index := i } := by
  induction slots with
  | nil =>
    intro n N _
    symm
    simp [liveAt]
  | cons s slots ih =>
    intro n N hN
    obtain ⟨N, rfl⟩ : ∃ k, N = k + 1 := ⟨N - 1, by simp at hN; omega⟩
    have hlater : (List.range' (n + 1) N).filterMap
          (fun i ↦ (liveAt (s :: slots) (i - n)).map fun h ↦ ({ h with index := i } : FunctionId))
        = (List.range' (n + 1) N).filterMap
            fun i ↦ (liveAt slots (i - (n + 1))).map fun h ↦ { h with index := i } := by
      refine List.filterMap_congr fun i hi ↦ ?_
      have hle : n + 1 ≤ i := (List.mem_range'_1.mp hi).1
      obtain ⟨k, rfl⟩ : ∃ k, i = n + 1 + k := ⟨i - (n + 1), by omega⟩
      rw [show n + 1 + k - n = k + 1 by omega, show n + 1 + k - (n + 1) = k by omega, liveAt,
        liveAt, List.getElem?_cons_succ]
      cases slots[k]? with
      | none => rfl
      | some s => by_cases hf : s.function?.isSome = true <;> simp [hf]
    rw [List.zipIdx_cons, List.filterMap_cons, List.range'_succ, List.filterMap_cons,
      ih (n + 1) N (by simpa using hN), hlater, Nat.sub_self]
    by_cases hf : s.function?.isSome = true <;> simp [liveAt, hf]

/-- The list of live handles is determined by which handles are live. -/
theorem handles_congr {m' : Module} (hlive : ∀ h, (m.find? h).isSome = (m'.find? h).isSome) :
    m.handles = m'.handles := by
  have hat : liveAt m.slots = liveAt m'.slots := by
    funext i
    apply Option.ext
    intro h
    rw [liveAt_eq_some_iff, liveAt_eq_some_iff, hlive]
  rw [handles, handles,
    filterMap_zipIdx_eq m.slots 0 (max m.slots.length m'.slots.length) (Nat.le_max_left _ _),
    filterMap_zipIdx_eq m'.slots 0 (max m.slots.length m'.slots.length) (Nat.le_max_right _ _), hat]

theorem mem_handles_iff : h ∈ m.handles ↔ (m.find? h).isSome = true := by
  rw [handles, filterMap_zipIdx_eq m.slots 0 m.slots.length (Nat.le_refl _), List.mem_filterMap]
  constructor
  · rintro ⟨i, -, hi⟩
    obtain ⟨h', hlive, rfl⟩ := Option.map_eq_some_iff.mp hi
    obtain ⟨rfl, hfound⟩ := liveAt_eq_some_iff.mp hlive
    simpa using hfound
  · intro hfound
    have hlt : h.index < m.slots.length := by
      rw [find?] at hfound
      cases hs : m.slots[h.index]? with
      | none => simp [hs] at hfound
      | some s => exact (List.getElem?_eq_some_iff.mp hs).1
    refine ⟨h.index, List.mem_range'_1.mpr ⟨Nat.zero_le _, by simpa using hlt⟩, ?_⟩
    rw [Nat.sub_zero, liveAt_eq_some_iff.mpr ⟨rfl, hfound⟩]
    rfl

/-! ## Names -/

theorem lookup?_bind (m : Module) (n : String) (h : FunctionId) (name : String) :
    (m.bind n h).lookup? name =
      if name = n ∧ m.lookup? n = none then some h else m.lookup? name := by
  rw [bind]
  cases hn : m.lookup? n with
  | some h' => simp
  | none =>
    simp only [Option.isSome_none, Bool.false_eq_true, if_false, and_true]
    by_cases he : name = n
    · subst he
      simp [lookup?]
    · have hb : (name == n) = false := by simpa using he
      simp [lookup?, List.lookup_cons, hb, he]

private theorem lookup_filter_ne (names : List (String × FunctionId)) (n name : String) :
    (names.filter fun p ↦ p.1 != n).lookup name =
      if name = n then none else names.lookup name := by
  induction names with
  | nil => simp
  | cons p names ih =>
    obtain ⟨k, h⟩ := p
    by_cases hk : k = n
    · subst hk
      rw [List.filter_cons_of_neg (by simp), ih]
      by_cases he : name = k
      · rw [if_pos he, if_pos he]
      · have hb : (name == k) = false := by simpa using he
        rw [if_neg he, if_neg he, List.lookup_cons, hb]
    · rw [List.filter_cons_of_pos (by simpa using hk), List.lookup_cons, List.lookup_cons, ih]
      by_cases he : name = k
      · subst he
        simp [hk]
      · have hb : (name == k) = false := by simpa using he
        rw [hb]

theorem lookup?_unbind (m : Module) (n : String) (h : FunctionId) (name : String) :
    (m.unbind n h).lookup? name =
      if name = n ∧ m.lookup? n = some h then none else m.lookup? name := by
  rw [unbind]
  by_cases hn : m.lookup? n = some h
  · simp only [hn, if_true, and_true]
    exact lookup_filter_ne m.names n name
  · simp [hn]

@[simp] theorem find?_bind (m : Module) (n : String) (h h' : FunctionId) :
    (m.bind n h).find? h' = m.find? h' := by
  rw [bind]
  split <;> rfl

@[simp] theorem find?_unbind (m : Module) (n : String) (h h' : FunctionId) :
    (m.unbind n h).find? h' = m.find? h' := by
  rw [unbind]
  split <;> rfl

theorem slots_bind (m : Module) (n : String) (h : FunctionId) : (m.bind n h).slots = m.slots := by
  rw [bind]
  split <;> rfl

theorem free_bind (m : Module) (n : String) (h : FunctionId) : (m.bind n h).free = m.free := by
  rw [bind]
  split <;> rfl

theorem slots_unbind (m : Module) (n : String) (h : FunctionId) :
    (m.unbind n h).slots = m.slots := by
  rw [unbind]
  split <;> rfl

theorem free_unbind (m : Module) (n : String) (h : FunctionId) :
    (m.unbind n h).free = m.free := by
  rw [unbind]
  split <;> rfl

/-! ## Bodies -/

theorem find?_dropBody (m : Module) (h h' : FunctionId) :
    (m.dropBody h).find? h' =
      if h' = h then (m.find? h').map Function.withoutBody else m.find? h' := by
  rw [← find?_update]
  rw [dropBody]
  split <;> rfl

@[simp] theorem lookup?_dropBody (m : Module) (h : FunctionId) (name : String) :
    (m.dropBody h).lookup? name = m.lookup? name := by
  rw [dropBody]
  split <;> rfl

@[simp] theorem free_dropBody (m : Module) (h : FunctionId) : (m.dropBody h).free = m.free := by
  rw [dropBody]
  split <;> rfl

theorem slots_dropBody (m : Module) (h : FunctionId) :
    (m.dropBody h).slots = (m.update h Function.withoutBody).slots := by
  rw [dropBody]
  split <;> rfl

theorem names_dropBody (m : Module) (h : FunctionId) : (m.dropBody h).names = m.names := by
  rw [dropBody]
  split <;> rfl

/-! ## Functions going -/

theorem find?_erase (m : Module) (h h' : FunctionId) :
    (m.erase h).find? h' = if h' = h then none else m.find? h' := by
  have hdrop : h' ≠ h → (m.dropBody h).find? h' = m.find? h' := by
    intro hh
    rw [find?_dropBody, if_neg hh]
  rw [erase]
  cases hf : (m.dropBody h).find? h with
  | none =>
    by_cases hh : h' = h
    · rw [if_pos hh, hh]
      exact hf
    · rw [if_neg hh]
      exact hdrop hh
  | some f =>
    simp only [find?_unbind]
    obtain ⟨s, hs, hg, hfun⟩ := find?_eq_some_iff.mp hf
    have hlt : h.index < (m.dropBody h).slots.length := (List.getElem?_eq_some_iff.mp hs).1
    by_cases hi : h'.index = h.index
    · -- the slot is empty now, and any other handle on it had missed before
      rw [find?, hi, List.getElem?_set_self hlt]
      by_cases hh : h' = h
      · simp [hh]
      · have hg' : s.generation ≠ h'.generation := fun hg' ↦
          hh (by cases h; cases h'; simp_all)
        rw [if_neg hh, ← hdrop hh, find?, hi, hs]
        simp [hg']
    · have hh : h' ≠ h := fun e ↦ hi (by rw [e])
      rw [find?, List.getElem?_set_ne (Ne.symm hi), if_neg hh, ← hdrop hh]
      rfl

theorem lookup?_erase (m : Module) (h : FunctionId) (name : String) :
    (m.erase h).lookup? name =
      if m.lookup? name = some h ∧ (m.find? h).map Function.name = some name then none
      else m.lookup? name := by
  have hdrop := find?_dropBody m h h
  rw [if_pos rfl] at hdrop
  rw [erase]
  cases hf : (m.dropBody h).find? h with
  | none =>
    have hm : m.find? h = none := by rwa [hdrop, Option.map_eq_none_iff] at hf
    simp [hm]
  | some f =>
    obtain ⟨g, hg, hfg⟩ := Option.map_eq_some_iff.mp (hdrop.symm.trans hf)
    have hname : f.name = g.name := by rw [← hfg]; rfl
    simp only [lookup?_unbind]
    -- emptying the slot takes no name away
    have hlook : ∀ n, lookup? { (m.dropBody h) with
        slots := (m.dropBody h).slots.set h.index ⟨h.generation + 1, none⟩
        free := h.index :: (m.dropBody h).free } n = m.lookup? n := lookup?_dropBody m h
    rw [hlook, hlook, hg, hname]
    by_cases he : name = g.name
    · subst he
      simp
    · simp [he, Ne.symm he]

/-! ## Consistency

The free list and the empty slots are two accounts of the same thing, as are the index of names and
the names of the live functions. A module is tidy when the first two agree and the index lists no
function that is gone; every operation keeps it so. It is consistent when, moreover, every live
function is the one that its name belongs to, for which names must not be declared twice. -/

/-- The free list holds the empty slots, each once, and names belong to functions that have them. -/
structure Tidy (m : Module) : Prop where
  /-- No slot is free twice. -/
  nodup_free : m.free.Nodup
  /-- The free slots are the empty ones. -/
  mem_free_iff : ∀ i, i ∈ m.free ↔ ∃ s, m.slots[i]? = some s ∧ s.function? = none
  /-- A name belongs to a live function of that name. -/
  find?_of_lookup? : ∀ {name h}, m.lookup? name = some h →
    ∃ f, m.find? h = some f ∧ f.name = name

/-- A tidy module whose index of names is exact. -/
structure Consistent (m : Module) : Prop extends m.Tidy where
  /-- A live function has its name. -/
  lookup?_of_find? : ∀ {h f}, m.find? h = some f → m.lookup? f.name = some h

theorem lookup?_declare (m : Module) (n : String) (params : List String) (name : String) :
    (m.declare n params).2.lookup? name =
      if name = n ∧ m.lookup? n = none then some (m.declare n params).1 else m.lookup? name := by
  have halloc : ∀ f name, (m.allocate f).2.lookup? name = m.lookup? name := by
    intro f name
    rw [allocate]
    split <;> rfl
  rw [declare, lookup?_bind, halloc, halloc]

namespace Tidy

/-- A function that is added goes to an empty slot, or to a new one. -/
theorem allocate_cases (hm : m.Tidy) (f : Function) :
    (∃ i free s, m.free = i :: free ∧ m.slots[i]? = some s ∧ s.function? = none ∧
      m.allocate f = (⟨i, s.generation⟩,
        { m with slots := m.slots.set i ⟨s.generation, some f⟩, free })) ∨
    (m.free = [] ∧
      m.allocate f = (⟨m.slots.length, 0⟩, { m with slots := m.slots ++ [⟨0, some f⟩] })) := by
  cases hfree : m.free with
  | cons i free =>
    obtain ⟨s, hs, hempty⟩ := (hm.mem_free_iff i).mp (by rw [hfree]; exact List.mem_cons_self)
    exact .inl ⟨i, free, s, rfl, hs, hempty, by simp [allocate, hfree, hs]⟩
  | nil => exact .inr ⟨rfl, by simp [allocate, hfree]⟩

/-- The handle of a function that is added refers to it, and the other handles to what they did. -/
theorem find?_allocate (hm : m.Tidy) (f : Function) (h' : FunctionId) :
    (m.allocate f).2.find? h' = if h' = (m.allocate f).1 then some f else m.find? h' := by
  obtain ⟨i, free, s, -, hs, hempty, halloc⟩ | ⟨-, halloc⟩ := hm.allocate_cases f
  · have hlt : i < m.slots.length := (List.getElem?_eq_some_iff.mp hs).1
    rw [halloc]
    by_cases hi : h'.index = i
    · -- the slot was empty, so that every handle on it had missed
      subst hi
      rw [find?, find?, List.getElem?_set_self hlt, hs]
      by_cases hg : s.generation = h'.generation
      · rw [if_pos (by cases h'; simp_all)]
        simp [hg]
      · rw [if_neg fun e ↦ hg (by rw [e])]
        simp [hg]
    · rw [if_neg fun e ↦ hi (by rw [e]), find?, find?, List.getElem?_set_ne (Ne.symm hi)]
  · rw [halloc]
    by_cases hi : h'.index = m.slots.length
    · rw [find?, find?, hi, List.getElem?_concat_length, List.getElem?_eq_none (Nat.le_refl _)]
      by_cases hg : h'.generation = 0
      · rw [if_pos (by cases h'; simp_all)]
        simp [hg]
      · rw [if_neg fun e ↦ hg (by rw [e])]
        simp [Ne.symm hg]
    · rw [if_neg fun e ↦ hi (by rw [e]), find?, find?]
      by_cases hlt : h'.index < m.slots.length
      · rw [List.getElem?_append_left hlt]
      · rw [List.getElem?_eq_none (by simp; omega), List.getElem?_eq_none (by omega)]

/-- Adding a function keeps the free list exact. -/
theorem free_allocate (hm : m.Tidy) (f : Function) :
    (m.allocate f).2.free.Nodup ∧ ∀ k, k ∈ (m.allocate f).2.free ↔
      ∃ s, (m.allocate f).2.slots[k]? = some s ∧ s.function? = none := by
  obtain ⟨i, free, s, hfree, hs, -, halloc⟩ | ⟨hfree, halloc⟩ := hm.allocate_cases f
  · -- the slot that is filled was the first of the list, and it was there once
    have hnodup := hm.nodup_free
    rw [hfree, List.nodup_cons] at hnodup
    have hlt : i < m.slots.length := (List.getElem?_eq_some_iff.mp hs).1
    rw [halloc]
    refine ⟨hnodup.2, fun k ↦ ?_⟩
    have hk := hm.mem_free_iff k
    rw [hfree, List.mem_cons] at hk
    by_cases hik : i = k
    · subst hik
      simp [List.getElem?_set_self hlt, hnodup.1]
    · rw [List.getElem?_set_ne hik, ← hk]
      simp [Ne.symm hik]
  · rw [halloc, hfree]
    refine ⟨List.nodup_nil, fun k ↦ ?_⟩
    have hk := hm.mem_free_iff k
    rw [hfree] at hk
    by_cases hlast : k = m.slots.length
    · subst hlast
      simp
    · by_cases hlt : k < m.slots.length
      · rw [List.getElem?_append_left hlt]
        exact hk
      · rw [List.getElem?_eq_none (by simp; omega)]
        simp

/-- Before it is given out, the next handle misses. -/
theorem find?_allocate_fst (hm : m.Tidy) (f : Function) : m.find? (m.allocate f).1 = none := by
  obtain ⟨i, free, s, -, hs, hempty, halloc⟩ | ⟨-, halloc⟩ := hm.allocate_cases f
  · simp [halloc, find?, hs, hempty]
  · simp [halloc, find?]

theorem of_eq {m' : Module} (hm : m.Tidy) (hslots : m'.slots = m.slots)
    (hfree : m'.free = m.free) (hnames : m'.names = m.names) : m'.Tidy := by
  have hfind : ∀ h, m'.find? h = m.find? h := fun h ↦ by rw [find?, find?, hslots]
  have hlookup : ∀ n, m'.lookup? n = m.lookup? n := fun n ↦ by rw [lookup?, lookup?, hnames]
  refine ⟨hfree ▸ hm.nodup_free, fun i ↦ ?_, fun hl ↦ ?_⟩
  · rw [hfree, hslots]
    exact hm.mem_free_iff i
  · rw [hlookup] at hl
    obtain ⟨f, hf, hname⟩ := hm.find?_of_lookup? hl
    exact ⟨f, (hfind _).trans hf, hname⟩

theorem update (hm : m.Tidy) (h : FunctionId) {change : Function → Function}
    (hchange : ∀ f, (change f).name = f.name) : (m.update h change).Tidy := by
  refine ⟨hm.nodup_free, fun i ↦ ?_, fun {name h'} hl ↦ ?_⟩
  · rw [free_update, hm.mem_free_iff i, Module.update, List.getElem?_modify]
    cases m.slots[i]? with
    | none => simp
    | some s =>
      by_cases hi : h.index = i
      · by_cases hg : s.generation = h.generation <;> simp [hi, hg]
      · simp [hi]
  · obtain ⟨f, hf, hname⟩ := hm.find?_of_lookup? hl
    rw [find?_update]
    by_cases hh : h' = h
    · exact ⟨change f, by rw [if_pos hh, hf]; rfl, (hchange f).trans hname⟩
    · exact ⟨f, by rw [if_neg hh, hf], hname⟩

theorem dropBody (hm : m.Tidy) (h : FunctionId) : (m.dropBody h).Tidy := by
  have hupdate : (m.update h Function.withoutBody).Tidy := hm.update h fun _ ↦ rfl
  exact hupdate.of_eq (slots_dropBody m h) (free_dropBody m h) (names_dropBody m h)

theorem find?_declare (hm : m.Tidy) (n : String) (params : List String) (h' : FunctionId) :
    (m.declare n params).2.find? h' =
      if h' = (m.declare n params).1 then some ⟨n, freshParams params, [], []⟩
      else m.find? h' := by
  rw [declare, find?_bind]
  exact hm.find?_allocate _ h'

theorem find?_declare_fst (hm : m.Tidy) (n : String) (params : List String) :
    m.find? (m.declare n params).1 = none := hm.find?_allocate_fst _

/-- Adding a declaration keeps a module tidy: a name that belongs to a function goes on belonging
to it. -/
theorem declare (hm : m.Tidy) (n : String) (params : List String) :
    (m.declare n params).2.Tidy := by
  have hempty : (m.declare n params).2.free.Nodup ∧ ∀ i, i ∈ (m.declare n params).2.free ↔
      ∃ s, (m.declare n params).2.slots[i]? = some s ∧ s.function? = none := by
    rw [Module.declare, free_bind, slots_bind]
    exact hm.free_allocate _
  refine ⟨hempty.1, hempty.2, fun {name h} hl ↦ ?_⟩
  rw [hm.find?_declare]
  rw [lookup?_declare] at hl
  by_cases hnew : name = n ∧ m.lookup? n = none
  · rw [if_pos hnew, Option.some.injEq] at hl
    exact ⟨_, if_pos hl.symm, hnew.1.symm⟩
  · rw [if_neg hnew] at hl
    obtain ⟨f, hf, hfn⟩ := hm.find?_of_lookup? hl
    have hne : h ≠ (m.declare n params).1 := by
      intro e
      rw [e, hm.find?_declare_fst] at hf
      cases hf
    exact ⟨f, by rw [if_neg hne, hf], hfn⟩

/-- Erasing keeps the free list exact: a slot that is emptied was not free before. -/
theorem free_erase (hm : m.Tidy) (h : FunctionId) :
    (m.erase h).free.Nodup ∧
      ∀ k, k ∈ (m.erase h).free ↔ ∃ s, (m.erase h).slots[k]? = some s ∧ s.function? = none := by
  have hd := hm.dropBody h
  rw [Module.erase]
  cases hf : (m.dropBody h).find? h with
  | none => exact ⟨hd.nodup_free, hd.mem_free_iff⟩
  | some f =>
    simp only [free_unbind, slots_unbind]
    obtain ⟨s, hs, -, hfun⟩ := find?_eq_some_iff.mp hf
    have hlt : h.index < (m.dropBody h).slots.length := (List.getElem?_eq_some_iff.mp hs).1
    have hnot : h.index ∉ (m.dropBody h).free := by
      intro hmem
      obtain ⟨s', hs', hnone⟩ := (hd.mem_free_iff _).mp hmem
      rw [hs] at hs'
      obtain rfl := Option.some.inj hs'
      rw [hfun] at hnone
      cases hnone
    refine ⟨List.nodup_cons.mpr ⟨hnot, hd.nodup_free⟩, fun k ↦ ?_⟩
    by_cases hk : h.index = k
    · subst hk
      simp [List.getElem?_set_self hlt]
    · rw [List.getElem?_set_ne hk, ← hd.mem_free_iff k, List.mem_cons]
      simp [Ne.symm hk]

theorem erase (hm : m.Tidy) (h : FunctionId) : (m.erase h).Tidy := by
  have hempty := hm.free_erase h
  refine ⟨hempty.1, hempty.2, fun {name h'} hl ↦ ?_⟩
  rw [lookup?_erase] at hl
  by_cases hgone : m.lookup? name = some h ∧ (m.find? h).map Function.name = some name
  · rw [if_pos hgone] at hl
    cases hl
  · rw [if_neg hgone] at hl
    obtain ⟨f, hf, hfn⟩ := hm.find?_of_lookup? hl
    have hne : h' ≠ h := fun e ↦ hgone (by
      subst e
      exact ⟨hl, by rw [hf, ← hfn]; rfl⟩)
    exact ⟨f, by rw [find?_erase, if_neg hne, hf], hfn⟩

end Tidy

theorem tidy_empty (name : String) : (empty name).Tidy where
  nodup_free := List.nodup_nil
  mem_free_iff := by simp [empty]
  find?_of_lookup? := by simp [empty, lookup?]

theorem consistent_empty (name : String) : (empty name).Consistent where
  toTidy := tidy_empty name
  lookup?_of_find? := by simp [empty, find?]

namespace Consistent

theorem lookup?_eq_some_iff (hm : m.Consistent) :
    m.lookup? name = some h ↔ ∃ f, m.find? h = some f ∧ f.name = name := by
  constructor
  · exact hm.find?_of_lookup?
  · rintro ⟨f, hf, rfl⟩
    exact hm.lookup?_of_find? hf

/-- Functions of one name are one function. -/
theorem eq_of_name_eq (hm : m.Consistent) {f f' : Function} (hf : m.find? h = some f)
    (hf' : m.find? h' = some f') (hname : f.name = f'.name) : h = h' := by
  have hl := hm.lookup?_of_find? hf
  rw [hname, hm.lookup?_of_find? hf'] at hl
  exact (Option.some.inj hl).symm

theorem of_eq {m' : Module} (hm : m.Consistent) (hslots : m'.slots = m.slots)
    (hfree : m'.free = m.free) (hnames : m'.names = m.names) : m'.Consistent where
  toTidy := hm.toTidy.of_eq hslots hfree hnames
  lookup?_of_find? := fun {h f} hf ↦ by
    rw [find?, hslots] at hf
    rw [lookup?, hnames]
    exact hm.lookup?_of_find? hf

theorem update (hm : m.Consistent) (h : FunctionId) {change : Function → Function}
    (hchange : ∀ f, (change f).name = f.name) : (m.update h change).Consistent where
  toTidy := hm.toTidy.update h hchange
  lookup?_of_find? := fun {h' f} hf ↦ by
    rw [find?_update] at hf
    by_cases hh : h' = h
    · rw [if_pos hh] at hf
      obtain ⟨g, hg, rfl⟩ := Option.map_eq_some_iff.mp hf
      rw [hchange]
      exact hm.lookup?_of_find? hg
    · rw [if_neg hh] at hf
      exact hm.lookup?_of_find? hf

theorem dropBody (hm : m.Consistent) (h : FunctionId) : (m.dropBody h).Consistent := by
  have hupdate : (m.update h Function.withoutBody).Consistent := hm.update h fun _ ↦ rfl
  exact hupdate.of_eq (slots_dropBody m h) (free_dropBody m h) (names_dropBody m h)

theorem declare (hm : m.Consistent) {n : String} (hn : m.lookup? n = none)
    (params : List String) : (m.declare n params).2.Consistent where
  toTidy := hm.toTidy.declare n params
  lookup?_of_find? := fun {h f} hf ↦ by
    rw [hm.find?_declare] at hf
    rw [lookup?_declare]
    by_cases hh : h = (m.declare n params).1
    · rw [if_pos hh, Option.some.injEq] at hf
      subst hf
      rw [if_pos ⟨rfl, hn⟩, hh]
    · rw [if_neg hh] at hf
      have hl := hm.lookup?_of_find? hf
      have hne : f.name ≠ n := by
        intro e
        rw [e, hn] at hl
        cases hl
      rw [if_neg fun hc ↦ hne hc.1, hl]

theorem erase (hm : m.Consistent) (h : FunctionId) : (m.erase h).Consistent where
  toTidy := hm.toTidy.erase h
  lookup?_of_find? := fun {h' f} hf ↦ by
    rw [find?_erase] at hf
    by_cases hh : h' = h
    · rw [if_pos hh] at hf
      cases hf
    · rw [if_neg hh] at hf
      have hl := hm.lookup?_of_find? hf
      rw [lookup?_erase, if_neg fun hc ↦ hh (Option.some.inj (hl.symm.trans hc.1)), hl]

end Consistent

end Module

end FloatLang.Ssa
