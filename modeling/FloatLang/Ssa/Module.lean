import FloatLang.Ssa.Naming

/-!
# The store of functions

A module keeps its functions in numbered slots. The slots of erased functions are used again, the
one erased last first. Beside the slots stands the index of names: each name belongs to the first
live function that was declared with it. The cursor is the block at whose end instructions are
inserted; it may refer to a function or a block that is gone.

Every operation takes any handle. One that no longer fits its slot reaches nothing: it is looked up
in vain and changes nothing.
-/

namespace FloatLang.Ssa

structure Slot where
  /-- How often a function in this slot has been erased, modulo the range of the counter. -/
  generation : UInt32
  /-- The function, unless the slot is free. -/
  function? : Option Function
deriving DecidableEq

/-- A set of functions under construction. -/
structure Module where
  /-- The name that the printed module bears. -/
  name : String
  /-- The places for functions. -/
  slots : List Slot
  /-- The free slots, the next one to use first. -/
  free : List Nat
  /-- The function that each name belongs to. -/
  names : List (String × FunctionId)
  /-- The block at whose end instructions are inserted. -/
  cursor : Option BlockId
deriving DecidableEq

namespace Module

def empty (name : String) : Module := ⟨name, [], [], [], none⟩

/-! ## Looking up -/

/-- The function that a handle refers to, if it still does. -/
def find? (m : Module) (h : FunctionId) : Option Function :=
  match m.slots[h.index]? with
  | some s => if s.generation = h.generation then s.function? else none
  | none => none

/-- The handle that a name belongs to. -/
def lookup? (m : Module) (name : String) : Option FunctionId := m.names.lookup name

/-- The handles of the live functions, in the order of their slots. -/
def handles (m : Module) : List FunctionId :=
  m.slots.zipIdx.filterMap fun (s, i) ↦
    if s.function?.isSome then some ⟨i, s.generation⟩ else none

/-- The number of parameters; none for a function that is gone. -/
def paramCount (m : Module) (h : FunctionId) : Nat :=
  ((m.find? h).map fun f ↦ f.params.length).getD 0

def hasBody (m : Module) (h : FunctionId) : Bool := ((m.find? h).map Function.hasBody).getD false

/-! ## Changing a function -/

/-- Applies `change` to the function that the handle refers to. -/
def update (m : Module) (h : FunctionId) (change : Function → Function) : Module :=
  { m with
    slots := m.slots.modify h.index fun s ↦
      if s.generation = h.generation then { s with function? := s.function?.map change } else s }

theorem find?_update_self (m : Module) (h : FunctionId) (change : Function → Function) :
    (m.update h change).find? h = (m.find? h).map change := by
  simp only [find?, update, List.getElem?_modify_eq]
  cases m.slots[h.index]? with
  | none => rfl
  | some s => by_cases hg : s.generation = h.generation <;> simp [hg]

theorem find?_update_of_ne (m : Module) {h h' : FunctionId} (hne : h' ≠ h)
    (change : Function → Function) : (m.update h change).find? h' = m.find? h' := by
  by_cases hi : h.index = h'.index
  · have hg : h.generation ≠ h'.generation := fun hg ↦ hne (by cases h; cases h'; simp_all)
    simp only [find?, update, hi, List.getElem?_modify_eq]
    cases m.slots[h'.index]? with
    | none => rfl
    | some s =>
      by_cases hs : s.generation = h.generation
      · simp [hs, hg]
      · simp [hs]
  · simp [find?, update, List.getElem?_modify_ne _ _ hi]

@[simp] theorem lookup?_update (m : Module) (h : FunctionId) (change : Function → Function)
    (name : String) : (m.update h change).lookup? name = m.lookup? name := rfl

@[simp] theorem free_update (m : Module) (h : FunctionId) (change : Function → Function) :
    (m.update h change).free = m.free := rfl

@[simp] theorem cursor_update (m : Module) (h : FunctionId) (change : Function → Function) :
    (m.update h change).cursor = m.cursor := rfl

def nameParam (m : Module) (h : FunctionId) (i : Nat) (base : String) : Module :=
  m.update h fun f ↦ f.nameParam i base

/-- Appends an empty block. The handle of a block of a function that is gone is of no use. -/
def appendBlock (m : Module) (h : FunctionId) (label : String) : BlockId × Module :=
  (⟨h, ((m.find? h).map fun f ↦ f.blocks.length).getD 0⟩,
    m.update h fun f ↦ { f with blocks := f.blocks ++ [⟨label, []⟩] })

def positionAtEnd (m : Module) (b : BlockId) : Module := { m with cursor := some b }

/-- Takes the blocks and temporaries from a function and the cursor out of it. -/
def dropBody (m : Module) (h : FunctionId) : Module :=
  let m := m.update h fun f ↦ { f with blocks := [], temps := [] }
  if m.cursor.map BlockId.function = some h then { m with cursor := none } else m

/-! ## Functions coming and going -/

/-- Puts a function into the next free slot, or into a new one. -/
def allocate (m : Module) (f : Function) : FunctionId × Module :=
  match m.free with
  | i :: free =>
    let generation := (m.slots[i]?.map Slot.generation).getD 0
    (⟨i, generation⟩, { m with slots := m.slots.set i ⟨generation, some f⟩, free })
  | [] => (⟨m.slots.length, 0⟩, { m with slots := m.slots ++ [⟨0, some f⟩] })

/-- Lets a name belong to a function, unless it belongs to one already. -/
def bind (m : Module) (name : String) (h : FunctionId) : Module :=
  if (m.lookup? name).isSome then m else { m with names := (name, h) :: m.names }

/-- Takes a name from a function, if it belongs to that one. -/
def unbind (m : Module) (name : String) (h : FunctionId) : Module :=
  if m.lookup? name = some h then { m with names := m.names.filter fun n ↦ n.1 != name } else m

/-- Adds a declaration. Parameters of the same name are told apart. -/
def declare (m : Module) (name : String) (params : List String) : FunctionId × Module :=
  let (h, m) := m.allocate ⟨name, freshParams params, [], []⟩
  (h, m.bind name h)

/-- Removes a function, its name and, if it stands there, the cursor. Its slot becomes the next
one to use. -/
def erase (m : Module) (h : FunctionId) : Module :=
  let m := m.dropBody h
  match m.find? h with
  | none => m
  | some f =>
    let m := { m with
      slots := m.slots.set h.index ⟨h.generation + 1, none⟩
      free := h.index :: m.free }
    m.unbind f.name h

end Module

end FloatLang.Ssa
