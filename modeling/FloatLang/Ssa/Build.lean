import FloatLang.Diagnostic
import FloatLang.Ssa.Module

/-!
# Inserting instructions

Instructions go to the end of the block at the cursor. Operations on constants are carried out at
once and insert nothing, so they do not even need a cursor; an operation on a truth value other
than widening it is not carried out.
-/

namespace FloatLang.Ssa

inductive BuildError
  /-- There is no cursor, or its function is gone. -/
  | noInsertionPoint
  /-- The function at the cursor has no such block any more. -/
  | missingBlock
deriving DecidableEq

def BuildError.diagnostic : BuildError → Diagnostic
  | noInsertionPoint => ⟨.lowering, "no insertion point", []⟩
  | missingBlock => ⟨.internal, "the block at the cursor does not exist", []⟩

/-- A change of a module that can fail. What was done before a failure stays done. -/
abbrev Build := EStateM BuildError Module

namespace Function

def addInstruction (f : Function) (block : Nat) (i : Instruction) : Function :=
  { f with
    blocks := f.blocks.modify block fun b ↦ { b with instructions := b.instructions ++ [i] } }

/-- Appends an operation to a block. Its result, if it is given a name, is a new temporary. -/
def addOperation (f : Function) (block : Nat) (op : Operation) (base : Option String) : Function :=
  match base with
  | some base => (f.addTemp base).addInstruction block ⟨some f.temps.length, op⟩
  | none => f.addInstruction block ⟨none, op⟩

end Function

/-- Inserts an operation and answers the number of the temporaries that its function had. -/
def insert (op : Operation) (base : Option String) : Build Nat := do
  let m ← get
  match m.cursor with
  | none => throw .noInsertionPoint
  | some c =>
    match m.find? c.function with
    | none => throw .noInsertionPoint
    | some f =>
      if c.index < f.blocks.length then
        set (m.update c.function fun f ↦ f.addOperation c.index op base)
        return f.temps.length
      else throw .missingBlock

/-- Inserts an operation whose result is a temporary with a name made from `base`. -/
def insertValue (op : Operation) (base : String) : Build Value := do
  return .temp (← insert op (some base))

def buildBinary (op : BinaryOp) (lhs rhs : Value) (base : String) : Build Value :=
  match lhs, rhs with
  | .const l, .const r => return op.fold l r
  | lhs, rhs => insertValue (.binary op lhs rhs) base

/-- A truth value as a number. -/
def buildWiden (value : Value) (base : String) : Build Value :=
  match value with
  | .bool b => return .const (.ofBool b)
  | value => insertValue (.widen value) base

def buildCall (callee : FunctionId) (args : List Value) (base : String) : Build Value :=
  insertValue (.call callee args) base

def buildRet (value : Value) : Build Unit := do
  let _ ← insert (.ret value) none

end FloatLang.Ssa
