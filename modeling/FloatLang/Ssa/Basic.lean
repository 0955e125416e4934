import FloatLang.Double.Basic

/-!
# Functions in single-assignment form

A function is a list of blocks over doubles. Its values are constants, truth values, parameters
and temporaries; a temporary is the result of one instruction, and the function keeps the name of
each. Operands refer to parameters and temporaries by index, and to other functions by handle.

A handle is the index of a slot and a generation. A slot takes a new generation when the function
in it is erased, so that the handles given out before no longer fit it.
-/

namespace FloatLang.Ssa

structure FunctionId where
  /-- The slot of the function. -/
  index : Nat
  /-- The generation of the slot when the handle was given out. -/
  generation : UInt32
deriving DecidableEq

structure BlockId where
  /-- The function that the block was appended to. -/
  function : FunctionId
  /-- The position of the block in that function. -/
  index : Nat
deriving DecidableEq

inductive Value
  | const (value : Double)
  | bool (value : Bool)
  | param (index : Nat)
  | temp (index : Nat)
deriving DecidableEq

/-- An operation on two operands. The comparison is the unordered less-than, and its result is a
truth value. -/
inductive BinaryOp
  | add
  | sub
  | mul
  | less
deriving DecidableEq

inductive Operation
  | binary (op : BinaryOp) (lhs rhs : Value)
  | widen (value : Value)
  | call (callee : FunctionId) (args : List Value)
  | ret (value : Value)
deriving DecidableEq

/-- An operation and the temporary it defines, if any. -/
structure Instruction where
  /-- The temporary that holds the result. -/
  result : Option Nat
  /-- What is done. -/
  operation : Operation
deriving DecidableEq

/-- A labelled list of instructions. -/
structure Block where
  /-- The name of the block. -/
  label : String
  /-- The instructions, in order. -/
  instructions : List Instruction
deriving DecidableEq

/-- A function. Without blocks it is a declaration. -/
structure Function where
  /-- The name, empty for a top-level expression. -/
  name : String
  /-- The names of the parameters. -/
  params : List String
  /-- The blocks, of which the first is the one entered. -/
  blocks : List Block
  /-- The names of the temporaries. -/
  temps : List String
deriving DecidableEq

/-- Whether the function is more than a declaration. -/
def Function.hasBody (f : Function) : Bool := !f.blocks.isEmpty

/-! ## Operations on constants -/

/-- The result of an operation on two numbers, a truth value being one or zero. -/
def BinaryOp.apply (op : BinaryOp) (l r : Double) : Double :=
  match op with
  | add => l.add r
  | sub => l.sub r
  | mul => l.mul r
  | less => .ofBool (l.less r)

/-- The operand that an operation on two constants is replaced by. -/
def BinaryOp.fold (op : BinaryOp) (l r : Double) : Value :=
  match op with
  | less => .bool (l.less r)
  | op => .const (op.apply l r)

end FloatLang.Ssa
