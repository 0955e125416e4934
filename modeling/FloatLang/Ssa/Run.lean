import FloatLang.Diagnostic
import FloatLang.Ssa.Builtin
import FloatLang.Ssa.Module

/-!
# Running a function

A call enters the first block of the function and carries out its instructions up to the first
return. Truth values count as one and zero, and a temporary that no instruction has set yet as
zero. A function without blocks is one of the machine.

Calls nest to a limited depth, and the recursion is on what is left of it. What has been printed
stays printed when the run fails.
-/

namespace FloatLang.Ssa

inductive EvalError
  | tooDeep
  | erasedFunction
  | wrongArity (name : String) (expected got : Nat)
  | unresolved (name : String)
  | noReturn (name : String)
  /-- An operand is a parameter or temporary that the function does not have. -/
  | danglingOperand
deriving DecidableEq

/-- The greatest number of calls that may nest below the first one. -/
def maxDepth : Nat := 256

def EvalError.diagnostic : EvalError → Diagnostic
  | tooDeep => ⟨.evaluation, "call depth exceeded " ++ toString maxDepth ++ " frames", []⟩
  | erasedFunction => ⟨.evaluation, "call to an erased function", []⟩
  | wrongArity name expected got =>
    ⟨.evaluation,
      "'" ++ name ++ "' expects " ++ toString expected ++ " arguments, got " ++ toString got, []⟩
  | unresolved name => ⟨.evaluation, "unresolved external function '" ++ name ++ "'", []⟩
  | noReturn name => ⟨.evaluation, "'" ++ name ++ "' does not return", []⟩
  | danglingOperand => ⟨.internal, "an operand does not exist", []⟩

/-- A run: it prints, and it has a value or fails. -/
abbrev Eval := EStateM EvalError (Array String)

/-- The numbers that a function works on. -/
structure Frame where
  /-- The arguments. -/
  args : List Double
  /-- The temporaries. -/
  temps : List Double

namespace Frame

def enter (f : Function) (args : List Double) : Frame :=
  ⟨args, List.replicate f.temps.length .zero⟩

/-- The number that an operand stands for, if it exists. -/
def read? (frame : Frame) : Value → Option Double
  | .const d => some d
  | .bool b => some (.ofBool b)
  | .param i => frame.args[i]?
  | .temp i => frame.temps[i]?

/-- The number that an operand stands for. -/
def read (frame : Frame) (v : Value) : Eval Double :=
  match frame.read? v with
  | some d => return d
  | none => throw .danglingOperand

/-- Sets the temporary of an instruction. -/
def store (frame : Frame) (result : Option Nat) (d : Double) : Frame :=
  match result with
  | some t => { frame with temps := frame.temps.set t d }
  | none => frame

end Frame

/-- What a function of the machine prints and answers. -/
def Builtin.perform (b : Builtin) : Eval Double := do
  match b.printed with
  | some text => modify (·.push text)
  | none => pure ()
  return b.value

/-- Carries out instructions up to the first return, of which it answers the value. Calls are made
by `call`. -/
def runInstructions (call : FunctionId → List Double → Eval Double) :
    List Instruction → Frame → Eval (Option Double)
  | [], _ => return none
  | i :: rest, frame => do
    match i.operation with
    | .ret v => return some (← frame.read v)
    | .binary op lhs rhs =>
      let l ← frame.read lhs
      let r ← frame.read rhs
      runInstructions call rest (frame.store i.result (op.apply l r))
    | .widen v =>
      let d ← frame.read v
      runInstructions call rest (frame.store i.result d)
    | .call callee args =>
      let args ← args.mapM frame.read
      let d ← call callee args
      runInstructions call rest (frame.store i.result d)

namespace Module

/-- Calls a function while `frames` more frames may be entered. -/
def call (m : Module) : (frames : Nat) → FunctionId → List Double → Eval Double
  | 0, _, _ => throw .tooDeep
  | frames + 1, h, args =>
    match m.find? h with
    | none => throw .erasedFunction
    | some f =>
      if f.params.length ≠ args.length then
        throw (.wrongArity f.name f.params.length args.length)
      else
        match f.blocks with
        | [] =>
          match Builtin.resolve? f.name args with
          | some b => b.perform
          | none => throw (.unresolved f.name)
        | entry :: _ => do
          match ← runInstructions (m.call frames) entry.instructions (.enter f args) with
          | some d => return d
          | none => throw (.noReturn f.name)

def run (m : Module) (h : FunctionId) (args : List Double) : Eval Double :=
  m.call (maxDepth + 1) h args

end Module

end FloatLang.Ssa
