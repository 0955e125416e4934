import FloatLang.Double.Constant
import FloatLang.Ssa.Module

/-!
# The text of a module

A declaration is one line; a definition lists its blocks between braces, one instruction a line.
Local names start with `%`, function names with `@`. The function without a name is written
`@""`, and a call of a function that is gone names `@<erased>`.

A text exists only if every operand does: an index without a parameter or temporary has no name.
-/

namespace FloatLang.Ssa

def BinaryOp.text : BinaryOp → String
  | add => "fadd"
  | sub => "fsub"
  | mul => "fmul"
  | less => "fcmp ult"

namespace Function

/-- The name as a callee. -/
def globalName (f : Function) : String := if f.name.isEmpty then "@\"\"" else "@" ++ f.name

/-- The text of an operand, if the function has such an operand. -/
def operandText? (f : Function) : Value → Option String
  | .const d => some (String.ofList d.constantText)
  | .bool b => some (if b then "true" else "false")
  | .param i => f.params[i]?.map ("%" ++ ·)
  | .temp i => f.temps[i]?.map ("%" ++ ·)

/-- The parameters between the parentheses of the header. -/
def paramsText (f : Function) : String :=
  String.intercalate ", " (f.params.map ("double %" ++ ·))

end Function

namespace Module

def calleeText (m : Module) (h : FunctionId) : String :=
  ((m.find? h).map Function.globalName).getD "@<erased>"

/-- The text of an operation in the function `f`. -/
def operationText? (m : Module) (f : Function) : Operation → Option String
  | .binary op lhs rhs => do
    let l ← f.operandText? lhs
    let r ← f.operandText? rhs
    return op.text ++ " double " ++ l ++ ", " ++ r
  | .widen v => do
    let v ← f.operandText? v
    return "uitofp i1 " ++ v ++ " to double"
  | .call callee args => do
    let args ← args.mapM f.operandText?
    return "call double " ++ m.calleeText callee ++ "(" ++
      String.intercalate ", " (args.map ("double " ++ ·)) ++ ")"
  | .ret v => do
    let v ← f.operandText? v
    return "ret double " ++ v

def instructionText? (m : Module) (f : Function) (i : Instruction) : Option String := do
  let body ← m.operationText? f i.operation
  match i.result with
  | some t =>
    let name ← f.temps[t]?
    return "  %" ++ name ++ " = " ++ body ++ "\n"
  | none => return "  " ++ body ++ "\n"

def blockText? (m : Module) (f : Function) (b : Block) : Option String := do
  let lines ← b.instructions.mapM (m.instructionText? f)
  return b.label ++ ":\n" ++ String.join lines

/-- The text of a function that the module holds. -/
def definitionText? (m : Module) (f : Function) : Option String :=
  if f.hasBody then do
    let blocks ← f.blocks.mapM (m.blockText? f)
    return "define double " ++ f.globalName ++ "(" ++ f.paramsText ++ ") \x7b\n" ++
      String.join blocks ++ "\x7d\n"
  else return "declare double " ++ f.globalName ++ "(" ++ f.paramsText ++ ")\n"

/-- The text of the function that a handle refers to, empty if it refers to none. -/
def functionText? (m : Module) (h : FunctionId) : Option String :=
  match m.find? h with
  | some f => m.definitionText? f
  | none => some ""

/-- The text of the module: its name and its functions in the order of their slots. -/
def text? (m : Module) : Option String := do
  let functions ← m.handles.mapM m.functionText?
  return "; ModuleID = '" ++ m.name ++ "'\n" ++ String.join (functions.map ("\n" ++ ·))

end Module

end FloatLang.Ssa
