import FloatLang.Expr.Basic
import FloatLang.Ssa.Build

/-!
# Lowering functions

Lowering turns a definition into instructions. The scope maps the parameters of the definition
being lowered to their operands, the last one winning when a name occurs twice; it is made anew for
every definition and stays as it is afterwards.

A definition is refused before anything changes if its name has a body already, or is declared with
another number of parameters. A body that cannot be lowered is taken back: a function that the
definition had declared itself is erased, one that was declared before becomes a declaration again.
-/

namespace FloatLang

open Ssa

/-! ## What can go wrong -/

inductive LoweringError
  | unknownVariable (name : String)
  | invalidOperator (op : Char)
  | unknownFunction (name : String)
  | wrongArity (callee : String) (expected got : Nat)
  | redefinition (name : String)
  | otherArity (name : String)
  | build (e : BuildError)
deriving DecidableEq

def LoweringError.diagnostic : LoweringError → Diagnostic
  | unknownVariable name => ⟨.lowering, "unknown variable name '" ++ name ++ "'", []⟩
  | invalidOperator op => ⟨.lowering, "invalid binary operator '" ++ op.toString ++ "'", []⟩
  | unknownFunction name => ⟨.lowering, "unknown function referenced '" ++ name ++ "'", []⟩
  | wrongArity callee expected got =>
    ⟨.lowering,
      "incorrect number of arguments passed to '" ++ callee ++ "': expected " ++
        toString expected ++ ", got " ++ toString got, []⟩
  | redefinition name => ⟨.lowering, "function cannot be redefined: '" ++ name ++ "'", []⟩
  | otherArity name =>
    ⟨.lowering, "redefinition of '" ++ name ++ "' with different number of arguments", []⟩
  | build e => e.diagnostic

/-! ## Expressions -/

/-- The operands that names stand for, the latest binding first. -/
abbrev Scope := List (String × Value)

/-- The scope of a parameter list, in which the last of equal names wins. -/
def Scope.ofParams (params : List String) : Scope :=
  (params.zipIdx.map fun (name, i) ↦ (name, Value.param i)).reverse

/-- Lowering inside a function: it changes the module and can fail. -/
abbrev Lower := EStateM LoweringError Module

/-- Inserts instructions as a part of lowering. -/
def emit {α : Type} (build : Build α) : Lower α := EStateM.adaptExcept .build build

/-- Lowers a binary operation on operands. A comparison is widened to a number at once. -/
def lowerBinary (op : Char) (l r : Value) : Lower Value :=
  if op = '+' then emit (buildBinary .add l r "addtmp")
  else if op = '-' then emit (buildBinary .sub l r "subtmp")
  else if op = '*' then emit (buildBinary .mul l r "multmp")
  else if op = '<' then do
    let truth ← emit (buildBinary .less l r "cmptmp")
    emit (buildWiden truth "booltmp")
  else throw (.invalidOperator op)

/-- The handle of the function `callee`, if it takes `count` arguments. -/
def resolveCallee (callee : String) (count : Nat) : Lower FunctionId := do
  let m ← get
  match m.lookup? callee with
  | none => throw (.unknownFunction callee)
  | some h =>
    if m.paramCount h = count then return h
    else throw (.wrongArity callee (m.paramCount h) count)

mutual

/-- Lowers an expression to the operand that holds its value. Operands and arguments are lowered
from left to right, a callee is looked up before its arguments are. -/
def lowerExpr (scope : Scope) : Expr → Lower Value
  | .number d => return .const d
  | .name x =>
    match scope.lookup x with
    | some v => return v
    | none => throw (.unknownVariable x)
  | .binary op lhs rhs => do
    let l ← lowerExpr scope lhs
    let r ← lowerExpr scope rhs
    lowerBinary op l r
  | .call callee args => do
    let h ← resolveCallee callee args.length
    let values ← lowerArgs scope args
    emit (buildCall h values "calltmp")

def lowerArgs (scope : Scope) : List Expr → Lower (List Value)
  | [] => return []
  | arg :: args => do
    let v ← lowerExpr scope arg
    let vs ← lowerArgs scope args
    return v :: vs

end

/-- Lowers the expression of a function and returns its value. -/
def lowerBody (scope : Scope) (body : Expr) : Lower Unit := do
  let v ← lowerExpr scope body
  emit (buildRet v)

/-! ## Functions -/

/-- A module under construction and the scope that the last definition left. -/
structure Lowering where
  /-- The functions lowered so far. -/
  program : Module
  /-- What names stand for. -/
  scope : Scope

namespace Lowering

def empty (name : String) : Lowering := ⟨.empty name, []⟩

/-- Why a definition with this prototype is refused, if it is. -/
def refusal? (m : Module) (proto : Prototype) : Option LoweringError :=
  match m.lookup? proto.name with
  | none => none
  | some h =>
    if m.hasBody h then some (.redefinition proto.name)
    else if m.paramCount h ≠ proto.params.length then some (.otherArity proto.name)
    else none

/-- Looks a prototype up by its name, and declares it if there is none. -/
def declare (l : Lowering) (proto : Prototype) : FunctionId × Lowering :=
  match l.program.lookup? proto.name with
  | some h => (h, l)
  | none =>
    let (h, m) := l.program.declare proto.name proto.params
    (h, { l with program := m })

/-- Gives the parameters of a function the names in the list, from left to right. -/
def nameParams (m : Module) (h : FunctionId) (params : List String) : Module :=
  params.zipIdx.foldl (fun m (name, i) ↦ m.nameParam h i name) m

/-- The module with the cursor in a new block of `h`, the parameters named as in the list. -/
def enterBody (m : Module) (h : FunctionId) (params : List String) : Module :=
  let (block, m) := m.appendBlock h "entry"
  (nameParams m h params).positionAtEnd block

/-- Takes a body back that could not be lowered. -/
def takeBack (m : Module) (h : FunctionId) (wasDeclared : Bool) : Module :=
  if wasDeclared then m.dropBody h else m.erase h

def define (l : Lowering) (d : Definition) : Except LoweringError FunctionId × Lowering :=
  match refusal? l.program d.proto with
  | some e => (.error e, l)
  | none =>
    let wasDeclared := (l.program.lookup? d.proto.name).isSome
    let (h, l) := l.declare d.proto
    let scope := Scope.ofParams d.proto.params
    match (lowerBody scope d.body).run (enterBody l.program h d.proto.params) with
    | .ok _ m => (.ok h, ⟨m, scope⟩)
    | .error e m => (.error e, ⟨takeBack m h wasDeclared, scope⟩)

/-- Lowers a statement: a top-level expression as a function without a name. -/
def statement (l : Lowering) : Statement → Except LoweringError FunctionId × Lowering
  | .definition d => l.define d
  | .declaration p =>
    let (h, l) := l.declare p
    (.ok h, l)
  | .expression body => l.define (.ofExpr body)

/-- Lowers an expression at the cursor, with the scope as it is. -/
def expr (l : Lowering) (e : Expr) : Except LoweringError Value × Lowering :=
  match (lowerExpr l.scope e).run l.program with
  | .ok v m => (.ok v, { l with program := m })
  | .error err m => (.error err, { l with program := m })

end Lowering

end FloatLang
