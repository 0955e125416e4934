import FloatLang.Error
import FloatLang.Session.Console
import FloatLang.Ssa.Print

/-!
# Sessions

A session reads statements, lowers each as soon as it is read, and answers with the text of what it
lowered and the value of a top-level expression. A statement that is rejected is reported, and the
session goes on; only a fatal error ends it.

A top-level expression is lowered as the function without a name and erased after it has been
answered, so that the next one finds the name free. If the answer already breaks off in the text
of the function, it is not erased.
-/

namespace FloatLang

open Ssa

structure Session where
  /-- What has been lowered. -/
  lowering : Lowering
  /-- Whether top-level expressions are run. -/
  evaluates : Bool
  /-- What has been told. -/
  console : Console

namespace Session

def start (moduleName : String) (evaluates : Bool) : Session :=
  ⟨.empty moduleName, evaluates, .fresh⟩

/-- The session with a fresh console that has this room. -/
def withRoom (s : Session) (room : Option Nat) : Session := { s with console := .withRoom room }

/-- A step of a session: it may end the session, and what it did before that stays done. -/
abbrev Action := EStateM Error Session

/-! ## Telling -/

def note (n : Note) : Action Unit :=
  modify fun s ↦ { s with console := { s.console with notes := s.console.notes.push n } }

def log (level : LogLevel) (message : String) (fields : List (String × String)) : Action Unit :=
  note (.log level message fields)

def write (text : String) : Action Unit := do
  let s ← get
  let (complete, out) := s.console.out.write text.toUTF8
  set { s with console := { s.console with out } }
  if complete then pure () else throw (.stream "sink full")

def report (e : Error) : Action Unit := do
  log .debug "statement rejected" [("error", e.message)]
  write ("Error: " ++ e.message ++ "\n")

/-- The text that there is if every operand exists. -/
def printed (text? : Option String) : Action String :=
  match text? with
  | some text => return text
  | none => throw .unprintable

/-- Writes a heading and the text of a function. -/
def present (heading : String) (h : FunctionId) : Action Unit := do
  write (heading ++ "\n")
  write (← printed ((← get).lowering.program.functionText? h))

/-! ## Statements -/

/-- The parameters that repeat an earlier one, in order. -/
def repeated (params : List String) : List String :=
  (params.zipIdx.filter fun (p, i) ↦ p ∈ params.take i).map Prod.fst

/-- Lowers a definition. A parameter that repeats an earlier one is warned of, once the definition
is not refused. -/
def lower (d : Definition) : Action (Except LoweringError FunctionId) := do
  let s ← get
  if (Lowering.refusal? s.lowering.program d.proto).isNone then
    (repeated d.proto.params).forM fun p ↦
      log .warning "duplicate parameter, last one wins" [("function", d.proto.name), ("param", p)]
  let (result, lowering) := s.lowering.define d
  modify fun s ↦ { s with lowering }
  if result.toBool then log .debug "lowered function" [("name", d.proto.name)]
  return result

def performDefinition (d : Definition) : Action Unit := do
  log .debug "parsed a function definition" [("name", d.proto.name)]
  match ← lower d with
  | .ok h => present "Read function definition:" h
  | .error e => report (.lowering e)

def performDeclaration (proto : Prototype) : Action Unit := do
  log .debug "parsed an extern" [("name", proto.name)]
  let s ← get
  if (s.lowering.program.lookup? proto.name).isSome then
    log .debug "reusing existing declaration" [("name", proto.name)]
  let (h, lowering) := s.lowering.declare proto
  modify fun s ↦ { s with lowering }
  present "Read extern:" h

/-- Passes on what a run has printed. -/
def relay (texts : Array String) : Action Unit := texts.forM fun text ↦ note (.text text)

/-- Runs the function of a top-level expression and answers its value. -/
def evaluate (h : FunctionId) : Action Unit := do
  let s ← get
  match (s.lowering.program.run h []).run #[] with
  | .ok value texts => do
    relay texts
    write ("Evaluated to " ++ value.display ++ "\n")
  | .error e texts => do
    relay texts
    report (.evaluation e)

def erase (h : FunctionId) : Action Unit :=
  modify fun s ↦
    { s with lowering := { s.lowering with program := s.lowering.program.erase h } }

/-- Does `action` and then `after`, also when `action` fails. -/
def ensuring (action after : Action Unit) : Action Unit := fun s ↦
  match action.run s with
  | .ok _ s => after.run s
  | .error e s =>
    match after.run s with
    | .ok _ s => .error e s
    | .error _ s => .error e s

def performExpression (body : Expr) : Action Unit := do
  log .debug "parsed a top-level expression" []
  match ← lower (.ofExpr body) with
  | .error e => report (.lowering e)
  | .ok h => do
    present "Read top-level expression:" h
    if (← get).evaluates then ensuring (evaluate h) (erase h) else erase h

def perform : Statement → Action Unit
  | .definition d => performDefinition d
  | .declaration p => performDeclaration p
  | .expression e => performExpression e

/-! ## Lines -/

/-- Whether a token only separates statements: a semicolon, or white space of another kind than the
plain space, which is never a token. -/
def isSeparator : Token → Bool
  | .symbol c => c == ';' || Text.isBlank c
  | _ => false

/-- Answers the statements that the tokens form. After one that cannot be read it goes on behind
the token that was not expected. -/
def statements (fault : Option LexError) (ts : List Token) : Action Unit :=
  match ts with
  | [] => return
  | t :: rest =>
    if isSeparator t then
      match TokenStream.blocking? fault rest with
      | some e => throw (.lex e)
      | none => statements fault rest
    else
      match readStatement fault (t :: rest) with
      | .read statement after _fewer => do
        perform statement
        statements fault after
      | .failed (.lex e) _ _ => throw (.lex e)
      | .failed (.expected what) after noMore => do
        report (.reading (.expected what))
        match after, noMore with
        | [], _ => return
        | _ :: after, _noMore =>
          match TokenStream.blocking? fault after with
          | some e => throw (.lex e)
          | none => statements fault after
termination_by ts.length
decreasing_by all_goals (simp only [List.length_cons] at *; omega)

/-- Answers the statements in a text. -/
def handle (text : String) : Action Unit := do
  match TokenStream.ofString? text with
  | .error e => throw (.lex e)
  | .ok s => statements s.fault s.tokens

/-- Writes the text of the whole module. -/
def dump : Action Unit := do
  write (← printed (← get).lowering.program.text?)

end Session

end FloatLang
