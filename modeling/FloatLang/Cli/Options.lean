import FloatLang.Text.ControlSequence

/-!
# Command-line arguments

The arguments are read from left to right. A value that stands in an argument of its own, the one
after `--backend` or the name of the source file, is *pending* at first: it is checked when the next
option or positional argument is accepted, or at the end. An option that does not exist is refused
at once, so it is told of before a faulty value that is still pending; and a request for help is
answered only if nothing before it was faulty.

After `--` every argument is positional. A single `-` always is.
-/

namespace FloatLang.Cli

/-! ## What can be asked for -/

/-- The kinds of code that the options offer. -/
inductive Backend
  | text
  | llvm
deriving DecidableEq

def Backend.ofName? (name : String) : Option Backend :=
  if name = "text" then some text else if name = "llvm" then some llvm else none

structure Options where
  /-- The source file; without one the standard input is read. -/
  file : Option String
  /-- The kind of code. -/
  backend : Backend
  /-- Whether top-level expressions are run. -/
  evaluates : Bool
  /-- Whether the module is printed at the end. -/
  dumps : Bool
  /-- Whether the log lines for debugging are shown. -/
  verbose : Bool
deriving DecidableEq

inductive OptionName
  | backend
  | noEval
  | dumpModule
  | verbose
  | help
  | version
deriving DecidableEq

namespace OptionName

/-- The option with this long name. Names are never abbreviated. -/
def ofLong? (name : String) : Option OptionName :=
  if name = "backend" then some backend
  else if name = "no-eval" then some noEval
  else if name = "dump-module" then some dumpModule
  else if name = "verbose" then some verbose
  else if name = "help" then some help
  else if name = "version" then some version
  else none

def ofShort? (c : Char) : Option OptionName :=
  if c = 'v' then some verbose
  else if c = 'h' then some help
  else if c = 'V' then some version
  else none

def text : OptionName → String
  | backend => "--backend <BACKEND>"
  | noEval => "--no-eval"
  | dumpModule => "--dump-module"
  | verbose => "--verbose"
  | help => "--help"
  | version => "--version"

end OptionName

/-- How the source file is shown. -/
def fileText : String := "[FILE]"

inductive UsageError
  | unexpectedArgument (arg : String)
  | unexpectedValue (value argument : String)
  | missingValue (argument : String)
  | invalidValue (value argument : String)
  | repeated (argument : String)
deriving DecidableEq

/-- What is told about wrong arguments. Text from the arguments is quoted without the control
sequences in it. -/
def UsageError.message : UsageError → String
  | unexpectedArgument arg => "unexpected argument '" ++ Text.withoutSequences arg ++ "' found"
  | unexpectedValue value argument =>
    "unexpected value '" ++ Text.withoutSequences value ++ "' for '" ++ argument ++
      "' found; no more were expected"
  | missingValue argument => "a value is required for '" ++ argument ++ "' but none was supplied"
  | invalidValue value argument =>
    "invalid value '" ++ Text.withoutSequences value ++ "' for '" ++ argument ++ "'"
  | repeated argument => "the argument '" ++ argument ++ "' cannot be used multiple times"

/-- What the arguments ask for. -/
inductive Request
  | run (options : Options)
  | help (long : Bool)
  | version
  | refused (e : UsageError)
deriving DecidableEq

/-! ## Reading the arguments -/

/-- A value that has not been checked yet. -/
inductive Pending
  /-- The option has been given; its value may still come. -/
  | backend (value : Option String)
  | file (value : String)
deriving DecidableEq

/-- What has been read so far. -/
structure Draft where
  /-- The backend, if one was given. -/
  backend : Option Backend
  /-- The source file, if one was given. -/
  file : Option String
  /-- The options without a value that were given. -/
  flags : List OptionName
  /-- The value that has not been checked yet. -/
  pending : Option Pending
deriving DecidableEq

namespace Draft

def empty : Draft := ⟨none, none, [], none⟩

/-- Reading goes on with a draft, or the request is known. -/
abbrev Step := Except Request Draft

/-- The request is refused. -/
def refuse (e : UsageError) : Step := .error (.refused e)

def takeBackend (d : Draft) (value : Option String) : Step :=
  match value with
  | none => refuse (.missingValue OptionName.backend.text)
  | some name =>
    if d.backend.isSome then refuse (.repeated OptionName.backend.text)
    else if name.isEmpty then refuse (.missingValue OptionName.backend.text)
    else
      match Backend.ofName? name with
      | some b => .ok { d with backend := some b }
      | none => refuse (.invalidValue name OptionName.backend.text)

/-- Checks the value that is pending. -/
def settle (d : Draft) : Step :=
  match d.pending with
  | none => .ok d
  | some (.backend value) => { d with pending := none }.takeBackend value
  | some (.file name) =>
    if name.isEmpty then refuse (.missingValue fileText)
    else .ok { d with pending := none, file := some name }

/-- Accepts an option without a value; it was asked for by its long name or by its short one. -/
def acceptFlag (d : Draft) (o : OptionName) (long : Bool) : Step := do
  let d ← d.settle
  match o with
  | .help => throw (.help long)
  | .version => throw .version
  | o =>
    if o ∈ d.flags then refuse (.repeated o.text) else return { d with flags := o :: d.flags }

/-- Reads a long option, `name` or `name=value`, without the leading hyphens. -/
def readLong (d : Draft) (cs : List Char) : Step :=
  let name := String.ofList (cs.takeWhile (· != '='))
  let value :=
    match cs.dropWhile (· != '=') with
    | [] => none
    | _ :: value => some (String.ofList value)
  match OptionName.ofLong? name, value with
  | none, _ => refuse (.unexpectedArgument ("--" ++ name))
  | some .backend, some value => do (← d.settle).takeBackend (some value)
  | some .backend, none => do return { ← d.settle with pending := some (.backend none) }
  | some o, some value => refuse (.unexpectedValue value o.text)
  | some o, none => d.acceptFlag o true

/-- Reads short options, given together without the leading hyphen. -/
def readShort (d : Draft) : List Char → Step
  | [] => .ok d
  | c :: cs => do
    match OptionName.ofShort? c with
    | none => refuse (.unexpectedArgument (String.ofList ['-', c]))
    | some o => (← d.acceptFlag o false).readShort cs

def hasFile (d : Draft) : Bool :=
  d.file.isSome || match d.pending with
    | some (.file _) => true
    | _ => false

def readPositional (d : Draft) (arg : String) : Step :=
  if d.hasFile then refuse (.unexpectedArgument arg)
  else do return { ← d.settle with pending := some (.file arg) }

/-- Reads an argument before `--`, when it is no option: the value of an option that waits for one,
or a positional argument. -/
def readPlain (d : Draft) (arg : String) : Step :=
  match d.pending with
  | some (.backend none) => .ok { d with pending := some (.backend (some arg)) }
  | _ => d.readPositional arg

/-- Reads the arguments; `onlyPositional` once `--` has been passed. -/
def readAll (onlyPositional : Bool) (d : Draft) : List String → Step
  | [] => d.settle
  | arg :: args => do
    if onlyPositional then (← d.readPositional arg).readAll true args
    else
      match arg.toList with
      | ['-', '-'] => d.readAll true args
      | '-' :: '-' :: cs => (← d.readLong cs).readAll false args
      | '-' :: c :: cs => (← d.readShort (c :: cs)).readAll false args
      | _ => (← d.readPlain arg).readAll false args

def options (d : Draft) : Options where
  file := d.file
  backend := d.backend.getD .text
  evaluates := .noEval ∉ d.flags
  dumps := .dumpModule ∈ d.flags
  verbose := .verbose ∈ d.flags

end Draft

def Request.ofArgs (args : List String) : Request :=
  match Draft.empty.readAll false args with
  | .ok d => .run d.options
  | .error request => request

end FloatLang.Cli
