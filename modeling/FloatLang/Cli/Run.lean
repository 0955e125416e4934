import FloatLang.Cli.FileTree
import FloatLang.Cli.Help
import FloatLang.Cli.Options
import FloatLang.Session.Loop

/-!
# Runs of the program

A run is answered from the arguments, the files and the standard input, as the two outputs and the
exit status: zero, one after an error that ended it, two when the arguments are refused.
-/

namespace FloatLang.Cli

-- Other libraries declare a second equality test for byte arrays; `Exit` is compared by this one.
attribute [local instance (high)] ByteArray.instDecidableEq

structure Exit where
  /-- The exit status. -/
  status : Nat
  /-- The bytes on the standard output. -/
  stdout : ByteArray
  /-- The text on the error output. -/
  stderr : String
deriving DecidableEq

/-- What is told about an error that ends a run, and about the failures underneath. -/
def failureText (e : Error) : String :=
  "error: " ++ e.message ++ "\n" ++
    String.join (e.diagnostic.causes.map fun cause ↦ "  caused by: " ++ cause ++ "\n")

/-- Why a run with this backend cannot start. -/
def unavailable? : Backend → Option Error
  | .text => none
  | .llvm => some (.configuration "built without the `llvm` feature")

/-- Reads the input and, on request, writes the module in the end. -/
def drive (options : Options) (input : Except String ByteArray) : Session.Action Unit := do
  match input with
  | .error cause => throw (.stream cause)
  | .ok bytes => Session.readAll options.file.isNone bytes
  if options.dumps then Session.dump

def execute (options : Options) (input : Except String ByteArray) : Exit :=
  match unavailable? options.backend with
  | some e => ⟨1, .empty, failureText e⟩
  | none =>
    match (drive options input).run (.start programName options.evaluates) with
    | .ok _ s => ⟨0, s.console.out.written, s.console.errorText options.verbose⟩
    | .error e s =>
      ⟨1, s.console.out.written, s.console.errorText options.verbose ++ failureText e⟩

/-- Answers a run of the program. -/
def run (files : FileTree) (stdin : ByteArray) (args : List String) : Exit :=
  match Request.ofArgs args with
  | .help long => ⟨0, (if long then longHelp else shortHelp).toUTF8, ""⟩
  | .version => ⟨0, versionText.toUTF8, ""⟩
  | .refused e => ⟨2, .empty, "error: " ++ e.message ++ "\n"⟩
  | .run options =>
    execute options <|
      match options.file with
      | some path => (files.read path).mapError FileError.message
      | none => .ok stdin

end FloatLang.Cli
