import FloatLang.Cli.Run

/-!
# The program

The outer layer: it reads the source file or the standard input, hands what it reads to the
session, and shows what the session has told. From the standard input one line is answered before
the next one is read.
-/

namespace FloatLang.Cli

/-- The number of a failed operation, which some operations give with the opposite sign. -/
def systemCode (code : UInt32) : Nat := if code < 0x80000000 then code.toNat else (-code).toNat

/-- What is told about a failed operation. -/
def systemText (e : IO.Error) : String :=
  let known? :=
    match e with
    | .noFileOrDirectory _ code _ => FileError.ofCode? (systemCode code)
    | .inappropriateType _ code _ => FileError.ofCode? (systemCode code)
    | .invalidArgument _ code _ => FileError.ofCode? (systemCode code)
    | _ => none
  match known? with
  | some known => known.message
  | none => toString e

def showExit (e : Exit) : IO UInt32 := do
  let out ← IO.getStdout
  out.write e.stdout
  out.flush
  (← IO.getStderr).putStr e.stderr
  return e.status.toUInt32

def readSource (path : String) : IO (Except String ByteArray) := do
  try return .ok (← IO.FS.readBinFile path)
  catch e => return .error (systemText e)

/-- Reads a line with its ending, empty at the end of the input. -/
partial def readLine (input : IO.FS.Stream) (line : ByteArray) : IO ByteArray := do
  let byte ← input.read 1
  if byte.isEmpty then return line
  let line := line ++ byte
  if byte.toList = [Text.lineFeed] then return line else readLine input line

/-- Takes a step and shows what was told during it. -/
def take (options : Options) (action : Session.Action Unit) (s : Session) :
    IO (Option Error × Session) := do
  let (e, s) :=
    match action.run s with
    | .ok _ s => (none, s)
    | .error e s => (some e, s)
  let _ ← showExit ⟨0, s.console.out.written, s.console.errorText options.verbose⟩
  return (e, s.withRoom none)

/-- Answers the lines of the standard input, one after the other. -/
partial def converse (options : Options) (s : Session) : IO UInt32 := do
  let (_, s) ← take options (Session.ask true) s
  let line ← readLine (← IO.getStdin) .empty
  let step := do
    if line.isEmpty then
      Session.leave true
      if options.dumps then Session.dump
    else
      (Text.byteLines line.toList).forM Session.handleLine
  match ← take options step s with
  | (none, s) => if line.isEmpty then return 0 else converse options s
  | (some e, _) => showExit ⟨1, .empty, failureText e⟩

def answer (args : List String) : IO UInt32 := do
  match Request.ofArgs args with
  | .run options =>
    match options.file, unavailable? options.backend with
    | some path, none => showExit (execute options (← readSource path))
    | none, none => converse options (.start programName options.evaluates)
    | _, some _ => showExit (execute options (.ok .empty))
  | _ => showExit (run (.directory []) .empty args)

end FloatLang.Cli

def main (args : List String) : IO UInt32 := FloatLang.Cli.answer args
