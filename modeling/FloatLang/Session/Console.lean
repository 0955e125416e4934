/-!
# The output of a session

A session writes results to a sink and tells about its work beside that. The sink may have room for
a limited number of bytes only: it takes what fits, and fails when something did not.

Beside the sink stand the notes: pieces of text that go to the error output as they are, and log
lines, which whoever shows the notes may leave out.
-/

namespace FloatLang

/-! ## Sinks -/

/-- A place that bytes are written to. -/
structure Sink where
  /-- What has been written. -/
  written : ByteArray
  /-- How many more bytes there is room for, if that is limited. -/
  room : Option Nat

namespace Sink

def unlimited : Sink := ⟨.empty, none⟩

/-- Writes as many of the bytes as fit, and answers whether all did. -/
def write (s : Sink) (bytes : ByteArray) : Bool × Sink :=
  match s.room with
  | none => (true, { s with written := s.written ++ bytes })
  | some n =>
    if bytes.size ≤ n then (true, ⟨s.written ++ bytes, some (n - bytes.size)⟩)
    else (false, ⟨s.written ++ bytes.extract 0 n, some 0⟩)

/-- The text that has been written. A character that was cut off counts as one that stands for
anything. -/
def text (s : Sink) : String :=
  let cut (n : Nat) := String.fromUTF8? (s.written.extract 0 (s.written.size - n))
  match cut 0 with
  | some whole => whole
  | none => (([1, 2, 3].findSome? cut).getD "").push '\uFFFD'

end Sink

/-! ## Notes -/

inductive LogLevel
  | warning
  | debug
deriving DecidableEq

namespace LogLevel

/-- The name of the level, five characters wide. -/
def text : LogLevel → String
  | warning => " WARN"
  | debug => "DEBUG"

/-- Whether lines of this level are shown: the warnings always, the others on request. -/
def isShown (verbose : Bool) : LogLevel → Bool
  | warning => true
  | debug => verbose

end LogLevel

/-- Something told beside the results. -/
inductive Note
  | text (content : String)
  | log (level : LogLevel) (message : String) (fields : List (String × String))
deriving DecidableEq

namespace Note

/-- The text of a note, empty for a log line that is not shown. -/
def render (verbose : Bool) : Note → String
  | text content => content
  | log level message fields =>
    if level.isShown verbose then
      level.text ++ " " ++ message ++
        String.join (fields.map fun (key, value) ↦ " " ++ key ++ "=" ++ value) ++ "\n"
    else ""

/-- The text of a note if it goes to the error output as it is. -/
def plain? : Note → Option String
  | text content => some content
  | log .. => none

end Note

/-! ## Consoles -/

/-- All the output of a session. -/
structure Console where
  /-- Where results go. -/
  out : Sink
  /-- What is told beside the results, in order. -/
  notes : Array Note

namespace Console

/-- A console that has told nothing and has unlimited room. -/
def fresh : Console := ⟨.unlimited, #[]⟩

/-- A console that has told nothing and has room for this many bytes of results. -/
def withRoom (room : Option Nat) : Console := ⟨⟨.empty, room⟩, #[]⟩

/-- The texts that went to the error output as they are, one after the other. -/
def plainText (c : Console) : String := String.join (c.notes.toList.filterMap Note.plain?)

/-- All that goes to the error output, with the log lines that are shown. -/
def errorText (c : Console) (verbose : Bool) : String :=
  String.join (c.notes.toList.map (Note.render verbose))

end Console

end FloatLang
