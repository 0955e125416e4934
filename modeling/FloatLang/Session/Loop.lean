import FloatLang.Session.Basic
import FloatLang.Text.Lines

/-!
# Reading lines

A session reads a stream of bytes line by line. On request it asks for each line, the one that the
end of the stream stands for included, and breaks the line of its prompt at the end.
-/

namespace FloatLang.Session

/-- What the program asks for a line with. -/
def promptText : String := "ready> "

/-- Asks for a line, if prompts are wanted. -/
def ask (prompt : Bool) : Action Unit := if prompt then note (.text promptText) else pure ()

/-- Ends the line of the last prompt. -/
def leave (prompt : Bool) : Action Unit := if prompt then note (.text "\n") else pure ()

def handleLine (line : List UInt8) : Action Unit :=
  match Text.decode? line with
  | some text => handle text
  | none => throw (.stream "stream did not contain valid UTF-8")

/-- Reads lines to the end, or to the first fatal error. -/
def readLines (prompt : Bool) : List (List UInt8) → Action Unit
  | [] => do
    ask prompt
    leave prompt
  | line :: lines => do
    ask prompt
    handleLine line
    readLines prompt lines

/-- Reads a stream to its end, or to the first fatal error. -/
def readAll (prompt : Bool) (input : ByteArray) : Action Unit :=
  readLines prompt (Text.byteLines input.toList)

end FloatLang.Session
