import FloatLang.Expr.Reading
import FloatLang.Lowering
import FloatLang.Ssa.Run

/-!
# Errors of the whole program

Each stage has its own errors. Here they come together with the failures of the streams and of
the settings, each turned into a diagnostic.
-/

namespace FloatLang

open Ssa

/-- A failure of any stage. -/
inductive Error
  | reading (e : ReadError)
  | lowering (e : LoweringError)
  | evaluation (e : EvalError)
  /-- A stream failed. -/
  | stream (cause : String)
  /-- The program cannot run with these settings. -/
  | configuration (reason : String)
  /-- A function has an operand that does not exist, so it has no text. -/
  | unprintable
deriving DecidableEq

namespace Error

def diagnostic : Error → Diagnostic
  | reading e => e.diagnostic
  | lowering e => e.diagnostic
  | evaluation e => e.diagnostic
  | stream cause => ⟨.input, "", [cause]⟩
  | configuration reason => ⟨.configuration, reason, []⟩
  | unprintable => ⟨.internal, "an operand does not exist", []⟩

def message (e : Error) : String := e.diagnostic.message

def isFatal (e : Error) : Bool := e.diagnostic.isFatal

/-- A failure to cut a text into tokens. -/
def lex (e : LexError) : Error := .reading (.lex e)

end Error

end FloatLang
