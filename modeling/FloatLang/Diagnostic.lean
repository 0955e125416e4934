/-!
# Diagnostics

Every failure the program can report ends as a diagnostic: the category it belongs to, a text
about this occurrence, and the messages of the failures underneath. The category decides the
wording around the text and whether reading goes on afterwards.
-/

namespace FloatLang

inductive Category
  | lex
  | parse
  | lowering
  | evaluation
  | input
  | configuration
  | internal
deriving DecidableEq

/-- What is told about a failure. -/
structure Diagnostic where
  /-- Where the failure comes from. -/
  category : Category
  /-- What is said about this occurrence. A failure to read input has nothing to add. -/
  detail : String
  /-- The messages of the underlying failures, the outermost first. -/
  causes : List String
deriving DecidableEq

namespace Diagnostic

/-- The one-line message. The detail of a lexical failure brings line breaks of its own. -/
def message (d : Diagnostic) : String :=
  match d.category with
  | .lex => "lex error: " ++ d.detail
  | .parse | .lowering => d.detail
  | .evaluation => "evaluation failed: " ++ d.detail
  | .input => "failed to read input"
  | .configuration => "configuration error: " ++ d.detail
  | .internal => "internal error: " ++ d.detail

/-- Whether reading stops. After a rejected statement the next one is read; a text that cannot be
cut into tokens, a failing stream or a wrong setting ends the run. -/
def isFatal (d : Diagnostic) : Bool :=
  match d.category with
  | .parse | .lowering | .evaluation => false
  | .lex | .input | .configuration | .internal => true

end Diagnostic

end FloatLang
