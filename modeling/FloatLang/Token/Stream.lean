import FloatLang.Token.Scan

/-!
# Token streams

All the tokens of a text, together with the way the text ends: at its end, or at a point without
digits. Readers see one token ahead, so a stream in use is the list of tokens from the current one
on; the end of the text is the empty list.

The fault at the end is met when a reader steps over the last token in front of it. That step
fails and leaves the reader where it is.
-/

namespace FloatLang

structure TokenStream where
  /-- The tokens from the current one on. -/
  tokens : List Token
  /-- What the text ends with after the last token, if it is not the end of the text. -/
  fault : Option LexError
deriving DecidableEq

def Cursor.stream (s : Cursor) : TokenStream :=
  match _h : s.next? with
  | .error e => ⟨[], some e⟩
  | .ok none => ⟨[], none⟩
  | .ok (some (t, s')) =>
    let later := s'.stream
    ⟨t :: later.tokens, later.fault⟩
termination_by s.rest.length
decreasing_by exact Cursor.length_rest_lt_of_next? _h

namespace TokenStream

/-- The tokens of a text, unless its first token is already a fault. -/
def ofString? (text : String) : Except LexError TokenStream :=
  let s := (Cursor.ofString text).stream
  match s.tokens, s.fault with
  | [], some e => .error e
  | _, _ => .ok s

/-- The fault that stepping over the current token runs into, when `rest` follows it. -/
def blocking? (fault : Option LexError) (rest : List Token) : Option LexError :=
  if rest.isEmpty then fault else none

/-- Steps over the current token. At the end of the text there is nothing to step over. -/
def advance (s : TokenStream) : Except LexError TokenStream :=
  match s.tokens with
  | [] => .ok s
  | _ :: rest =>
    match blocking? s.fault rest with
    | some e => .error e
    | none => .ok { s with tokens := rest }

theorem blocking?_eq_some_iff {fault : Option LexError} {rest : List Token} {e : LexError} :
    blocking? fault rest = some e ↔ rest = [] ∧ fault = some e := by
  cases rest <;> simp [blocking?]

end TokenStream

end FloatLang
