import FloatLang.Diagnostic
import FloatLang.Double.Decimal
import FloatLang.Text.CharClass
import FloatLang.Text.Position
import FloatLang.Token.Basic

/-!
# Cutting a text into tokens

A text is a sequence of skipped runs and lexemes. A *skipped run* is a run of spaces and, if a `#`
follows, everything up to the end of that line. A *lexeme* is the longest word, the longest number
or a single other character. Nothing is lost between them: the run and the rest, or the lexeme and
the rest, are the text they were cut from.

A number has at most one point and at least one digit. A second point starts the next number, and
a point without a digit on either side is the only thing that cannot be read.
-/

namespace FloatLang

/-! ## Skipped runs -/

/-- The run of spaces and comment that `cs` starts with. -/
def skippedRun (cs : List Char) : List Char :=
  match cs.dropWhile (· == ' ') with
  | '#' :: comment => cs.takeWhile (· == ' ') ++ '#' :: comment.takeWhile (· != '\n')
  | _ => cs.takeWhile (· == ' ')

/-- What follows the skipped run that `cs` starts with. -/
def afterSkipped (cs : List Char) : List Char :=
  match cs.dropWhile (· == ' ') with
  | '#' :: comment => comment.dropWhile (· != '\n')
  | rest => rest

theorem skippedRun_append_afterSkipped (cs : List Char) :
    skippedRun cs ++ afterSkipped cs = cs := by
  have h : cs.takeWhile (· == ' ') ++ cs.dropWhile (· == ' ') = cs :=
    List.takeWhile_append_dropWhile
  unfold skippedRun afterSkipped
  split <;> rename_i heq
  · rw [heq] at h
    simpa [List.takeWhile_append_dropWhile] using h
  · exact h

theorem length_afterSkipped_le (cs : List Char) : (afterSkipped cs).length ≤ cs.length := by
  have h := congrArg List.length (skippedRun_append_afterSkipped cs)
  simp only [List.length_append] at h
  omega

/-! ## Lexemes -/

/-- A token, the text it was read from, and the text after it. -/
structure Lexeme where
  /-- What the text was read as. -/
  token : Token
  /-- The text of the token. -/
  text : List Char
  /-- The text after the token. -/
  rest : List Char

namespace Lexeme

/-- The word that starts with the letter `c`. -/
def word (c : Char) (cs : List Char) : Lexeme :=
  let text := c :: cs.takeWhile Text.isAlphanumeric
  ⟨.ofWord text, text, cs.dropWhile Text.isAlphanumeric⟩

/-- The number that starts with the digits `whole`. A point belongs to it even when no digit
follows. -/
def number (whole cs : List Char) : Lexeme :=
  match cs with
  | '.' :: ds =>
    let part := ds.takeWhile Text.isDigit
    ⟨.number (Decimal.ofParts whole part).toDouble, whole ++ '.' :: part,
      ds.dropWhile Text.isDigit⟩
  | _ => ⟨.number (Decimal.ofParts whole []).toDouble, whole, cs⟩

/-- The lexeme that starts with `c`, or `none` if that is a point without digits. -/
def read? (c : Char) (cs : List Char) : Option Lexeme :=
  if Text.isAlphabetic c then some (word c cs)
  else if Text.isDigit c then
    some (number (c :: cs.takeWhile Text.isDigit) (cs.dropWhile Text.isDigit))
  else if c = '.' then
    if (cs.takeWhile Text.isDigit).isEmpty then none else some (number [] (c :: cs))
  else some ⟨.symbol c, [c], cs⟩

theorem text_append_rest_number (whole cs : List Char) :
    (number whole cs).text ++ (number whole cs).rest = whole ++ cs := by
  unfold number
  split <;> simp [List.takeWhile_append_dropWhile]

theorem text_append_rest {c : Char} {cs : List Char} {l : Lexeme} (h : read? c cs = some l) :
    l.text ++ l.rest = c :: cs := by
  unfold read? at h
  split at h
  · obtain rfl := Option.some.inj h
    simp [word, List.takeWhile_append_dropWhile]
  · split at h
    · obtain rfl := Option.some.inj h
      rw [text_append_rest_number]
      simp [List.takeWhile_append_dropWhile]
    · split at h
      · split at h
        · cases h
        · obtain rfl := Option.some.inj h
          rw [text_append_rest_number]
          simp
      · obtain rfl := Option.some.inj h
        simp

theorem text_ne_nil {c : Char} {cs : List Char} {l : Lexeme} (h : read? c cs = some l) :
    l.text ≠ [] := by
  unfold read? at h
  split at h
  · obtain rfl := Option.some.inj h
    simp [word]
  · split at h
    · obtain rfl := Option.some.inj h
      unfold number
      split <;> simp
    · split at h
      · split at h
        · cases h
        · rename_i hc _
          obtain rfl := Option.some.inj h
          simp [number, hc]
      · obtain rfl := Option.some.inj h
        simp

theorem length_rest_lt {c : Char} {cs : List Char} {l : Lexeme} (h : read? c cs = some l) :
    l.rest.length < (c :: cs).length := by
  have happ := congrArg List.length (text_append_rest h)
  have hpos := List.length_pos_iff.2 (text_ne_nil h)
  simp only [List.length_append] at happ
  omega

end Lexeme

/-! ## Walking through a text -/

/-- The one failure of reading tokens: a point without digits. -/
structure LexError where
  /-- Where the point stands. -/
  position : Position
deriving DecidableEq

def LexError.diagnostic (e : LexError) : Diagnostic where
  category := .lex
  detail :=
    "Parse error at line: " ++ toString e.position.line ++ ", column: " ++
      toString e.position.column ++ "\ninvalid float literal\n"
  causes := []

/-- A place in a text together with the text from there on. -/
structure Cursor where
  /-- The text that has not been read yet. -/
  rest : List Char
  /-- The place of its first character. -/
  position : Position
deriving DecidableEq

namespace Cursor

def ofString (text : String) : Cursor := ⟨text.toList, .start⟩

/-- The next token and the place after it, or `none` at the end of the text. A failure does not
move the cursor, so it is met again. -/
def next? (s : Cursor) : Except LexError (Option (Token × Cursor)) :=
  let start := s.position.after (skippedRun s.rest)
  match afterSkipped s.rest with
  | [] => .ok none
  | c :: cs =>
    match Lexeme.read? c cs with
    | none => .error ⟨start⟩
    | some l => .ok (some (l.token, ⟨l.rest, start.after l.text⟩))

theorem length_rest_lt_of_next? {s s' : Cursor} {t : Token} (h : s.next? = .ok (some (t, s'))) :
    s'.rest.length < s.rest.length := by
  have hle := length_afterSkipped_le s.rest
  unfold next? at h
  split at h
  · cases h
  · rename_i heq
    rw [heq] at hle
    split at h
    · cases h
    · rename_i hl
      have hlt := Lexeme.length_rest_lt hl
      cases h
      simp only at hlt ⊢
      omega

end Cursor

end FloatLang
