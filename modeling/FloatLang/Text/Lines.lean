/-!
# Lines of a byte stream

A byte stream is cut at the line feeds. A carriage return right before a line feed belongs to the
line ending, one at the very end of the stream does not. An empty last piece is no line. Each
line is decoded on its own, so that a stretch of bytes that is not UTF-8 spoils one line and not
the lines before it.
-/

namespace FloatLang.Text

def lineFeed : UInt8 := 10

def carriageReturn : UInt8 := 13

/-- A line without the carriage return that belongs to its ending. -/
def dropReturn (line : List UInt8) : List UInt8 :=
  if line.getLast? = some carriageReturn then line.dropLast else line

/-- The first line of a nonempty stream and the bytes after its ending. -/
def firstLine (bytes : List UInt8) : List UInt8 × List UInt8 :=
  let line := bytes.takeWhile (· != lineFeed)
  match bytes.dropWhile (· != lineFeed) with
  | [] => (line, [])
  | _ :: rest => (dropReturn line, rest)

theorem length_firstLine_lt (b : UInt8) (bytes : List UInt8) :
    (firstLine (b :: bytes)).2.length < (b :: bytes).length := by
  have h : ((b :: bytes).dropWhile (· != lineFeed)).length ≤ (b :: bytes).length :=
    (List.dropWhile_suffix _).length_le
  unfold firstLine
  split <;> rename_i heq
  · simp
  · rw [heq] at h
    simpa [Nat.lt_iff_add_one_le] using h

/-- The lines of a byte stream, in order, without their endings. -/
def byteLines : List UInt8 → List (List UInt8)
  | [] => []
  | b :: bytes =>
    (firstLine (b :: bytes)).1 :: byteLines (firstLine (b :: bytes)).2
termination_by bytes => bytes.length
decreasing_by exact length_firstLine_lt b bytes

/-- The text of a line, or `none` when its bytes are not UTF-8. -/
def decode? (line : List UInt8) : Option String := String.fromUTF8? ⟨line.toArray⟩

end FloatLang.Text
