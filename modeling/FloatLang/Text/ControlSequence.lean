/-!
# Text without control sequences

Text from outside may hold the control sequences by which a terminal is told to change its colours
or its title. Where the program quotes such text in a message it leaves them out, together with the
control characters that are no white space.

A sequence starts at the escape character and ends as its kind demands. The escape character starts
a new sequence wherever it stands, and two controls cancel whatever has been started. A line break
or another control for layout inside a sequence *interrupts* it: what follows is shown as it is, up
to the next control character. Inside the sequences that carry text nothing is shown.
-/

namespace FloatLang.Text

/-- How far a control sequence has been read. -/
inductive SequenceState
  /-- Outside all sequences. -/
  | ground
  /-- After the escape character. -/
  | escape
  /-- After the escape character and an intermediate one. -/
  | escapeIntermediate
  /-- In a sequence of parameters that a letter ends. -/
  | parameters
  /-- In a command to the system, which the bell ends. -/
  | command
  /-- At the start of a string for the device. -/
  | deviceEntry
  /-- In the parameters of a string for the device. -/
  | deviceParameters
  /-- After an intermediate character of a string for the device. -/
  | deviceIntermediate
  /-- In a string, which its terminator ends. -/
  | string
deriving DecidableEq

/-- Whether the code point of `c` lies between `low` and `high`. -/
def between (low high : Nat) (c : Char) : Bool := low ≤ c.toNat && c.toNat ≤ high

/-- The controls for layout: tab, line feed, form feed and carriage return. -/
def isLayout (c : Char) : Bool := [0x9, 0xA, 0xC, 0xD].contains c.toNat

/-- What is shown outside all sequences: everything but the ASCII controls, and those for layout. -/
def isShown (c : Char) : Bool := between 0x20 0x7E c || 0x80 ≤ c.toNat || isLayout c

/-- Whether the string terminator occurs among the bytes of `c`. It is looked for byte by byte. -/
def holdsTerminator (c : Char) : Bool := (String.utf8EncodeChar c).contains 0x9C

namespace SequenceState

/-- Whether a control for layout is shown in this state. -/
def isInterruptible : SequenceState → Bool
  | escape | escapeIntermediate | parameters => true
  | _ => false

/-- The state after a character that is not shown. -/
def after (s : SequenceState) (c : Char) : SequenceState :=
  if c.toNat = 0x18 ∨ c.toNat = 0x1A then ground
  else if c.toNat = 0x1B then escape
  else
    match s with
    | ground => ground
    | escape =>
      if between 0x20 0x2F c then escapeIntermediate
      else if c = '[' then parameters
      else if c = ']' then command
      else if c = 'P' then deviceEntry
      else if c = 'X' ∨ c = '^' ∨ c = '_' then string
      else if between 0x30 0x7E c then ground
      else escape
    | escapeIntermediate => if between 0x30 0x7E c then ground else escapeIntermediate
    | parameters => if between 0x40 0x7E c then ground else parameters
    | command => if c.toNat = 0x7 then ground else command
    | deviceEntry =>
      if between 0x20 0x2F c then deviceIntermediate
      else if between 0x30 0x3F c then deviceParameters
      else if between 0x40 0x7E c then string
      else deviceEntry
    | deviceParameters =>
      if between 0x20 0x2F c then deviceIntermediate
      else if between 0x3C 0x7E c then string
      else deviceParameters
    | deviceIntermediate => if between 0x30 0x7E c then string else deviceIntermediate
    | string => if holdsTerminator c then ground else string

/-- What is shown of a text that starts in this state. While a sequence is interrupted its state
waits for the next control character; a character outside ASCII ends it. -/
def shown (s : SequenceState) (interrupted : Bool) : List Char → List Char
  | [] => []
  | c :: cs =>
    if (interrupted || s == ground) && isShown c then
      c :: shown (if c.toNat < 0x80 then s else ground) interrupted cs
    else if s.isInterruptible && isLayout c then c :: shown s true cs
    else shown (s.after c) false cs

end SequenceState

/-- The text without its control sequences and without the controls that are no white space. -/
def withoutSequences (text : String) : String :=
  String.ofList (SequenceState.ground.shown false text.toList)

end FloatLang.Text
