/-
  Terminal control sequences, and what is left of a text that is shown without them.

  A sequence starts with an escape character; what follows it says how far the sequence goes. A
  text can hold names that came from outside, and a name must not be able to act on a terminal.
  So neither sequences nor control characters are shown, other than those that only lay out text.
-/

namespace ChunkedTree.ControlSequence

/-- What part of which kind of sequence comes next. -/
inductive State where
  /-- Text: there is no sequence. -/
  | ground
  /-- After the escape character. -/
  | escape
  /-- After the escape character and a blank or punctuation: up to a final character. -/
  | escapeMiddle
  /-- After `[`: parameters, up to the character that names a function. -/
  | function
  /-- After `P`: what a string for the device begins with. -/
  | device
  | deviceParameter
  | deviceMiddle
  /-- After `]`: a string for the system, up to a bell or an escape character. -/
  | system
  /-- Any other string, up to a terminator or an escape character. -/
  | data
deriving DecidableEq, Repr

/-- The control characters that lay out text: tab, line break, form feed and return. -/
def isLayout (c : Char) : Bool := c == '\t' || c == '\n' || c == '\x0c' || c == '\r'

/-- A byte that ends a string by itself is among those that encode `c`. -/
def hasTerminator (c : Char) : Bool := (String.utf8EncodeChar c).contains 0x9C

namespace State

/-- `c` is shown: text outside sequences, layout outside strings. -/
def shows : State → Char → Bool
  | .ground, c => isLayout c || ' ' ≤ c && c != '\x7f'
  | .escape, c | .escapeMiddle, c | .function, c => isLayout c
  | _, _ => false

/-- The state after the escape character and `c`. -/
def begin (c : Char) : State :=
  if ' ' ≤ c ∧ c ≤ '/' then .escapeMiddle
  else match c with
    | '[' => .function
    | 'P' => .device
    | ']' => .system
    | 'X' | '^' | '_' => .data
    | _ => if '0' ≤ c ∧ c ≤ '~' then .ground else .escape

/-- The state after `c`, where `c` starts nothing new. -/
def next : State → Char → State
  | .ground, _ => .ground
  | .escape, c => begin c
  | .escapeMiddle, c => if '0' ≤ c ∧ c ≤ '~' then .ground else .escapeMiddle
  | .function, c => if '@' ≤ c ∧ c ≤ '~' then .ground else .function
  | .device, c =>
    if ' ' ≤ c ∧ c ≤ '/' then .deviceMiddle
    else if '0' ≤ c ∧ c ≤ '?' then .deviceParameter
    else if '@' ≤ c ∧ c ≤ '~' then .data
    else .device
  | .deviceParameter, c =>
    if ' ' ≤ c ∧ c ≤ '/' then .deviceMiddle
    else if '<' ≤ c ∧ c ≤ '~' then .data
    else .deviceParameter
  | .deviceMiddle, c => if '0' ≤ c ∧ c ≤ '~' then .data else .deviceMiddle
  | .system, c => if c == '\x07' then .ground else .system
  | .data, c => if hasTerminator c then .ground else .data

/-- The state after `c`: an escape character starts a sequence anywhere, and two other characters
    end any. -/
def step (s : State) (c : Char) : State :=
  if c == '\x1b' then .escape
  else if c == '\x18' || c == '\x1a' then .ground
  else s.next c

end State

/-- What is shown of a text. Layout inside a sequence is shown, and so is the text after it, up to
    the next control character, from which on the sequence continues; `inText` says that a
    character of the text was the last one. -/
def shownFrom (inText : Bool) (s : State) : List Char → List Char
  | [] => []
  | c :: cs =>
    if (if inText then State.ground else s).shows c then
      c :: shownFrom true (if c.toNat < 0x80 then s else .ground) cs
    else shownFrom false (s.step c) cs

/-- The text without control sequences. -/
def shown (text : String) : String := String.ofList (shownFrom false .ground text.toList)

end ChunkedTree.ControlSequence
