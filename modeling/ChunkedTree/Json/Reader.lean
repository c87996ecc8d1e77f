/-
  Reading values from tokens.

  The reader is a pushdown machine: `step` consumes one token, and the containers that are still
  open wait on an explicit stack. Nesting is therefore limited by memory alone.
-/
import ChunkedTree.Json.Token

namespace ChunkedTree.Json

/-- A container that is still open, with what it holds so far, last first. -/
inductive Frame where
  | array (items : List Value)
  /-- `name` is the name of the member whose value is being read. -/
  | object (members : List (Text × Value)) (name : Text)

/-- What has to come next, inside the open containers, innermost first. -/
inductive State where
  /-- A value. -/
  | value (around : List Frame)
  /-- The first item of an array, or its end. -/
  | firstItem (around : List Frame)
  /-- The first key of an object, or its end. -/
  | firstKey (around : List Frame)
  /-- The key of a further member. -/
  | key (around : List Frame) (members : List (Text × Value))
  /-- The colon after a key. -/
  | colon (around : List Frame) (members : List (Text × Value)) (name : Text)
  /-- A comma, or the end of the container that `last` belongs to. -/
  | separator (last : Value) (inside : Frame) (around : List Frame)
  /-- Nothing: the outermost value is complete. -/
  | complete (v : Value)

/-- What has to come after the value `v`. -/
def State.after (v : Value) : List Frame → State
  | [] => .complete v
  | inside :: around => .separator v inside around

/-- The value that a token is by itself. -/
def Token.scalar? : Token → Option Value
  | .null => some .null
  | .bool b => some (.bool b)
  | .natural n => some (.natural n)
  | .numeral literal => some (.numeral literal)
  | .string text => some (.string text)
  | _ => none

/-- The token that starts a value, or is one. -/
def State.begin (around : List Frame) : Token → Option State
  | .openBracket => some (.firstItem around)
  | .openBrace => some (.firstKey around)
  | t => t.scalar?.map (State.after · around)

/-- Consume one token. -/
def State.step : State → Token → Option State
  | .value around, t => State.begin around t
  | .firstItem around, .closeBracket => some (.after (.array []) around)
  | .firstItem around, t => State.begin (.array [] :: around) t
  | .firstKey around, .closeBrace => some (.after (.object []) around)
  | .firstKey around, .string name => some (.colon around [] name)
  | .key around members, .string name => some (.colon around members name)
  | .colon around members name, .colon => some (.value (.object members name :: around))
  | .separator last (.array items) around, .comma => some (.value (.array (last :: items) :: around))
  | .separator last (.array items) around, .closeBracket =>
    some (.after (.array (last :: items).reverse) around)
  | .separator last (.object members name) around, .comma =>
    some (.key around ((name, last) :: members))
  | .separator last (.object members name) around, .closeBrace =>
    some (.after (.object ((name, last) :: members).reverse) around)
  | _, _ => none

/-- Consume tokens until the outermost value is complete; the tokens left over come with it. -/
def State.run : State → List Token → Option (Value × List Token)
  | .complete v, ts => some (v, ts)
  | s, t :: ts =>
    match s.step t with
    | some s => s.run ts
    | none => none
  | _, [] => none

/-- The value at the front of the tokens, and the tokens after it. -/
def Value.ofTokens? (ts : List Token) : Option (Value × List Token) := State.run (.value []) ts

/-- The value that the text as a whole spells. -/
def Value.read? (text : String) : Option Value :=
  match Value.ofTokens? (tokens text) with
  | some (v, []) => some v
  | _ => none

end ChunkedTree.Json
