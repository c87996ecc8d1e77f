/-
  Values of the strict JSON grammar, as far as a parameter document depends on them.

  A numeral is kept apart from a plain natural number: `6`, `6.0` and `6e0` are three different
  things here. Members keep their order and may repeat.
-/

namespace ChunkedTree.Json

/-- The text of a string literal. It is absent if an escape names half of a surrogate pair: such
    a literal is well formed and yet stands for no text. -/
abbrev Text := Option String

inductive Value where
  | null
  | bool (b : Bool)
  /-- A numeral of digits alone. -/
  | natural (n : Nat)
  /-- A numeral with a sign, a fraction or an exponent, as it is written. -/
  | numeral (literal : String)
  | string (text : Text)
  | array (items : List Value)
  | object (members : List (Text × Value))
deriving Repr, Inhabited

/-- The value of the member called `key`, where at most one member may bear that name: absent if
    there are several, and absent inside if there is none. -/
def sole? (members : List (Text × Value)) (key : String) : Option (Option Value) :=
  match members.filter (fun m => m.1 == some key) with
  | [] => some none
  | [m] => some (some m.2)
  | _ => none

end ChunkedTree.Json
