/-
  Tokens of the JSON grammar.

  `tokens` cuts a text into tokens and drops the blanks between them. Where the text goes on with
  something that is no token the list ends in `invalid`, so a value at the front of a text can be
  read whatever follows it.
-/
import ChunkedTree.Json.Value

namespace ChunkedTree.Json

inductive Token where
  | openBracket
  | closeBracket
  | openBrace
  | closeBrace
  | comma
  | colon
  | null
  | bool (b : Bool)
  | natural (n : Nat)
  | numeral (literal : String)
  | string (text : Text)
  /-- What follows is no token. -/
  | invalid
deriving DecidableEq, Repr

/-- The four characters that may stand between tokens. -/
def isBlank (c : Char) : Bool := c == ' ' || c == '\t' || c == '\n' || c == '\r'

/-! ## String literals -/

/-- A piece of a string literal: a character, or the 16-bit unit of a `u` escape. -/
inductive Piece where
  | char (c : Char)
  | unit (code : Nat)

/-- Value of a hexadecimal digit of either case. -/
def hexDigit? (c : Char) : Option Nat :=
  if '0' ≤ c ∧ c ≤ '9' then some (c.toNat - '0'.toNat)
  else if 'a' ≤ c ∧ c ≤ 'f' then some (c.toNat - 'a'.toNat + 10)
  else if 'A' ≤ c ∧ c ≤ 'F' then some (c.toNat - 'A'.toNat + 10)
  else none

/-- The unit that four hexadecimal digits spell. -/
def unit? (a b c d : Char) : Option Nat := do
  let a ← hexDigit? a
  let b ← hexDigit? b
  let c ← hexDigit? c
  let d ← hexDigit? d
  return ((a * 16 + b) * 16 + c) * 16 + d

/-- The character that a backslash and one letter stand for. -/
def escaped? : Char → Option Char
  | '"' => some '"'
  | '\\' => some '\\'
  | '/' => some '/'
  | 'b' => some '\x08'
  | 'f' => some '\x0c'
  | 'n' => some '\n'
  | 'r' => some '\r'
  | 't' => some '\t'
  | _ => none

/-- The pieces up to the closing quote, put before `done` in reverse, and what follows it. A
    control character has to be escaped. -/
def pieces? : List Char → List Piece → Option (List Piece × List Char)
  | '"' :: rest, done => some (done.reverse, rest)
  | '\\' :: 'u' :: a :: b :: c :: d :: rest, done =>
    match unit? a b c d with
    | some code => pieces? rest (.unit code :: done)
    | none => none
  | '\\' :: c :: rest, done =>
    match escaped? c with
    | some c => pieces? rest (.char c :: done)
    | none => none
  | c :: rest, done =>
    if c.toNat < 0x20 || c == '\\' then none else pieces? rest (.char c :: done)
  | [], _ => none

/-- First half of a surrogate pair. -/
def isHighSurrogate (code : Nat) : Bool := 0xD800 ≤ code && code < 0xDC00

/-- Second half of a surrogate pair. -/
def isLowSurrogate (code : Nat) : Bool := 0xDC00 ≤ code && code < 0xE000

/-- The character of a surrogate pair. -/
def pairedChar (high low : Nat) : Char :=
  Char.ofNat (0x10000 + (high - 0xD800) * 0x400 + (low - 0xDC00))

/-- The characters that the pieces stand for, put before `done` in reverse; absent if half a
    surrogate pair stands alone. -/
def join? : List Piece → List Char → Option (List Char)
  | [], done => some done.reverse
  | .char c :: rest, done => join? rest (c :: done)
  | .unit high :: .unit low :: rest, done =>
    if isHighSurrogate high then
      if isLowSurrogate low then join? rest (pairedChar high low :: done) else none
    else if isLowSurrogate high then none
    else join? (.unit low :: rest) (Char.ofNat high :: done)
  | .unit code :: rest, done =>
    if isHighSurrogate code || isLowSurrogate code then none
    else join? rest (Char.ofNat code :: done)

/-- A string literal whose opening quote is already read. -/
def string? (cs : List Char) : Option (Token × List Char) :=
  match pieces? cs [] with
  | some (ps, rest) => some (.string ((join? ps []).map String.ofList), rest)
  | none => none

/-! ## Numerals -/

/-- The digits at the front. -/
def digits (cs : List Char) : List Char := cs.takeWhile Char.isDigit

/-- What follows the digits at the front. -/
def afterDigits (cs : List Char) : List Char := cs.dropWhile Char.isDigit

/-- The number that decimal digits spell. -/
def ofDigits (ds : List Char) : Nat := ds.foldl (fun n d => n * 10 + (d.toNat - '0'.toNat)) 0

/-- At least one digit at the front, and what follows. -/
def someDigits? (cs : List Char) : Option (List Char × List Char) :=
  if digits cs = [] then none else some (digits cs, afterDigits cs)

/-- The whole part of a numeral: a lone zero, or digits that start with another one. -/
def whole? (cs : List Char) : Option (List Char × List Char) :=
  if cs.head? = some '0' ∧ digits cs ≠ ['0'] then none else someDigits? cs

/-- A fraction at the front, if there is a point. -/
def fraction? : List Char → Option (List Char × List Char)
  | '.' :: cs => (someDigits? cs).map fun p => ('.' :: p.1, p.2)
  | cs => some ([], cs)

/-- The sign that an exponent may have. -/
def exponentSign : List Char → List Char
  | '+' :: _ => ['+']
  | '-' :: _ => ['-']
  | _ => []

/-- An exponent at the front, if there is an `e` of either case. -/
def exponent? : List Char → Option (List Char × List Char)
  | c :: cs =>
    if c == 'e' || c == 'E' then
      let sign := exponentSign cs
      (someDigits? (cs.drop sign.length)).map fun p => (c :: sign ++ p.1, p.2)
    else some ([], c :: cs)
  | [] => some ([], [])

/-- A numeral without a sign: its whole part, the rest of its literal, and what follows. -/
def unsigned? (cs : List Char) : Option ((List Char × List Char) × List Char) :=
  match whole? cs with
  | none => none
  | some (whole, rest) =>
    match fraction? rest with
    | none => none
    | some (fraction, rest) =>
      match exponent? rest with
      | none => none
      | some (exponent, rest) => some ((whole, fraction ++ exponent), rest)

/-- A numeral that does not start with a minus sign. -/
def positive? (cs : List Char) : Option (Token × List Char) :=
  match unsigned? cs with
  | some ((whole, []), rest) => some (.natural (ofDigits whole), rest)
  | some ((whole, tail), rest) => some (.numeral (String.ofList (whole ++ tail)), rest)
  | none => none

/-- A numeral whose minus sign is already read. -/
def negative? (cs : List Char) : Option (Token × List Char) :=
  match unsigned? cs with
  | some ((whole, tail), rest) => some (.numeral (String.ofList ('-' :: whole ++ tail)), rest)
  | none => none

/-! ## Cutting a text -/

/-- The token at the front of a text without leading blanks, and what follows it. -/
def token? : List Char → Option (Token × List Char)
  | '[' :: cs => some (.openBracket, cs)
  | ']' :: cs => some (.closeBracket, cs)
  | '{' :: cs => some (.openBrace, cs)
  | '}' :: cs => some (.closeBrace, cs)
  | ',' :: cs => some (.comma, cs)
  | ':' :: cs => some (.colon, cs)
  | '"' :: cs => string? cs
  | 'n' :: 'u' :: 'l' :: 'l' :: cs => some (.null, cs)
  | 't' :: 'r' :: 'u' :: 'e' :: cs => some (.bool true, cs)
  | 'f' :: 'a' :: 'l' :: 's' :: 'e' :: cs => some (.bool false, cs)
  | '-' :: cs => negative? cs
  | cs => positive? cs

/-! Every token takes at least one character. -/

theorem pieces?_length {cs rest : List Char} {done ps : List Piece}
    (h : pieces? cs done = some (ps, rest)) : rest.length < cs.length := by
  fun_induction pieces? cs done with
  | case1 => simp_all
  | case2 done a b c d cs code hcode ih => have := ih h; simp; omega
  | case3 => simp at h
  | case4 done c cs _ c' hc ih => have := ih h; simp; omega
  | case5 => simp at h
  | case6 => simp at h
  | case7 done c cs _ _ _ hc ih => have := ih h; simp; omega
  | case8 => simp at h

theorem string?_length {cs rest : List Char} {t : Token} (h : string? cs = some (t, rest)) :
    rest.length < cs.length := by
  unfold string? at h
  split at h
  · next ps r hp =>
    simp only [Option.some.injEq, Prod.mk.injEq] at h
    exact h.2 ▸ pieces?_length hp
  · simp at h

theorem someDigits?_length {cs ds rest : List Char} (h : someDigits? cs = some (ds, rest)) :
    rest.length < cs.length := by
  unfold someDigits? at h
  split at h
  · simp at h
  · next hne =>
    simp only [Option.some.injEq, Prod.mk.injEq] at h
    have happ : digits cs ++ afterDigits cs = cs := List.takeWhile_append_dropWhile
    have hlen := congrArg List.length happ
    have hpos : 0 < (digits cs).length := List.length_pos_iff.mpr hne
    rw [List.length_append] at hlen
    rw [← h.2]
    omega

theorem whole?_length {cs ds rest : List Char} (h : whole? cs = some (ds, rest)) :
    rest.length < cs.length := by
  unfold whole? at h
  split at h
  · simp at h
  · exact someDigits?_length h

theorem fraction?_length {cs ds rest : List Char} (h : fraction? cs = some (ds, rest)) :
    rest.length ≤ cs.length := by
  unfold fraction? at h
  split at h
  · next cs =>
    simp only [Option.map_eq_some_iff] at h
    obtain ⟨⟨d, r⟩, hd, he⟩ := h
    have := someDigits?_length hd
    simp only [Prod.mk.injEq] at he
    rw [← he.2, List.length_cons]
    omega
  · simp only [Option.some.injEq, Prod.mk.injEq] at h
    exact Nat.le_of_eq (congrArg List.length h.2.symm)

theorem exponent?_length {cs ds rest : List Char} (h : exponent? cs = some (ds, rest)) :
    rest.length ≤ cs.length := by
  unfold exponent? at h
  split at h
  · next c cs =>
    dsimp only at h
    split at h
    · simp only [Option.map_eq_some_iff] at h
      obtain ⟨⟨d, r⟩, hd, he⟩ := h
      have := someDigits?_length hd
      simp only [Prod.mk.injEq] at he
      rw [List.length_drop] at this
      rw [← he.2, List.length_cons]
      omega
    · simp only [Option.some.injEq, Prod.mk.injEq] at h
      exact Nat.le_of_eq (congrArg List.length h.2.symm)
  · simp only [Option.some.injEq, Prod.mk.injEq] at h
    exact Nat.le_of_eq (congrArg List.length h.2.symm)

theorem unsigned?_length {cs rest : List Char} {n : List Char × List Char}
    (h : unsigned? cs = some (n, rest)) : rest.length < cs.length := by
  unfold unsigned? at h
  split at h
  · simp at h
  · next whole r₁ h₁ =>
    split at h
    · simp at h
    · next fraction r₂ h₂ =>
      split at h
      · simp at h
      · next exponent r₃ h₃ =>
        simp only [Option.some.injEq, Prod.mk.injEq] at h
        have := whole?_length h₁
        have := fraction?_length h₂
        have := exponent?_length h₃
        rw [← h.2]
        omega

theorem positive?_length {cs rest : List Char} {t : Token} (h : positive? cs = some (t, rest)) :
    rest.length < cs.length := by
  unfold positive? at h
  split at h
  · next hu =>
    simp only [Option.some.injEq, Prod.mk.injEq] at h
    exact h.2 ▸ unsigned?_length hu
  · next hu =>
    simp only [Option.some.injEq, Prod.mk.injEq] at h
    exact h.2 ▸ unsigned?_length hu
  · simp at h

theorem negative?_length {cs rest : List Char} {t : Token} (h : negative? cs = some (t, rest)) :
    rest.length < cs.length := by
  unfold negative? at h
  split at h
  · next hu =>
    simp only [Option.some.injEq, Prod.mk.injEq] at h
    exact h.2 ▸ unsigned?_length hu
  · simp at h

theorem token?_length {cs rest : List Char} {t : Token} (h : token? cs = some (t, rest)) :
    rest.length < cs.length := by
  unfold token? at h
  split at h
  case h_7 cs => have := string?_length h; simp only [List.length_cons]; omega
  case h_11 cs => have := negative?_length h; simp only [List.length_cons]; omega
  case h_12 => exact positive?_length h
  all_goals
    simp only [Option.some.injEq, Prod.mk.injEq] at h
    rw [← h.2]
    simp only [List.length_cons]
    omega

/-- The tokens of a text, put before `done` in reverse. -/
def tokensAfter (done : List Token) (cs : List Char) : List Token :=
  match cs with
  | [] => done.reverse
  | c :: rest =>
    if isBlank c then tokensAfter done rest
    else match _h : token? (c :: rest) with
      | some (t, rest) => tokensAfter (t :: done) rest
      | none => (Token.invalid :: done).reverse
termination_by cs.length
decreasing_by
  · simp
  · exact token?_length _h

/-- The tokens of a text. -/
def tokens (text : String) : List Token := tokensAfter [] text.toList

end ChunkedTree.Json
