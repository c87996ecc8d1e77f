/-
  Documents as text, and read back.

  A document has the same tokens in every layout whose extra characters are blanks (`cuts_written`),
  and these are the tokens of its value (`Document.tokens_eq`), so the value is read from them
  (`ofTokens?_tokens`). The text of a document is put together from pieces that have tokens of their
  own: names, scalars and members. A string ends with its quote whatever follows; a numeral must be
  followed by something that does not go on with it.
-/
import ChunkedTree.Json.Document
import ChunkedTree.Proofs.TextPieces
import ChunkedTree.Proofs.ValueTokens

namespace ChunkedTree.Json

/-! ## Strings -/

theorem hexDigit?_hexChar {n : Nat} (h : n < 16) : hexDigit? (hexChar n) = some n := by
  have hall : ∀ n < 16, hexDigit? (hexChar n) = some n := by decide
  exact hall n h

/-- Two hexadecimal digits behind two zeros spell a code below 256. -/
theorem unit?_hexChar {code : Nat} (h : code < 256) :
    unit? '0' '0' (hexChar (code / 16)) (hexChar (code % 16)) = some code := by
  have hzero : hexDigit? '0' = some 0 := rfl
  unfold unit?
  rw [hzero, hexDigit?_hexChar (by omega), hexDigit?_hexChar (Nat.mod_lt _ (by decide))]
  simp only [Option.bind_eq_bind, Option.bind_some, Option.pure_def, Option.some.injEq]
  omega

/-- The piece stands for the character, whatever pieces follow. -/
def Piece.StandsFor (p : Piece) (c : Char) : Prop :=
  ∀ rest done, join? (p :: rest) done = join? rest (c :: done)

theorem Piece.char_standsFor (c : Char) : (Piece.char c).StandsFor c := by
  intro rest done
  rw [join?]

/-- A unit that is no half of a surrogate pair is a character of its own. -/
theorem Piece.unit_standsFor {c : Char} (h : c.toNat < 0xD800) :
    (Piece.unit c.toNat).StandsFor c := by
  have hhigh : isHighSurrogate c.toNat = false := by
    simp [isHighSurrogate, Nat.not_le_of_lt h]
  have hlow : isLowSurrogate c.toNat = false := by
    have hbelow : ¬ 0xDC00 ≤ c.toNat := by omega
    simp [isLowSurrogate, hbelow]
  intro rest done
  cases rest with
  | nil => simp [join?, hhigh, hlow]
  | cons p rest =>
    cases p with
    | char _ => simp [join?, hhigh, hlow]
    | unit _ => simp [join?, hhigh, hlow]

/-- The text is read as one piece, which stands for the character. -/
def ReadsAsPiece (text : List Char) (c : Char) : Prop :=
  ∃ p : Piece, p.StandsFor c ∧
    ∀ rest done, pieces? (text ++ rest) done = pieces? rest (p :: done)

theorem readsAsPiece_letter {letter c : Char} (hunit : letter ≠ 'u')
    (h : escaped? letter = some c) : ReadsAsPiece ['\\', letter] c := by
  refine ⟨.char c, Piece.char_standsFor c, fun rest done => ?_⟩
  simp [pieces?, hunit, h]

theorem readsAsPiece_escape (c : Char) : ReadsAsPiece (escape c) c := by
  -- seven characters have a letter, the other control characters their code, all else itself
  unfold escape
  simp only [beq_iff_eq]
  split_ifs with hquote hslash hb hf hn hr ht hcontrol
  · subst hquote; exact readsAsPiece_letter (by decide) rfl
  · subst hslash; exact readsAsPiece_letter (by decide) rfl
  · subst hb; exact readsAsPiece_letter (by decide) rfl
  · subst hf; exact readsAsPiece_letter (by decide) rfl
  · subst hn; exact readsAsPiece_letter (by decide) rfl
  · subst hr; exact readsAsPiece_letter (by decide) rfl
  · subst ht; exact readsAsPiece_letter (by decide) rfl
  · refine ⟨.unit c.toNat, Piece.unit_standsFor (by omega), fun rest done => ?_⟩
    simp [pieces?, unit?_hexChar (Nat.lt_trans hcontrol (by decide))]
  · refine ⟨.char c, Piece.char_standsFor c, fun rest done => ?_⟩
    simp [pieces?, hslash, hcontrol]

theorem exists_pieces_flatMap_escape (s : List Char) : ∃ ps : List Piece,
    (∀ rest done, pieces? (s.flatMap escape ++ '"' :: rest) done =
      some (done.reverse ++ ps, rest)) ∧ ∀ done, join? ps done = some (done.reverse ++ s) := by
  induction s with
  | nil => exact ⟨[], fun _ _ => by simp [pieces?], fun _ => by simp [join?]⟩
  | cons c s ih =>
    obtain ⟨ps, hpieces, hjoin⟩ := ih
    obtain ⟨p, hp, hescape⟩ := readsAsPiece_escape c
    refine ⟨p :: ps, fun rest done => ?_, fun done => ?_⟩
    · rw [List.flatMap_cons, List.append_assoc, hescape, hpieces, List.reverse_cons,
        List.append_assoc, List.singleton_append]
    · rw [hp, hjoin, List.reverse_cons, List.append_assoc, List.singleton_append]

theorem string?_quoted (s : String) (rest : List Char) :
    string? (s.toList.flatMap escape ++ '"' :: rest) = some (.string (some s), rest) := by
  obtain ⟨ps, hpieces, hjoin⟩ := exists_pieces_flatMap_escape s.toList
  unfold string?
  simp only [hpieces, List.reverse_nil, List.nil_append, hjoin, Option.map_some,
    String.ofList_toList]

/-! ## Numerals -/

theorem isBlank_of_isDigit {c : Char} (h : c.isDigit = true) : isBlank c = false := by
  by_contra hcon
  rw [Bool.not_eq_false] at hcon
  have hends := numeralEnds_cons.1 (numeralEnds_of_isBlank hcon [])
  rw [hends.1] at h
  exact Bool.false_ne_true h

theorem ofDigits_toDigits (n : Nat) : ofDigits (Nat.toDigits 10 n) = n := by
  have hfold : ofDigits (Nat.toDigits 10 n) = Nat.ofDigitChars 10 (Nat.toDigits 10 n) 0 := by
    unfold ofDigits Nat.ofDigitChars
    simp only [Nat.mul_comm]
  rw [hfold, Nat.ofDigitChars_toDigits (by decide) (by decide)]

theorem isDigit_of_mem_toDigits {n : Nat} {c : Char} (h : c ∈ Nat.toDigits 10 n) :
    c.isDigit = true :=
  Nat.isDigit_of_mem_toDigits (by decide) (by decide) h

theorem exists_digit_cons (n : Nat) :
    ∃ d ds, Nat.toDigits 10 n = d :: ds ∧ d.isDigit = true := by
  cases hds : Nat.toDigits 10 n with
  | nil => exact absurd hds Nat.toDigits_ne_nil
  | cons d ds => exact ⟨d, ds, rfl, isDigit_of_mem_toDigits (n := n) (hds ▸ List.mem_cons_self)⟩

/-- Only the digits of zero start with a zero. -/
theorem toDigits_eq_of_head? (n : Nat) (h : (Nat.toDigits 10 n).head? = some '0') :
    Nat.toDigits 10 n = ['0'] := by
  induction n using Nat.strongRecOn with
  | ind n ih =>
    rw [Nat.toDigits_eq_if (by decide)] at h ⊢
    split_ifs at h ⊢ with hsmall
    · simpa using h
    · rw [List.head?_append_of_ne_nil _ Nat.toDigits_ne_nil] at h
      have hzero := ih (n / 10) (Nat.div_lt_self (by omega) (by decide)) h
      have hvalue := ofDigits_toDigits (n / 10)
      rw [hzero] at hvalue
      have : 0 = n / 10 := hvalue
      omega

theorem token?_toDigits (n : Nat) {rest : List Char} (hrest : NumeralEnds rest) :
    token? (Nat.toDigits 10 n ++ rest) = some (.natural n, rest) := by
  have hwhole : whole? (Nat.toDigits 10 n ++ rest) = some (Nat.toDigits 10 n, rest) :=
    whole?_eq_some_iff.2 ⟨toDigits_eq_of_head? n, someDigits?_eq_some_iff.2
      ⟨rfl, Nat.toDigits_ne_nil, fun _ => isDigit_of_mem_toDigits, fun c hc => (hrest c hc).1⟩⟩
  have hfraction := fraction?_of_head fun c hc => (hrest c hc).2.1
  have hexponent := exponent?_of_head fun c hc => (hrest c hc).2.2
  have hnumeral : positive? (Nat.toDigits 10 n ++ rest) = some (.natural n, rest) := by
    unfold positive? unsigned?
    simp only [hwhole, hfraction, hexponent, List.append_nil, ofDigits_toDigits]
  obtain ⟨d, ds, hds, hd⟩ := exists_digit_cons n
  rw [← hnumeral, hds]
  exact token?_of_isDigit hd _

/-! ## Scalars -/

theorem cuts_quoted (s : String) : Cuts (quoted s) [.string (some s)] := by
  intro rest _ done
  have htoken : token? (quoted s ++ rest) = some (.string (some s), rest) := by
    unfold quoted
    rw [List.append_assoc, List.singleton_append, List.cons_append]
    exact string?_quoted s rest
  exact tokensAfter_of_token? rfl htoken

/-- The token of a scalar. -/
def Scalar.token : Scalar → Token
  | .natural n => .natural n
  | .bool b => .bool b
  | .string s => .string (some s)

theorem cuts_scalar (s : Scalar) : Cuts s.written [s.token] := by
  intro rest hrest done
  cases s with
  | natural n =>
    have htoken := token?_toDigits n hrest
    obtain ⟨d, ds, hds, hd⟩ := exists_digit_cons n
    change tokensAfter done (Nat.toDigits 10 n ++ rest) = tokensAfter (.natural n :: done) rest
    rw [hds] at htoken ⊢
    exact tokensAfter_of_token? (isBlank_of_isDigit hd) htoken
  | bool b =>
    cases b with
    | true => exact tokensAfter_of_token? rfl rfl
    | false => exact tokensAfter_of_token? rfl rfl
  | string s => exact cuts_quoted s rest hrest done

theorem Scalar.tokens_toValue (s : Scalar) : s.toValue.tokens = [s.token] := by
  cases s <;> rw [Scalar.toValue, Value.tokens] <;> rfl

/-! ## Documents -/

/-- Nothing but blanks stands around the members. -/
structure Layout.IsBlank (layout : Layout) : Prop where
  beforeMember : layout.beforeMember.all isBlank = true
  afterColon : layout.afterColon.all isBlank = true
  beforeEnd : layout.beforeEnd.all isBlank = true

theorem Layout.compact_isBlank : Layout.compact.IsBlank := ⟨rfl, rfl, rfl⟩

theorem Layout.pretty_isBlank : Layout.pretty.IsBlank := ⟨rfl, rfl, rfl⟩

/-- The tokens of a member. -/
def memberTokens (m : String × Scalar) : List Token := [.string (some m.1), .colon, m.2.token]

/-- The tokens of a document. -/
def Document.tokens : Document → List Token
  | [] => [.openBrace, .closeBrace]
  | m :: doc =>
    .openBrace :: memberTokens m ++ doc.flatMap (fun m => .comma :: memberTokens m) ++ [.closeBrace]

theorem Document.tokens_eq (doc : Document) : doc.tokens = doc.toValue.tokens := by
  have hmember (m : String × Scalar) :
      namedTokens (some m.1, m.2.toValue) = memberTokens m := by
    rw [namedTokens, m.2.tokens_toValue]
    rfl
  unfold Document.toValue
  rw [Value.tokens_object, List.map_map]
  simp only [Function.comp_def, hmember]
  cases doc with
  | nil => rfl
  | cons m doc =>
    rw [intercalate_map_cons]
    rfl

section

variable {layout : Layout} (hlayout : layout.IsBlank)
include hlayout

theorem cuts_member (m : String × Scalar) : Cuts (layout.member m) (memberTokens m) := by
  have hvalue := (cuts_scalar m.2).blanks_append hlayout.afterColon
  have hcuts := ((cuts_quoted m.1).append_delimiter_cons (t := .colon) rfl hvalue).blanks_append
    hlayout.beforeMember
  unfold Layout.member
  simp only [List.append_assoc, List.cons_append]
  exact hcuts

/-- The text of a document has the document's tokens, whatever follows. -/
theorem cuts_written (doc : Document) : Cuts (doc.written layout) doc.tokens := by
  cases doc with
  | nil => exact (Cuts.nil.delimiter_cons rfl).delimiter_cons rfl
  | cons m ms =>
    have hmembers :
        List.Forall₂ Cuts ((m :: ms).map layout.member) ((m :: ms).map memberTokens) := by
      rw [List.forall₂_map_left_iff, List.forall₂_map_right_iff, List.forall₂_same]
      exact fun m _ => cuts_member hlayout m
    have hinner := (Cuts.intercalate hmembers).append_blanks hlayout.beforeEnd
    have hcuts := (hinner.append_delimiter_cons (t := .closeBrace) rfl Cuts.nil).delimiter_cons
      (t := .openBrace) rfl
    rw [intercalate_map_cons memberTokens] at hcuts
    exact hcuts

theorem tokens_written (doc : Document) :
    tokens (String.ofList (doc.written layout)) = doc.tokens :=
  (cuts_written hlayout doc).tokens

end

theorem tokens_compact (doc : Document) : tokens doc.compact = doc.tokens :=
  tokens_written Layout.compact_isBlank doc

theorem tokens_pretty (doc : Document) : tokens doc.pretty = doc.tokens :=
  tokens_written Layout.pretty_isBlank doc

/-! ## Reading -/

theorem ofTokens?_tokens (doc : Document) (rest : List Token) :
    Value.ofTokens? (doc.tokens ++ rest) = some (doc.toValue, rest) := by
  rw [doc.tokens_eq, Value.ofTokens?_tokens]

end ChunkedTree.Json
