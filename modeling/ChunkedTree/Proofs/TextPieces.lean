/-
  Texts in pieces.

  A piece of text may have tokens of its own, whatever follows it that ends numerals (`Cuts`). Such
  pieces can be put together (`Cuts.append`, `Cuts.intercalate`), and a text whose tokens are
  divided falls into pieces in the same way (`exists_cuts`).

  Both together give the texts of containers: a text has the tokens of a container exactly if it is
  made of one piece for each part of it, with commas between the pieces, the two delimiters around
  them, and otherwise blanks (`tokens_eq_iff`).
-/
import ChunkedTree.Proofs.TokenFront
import Mathlib.Data.List.Forall2

namespace ChunkedTree.Json

/-! ## One token after the other -/

theorem tokensAfter_of_token? {done : List Token} {c : Char} {cs rest : List Char} {t : Token}
    (hc : isBlank c = false) (h : token? (c :: cs) = some (t, rest)) :
    tokensAfter done (c :: cs) = tokensAfter (t :: done) rest := by
  rw [tokensAfter, hc]
  simp only [Bool.false_eq_true, if_false]
  split
  · next t' rest' h' =>
    rw [h] at h'
    simp only [Option.some.injEq, Prod.mk.injEq] at h'
    rw [h'.1, h'.2]
  · next h' =>
    rw [h] at h'
    cases h'

theorem tokensAfter_blanks {done : List Token} {blanks : List Char} (h : blanks.all isBlank = true)
    (rest : List Char) : tokensAfter done (blanks ++ rest) = tokensAfter done rest := by
  induction blanks with
  | nil => rfl
  | cons c blanks ih =>
    rw [List.all_cons, Bool.and_eq_true] at h
    rw [List.cons_append, tokensAfter, if_pos h.1, ih h.2]

theorem tokensAfter_of_token?_eq_none {done : List Token} {c : Char} {cs : List Char}
    (hc : isBlank c = false) (h : token? (c :: cs) = none) :
    tokensAfter done (c :: cs) = (Token.invalid :: done).reverse := by
  rw [tokensAfter, hc]
  simp only [Bool.false_eq_true, if_false]
  split
  · next h' =>
    rw [h] at h'
    cases h'
  · rfl

/-- The tokens that are already read stay in front. -/
theorem tokensAfter_append (before : List Token) (done : List Token) (cs : List Char) :
    tokensAfter (done ++ before) cs = before.reverse ++ tokensAfter done cs := by
  induction done, cs using tokensAfter.induct with
  | case1 done => rw [tokensAfter, tokensAfter, List.reverse_append]
  | case2 done c cs hc ih => rw [tokensAfter, tokensAfter, if_pos hc, if_pos hc, ih]
  | case3 done c cs hc t rest ht ih =>
    rw [Bool.not_eq_true] at hc
    rw [tokensAfter_of_token? hc ht, tokensAfter_of_token? hc ht, ← List.cons_append, ih]
  | case4 done c cs hc ht =>
    rw [Bool.not_eq_true] at hc
    rw [tokensAfter_of_token?_eq_none hc ht, tokensAfter_of_token?_eq_none hc ht,
      ← List.cons_append, List.reverse_append]

theorem tokensAfter_singleton (t : Token) (cs : List Char) :
    tokensAfter [t] cs = t :: tokensAfter [] cs :=
  tokensAfter_append [t] [] cs

/-- The piece is cut into the tokens `ts`, whatever follows that ends numerals. -/
def Cuts (piece : List Char) (ts : List Token) : Prop :=
  ∀ rest, NumeralEnds rest → ∀ done,
    tokensAfter done (piece ++ rest) = tokensAfter (ts.reverse ++ done) rest

theorem Cuts.nil : Cuts [] [] := fun _ _ _ => rfl

theorem Cuts.append {p q : List Char} {ts us : List Token} (hp : Cuts p ts) (hq : Cuts q us)
    (hends : ∀ rest, NumeralEnds rest → NumeralEnds (q ++ rest)) : Cuts (p ++ q) (ts ++ us) := by
  intro rest hrest done
  rw [List.append_assoc, hp _ (hends rest hrest), hq rest hrest, List.reverse_append,
    List.append_assoc]

theorem Cuts.of_blanks {blanks : List Char} (h : blanks.all isBlank = true) : Cuts blanks [] :=
  fun rest _ _ => tokensAfter_blanks h rest

theorem Cuts.blanks_append {p blanks : List Char} {ts : List Token} (hp : Cuts p ts)
    (hblank : blanks.all isBlank = true) : Cuts (blanks ++ p) ts := by
  intro rest hrest done
  rw [List.append_assoc, tokensAfter_blanks hblank, hp rest hrest]

theorem numeralEnds_blanks_append {blanks rest : List Char} (h : blanks.all isBlank = true)
    (hrest : NumeralEnds rest) : NumeralEnds (blanks ++ rest) := by
  cases blanks with
  | nil => exact hrest
  | cons c blanks =>
    rw [List.all_cons, Bool.and_eq_true] at h
    exact numeralEnds_of_isBlank h.1 _

theorem Cuts.append_blanks {p blanks : List Char} {ts : List Token} (hp : Cuts p ts)
    (hblank : blanks.all isBlank = true) : Cuts (p ++ blanks) ts := by
  have h := hp.append (Cuts.of_blanks hblank) fun _ => numeralEnds_blanks_append hblank
  rwa [List.append_nil] at h

/-- A text whose first token is a valid one: it stands behind blanks. -/
theorem exists_token_of_tokensAfter {cs : List Char} {t : Token} {ts : List Token}
    (hvalid : t ≠ .invalid) (h : tokensAfter [] cs = t :: ts) :
    ∃ blanks c tail rest, cs = blanks ++ c :: tail ∧ blanks.all isBlank = true ∧
      isBlank c = false ∧ token? (c :: tail) = some (t, rest) ∧ tokensAfter [] rest = ts := by
  induction cs with
  | nil =>
    rw [tokensAfter] at h
    cases h
  | cons c cs ih =>
    by_cases hc : isBlank c = true
    · rw [tokensAfter, if_pos hc] at h
      obtain ⟨blanks, d, tail, rest, rfl, hblank, htoken⟩ := ih h
      exact ⟨c :: blanks, d, tail, rest, rfl, by rw [List.all_cons, hc, hblank]; rfl, htoken⟩
    · rw [Bool.not_eq_true] at hc
      cases htoken : token? (c :: cs) with
      | none =>
        rw [tokensAfter_of_token?_eq_none hc htoken] at h
        cases h
        exact absurd rfl hvalid
      | some front =>
        obtain ⟨t', rest⟩ := front
        rw [tokensAfter_of_token? hc htoken, tokensAfter_singleton] at h
        cases h
        exact ⟨[], c, cs, rest, rfl, rfl, hc, htoken, rfl⟩

/-- Where the tokens of a text can be divided the text can, too. -/
theorem exists_cuts {ts us : List Token} (hvalid : .invalid ∉ ts) {cs : List Char}
    (h : tokensAfter [] cs = ts ++ us) :
    ∃ piece rest, cs = piece ++ rest ∧ Cuts piece ts ∧ tokensAfter [] rest = us := by
  induction ts generalizing cs with
  | nil => exact ⟨[], cs, rfl, Cuts.nil, h⟩
  | cons t ts ih =>
    obtain ⟨ht, hts⟩ := not_or.1 (mt List.mem_cons.2 hvalid)
    obtain ⟨blanks, c, tail, rest, rfl, hblank, hc, htoken, hrest⟩ :=
      exists_token_of_tokensAfter (Ne.symm ht) h
    obtain ⟨piece, behind, rfl, hpiece, hbehind⟩ := ih hts hrest
    obtain ⟨lex, hlex, hfront⟩ := token?_takesFront htoken
    -- the token is not empty, so it starts with the character behind the blanks
    obtain ⟨lex, rfl⟩ : ∃ l, lex = c :: l := by
      cases lex with
      | nil =>
        have hlen := token?_length htoken
        rw [hlex] at hlen
        exact absurd hlen (Nat.lt_irrefl _)
      | cons d lex =>
        cases hlex
        exact ⟨lex, rfl⟩
    refine ⟨blanks ++ (c :: lex ++ piece), behind, by rw [hlex]; simp, ?_, hbehind⟩
    intro rest hrest done
    have htoken' := hfront (piece ++ rest) (Replaces.append (Or.inl hrest) piece)
    rw [List.append_assoc, List.append_assoc, tokensAfter_blanks hblank]
    rw [List.cons_append] at htoken' ⊢
    rw [tokensAfter_of_token? hc htoken', hpiece rest hrest, List.reverse_cons, List.append_assoc,
      List.singleton_append]

/-! ## Delimiters -/

/-- The character of a token that one character spells. -/
def Token.delimiter? : Token → Option Char
  | .openBracket => some '['
  | .closeBracket => some ']'
  | .openBrace => some '{'
  | .closeBrace => some '}'
  | .comma => some ','
  | .colon => some ':'
  | _ => none

section

variable {c : Char} {t : Token} (h : t.delimiter? = some c)
include h

theorem token?_eq_some_iff_of_delimiter {cs rest : List Char} :
    token? cs = some (t, rest) ↔ cs = c :: rest := by
  -- strings and numerals are no delimiters, and all other tokens are told by their characters
  have hstring {cs : List Char} (hs : string? cs = some (t, rest)) : False := by
    unfold string? at hs
    split at hs <;> cases hs
    cases h
  have hnegative {cs : List Char} (hn : negative? cs = some (t, rest)) : False := by
    unfold negative? at hn
    split at hn <;> cases hn
    cases h
  have hpositive {cs : List Char} (hp : positive? cs = some (t, rest)) : False := by
    unfold positive? at hp
    split at hp <;> cases hp <;> cases h
  constructor
  · intro htoken
    unfold token? at htoken
    split at htoken
    case h_7 => exact (hstring htoken).elim
    case h_11 => exact (hnegative htoken).elim
    case h_12 => exact (hpositive htoken).elim
    all_goals cases htoken
    all_goals cases h
    all_goals rfl
  · rintro rfl
    cases t <;> cases h <;> rfl

theorem isBlank_delimiter : isBlank c = false := by
  cases t <;> cases h <;> rfl

theorem numeralEnds_delimiter (rest : List Char) : NumeralEnds (c :: rest) := by
  rw [numeralEnds_cons]
  cases t <;> cases h <;> decide

theorem Cuts.delimiter_cons {p : List Char} {ts : List Token} (hp : Cuts p ts) :
    Cuts (c :: p) (t :: ts) := by
  intro rest hrest done
  rw [List.cons_append, tokensAfter_of_token? (isBlank_delimiter h)
    ((token?_eq_some_iff_of_delimiter h).2 rfl), hp rest hrest, List.reverse_cons,
    List.append_assoc, List.singleton_append]

theorem Cuts.append_delimiter_cons {p q : List Char} {ts us : List Token} (hp : Cuts p ts)
    (hq : Cuts q us) : Cuts (p ++ c :: q) (ts ++ t :: us) :=
  hp.append (hq.delimiter_cons h) fun rest _ => numeralEnds_delimiter h (q ++ rest)

theorem exists_delimiter_of_tokensAfter {cs : List Char} {ts : List Token}
    (htokens : tokensAfter [] cs = t :: ts) :
    ∃ blanks rest, cs = blanks ++ c :: rest ∧ blanks.all isBlank = true ∧
      tokensAfter [] rest = ts := by
  have hvalid : t ≠ .invalid := by
    rintro rfl
    cases h
  obtain ⟨blanks, d, tail, rest, rfl, hblank, _, htoken, hrest⟩ :=
    exists_token_of_tokensAfter hvalid htokens
  rw [(token?_eq_some_iff_of_delimiter h).1 htoken]
  exact ⟨blanks, rest, rfl, hblank, hrest⟩

end

/-! ## Containers -/

theorem Cuts.tokens {p : List Char} {ts : List Token} (hp : Cuts p ts) :
    Json.tokens (String.ofList p) = ts := by
  have h := hp [] nofun []
  rw [List.append_nil, List.append_nil, tokensAfter, List.reverse_reverse] at h
  unfold Json.tokens
  rw [String.toList_ofList, h]

theorem Cuts.intercalate {pieces : List (List Char)} {tss : List (List Token)}
    (h : List.Forall₂ Cuts pieces tss) :
    Cuts ([','].intercalate pieces) ([.comma].intercalate tss) := by
  induction h with
  | nil => exact Cuts.nil
  | cons hp hps ih =>
    cases hps with
    | nil => simpa using hp
    | cons hq hqs =>
      rw [List.intercalate_cons_cons, List.intercalate_cons_cons, List.append_assoc,
        List.append_assoc]
      exact hp.append_delimiter_cons rfl ih

theorem all_isBlank_of_tokensAfter {cs : List Char} (h : tokensAfter [] cs = []) :
    cs.all isBlank = true := by
  induction cs with
  | nil => rfl
  | cons c cs ih =>
    by_cases hc : isBlank c = true
    · rw [tokensAfter, if_pos hc] at h
      rw [List.all_cons, hc, ih h]
      rfl
    · rw [Bool.not_eq_true] at hc
      cases htoken : token? (c :: cs) with
      | none =>
        rw [tokensAfter_of_token?_eq_none hc htoken] at h
        cases h
      | some front =>
        rw [tokensAfter_of_token? hc htoken, tokensAfter_singleton] at h
        cases h

/-- The pieces up to the end of a container. -/
theorem exists_pieces {c : Char} {t : Token} (hc : t.delimiter? = some c) {ts : List Token}
    {tss : List (List Token)} (hvalid : ∀ us ∈ ts :: tss, .invalid ∉ us)
    {cs : List Char} (h : tokensAfter [] cs = [.comma].intercalate (ts :: tss) ++ [t]) :
    ∃ pieces after, List.Forall₂ Cuts pieces (ts :: tss) ∧
      cs = [','].intercalate pieces ++ c :: after ∧ after.all isBlank = true := by
  induction tss generalizing ts cs with
  | nil =>
    rw [List.intercalate_singleton] at h
    obtain ⟨piece, rest, rfl, hpiece, hrest⟩ := exists_cuts (hvalid ts List.mem_cons_self) h
    obtain ⟨blanks, after, rfl, hblank, hafter⟩ := exists_delimiter_of_tokensAfter hc hrest
    refine ⟨[piece ++ blanks], after, .cons (hpiece.append_blanks hblank) .nil, ?_,
      all_isBlank_of_tokensAfter hafter⟩
    rw [List.intercalate_singleton, List.append_assoc]
  | cons us tss ih =>
    rw [List.intercalate_cons_cons, List.append_assoc, List.append_assoc] at h
    obtain ⟨piece, rest, rfl, hpiece, hrest⟩ := exists_cuts (hvalid ts List.mem_cons_self) h
    obtain ⟨blanks, rest, rfl, hblank, hrest⟩ := exists_delimiter_of_tokensAfter rfl hrest
    obtain ⟨pieces, after, hpieces, rfl, hafter⟩ :=
      ih (fun us hus => hvalid us (List.mem_cons_of_mem ts hus)) hrest
    refine ⟨(piece ++ blanks) :: pieces, after, .cons (hpiece.append_blanks hblank) hpieces, ?_,
      hafter⟩
    cases hpieces with
    | cons _ _ =>
      rw [List.intercalate_cons_cons]
      simp only [List.append_assoc, List.cons_append, List.nil_append]

/-- What may stand around the pieces of a container, beside its delimiters. -/
structure Margins where
  before : List Char
  inside : List Char
  after : List Char

/-- Nothing but blanks. -/
structure Margins.IsBlank (margins : Margins) : Prop where
  before : margins.before.all isBlank = true
  inside : margins.inside.all isBlank = true
  after : margins.after.all isBlank = true

/-- The text of a container: its pieces with commas between them, inside the delimiters. -/
def Margins.enclose (margins : Margins) (opening closing : Char) (pieces : List (List Char)) :
    List Char :=
  margins.before ++ opening :: (margins.inside ++ ([','].intercalate pieces ++
    closing :: margins.after))

theorem tokens_eq_iff {c c' : Char} {t u : Token} (hc : t.delimiter? = some c)
    (hc' : u.delimiter? = some c') {tss : List (List Token)}
    (hvalid : ∀ ts ∈ tss, .invalid ∉ ts) {text : String} :
    Json.tokens text = t :: ([.comma].intercalate tss ++ [u]) ↔
      ∃ (margins : Margins) (pieces : List (List Char)), margins.IsBlank ∧
        List.Forall₂ Cuts pieces tss ∧ text = String.ofList (margins.enclose c c' pieces) := by
  constructor
  · intro h
    unfold Json.tokens at h
    obtain ⟨before, rest, htext, hbefore, hrest⟩ := exists_delimiter_of_tokensAfter hc h
    rw [← String.ofList_toList (s := text), htext]
    cases tss with
    | nil =>
      obtain ⟨inside, after, rfl, hinside, hafter⟩ := exists_delimiter_of_tokensAfter hc' hrest
      exact ⟨⟨before, inside, after⟩, [],
        ⟨hbefore, hinside, all_isBlank_of_tokensAfter hafter⟩, .nil, rfl⟩
    | cons ts tss =>
      obtain ⟨pieces, after, hpieces, rfl, hafter⟩ := exists_pieces hc' hvalid hrest
      exact ⟨⟨before, [], after⟩, pieces, ⟨hbefore, rfl, hafter⟩, hpieces, rfl⟩
  · rintro ⟨margins, pieces, hblank, hpieces, rfl⟩
    have hinner := (Cuts.intercalate hpieces).append_delimiter_cons hc'
      (Cuts.of_blanks hblank.after)
    have houter := (hinner.blanks_append hblank.inside).delimiter_cons hc
    exact (houter.blanks_append hblank.before).tokens

end ChunkedTree.Json
