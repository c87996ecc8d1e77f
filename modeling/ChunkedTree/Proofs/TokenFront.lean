/-
  The token at the front of a text.

  What follows a token has no say in it, but for the first character: a numeral goes on as long as
  it can. So the token stays the same if something else follows that ends numerals (`NumeralEnds`)
  or that starts alike (`Replaces`). Every scanner on the way to a token has this property
  (`TakesFront`), and so has `token?` itself (`token?_takesFront`).
-/
import ChunkedTree.Json.Token
import Mathlib.Data.List.Basic

namespace ChunkedTree.Json

/-! ## What follows a token -/

/-- The text does not go on with a numeral that ends before it. -/
def NumeralEnds (rest : List Char) : Prop :=
  ∀ c ∈ rest.head?, c.isDigit = false ∧ c ≠ '.' ∧ c ≠ 'e' ∧ c ≠ 'E'

theorem numeralEnds_cons {c : Char} {rest : List Char} : NumeralEnds (c :: rest) ↔
    c.isDigit = false ∧ c ≠ '.' ∧ c ≠ 'e' ∧ c ≠ 'E' := by
  simp [NumeralEnds]

theorem numeralEnds_of_isBlank {c : Char} (h : isBlank c = true) (rest : List Char) :
    NumeralEnds (c :: rest) := by
  rw [numeralEnds_cons]
  simp only [isBlank, Bool.or_eq_true, beq_iff_eq] at h
  obtain ((rfl | rfl) | rfl) | rfl := h
  all_goals decide

/-- Behind a token `rest'` may stand in place of `rest`: it ends numerals, or it starts alike. -/
def Replaces (rest' rest : List Char) : Prop :=
  NumeralEnds rest' ∨ rest'.head? = rest.head?

theorem Replaces.append {rest' rest : List Char} (h : Replaces rest' rest) (lex : List Char) :
    Replaces (lex ++ rest') (lex ++ rest) := by
  cases lex with
  | nil => exact h
  | cons c lex => exact Or.inr rfl

/-- What is true of the next character and of all that end numerals is true after replacing. -/
theorem Replaces.head {rest' rest : List Char} (h : Replaces rest' rest) {p : Char → Prop}
    (hends : ∀ c, c.isDigit = false ∧ c ≠ '.' ∧ c ≠ 'e' ∧ c ≠ 'E' → p c)
    (hrest : ∀ c ∈ rest.head?, p c) : ∀ c ∈ rest'.head?, p c := by
  rcases h with h | h
  · exact fun c hc => hends c (h c hc)
  · rwa [h]

/-- What `scan` takes off the front of a text does not depend on what follows. -/
def TakesFront {α : Type} (scan : List Char → Option (α × List Char)) : Prop :=
  ∀ {cs rest : List Char} {a : α}, scan cs = some (a, rest) → ∃ lex, cs = lex ++ rest ∧
    ∀ rest', Replaces rest' rest → scan (lex ++ rest') = some (a, rest')

/-! ## String literals -/

theorem exists_front_of_pieces? {cs rest : List Char} {done ps : List Piece}
    (h : pieces? cs done = some (ps, rest)) :
    ∃ lex, cs = lex ++ rest ∧ ∀ rest', pieces? (lex ++ rest') done = some (ps, rest') := by
  fun_induction pieces? cs done with
  | case1 rest done =>
    cases h
    exact ⟨['"'], rfl, fun rest' => by simp [pieces?]⟩
  | case2 a b c d cs done code hcode ih =>
    obtain ⟨lex, rfl, hlex⟩ := ih h
    exact ⟨'\\' :: 'u' :: a :: b :: c :: d :: lex, rfl, fun rest' => by
      simp [pieces?, hcode, hlex]⟩
  | case3 => cases h
  | case4 c cs done _ c' hc ih =>
    obtain ⟨lex, rfl, hlex⟩ := ih h
    have hunit : c ≠ 'u' := by
      rintro rfl
      cases hc
    exact ⟨'\\' :: c :: lex, rfl, fun rest' => by simp [pieces?, hunit, hc, hlex]⟩
  | case5 => cases h
  | case6 => cases h
  | case7 c cs done hquote _ _ hc ih =>
    obtain ⟨lex, rfl, hlex⟩ := ih h
    have hslash : c ≠ '\\' := by
      rintro rfl
      exact hc rfl
    refine ⟨c :: lex, rfl, fun rest' => ?_⟩
    rw [List.cons_append, pieces?, if_neg hc, hlex]
    · exact hquote
    · exact fun _ _ _ _ _ hcon => absurd hcon hslash
    · exact fun _ _ hcon => absurd hcon hslash
  | case8 => cases h

theorem string?_takesFront : TakesFront string? := by
  intro cs rest t h
  unfold string? at h
  split at h
  · next ps rest hps =>
    cases h
    obtain ⟨lex, rfl, hlex⟩ := exists_front_of_pieces? hps
    refine ⟨lex, rfl, fun rest' _ => ?_⟩
    unfold string?
    rw [hlex]
  · cases h

/-! ## Numerals at the front -/

/-- No digit stands at the front. -/
def DigitsEnd (rest : List Char) : Prop := ∀ c ∈ rest.head?, c.isDigit = false

theorem digits_append {ds rest : List Char} (hds : ∀ c ∈ ds, c.isDigit = true)
    (hrest : DigitsEnd rest) : digits (ds ++ rest) = ds ∧ afterDigits (ds ++ rest) = rest := by
  have hnone : rest.takeWhile Char.isDigit = [] ∧ rest.dropWhile Char.isDigit = rest := by
    cases rest with
    | nil => exact ⟨rfl, rfl⟩
    | cons c rest =>
      have hc : c.isDigit = false := hrest c rfl
      simp [hc]
  unfold digits afterDigits
  rw [List.takeWhile_append_of_pos hds, List.dropWhile_append_of_pos hds, hnone.1, hnone.2,
    List.append_nil]
  exact ⟨rfl, rfl⟩

theorem someDigits?_eq_some_iff {cs ds rest : List Char} : someDigits? cs = some (ds, rest) ↔
    cs = ds ++ rest ∧ ds ≠ [] ∧ (∀ c ∈ ds, c.isDigit = true) ∧ DigitsEnd rest := by
  unfold someDigits?
  constructor
  · intro h
    split at h
    · cases h
    · next hne =>
      cases h
      refine ⟨List.takeWhile_append_dropWhile.symm, hne,
        List.all_eq_true.1 List.all_takeWhile, fun c hc => ?_⟩
      have hfirst := List.head?_dropWhile_not Char.isDigit cs
      rw [show (cs.dropWhile Char.isDigit).head? = some c from hc] at hfirst
      exact hfirst
  · intro h
    obtain ⟨rfl, hne, hds, hrest⟩ := h
    obtain ⟨hdigits, hafter⟩ := digits_append hds hrest
    rw [hdigits, hafter, if_neg hne]

theorem someDigits?_takesFront : TakesFront someDigits? := by
  intro cs rest ds h
  obtain ⟨rfl, hne, hds, hrest⟩ := someDigits?_eq_some_iff.1 h
  exact ⟨ds, rfl, fun rest' hrep => someDigits?_eq_some_iff.2
    ⟨rfl, hne, hds, hrep.head (fun _ hc => hc.1) hrest⟩⟩

theorem whole?_eq_some_iff {cs ds rest : List Char} : whole? cs = some (ds, rest) ↔
    (ds.head? = some '0' → ds = ['0']) ∧ someDigits? cs = some (ds, rest) := by
  have hfront (h : someDigits? cs = some (ds, rest)) : cs.head? = ds.head? ∧ digits cs = ds := by
    obtain ⟨rfl, hne, hds, hrest⟩ := someDigits?_eq_some_iff.1 h
    exact ⟨List.head?_append_of_ne_nil _ hne, (digits_append hds hrest).1⟩
  unfold whole?
  constructor
  · intro h
    split at h
    · cases h
    · next hzero =>
      obtain ⟨hhead, hdigits⟩ := hfront h
      rw [hhead, hdigits, not_and, not_not] at hzero
      exact ⟨hzero, h⟩
  · intro h
    obtain ⟨hhead, hdigits⟩ := hfront h.2
    rw [hhead, hdigits, if_neg (fun hzero => hzero.2 (h.1 hzero.1)), h.2]

theorem whole?_takesFront : TakesFront whole? := by
  intro cs rest ds h
  obtain ⟨hzero, hds⟩ := whole?_eq_some_iff.1 h
  obtain ⟨lex, hlex, hfront⟩ := someDigits?_takesFront hds
  exact ⟨lex, hlex, fun rest' hrep => whole?_eq_some_iff.2 ⟨hzero, hfront rest' hrep⟩⟩

theorem fraction?_of_head {cs : List Char} (h : ∀ c ∈ cs.head?, c ≠ '.') :
    fraction? cs = some ([], cs) := by
  unfold fraction?
  split
  · exact absurd rfl (h '.' rfl)
  · rfl

theorem fraction?_takesFront : TakesFront fraction? := by
  intro cs rest fraction h
  unfold fraction? at h
  split at h
  · next cs =>
    obtain ⟨⟨ds, rest⟩, hds, hp⟩ := Option.map_eq_some_iff.1 h
    cases hp
    obtain ⟨lex, rfl, hlex⟩ := someDigits?_takesFront hds
    refine ⟨'.' :: lex, rfl, fun rest' hrep => ?_⟩
    rw [List.cons_append, fraction?, hlex rest' hrep]
    rfl
  · next hpoint =>
    cases h
    refine ⟨[], rfl, fun rest' hrep => fraction?_of_head (hrep.head (fun _ hc => hc.2.1) ?_)⟩
    rintro c hc rfl
    obtain ⟨tail, rfl⟩ := List.head?_eq_some_iff.1 hc
    exact hpoint tail rfl

theorem exponentSign_append (cs : List Char) :
    exponentSign cs ++ cs.drop (exponentSign cs).length = cs := by
  unfold exponentSign
  split <;> rfl

theorem exponentSign_of_head {cs cs' : List Char} (h : cs.head? = cs'.head?) :
    exponentSign cs = exponentSign cs' := by
  cases cs with
  | nil => rw [List.head?_eq_none_iff.1 h.symm]
  | cons c cs =>
    obtain ⟨tail, rfl⟩ := List.head?_eq_some_iff.1 h.symm
    by_cases hplus : c = '+'
    · subst hplus
      rfl
    · by_cases hminus : c = '-'
      · subst hminus
        rfl
      · simp [exponentSign, hplus, hminus]

theorem exponent?_of_head {cs : List Char} (h : ∀ c ∈ cs.head?, c ≠ 'e' ∧ c ≠ 'E') :
    exponent? cs = some ([], cs) := by
  cases cs with
  | nil => rfl
  | cons c cs =>
    obtain ⟨hlower, hupper⟩ := h c rfl
    simp [exponent?, hlower, hupper]

theorem exponent?_takesFront : TakesFront exponent? := by
  intro cs rest exponent h
  unfold exponent? at h
  split at h
  · next c cs =>
    split at h
    · next hc =>
      obtain ⟨⟨ds, rest⟩, hds, hp⟩ := Option.map_eq_some_iff.1 h
      cases hp
      obtain ⟨hcs, hne, hdigits, hend⟩ := someDigits?_eq_some_iff.1 hds
      have hsigned : cs = exponentSign cs ++ (ds ++ rest) := by
        rw [← hcs, exponentSign_append]
      refine ⟨c :: exponentSign cs ++ ds, ?_, fun rest' hrep => ?_⟩
      · rw [List.append_assoc, List.cons_append, ← hsigned]
      · have hhead (tail : List Char) : (exponentSign cs ++ (ds ++ tail)).head? =
            (exponentSign cs ++ ds).head? := by
          rw [← List.append_assoc]
          exact List.head?_append_of_ne_nil _ (List.append_ne_nil_of_right_ne_nil _ hne)
        have hsign : exponentSign (exponentSign cs ++ (ds ++ rest')) = exponentSign cs :=
          exponentSign_of_head
            ((hhead rest').trans ((hhead rest).symm.trans (congrArg List.head? hsigned.symm)))
        have hdigits' : someDigits? (ds ++ rest') = some (ds, rest') :=
          someDigits?_eq_some_iff.2 ⟨rfl, hne, hdigits, hrep.head (fun _ hc => hc.1) hend⟩
        rw [List.append_assoc, List.cons_append, exponent?, if_pos hc]
        simp only [hsign, List.drop_left, hdigits', Option.map_some]
    · next hc =>
      cases h
      refine ⟨[], rfl, fun rest' hrep => exponent?_of_head (hrep.head (fun _ hc => hc.2.2) ?_)⟩
      intro _ hfirst
      cases hfirst
      simpa using hc
  · cases h
    exact ⟨[], rfl, fun rest' hrep => exponent?_of_head (hrep.head (fun _ hc => hc.2.2) nofun)⟩

theorem unsigned?_takesFront : TakesFront unsigned? := by
  intro cs rest parts h
  unfold unsigned? at h
  split at h
  · cases h
  · next whole _ hwhole =>
    split at h
    · cases h
    · next fraction _ hfraction =>
      split at h
      · cases h
      · next exponent rest hexponent =>
        cases h
        obtain ⟨w, rfl, hw⟩ := whole?_takesFront hwhole
        obtain ⟨f, rfl, hf⟩ := fraction?_takesFront hfraction
        obtain ⟨e, rfl, he⟩ := exponent?_takesFront hexponent
        refine ⟨w ++ (f ++ e), by simp, fun rest' hrep => ?_⟩
        unfold unsigned?
        simp only [List.append_assoc, hw _ ((hrep.append e).append f), hf _ (hrep.append e),
          he _ hrep]

theorem positive?_takesFront : TakesFront positive? := by
  intro cs rest t h
  cases hparts : unsigned? cs with
  | none =>
    rw [positive?, hparts] at h
    cases h
  | some parts =>
    obtain ⟨⟨whole, tail⟩, rest⟩ := parts
    obtain ⟨lex, rfl, hlex⟩ := unsigned?_takesFront hparts
    rw [positive?, hparts] at h
    cases tail with
    | nil =>
      cases h
      exact ⟨lex, rfl, fun rest' hrep => by rw [positive?, hlex rest' hrep]⟩
    | cons c tail =>
      cases h
      exact ⟨lex, rfl, fun rest' hrep => by rw [positive?, hlex rest' hrep]⟩

theorem negative?_takesFront : TakesFront negative? := by
  intro cs rest t h
  unfold negative? at h
  split at h
  · next hparts =>
    cases h
    obtain ⟨lex, rfl, hlex⟩ := unsigned?_takesFront hparts
    refine ⟨lex, rfl, fun rest' hrep => ?_⟩
    unfold negative?
    rw [hlex rest' hrep]
  · cases h

/-- A text that starts with a digit starts with a numeral or with no token at all. -/
theorem token?_of_isDigit {d : Char} (h : d.isDigit = true) (cs : List Char) :
    token? (d :: cs) = positive? (d :: cs) := by
  unfold token?
  split
  case h_12 => rfl
  -- all other tokens start with a character that is no digit
  all_goals
    next heq =>
    cases heq
    exact absurd h (by decide)

/-- A numeral without a sign starts with a digit. -/
theorem exists_isDigit_of_positive? {cs rest : List Char} {t : Token}
    (h : positive? cs = some (t, rest)) : ∃ d tail, cs = d :: tail ∧ d.isDigit = true := by
  cases hwhole : whole? cs with
  | none =>
    rw [positive?, unsigned?, hwhole] at h
    cases h
  | some front =>
    obtain ⟨ds, behind⟩ := front
    obtain ⟨rfl, hne, hds, _⟩ := someDigits?_eq_some_iff.1 (whole?_eq_some_iff.1 hwhole).2
    obtain ⟨d, ds, rfl⟩ := List.exists_cons_of_ne_nil hne
    exact ⟨d, ds ++ behind, rfl, hds d List.mem_cons_self⟩

theorem token?_takesFront : TakesFront token? := by
  intro cs rest t h
  unfold token? at h
  split at h
  case h_7 cs =>
    obtain ⟨lex, rfl, hlex⟩ := string?_takesFront h
    exact ⟨'"' :: lex, rfl, hlex⟩
  case h_11 cs =>
    obtain ⟨lex, rfl, hlex⟩ := negative?_takesFront h
    exact ⟨'-' :: lex, rfl, hlex⟩
  case h_12 =>
    obtain ⟨lex, hlex, hfront⟩ := positive?_takesFront h
    refine ⟨lex, hlex, fun rest' hrep => ?_⟩
    have hnum := hfront rest' hrep
    obtain ⟨d, tail, hcs, hd⟩ := exists_isDigit_of_positive? hnum
    rw [hcs] at hnum ⊢
    rw [token?_of_isDigit hd, hnum]
  all_goals cases h
  case h_8 => exact ⟨['n', 'u', 'l', 'l'], rfl, fun _ _ => rfl⟩
  case h_9 => exact ⟨['t', 'r', 'u', 'e'], rfl, fun _ _ => rfl⟩
  case h_10 => exact ⟨['f', 'a', 'l', 's', 'e'], rfl, fun _ _ => rfl⟩
  all_goals exact ⟨[_], rfl, fun _ _ => rfl⟩

end ChunkedTree.Json
