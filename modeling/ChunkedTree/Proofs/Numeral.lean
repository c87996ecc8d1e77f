/-
  The numbers that arguments spell.

  A numeral is a digit, and grows at its end: behind it one more digit may stand, which makes all
  before it count ten times, or a character that counts for nothing (`Numeral`). An index may have
  underscores between and behind its digits, a word has nothing but digits; before either there may
  stand one plus sign. Arguments are read as just these numbers (`index?_eq_some_iff`,
  `word?_eq_some_iff`).
-/
import ChunkedTree.CommandLine
import Mathlib.Algebra.Group.Nat.Defs
import Mathlib.Data.List.Induction

namespace ChunkedTree.CommandLine

/-! ## Numerals -/

/-- What a digit counts. -/
def digitValue (d : Char) : Nat := d.toNat - '0'.toNat

/-- The text spells the number in decimal digits; the characters `gaps` count for nothing, but none
    of them stands in front. -/
inductive Numeral (gaps : List Char) : List Char → Nat → Prop where
  | digit {d : Char} (hd : d.isDigit = true) : Numeral gaps [d] (digitValue d)
  | next {cs : List Char} {n : Nat} {d : Char} (hcs : Numeral gaps cs n) (hd : d.isDigit = true) :
    Numeral gaps (cs ++ [d]) (10 * n + digitValue d)
  | gap {cs : List Char} {n : Nat} {c : Char} (hcs : Numeral gaps cs n) (hc : c ∈ gaps) :
    Numeral gaps (cs ++ [c]) n

/-- The argument spells the number, perhaps behind a plus sign. -/
def Spells (gaps : List Char) (arg : String) (n : Nat) : Prop :=
  ∃ cs, (arg.toList = cs ∨ arg.toList = '+' :: cs) ∧ Numeral gaps cs n

/-- The argument spells a node index. -/
def SpellsIndex (arg : String) (i : Nat) : Prop := Spells ['_'] arg i

/-- The argument spells a word. -/
def SpellsWord (arg : String) (n : Nat) : Prop := Spells [] arg n ∧ n ≤ maxWord

variable {gaps cs : List Char} {n : Nat} {arg : String}

theorem digitValue_lt {d : Char} (hd : d.isDigit = true) : digitValue d < 10 := by
  have hrange := (Char.isDigit_iff_toNat.1 hd).2
  exact Nat.lt_of_le_of_lt (Nat.sub_le_sub_right hrange _) (by decide)

theorem Numeral.exists_digit_cons (h : Numeral gaps cs n) :
    ∃ d ds, cs = d :: ds ∧ d.isDigit = true := by
  induction h with
  | digit hd => exact ⟨_, [], rfl, hd⟩
  | next _ _ ih =>
    obtain ⟨d, ds, rfl, hd⟩ := ih
    exact ⟨d, _, rfl, hd⟩
  | gap _ _ ih =>
    obtain ⟨d, ds, rfl, hd⟩ := ih
    exact ⟨d, _, rfl, hd⟩

theorem Numeral.lt (h : Numeral gaps cs n) : n < 10 ^ cs.length := by
  induction h with
  | digit hd => exact digitValue_lt hd
  | @next cs n d _ hd ih =>
    have hvalue := digitValue_lt hd
    rw [List.length_append, List.length_singleton, Nat.pow_succ]
    omega
  | @gap cs n c _ _ ih =>
    rw [List.length_append, List.length_singleton, Nat.pow_succ]
    omega

theorem Spells.lt (h : Spells gaps arg n) : n < 10 ^ arg.length := by
  obtain ⟨cs, htext, hcs⟩ := h
  have hlength : cs.length ≤ arg.length := by
    rw [← String.length_toList]
    rcases htext with h | h <;> simp [h]
  exact Nat.lt_of_lt_of_le hcs.lt (Nat.pow_le_pow_right (by decide) hlength)

/-! ## Reading digits -/

theorem ofDigits_append_singleton (cs : List Char) (d : Char) :
    Json.ofDigits (cs ++ [d]) = 10 * Json.ofDigits cs + digitValue d := by
  unfold Json.ofDigits digitValue
  rw [List.foldl_append, List.foldl_cons, List.foldl_nil, Nat.mul_comm]

theorem decimal?_eq_some_iff : decimal? cs = some n ↔
    cs ≠ [] ∧ (∀ c ∈ cs, c.isDigit = true) ∧ Json.ofDigits cs = n := by
  unfold decimal?
  simp [and_assoc]

/-- A last digit stands alone, or behind others that count ten times. -/
theorem decimal?_append_singleton {d : Char} : decimal? (cs ++ [d]) = some n ↔
    d.isDigit = true ∧ (cs = [] ∧ digitValue d = n ∨
      ∃ m, decimal? cs = some m ∧ 10 * m + digitValue d = n) := by
  rw [decimal?_eq_some_iff, ofDigits_append_singleton, List.forall_mem_append,
    List.forall_mem_singleton]
  simp only [decimal?_eq_some_iff]
  constructor
  · rintro ⟨_, ⟨hcs, hd⟩, rfl⟩
    refine ⟨hd, ?_⟩
    by_cases hnil : cs = []
    · subst hnil
      exact Or.inl ⟨rfl, (Nat.zero_add _).symm⟩
    · exact Or.inr ⟨_, ⟨hnil, hcs, rfl⟩, rfl⟩
  · rintro ⟨hd, ⟨rfl, rfl⟩ | ⟨_, ⟨_, hcs, rfl⟩, rfl⟩⟩
    · exact ⟨nofun, ⟨nofun, hd⟩, Nat.zero_add _⟩
    · exact ⟨List.concat_ne_nil _ _, ⟨hcs, hd⟩, rfl⟩

/-- The characters that do not count for nothing. -/
def significant (gaps cs : List Char) : List Char := cs.filter fun c => !gaps.contains c

theorem significant_append_of_mem {c : Char} (h : c ∈ gaps) (cs : List Char) :
    significant gaps (cs ++ [c]) = significant gaps cs := by
  simp [significant, h]

theorem significant_append_of_not_mem {c : Char} (h : c ∉ gaps) (cs : List Char) :
    significant gaps (cs ++ [c]) = significant gaps cs ++ [c] := by
  simp [significant, h]

/-- A numeral is read as what it spells, once the characters that count for nothing are left out. -/
theorem numeral_iff (hgaps : ∀ c ∈ gaps, c.isDigit = false) : Numeral gaps cs n ↔
    (∀ c ∈ cs.head?, c ∉ gaps) ∧ decimal? (significant gaps cs) = some n := by
  have hdigit {d : Char} (hd : d.isDigit = true) : d ∉ gaps := by
    intro hcon
    rw [hgaps d hcon] at hd
    cases hd
  constructor
  · intro h
    constructor
    · obtain ⟨d, ds, rfl, hd⟩ := h.exists_digit_cons
      rintro c ⟨⟩
      exact hdigit hd
    · induction h with
      | digit hd =>
        rw [← List.nil_append [_], significant_append_of_not_mem (hdigit hd)]
        exact decimal?_append_singleton.2 ⟨hd, Or.inl ⟨rfl, rfl⟩⟩
      | next _ hd ih =>
        rw [significant_append_of_not_mem (hdigit hd)]
        exact decimal?_append_singleton.2 ⟨hd, Or.inr ⟨_, ih, rfl⟩⟩
      | gap _ hc ih => rwa [significant_append_of_mem hc]
  · rintro ⟨hhead, hread⟩
    -- a numeral grows at its end, so the induction takes off the last character
    induction cs using List.reverseRecOn generalizing n with
    | nil => cases hread
    | append_singleton cs c ih =>
      have hfront : ∀ c ∈ cs.head?, c ∉ gaps := by
        cases cs with
        | nil => exact nofun
        | cons _ _ => exact hhead
      by_cases hc : c ∈ gaps
      · rw [significant_append_of_mem hc] at hread
        exact .gap (ih hfront hread) hc
      · rw [significant_append_of_not_mem hc, decimal?_append_singleton] at hread
        obtain ⟨hd, ⟨hnil, rfl⟩ | ⟨m, hm, rfl⟩⟩ := hread
        · cases cs with
          | nil => exact .digit hd
          | cons a cs => simp [significant, hfront a rfl] at hnil
        · exact .next (ih hfront hm) hd

/-! ## Reading arguments -/

/-- The argument without a plus sign in front. -/
def unsigned (arg : String) : List Char :=
  match arg.toList with
  | '+' :: cs => cs
  | cs => cs

/-- A numeral does not begin with a plus sign, so one in front of it is no part of it. -/
theorem spells_iff : Spells gaps arg n ↔ Numeral gaps (unsigned arg) n := by
  have hplus {cs : List Char} : ¬ Numeral gaps ('+' :: cs) n := by
    intro h
    obtain ⟨d, ds, hd, hdigit⟩ := h.exists_digit_cons
    cases hd
    cases hdigit
  unfold Spells unsigned
  constructor
  · rintro ⟨cs, htext | htext, hcs⟩
    · rw [htext]
      split
      · exact absurd hcs hplus
      · exact hcs
    · rw [htext]
      exact hcs
  · split
    · next cs heq => exact fun h => ⟨cs, Or.inr heq, h⟩
    · exact fun h => ⟨_, Or.inl rfl, h⟩

/-- **Indexes in arguments.** An argument is read as a node index exactly if it spells one, and as
    the one that it spells. -/
theorem index?_eq_some_iff {i : Nat} : index? arg = some i ↔ SpellsIndex arg i := by
  have hhead : (unsigned arg).head? = some '_' ↔
      ¬ ∀ c ∈ (unsigned arg).head?, c ∉ ['_'] := by
    cases (unsigned arg).head? <;> simp
  have hfilter : (unsigned arg).filter (· != '_') = significant ['_'] (unsigned arg) := by
    simp [significant, bne, Bool.beq_eq_decide_eq]
  unfold SpellsIndex
  rw [spells_iff, numeral_iff (List.forall_mem_singleton.2 rfl)]
  change (if ((unsigned arg).head? == some '_') = true then none
    else decimal? ((unsigned arg).filter (· != '_'))) = some i ↔ _
  rw [hfilter]
  by_cases h : (unsigned arg).head? = some '_'
  · rw [if_pos (beq_iff_eq.2 h)]
    exact iff_of_false nofun fun hcon => hhead.1 h hcon.1
  · rw [if_neg (mt beq_iff_eq.1 h)]
    exact (and_iff_right (not_not.1 (mt hhead.2 h))).symm

/-- **Words in arguments.** An argument is read as a word exactly if it spells one, and as the one
    that it spells. -/
theorem word?_eq_some_iff : word? arg = some n ↔ SpellsWord arg n := by
  have hword : word? arg = (decimal? (unsigned arg)).filter (· ≤ maxWord) := by
    unfold word?
    extract_lets digits
    change _ = (decimal? digits).filter _
    cases decimal? digits with
    | none => rfl
    | some n => simp [Option.filter_some]
  have hall : significant [] (unsigned arg) = unsigned arg := by simp [significant]
  unfold SpellsWord
  rw [spells_iff, numeral_iff (List.forall_mem_nil _), hall, hword, Option.filter_eq_some_iff,
    decide_eq_true_iff, and_iff_right (fun _ _ => List.not_mem_nil)]

end ChunkedTree.CommandLine
