/-
  Arithmetic with its limits made visible.

  Depths, capacities and hints are 64-bit words; node indexes and chunk numbers are exact.
  Every computation that could leave a word, go below zero, divide by zero or be asked outside
  its domain returns a `Checked` value, so that "this always succeeds" is a statement about the
  definitions and not a remark.
-/

namespace ChunkedTree

/-- The largest depth, count or capacity that fits a machine word. -/
def maxWord : Nat := UInt64.size - 1

/-- What a caller has to guarantee before asking. -/
inductive Precondition where
  /-- The branching factor is 4 or 8. -/
  | branching
  /-- There is a chunked region. -/
  | coldRegion
  /-- The node `index` is deep enough to be chunked. -/
  | chunked (index : Nat)
  /-- Chunk `number` lies at a depth that fits a word. -/
  | wordDepth (number : Nat)
deriving DecidableEq, Repr

/-- What is reported when the precondition does not hold; the branching factor goes unreported. -/
def Precondition.message : Precondition → Option String
  | .branching => none
  | .coldRegion => some "chunk lookup without a cold region"
  | .chunked index => some s!"index {index} is not chunked"
  | .wordDepth number => some s!"chunk {number} is past u64 depths"

/-- Why a computation has no answer. -/
inductive Fault where
  /-- A precondition does not hold. -/
  | precondition (broken : Precondition)
  /-- A result does not fit a word, or lies below zero. -/
  | overflow
  | divisionByZero
deriving DecidableEq, Repr

/-- The result of a computation that may fault. -/
abbrev Checked (α : Type) := Except Fault α

namespace Checked

/-- Go on only if `p` holds, else report it as broken. -/
def require (p : Bool) (broken : Precondition) : Checked Unit :=
  if p then .ok () else .error (.precondition broken)

/-- A result that has to fit a word. -/
def word (n : Nat) : Checked Nat :=
  if n ≤ maxWord then .ok n else .error .overflow

/-- The difference `a - b`, which must not lie below zero. -/
def sub (a b : Nat) : Checked Nat :=
  if b ≤ a then .ok (a - b) else .error .overflow

/-- The floored quotient `a / b`. -/
def div (a b : Nat) : Checked Nat :=
  if b = 0 then .error .divisionByZero else .ok (a / b)

/-- Quotient and remainder of `a` by `b`. -/
def divMod (a b : Nat) : Checked (Nat × Nat) :=
  if b = 0 then .error .divisionByZero else .ok (a / b, a % b)

/-! ## When each step succeeds -/

theorem require_eq_ok_iff {p : Bool} {broken : Precondition} {u : Unit} :
    require p broken = .ok u ↔ p = true := by
  cases p <;> simp [require]

theorem word_eq_ok_iff {n m : Nat} : word n = .ok m ↔ n ≤ maxWord ∧ n = m := by
  unfold word
  split
  · next h => simp [h]
  · next h => simp [h]

theorem word_of_le {n : Nat} (h : n ≤ maxWord) : word n = .ok n := by
  simp [word, h]

theorem sub_of_le {a b : Nat} (h : b ≤ a) : sub a b = .ok (a - b) := by
  simp [sub, h]

theorem div_of_pos {a b : Nat} (h : 0 < b) : div a b = .ok (a / b) := by
  simp [div, Nat.ne_of_gt h]

theorem div_eq_ok_iff {a b n : Nat} : div a b = .ok n ↔ 0 < b ∧ a / b = n := by
  unfold div
  split
  · next h => simp [h]
  · next h => simp [Nat.pos_of_ne_zero h]

theorem divMod_of_pos {a b : Nat} (h : 0 < b) : divMod a b = .ok (a / b, a % b) := by
  simp [divMod, Nat.ne_of_gt h]

end Checked

/-! ## Refusals beside faults -/

/-- Why an operation with errors of its own, of type `ε`, has no answer. -/
inductive Failure (ε : Type) where
  /-- The operation refused its input for a stated reason. -/
  | refused (reason : ε)
  /-- The computation itself faulted. -/
  | fault (f : Fault)
deriving DecidableEq, Repr

/-- A checked result inside an operation that may also refuse. -/
def Checked.orFault {ε α : Type} : Checked α → Except (Failure ε) α
  | .ok a => .ok a
  | .error f => .error (.fault f)

/-- Refuse with `reason` unless `p` holds. -/
def Failure.unless {ε : Type} (p : Bool) (reason : ε) : Except (Failure ε) Unit :=
  if p then .ok () else .error (.refused reason)

theorem Checked.orFault_eq_ok_iff {ε α : Type} {x : Checked α} {a : α} :
    (x.orFault : Except (Failure ε) α) = .ok a ↔ x = .ok a := by
  cases x <;> simp [orFault]

theorem Failure.unless_eq_ok_iff {ε : Type} {p : Bool} {reason : ε} {u : Unit} :
    Failure.unless p reason = .ok u ↔ p = true := by
  cases p <;> simp [Failure.unless]

theorem Failure.unless_of {ε : Type} {p : Bool} {reason : ε} (h : p = true) :
    Failure.unless p reason = .ok () :=
  Failure.unless_eq_ok_iff.2 h

/-! ## Steps in sequence -/

theorem ok_bind {ε α β : Type} (a : α) (f : α → Except ε β) : (Except.ok a >>= f) = f a := rfl

theorem bind_eq_ok_iff {ε α β : Type} {x : Except ε α} {f : α → Except ε β} {b : β} :
    (x >>= f) = .ok b ↔ ∃ a, x = .ok a ∧ f a = .ok b := by
  cases x with
  | error e => simp [bind, Except.bind]
  | ok a => simp [bind, Except.bind]

theorem pure_eq_ok_iff {ε α : Type} {a b : α} : (pure a : Except ε α) = .ok b ↔ a = b := by
  simp [pure, Except.pure]

theorem mapError_eq_ok_iff {ε δ α : Type} {f : ε → δ} {x : Except ε α} {a : α} :
    x.mapError f = .ok a ↔ x = .ok a := by
  cases x with
  | ok b =>
    change Except.ok b = .ok a ↔ _
    rw [Except.ok.injEq, Except.ok.injEq]
  | error cause => exact ⟨nofun, nofun⟩

theorem mapError_eq_error_iff {ε δ α : Type} {f : ε → δ} {x : Except ε α} {e : δ} :
    x.mapError f = .error e ↔ ∃ cause, x = .error cause ∧ f cause = e := by
  cases x with
  | ok a => exact ⟨nofun, nofun⟩
  | error cause =>
    change Except.error (f cause) = .error e ↔ _
    simp only [Except.error.injEq, exists_eq_left']

/-- A step for each element, where all that fail fail alike, fails if one of them does. -/
theorem mapM_eq_ite {ε α β : Type} {p : α → Prop} [DecidablePred p] {f : α → Except ε β}
    {answer : α → β} {e : ε} (hf : ∀ a, f a = if p a then .ok (answer a) else .error e)
    (as : List α) : as.mapM f = if ∀ a ∈ as, p a then .ok (as.map answer) else .error e := by
  induction as with
  | nil => rfl
  | cons a as ih =>
    rw [List.mapM_cons, hf, ih]
    by_cases ha : p a
    · rw [if_pos ha, ok_bind]
      by_cases has : ∀ b ∈ as, p b
      · rw [if_pos has, if_pos (List.forall_mem_cons.2 ⟨ha, has⟩)]
        rfl
      · rw [if_neg has, if_neg (fun h => has (List.forall_mem_cons.1 h).2)]
        rfl
    · rw [if_neg ha, if_neg (fun h => ha (List.forall_mem_cons.1 h).1)]
      rfl

theorem mapM_eq_ok {ε α β : Type} {f : α → Except ε β} {answer : α → β} {as : List α}
    (hf : ∀ a ∈ as, f a = .ok (answer a)) : as.mapM f = .ok (as.map answer) := by
  induction as with
  | nil => rfl
  | cons a as ih =>
    obtain ⟨ha, has⟩ := List.forall_mem_cons.1 hf
    rw [List.mapM_cons, ha, ok_bind, ih has]
    rfl

theorem foldlM_eq_ok {ε α σ : Type} {step : σ → α → Except ε σ} {next : σ → α → σ} {as : List α}
    (hstep : ∀ a ∈ as, ∀ s, step s a = .ok (next s a)) (s : σ) :
    as.foldlM step s = .ok (as.foldl next s) := by
  induction as generalizing s with
  | nil => rfl
  | cons a as ih =>
    obtain ⟨ha, has⟩ := List.forall_mem_cons.1 hstep
    rw [List.foldlM_cons, ha, ok_bind, ih has]
    rfl

/-- A check that is made only if `p` holds. -/
theorem ite_bind_eq_ok_iff {ε β : Type} {p : Prop} [Decidable p] {check : Except ε Unit}
    {rest : Except ε β} {b : β} :
    (if p then check >>= fun _ => rest else rest) = .ok b ↔
      (p → check = .ok ()) ∧ rest = .ok b := by
  split
  · next h =>
    rw [bind_eq_ok_iff]
    exact ⟨fun ⟨_, hcheck, hrest⟩ => ⟨fun _ => hcheck, hrest⟩,
      fun ⟨hcheck, hrest⟩ => ⟨(), hcheck h, hrest⟩⟩
  · next h => simp [h]

end ChunkedTree
