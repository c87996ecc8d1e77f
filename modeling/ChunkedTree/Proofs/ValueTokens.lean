/-
  Values as tokens.

  Once a text is cut into tokens a value has a single spelling, `Value.tokens`. The reader is a
  pushdown machine, and both laws about it speak of the containers that are open around a value. It
  reads the tokens of a value as that value, whatever is open (`Value.run_tokens`). And its state
  spells what it has consumed: each step adds the token it takes (`State.consumed_of_step`), so a
  whole run has consumed the tokens of the value that it ends with (`State.consumed_of_run`).
  Together: tokens are read as a value exactly if they are its tokens (`ofTokens?_eq_some_iff`).
-/
import ChunkedTree.Json.Reader
import Mathlib.Data.List.Basic

namespace ChunkedTree.Json

/-! ## Lists with separators -/

theorem intercalate_map_cons {α β : Type} (f : α → List β) (sep : β) (x : α) (xs : List α) :
    [sep].intercalate ((x :: xs).map f) = f x ++ xs.flatMap fun y => sep :: f y := by
  induction xs generalizing x with
  | nil => simp
  | cons y ys ih =>
    rw [List.map_cons, List.map_cons, List.intercalate_cons_cons, ← List.map_cons, ih,
      List.flatMap_cons, List.append_assoc, List.singleton_append, List.cons_append]

theorem intercalate_map_concat {α β : Type} (f : α → List β) (sep : β) (xs : List α) (x : α) :
    [sep].intercalate ((xs ++ [x]).map f) = xs.flatMap (fun y => f y ++ [sep]) ++ f x := by
  induction xs with
  | nil => simp
  | cons y ys ih =>
    rw [List.cons_append, List.map_cons]
    cases hne : (ys ++ [x]).map f with
    | nil => simp at hne
    | cons z zs =>
      rw [List.intercalate_cons_cons, ← hne, ih]
      simp

theorem not_mem_intercalate_map {α β : Type} {f : α → List β} {sep y : β} {xs : List α}
    (hsep : y ≠ sep) (h : ∀ x ∈ xs, y ∉ f x) : y ∉ [sep].intercalate (xs.map f) := by
  cases xs with
  | nil => exact List.not_mem_nil
  | cons x xs =>
    obtain ⟨hx, hxs⟩ := List.forall_mem_cons.1 h
    rw [intercalate_map_cons]
    simp only [List.mem_append, List.mem_flatMap, List.mem_cons, not_or, not_exists, not_and]
    exact ⟨hx, fun z hz => ⟨hsep, hxs z hz⟩⟩

/-! ## The tokens of a value -/

/-- The tokens that spell a value. -/
def Value.tokens : Value → List Token
  | .null => [.null]
  | .bool b => [.bool b]
  | .natural n => [.natural n]
  | .numeral literal => [.numeral literal]
  | .string text => [.string text]
  | .array items =>
    .openBracket :: [.comma].intercalate (items.map fun v => v.tokens) ++ [.closeBracket]
  | .object members =>
    .openBrace :: [.comma].intercalate (members.map fun m => .string m.1 :: .colon :: m.2.tokens) ++
      [.closeBrace]
termination_by v => sizeOf v
decreasing_by
  · next h =>
    have := List.sizeOf_lt_of_mem h
    simp only [Value.array.sizeOf_spec]
    omega
  · next h =>
    have := List.sizeOf_lt_of_mem h
    cases m
    simp only [Value.object.sizeOf_spec, Prod.mk.sizeOf_spec] at *
    omega

/-- The tokens that spell a member. -/
def namedTokens (m : Text × Value) : List Token := .string m.1 :: .colon :: m.2.tokens

theorem Value.tokens_array (items : List Value) : (Value.array items).tokens =
    .openBracket :: [.comma].intercalate (items.map Value.tokens) ++ [.closeBracket] := by
  rw [Value.tokens]

theorem Value.tokens_object (members : List (Text × Value)) : (Value.object members).tokens =
    .openBrace :: [.comma].intercalate (members.map namedTokens) ++ [.closeBrace] := by
  rw [Value.tokens]
  rfl

theorem Value.tokens_of_scalar? {t : Token} {v : Value} (h : t.scalar? = some v) :
    v.tokens = [t] := by
  cases t <;> simp only [Token.scalar?, Option.some.injEq, reduceCtorEq] at h
  all_goals
    subst h
    rw [Value.tokens]

/-- A value is spelled by valid tokens alone. -/
theorem Value.invalid_not_mem_tokens (v : Value) : .invalid ∉ v.tokens := by
  induction v using Value.tokens.induct with
  | case6 items ih =>
    rw [Value.tokens_array]
    simp only [List.cons_append, List.mem_cons, List.mem_append, reduceCtorEq, List.not_mem_nil,
      or_false, false_or]
    exact not_mem_intercalate_map nofun ih
  | case7 members ih =>
    rw [Value.tokens_object]
    simp only [List.cons_append, List.mem_cons, List.mem_append, reduceCtorEq, List.not_mem_nil,
      or_false, false_or]
    refine not_mem_intercalate_map nofun fun m hm => ?_
    simpa [namedTokens] using ih m hm
  | _ => rw [Value.tokens]; simp

theorem invalid_not_mem_namedTokens (m : Text × Value) : .invalid ∉ namedTokens m := by
  simpa [namedTokens] using m.2.invalid_not_mem_tokens

theorem Value.exists_tokens_eq_cons (v : Value) :
    ∃ t ts, v.tokens = t :: ts ∧ t ≠ .closeBracket := by
  cases v <;> rw [Value.tokens] <;> exact ⟨_, _, rfl, nofun⟩

/-! ## Reading the tokens of a value -/

theorem State.run_of_step {s s' : State} {t : Token} (h : s.step t = some s') (ts : List Token) :
    s.run (t :: ts) = s'.run ts := by
  cases s with
  | complete v => simp [State.step] at h
  | _ => simp [State.run, h]

/-- The reader reads the tokens of `v` as `v`, whatever is open around it and whatever follows. -/
def Value.ReadsBack (v : Value) : Prop :=
  ∀ around ts, State.run (.value around) (v.tokens ++ ts) = State.run (.after v around) ts

/-- Unless it is the end of the array, the first item is read as any other one. -/
theorem State.run_firstItem {t : Token} (h : t ≠ .closeBracket) (around : List Frame)
    (ts : List Token) : State.run (.firstItem around) (t :: ts) =
      State.run (.value (.array [] :: around)) (t :: ts) := by
  cases t with
  | closeBracket => exact absurd rfl h
  | _ => rfl

/-- The items after the one that ends with `last`, and the end of the array. Those before it wait in
    the frame in reverse. -/
theorem State.run_items {items : List Value} (h : ∀ v ∈ items, v.ReadsBack) (around : List Frame)
    (ts : List Token) : ∀ (done : List Value) (last : Value),
      State.run (.separator last (.array done) around)
          ((items.flatMap fun v => .comma :: v.tokens) ++ .closeBracket :: ts) =
        State.run (.after (.array ((last :: done).reverse ++ items)) around) ts := by
  induction items with
  | nil =>
    intro done last
    rw [List.flatMap_nil, List.nil_append, State.run_of_step rfl, List.append_nil]
  | cons v items ih =>
    intro done last
    obtain ⟨hv, hitems⟩ := List.forall_mem_cons.1 h
    rw [List.flatMap_cons, List.cons_append, List.cons_append, List.append_assoc,
      State.run_of_step rfl, hv, State.after, ih hitems, List.reverse_cons, List.append_assoc,
      List.singleton_append]

/-- A member, from where its name is expected. -/
theorem State.run_member {s : State} {around : List Frame} {done : List (Text × Value)}
    {m : Text × Value} (hm : m.2.ReadsBack)
    (hname : s.step (.string m.1) = some (.colon around done m.1)) (ts : List Token) :
    s.run (namedTokens m ++ ts) = State.run (.separator m.2 (.object done m.1) around) ts := by
  unfold namedTokens
  rw [List.cons_append, List.cons_append, State.run_of_step hname, State.run_of_step rfl, hm,
    State.after]

/-- The members after the one that ends with `last`, and the end of the object. -/
theorem State.run_members {members : List (Text × Value)} (h : ∀ m ∈ members, m.2.ReadsBack)
    (around : List Frame) (ts : List Token) :
    ∀ (done : List (Text × Value)) (name : Text) (last : Value),
      State.run (.separator last (.object done name) around)
          ((members.flatMap fun m => .comma :: namedTokens m) ++ .closeBrace :: ts) =
        State.run (.after (.object (((name, last) :: done).reverse ++ members)) around) ts := by
  induction members with
  | nil =>
    intro done name last
    rw [List.flatMap_nil, List.nil_append, State.run_of_step rfl, List.append_nil]
  | cons m members ih =>
    intro done name last
    obtain ⟨hm, hmembers⟩ := List.forall_mem_cons.1 h
    rw [List.flatMap_cons, List.cons_append, List.cons_append, List.append_assoc,
      State.run_of_step rfl, State.run_member hm rfl, ih hmembers, List.reverse_cons,
      List.append_assoc, List.singleton_append]

theorem Value.run_tokens (v : Value) : v.ReadsBack := by
  -- the reader's stack grows in containers only: every other value is a single token
  induction v using Value.tokens.induct with
  | case6 items ih =>
    intro around ts
    rw [Value.tokens_array, List.append_assoc, List.cons_append, List.singleton_append,
      State.run_of_step rfl]
    cases items with
    | nil => exact State.run_of_step rfl ts
    | cons v items =>
      obtain ⟨hv, hitems⟩ := List.forall_mem_cons.1 ih
      obtain ⟨t, vts, ht, hne⟩ := v.exists_tokens_eq_cons
      have hfirst := hv (.array [] :: around)
        ((items.flatMap fun v => .comma :: v.tokens) ++ .closeBracket :: ts)
      rw [ht, List.cons_append] at hfirst
      rw [intercalate_map_cons, List.append_assoc, ht, List.cons_append,
        State.run_firstItem hne, hfirst, State.after, State.run_items hitems]
      rfl
  | case7 members ih =>
    intro around ts
    rw [Value.tokens_object, List.append_assoc, List.cons_append, List.singleton_append,
      State.run_of_step rfl]
    cases members with
    | nil => exact State.run_of_step rfl ts
    | cons m members =>
      obtain ⟨hm, hmembers⟩ := List.forall_mem_cons.1 ih
      rw [intercalate_map_cons, List.append_assoc, State.run_member hm rfl,
        State.run_members hmembers]
      rfl
  | _ =>
    intro around ts
    rw [Value.tokens]
    rfl

theorem Value.ofTokens?_tokens (v : Value) (rest : List Token) :
    Value.ofTokens? (v.tokens ++ rest) = some (v, rest) := by
  unfold Value.ofTokens?
  rw [v.run_tokens, State.after, State.run]

/-! ## What the reader has consumed -/

/-- What stands in an open container before the value that is being read. -/
def Frame.consumed : Frame → List Token
  | .array items => .openBracket :: items.reverse.flatMap fun v => v.tokens ++ [.comma]
  | .object members name =>
    .openBrace :: (members.reverse.flatMap fun m => namedTokens m ++ [.comma]) ++
      [.string name, .colon]

/-- What stands in all open containers, the innermost last. -/
def Frame.allConsumed (around : List Frame) : List Token := around.reverse.flatMap Frame.consumed

/-- The tokens that have led to a state. -/
def State.consumed : State → List Token
  | .value around => Frame.allConsumed around
  | .firstItem around => Frame.allConsumed around ++ [.openBracket]
  | .firstKey around => Frame.allConsumed around ++ [.openBrace]
  | .key around members =>
    Frame.allConsumed around ++ .openBrace :: members.reverse.flatMap fun m =>
      namedTokens m ++ [.comma]
  | .colon around members name =>
    Frame.allConsumed around ++ (.openBrace :: (members.reverse.flatMap fun m =>
      namedTokens m ++ [.comma]) ++ [.string name])
  | .separator last inside around => Frame.allConsumed (inside :: around) ++ last.tokens
  | .complete v => v.tokens

theorem Frame.allConsumed_cons (inside : Frame) (around : List Frame) :
    Frame.allConsumed (inside :: around) = Frame.allConsumed around ++ inside.consumed := by
  unfold Frame.allConsumed
  rw [List.reverse_cons, List.flatMap_append, List.flatMap_singleton]

theorem State.consumed_after (v : Value) (around : List Frame) :
    (State.after v around).consumed = Frame.allConsumed around ++ v.tokens := by
  cases around with
  | nil => rfl
  | cons inside around => rfl

/-- The end of a container completes its tokens. -/
theorem Frame.consumed_array (items : List Value) (last : Value) :
    (Frame.array items).consumed ++ last.tokens ++ [.closeBracket] =
      (Value.array (last :: items).reverse).tokens := by
  rw [Value.tokens_array, List.reverse_cons, intercalate_map_concat]
  simp [Frame.consumed]

theorem Frame.consumed_object (members : List (Text × Value)) (name : Text) (last : Value) :
    (Frame.object members name).consumed ++ last.tokens ++ [.closeBrace] =
      (Value.object ((name, last) :: members).reverse).tokens := by
  rw [Value.tokens_object, List.reverse_cons, intercalate_map_concat]
  simp [Frame.consumed, namedTokens]

theorem State.consumed_of_begin {around : List Frame} {t : Token} {s : State}
    (h : State.begin around t = some s) : s.consumed = Frame.allConsumed around ++ [t] := by
  unfold State.begin at h
  split at h
  · cases h; rfl
  · cases h; rfl
  · obtain ⟨v, hv, rfl⟩ := Option.map_eq_some_iff.1 h
    rw [State.consumed_after, Value.tokens_of_scalar? hv]

/-- A step adds the token that it takes to what has been consumed. -/
theorem State.consumed_of_step {s s' : State} {t : Token} (h : s.step t = some s') :
    s'.consumed = s.consumed ++ [t] := by
  -- one case for each line of `State.step`
  unfold State.step at h
  split at h
  case h_1 => exact State.consumed_of_begin h
  case h_2 around =>
    cases h
    rw [State.consumed_after, Value.tokens_array]
    simp [State.consumed]
  case h_3 around _ =>
    rw [State.consumed_of_begin h, Frame.allConsumed_cons]
    simp [State.consumed, Frame.consumed]
  case h_4 around =>
    cases h
    rw [State.consumed_after, Value.tokens_object]
    simp [State.consumed]
  case h_5 around name =>
    cases h
    simp [State.consumed]
  case h_6 around members name =>
    cases h
    simp [State.consumed]
  case h_7 around members name =>
    cases h
    simp [State.consumed, Frame.allConsumed_cons, Frame.consumed]
  case h_8 last items around =>
    cases h
    simp [State.consumed, Frame.allConsumed_cons, Frame.consumed]
  case h_9 last items around =>
    cases h
    rw [State.consumed_after, ← Frame.consumed_array, State.consumed, Frame.allConsumed_cons]
    simp only [List.append_assoc]
  case h_10 last members name around =>
    cases h
    simp [State.consumed, Frame.allConsumed_cons, Frame.consumed, namedTokens]
  case h_11 last members name around =>
    cases h
    rw [State.consumed_after, ← Frame.consumed_object, State.consumed, Frame.allConsumed_cons]
    simp only [List.append_assoc]
  case h_12 => cases h

theorem State.run_cons {s : State} (h : ∀ v, s ≠ .complete v) (t : Token) (ts : List Token) :
    s.run (t :: ts) = (s.step t).bind fun s => s.run ts := by
  rw [State.run]
  · cases s.step t <;> rfl
  · exact h

/-- A run consumes the tokens of the value that it ends with, and no more. -/
theorem State.consumed_of_run {s : State} {ts rest : List Token} {v : Value}
    (h : s.run ts = some (v, rest)) : s.consumed ++ ts = v.tokens ++ rest := by
  induction ts generalizing s with
  | nil =>
    cases s with
    | complete w => cases h; rfl
    | _ => cases h
  | cons t ts ih =>
    by_cases hs : ∃ w, s = .complete w
    · obtain ⟨w, rfl⟩ := hs
      cases h
      rfl
    · rw [State.run_cons (not_exists.1 hs)] at h
      obtain ⟨s', hstep, hrun⟩ := Option.bind_eq_some_iff.1 h
      rw [← ih hrun, State.consumed_of_step hstep, List.append_assoc, List.singleton_append]

theorem Value.ofTokens?_eq_some_iff {ts rest : List Token} {v : Value} :
    Value.ofTokens? ts = some (v, rest) ↔ ts = v.tokens ++ rest := by
  constructor
  · intro h
    exact State.consumed_of_run h
  · intro h
    rw [h, v.ofTokens?_tokens]

/-- A text spells a value exactly if it has the tokens of the value. -/
theorem Value.read?_eq_some_iff {text : String} {v : Value} :
    Value.read? text = some v ↔ Json.tokens text = v.tokens := by
  have hall : Value.ofTokens? (Json.tokens text) = some (v, []) ↔ Json.tokens text = v.tokens := by
    rw [Value.ofTokens?_eq_some_iff, List.append_nil]
  rw [← hall]
  unfold Value.read?
  split
  · next w h => rw [h, Option.some.injEq, Option.some.injEq, Prod.mk.injEq, and_iff_left rfl]
  · next h => exact iff_of_false nofun (h v)

end ChunkedTree.Json
