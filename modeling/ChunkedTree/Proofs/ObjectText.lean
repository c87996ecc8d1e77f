/-
  Objects and arrays as text.

  A text spells an object exactly if it is made of pieces, one for each member, with commas between
  them, braces around them, and otherwise blanks (`read?_eq_object_iff`). What a piece spells is
  told by itself: put in braces it is an object that has this member alone (`Spells`), whatever
  stands beside it in another text. An array is made in the same way of pieces for its items
  (`read?_array`).
-/
import ChunkedTree.Proofs.TextPieces
import ChunkedTree.Proofs.ValueTokens

namespace ChunkedTree.Json

/-- The text of an object, from pieces that spell its members. -/
def Margins.object (margins : Margins) (pieces : List (List Char)) : String :=
  String.ofList (margins.enclose '{' '}' pieces)

/-- The text of an array, from pieces that spell its items. -/
def Margins.array (margins : Margins) (pieces : List (List Char)) : String :=
  String.ofList (margins.enclose '[' ']' pieces)

/-- The piece spells the member: in braces it is an object that has this member alone. -/
def Spells (piece : List Char) (m : Text × Value) : Prop :=
  Value.read? (String.ofList ('{' :: piece ++ ['}'])) = some (.object [m])

/-- Behind a brace that ends a text there are no blanks. -/
theorem eq_of_append_brace {piece p after : List Char} (hafter : after.all isBlank = true)
    (h : piece ++ ['}'] = p ++ '}' :: after) : piece = p := by
  rcases List.eq_nil_or_concat' after with rfl | ⟨blanks, c, rfl⟩
  · exact List.append_cancel_right h
  · rw [← List.cons_append, ← List.append_assoc] at h
    obtain ⟨_, hlast⟩ := List.append_inj' h rfl
    cases hlast
    rw [List.all_append, Bool.and_eq_true] at hafter
    exact absurd hafter.2 (by decide)

theorem spells_iff_cuts {piece : List Char} {m : Text × Value} :
    Spells piece m ↔ Cuts piece (namedTokens m) := by
  unfold Spells
  rw [Value.read?_eq_some_iff, Value.tokens_object, List.map_singleton, List.cons_append,
    List.cons_append]
  constructor
  · intro h
    rw [tokens, String.toList_ofList, tokensAfter_of_token? rfl rfl, tokensAfter_singleton,
      List.cons.injEq] at h
    have hvalid : ∀ ts ∈ [namedTokens m], .invalid ∉ ts :=
      List.forall_mem_singleton.2 (invalid_not_mem_namedTokens m)
    obtain ⟨pieces, after, hpieces, heq, hafter⟩ := exists_pieces rfl hvalid h.2
    cases hpieces with
    | cons hp hnil =>
      cases hnil
      rw [List.intercalate_singleton] at heq
      rw [eq_of_append_brace hafter heq]
      exact hp
  · intro h
    rw [List.intercalate_singleton]
    exact ((h.append_delimiter_cons (t := .closeBrace) rfl Cuts.nil).delimiter_cons
      (t := .openBrace) rfl).tokens

theorem forall₂_spells_iff {pieces : List (List Char)} {members : List (Text × Value)} :
    List.Forall₂ Spells pieces members ↔ List.Forall₂ Cuts pieces (members.map namedTokens) := by
  rw [List.forall₂_map_right_iff]
  exact ⟨.imp fun _ _ => spells_iff_cuts.1, .imp fun _ _ => spells_iff_cuts.2⟩

/-- **The texts of an object** are those that pieces make, one for each member. -/
theorem read?_eq_object_iff {text : String} {members : List (Text × Value)} :
    Value.read? text = some (.object members) ↔ ∃ (margins : Margins) (pieces : List (List Char)),
      margins.IsBlank ∧ List.Forall₂ Spells pieces members ∧ text = margins.object pieces := by
  have hvalid : ∀ ts ∈ members.map namedTokens, .invalid ∉ ts := by
    intro ts hts
    obtain ⟨m, _, rfl⟩ := List.mem_map.1 hts
    exact invalid_not_mem_namedTokens m
  rw [Value.read?_eq_some_iff, Value.tokens_object, List.cons_append,
    tokens_eq_iff (t := .openBrace) (u := .closeBrace) rfl rfl hvalid]
  simp only [forall₂_spells_iff, Margins.object]

theorem read?_array {margins : Margins} (hblank : margins.IsBlank) {pieces : List (List Char)}
    {items : List Value} (h : List.Forall₂ Cuts pieces (items.map Value.tokens)) :
    Value.read? (margins.array pieces) = some (.array items) := by
  have hvalid : ∀ ts ∈ items.map Value.tokens, .invalid ∉ ts := by
    intro ts hts
    obtain ⟨v, _, rfl⟩ := List.mem_map.1 hts
    exact v.invalid_not_mem_tokens
  rw [Value.read?_eq_some_iff, Value.tokens_array, List.cons_append,
    tokens_eq_iff (t := .openBracket) (u := .closeBracket) rfl rfl hvalid]
  exact ⟨margins, pieces, hblank, h, rfl⟩

end ChunkedTree.Json
