/-
  Parameters written as a document, and read back.

  A document has each of the known members at most once, so a field is found by its name exactly as
  it was written (`sole?_members`), and the order of the members is of no account
  (`ofValue?_perm`). Each field reads what is written for it, or takes the value that was left out
  (`ofFields?_entry`). Reading therefore undoes writing: for the value (`ofValue?_toValue`), for its
  tokens in front of any others (`ofTokens?_tokens`), and for the texts in every layout
  (`records_of_tokens`), whichever members are left out of them (`mem_names_iff`).
-/
import ChunkedTree.Config.Document
import ChunkedTree.Proofs.DocumentText

namespace ChunkedTree

open Json

/-! ## Members by name -/

namespace Field

theorem mem_all (f : Field) : f ∈ all := by
  cases f <;> decide

theorem nodup_all : all.Nodup := by decide

theorem key_inj {f f' : Field} (h : f.key = f'.key) : f = f' := by
  -- a field is the only one with its name in the list of all
  have hfind (f : Field) : all.find? (fun f' => f'.key == f.key) = some f := by
    cases f <;> rfl
  have hfound := hfind f
  rw [h, hfind f'] at hfound
  exact (Option.some.inj hfound).symm

end Field

/-- Which member bears a name alone does not depend on the order of the members. -/
theorem sole?_perm {members members' : List (Text × Value)} (h : members.Perm members')
    (key : String) : sole? members key = sole? members' key := by
  have hnamed := h.filter (fun m => m.1 == some key)
  unfold sole?
  generalize members.filter (fun m => m.1 == some key) = named at hnamed ⊢
  generalize members'.filter (fun m => m.1 == some key) = named' at hnamed ⊢
  match named, named', hnamed with
  | [], _, hperm => rw [← hperm.nil_eq]
  | [_], _, hperm => rw [← List.singleton_perm.1 hperm]
  | _ :: _ :: _, [], hperm => simp at hperm
  | _ :: _ :: _, [_], hperm => simp at hperm
  | _ :: _ :: _, _ :: _ :: _, _ => rfl

namespace Config

/-- An object is read the same in whatever order its members stand. -/
theorem ofValue?_perm {members members' : List (Text × Value)} (h : members.Perm members') :
    ofValue? (.object members) = ofValue? (.object members') := by
  have hsole := sole?_perm h
  have hnamed : wellNamed members = wellNamed members' := by
    unfold wellNamed
    rw [h.all_eq]
    simp only [hsole]
  unfold ofValue?
  simp only [hsole, hnamed]

variable (c : Config)

/-- The member that is written for a field. -/
def member? (f : Field) : Option (Text × Value) :=
  (c.entry f).map fun s => (some f.key, s.toValue)

/-- The members of the document, in order of writing. -/
def members : List (Text × Value) := Field.all.filterMap c.member?

theorem toValue_eq : c.toValue = .object c.members := by
  unfold toValue document Document.toValue members member?
  rw [List.map_filterMap]
  simp only [Option.map_map]
  rfl

theorem member?_name {f : Field} {m : Text × Value} (h : c.member? f = some m) :
    m.1 = some f.key := by
  obtain ⟨_, _, rfl⟩ := Option.map_eq_some_iff.1 h
  rfl

/-- Of the members of different fields, those with the name of one are that field's member. -/
theorem filter_member? (f : Field) (fs : List Field) (hnodup : fs.Nodup) :
    (fs.filterMap c.member?).filter (fun m => m.1 == some f.key) =
      if f ∈ fs then (c.member? f).toList else [] := by
  induction fs with
  | nil => rfl
  | cons a fs ih =>
    obtain ⟨hnew, hrest⟩ := List.nodup_cons.1 hnodup
    have hih := ih hrest
    by_cases haf : a = f
    · subst haf
      rw [if_neg hnew] at hih
      rw [if_pos List.mem_cons_self]
      cases hm : c.member? a with
      | none => rw [List.filterMap_cons_none hm, hih]; rfl
      | some m =>
        have hname : (m.1 == some a.key) = true := beq_iff_eq.2 (c.member?_name hm)
        rw [List.filterMap_cons_some hm, List.filter_cons, if_pos hname, hih]
        rfl
    · have hmem : f ∈ a :: fs ↔ f ∈ fs := by simp [Ne.symm haf]
      rw [if_congr hmem rfl rfl, ← hih]
      cases hm : c.member? a with
      | none => rw [List.filterMap_cons_none hm]
      | some m =>
        have hname : ¬ (m.1 == some f.key) = true := by
          rw [beq_iff_eq, c.member?_name hm, Option.some.injEq]
          exact fun h => haf (Field.key_inj h)
        rw [List.filterMap_cons_some hm, List.filter_cons, if_neg hname]

theorem sole?_members (f : Field) :
    sole? c.members f.key = some ((c.entry f).map Scalar.toValue) := by
  unfold sole? members
  rw [filter_member? c f _ Field.nodup_all, if_pos f.mem_all]
  unfold member?
  cases c.entry f <;> rfl

theorem wellNamed_members : wellNamed c.members = true := by
  unfold wellNamed
  rw [Bool.and_eq_true, List.all_eq_true, List.all_eq_true]
  constructor
  · intro m hm
    unfold members at hm
    obtain ⟨f, _, hf⟩ := List.mem_filterMap.1 hm
    rw [c.member?_name hf]
    rfl
  · intro f _
    rw [sole?_members]
    rfl

/-! ## Each field -/

theorem word?_toNat (u : UInt64) : Value.word? (.natural u.toNat) = some u := by
  unfold Value.word?
  simp only [if_pos u.toNat_lt_size, UInt64.ofNat_toNat]

/-- A start depth of 0 is left out, and is what an absent one stands for. -/
theorem required_word?_startDepth (u : UInt64) : Field.required Value.word? 0
    ((if u = 0 then none else some (Scalar.natural u.toNat)).map Scalar.toValue) = some u := by
  split
  · next h => rw [h]; rfl
  · exact word?_toNat u

/-- What may be absent is read as it was written, or as absent. -/
theorem optional_map {α : Type} {read : Value → Option α} {write : α → Scalar}
    (h : ∀ a, read (write a).toValue = some a) (o : Option α) :
    Field.optional read ((o.map write).map Scalar.toValue) = some o := by
  cases o with
  | none => rfl
  | some a =>
    have hread : Field.optional read (some (write a).toValue) =
        (read (write a).toValue).map some := by
      cases write a <;> rfl
    exact hread.trans (congrArg _ (h a))

/-- Every field reads what is written for it, or takes what was left out. -/
theorem ofFields?_entry : ofFields? (fun f => (c.entry f).map Scalar.toValue) = some c := by
  have hword (u : UInt64) :
      Field.required Value.word? 0 ((some (Scalar.natural u.toNat)).map Scalar.toValue) = some u :=
    word?_toNat u
  have hflag (b : Bool) :
      Field.required Value.flag? false ((some (Scalar.bool b)).map Scalar.toValue) = some b := rfl
  have hwords (o : Option UInt64) : Field.optional Value.word?
      ((o.map fun u => Scalar.natural u.toNat).map Scalar.toValue) = some o :=
    optional_map word?_toNat o
  have hflags (o : Option Bool) :
      Field.optional Value.flag? ((o.map Scalar.bool).map Scalar.toValue) = some o :=
    optional_map (fun _ => rfl) o
  have htexts (o : Option String) :
      Field.optional Value.text? ((o.map Scalar.string).map Scalar.toValue) = some o :=
    optional_map (fun _ => rfl) o
  unfold ofFields?
  simp only [entry, hword, hflag, hwords, hflags, htexts, required_word?_startDepth,
    Option.bind_eq_bind, Option.bind_some, Option.pure_def]

theorem ofValue?_toValue : ofValue? c.toValue = some c := by
  rw [toValue_eq, ofValue?, if_pos c.wellNamed_members]
  simp only [sole?_members, Option.join_some]
  exact c.ofFields?_entry

/-! ## Texts -/

/-- The tokens of the document are read as the parameters, whatever tokens follow. -/
theorem ofTokens?_tokens (rest : List Token) :
    ofTokens? (c.document.tokens ++ rest) = some (c, rest) := by
  unfold ofTokens?
  rw [Json.ofTokens?_tokens]
  change (ofValue? c.toValue).map (fun c => (c, rest)) = _
  rw [ofValue?_toValue]
  rfl

theorem ofTokens?_of_tokens {text : String} (h : tokens text = c.document.tokens) :
    ofTokens? (tokens text) = some (c, []) := by
  rw [h, ← List.append_nil c.document.tokens, ofTokens?_tokens]

theorem read?_of_tokens {text : String} (h : tokens text = c.document.tokens) :
    read? text = some c := by
  unfold read?
  rw [c.ofTokens?_of_tokens h]

theorem read?_compact : read? c.compact = some c := c.read?_of_tokens (tokens_compact _)

theorem read?_pretty : read? c.pretty = some c := c.read?_of_tokens (tokens_pretty _)

/-- The text spells the members of the document, and is read as the parameters that it was written
    for. -/
structure Records (c : Config) (text : String) : Prop where
  spells : Value.read? text = some (.object c.members)
  reads : read? text = some c

theorem records_of_tokens {text : String} (h : tokens text = c.document.tokens) :
    c.Records text := by
  constructor
  case spells =>
    unfold Value.read?
    rw [h, ← List.append_nil c.document.tokens, Json.ofTokens?_tokens, ← toValue_eq]
    rfl
  case reads => exact c.read?_of_tokens h

/-! ## What is left out -/

/-- The field holds what an absent member stands for, and has none. -/
def LeavesOut (c : Config) : Field → Prop
  | .dimensions => c.dimensions = none
  | .tubular => c.tubular = none
  | .startDepth => c.startDepth = 0
  | .shapeName => c.shapeName = none
  | _ => False

theorem member?_eq_none_iff {f : Field} : c.member? f = none ↔ c.LeavesOut f := by
  cases f <;> simp [member?, entry, LeavesOut]

theorem mem_names_iff (f : Field) : some f.key ∈ c.members.map (·.1) ↔ ¬ c.LeavesOut f := by
  rw [← member?_eq_none_iff]
  constructor
  · intro h
    obtain ⟨m, hm, hname⟩ := List.mem_map.1 h
    obtain ⟨f', _, hf'⟩ := List.mem_filterMap.1 hm
    have hkey := (c.member?_name hf').symm.trans hname
    rw [← Field.key_inj (Option.some.inj hkey), hf']
    exact Option.some_ne_none m
  · intro h
    obtain ⟨m, hm⟩ := Option.ne_none_iff_exists'.1 h
    exact List.mem_map.2 ⟨m, List.mem_filterMap.2 ⟨f, f.mem_all, hm⟩, c.member?_name hm⟩

/-- Of different fields, those that have a member keep their order. -/
theorem names_sublist (fs : List Field) :
    ((fs.filterMap c.member?).map (·.1)).Sublist (fs.map fun f => some f.key) := by
  induction fs with
  | nil => exact List.Sublist.slnil
  | cons f fs ih =>
    cases hm : c.member? f with
    | none =>
      rw [List.filterMap_cons_none hm]
      exact ih.cons _
    | some m =>
      rw [List.filterMap_cons_some hm, List.map_cons, c.member?_name hm]
      exact ih.cons_cons _

end Config

/-- **Reading undoes writing.** Whatever the parameters are, the text of their document spells its
    members and is read as the same parameters again, in every layout with nothing but blanks in it,
    the compact one and the pretty one among them. The members stand in the order of the fields, and
    those that are left out are absent dimensions, an absent tubular flag, an absent name and a
    start depth of 0. -/
theorem read_undoes_write (c : Config) :
    (∀ layout : Layout, layout.IsBlank →
      c.Records (String.ofList (c.document.written layout))) ∧
    c.Records c.compact ∧ c.Records c.pretty ∧
    (c.members.map (·.1)).Sublist (Field.all.map fun f => some f.key) ∧
    ∀ f : Field, some f.key ∈ c.members.map (·.1) ↔ ¬ c.LeavesOut f := by
  have hlayout (layout : Layout) (h : layout.IsBlank) :
      c.Records (String.ofList (c.document.written layout)) :=
    c.records_of_tokens (tokens_written h _)
  exact ⟨hlayout, hlayout _ Layout.compact_isBlank, hlayout _ Layout.pretty_isBlank,
    c.names_sublist Field.all, c.mem_names_iff⟩

/-- Three fields are left out here, and in the name three characters are escaped. -/
example : ({ shapeName := some "a\"\\\n\x01" } : Config).members.map (·.1) =
      [some "nullDepth", some "baseDepth", some "coldDepth", some "pointsPerChunk",
        some "numPointsHint", some "dynamicChunks", some "prefixIds", some "sparseDepth",
        some "type"] ∧
    String.ofList (quoted "a\"\\\n\x01") = "\"a\\\"\\\\\\n\\u0001\"" := by
  decide

end ChunkedTree
