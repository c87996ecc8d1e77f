/-
  Reading by the known members.

  What parameters an object is read as depends on its known members alone. A foreign member bears a
  name that no field has: to look for a field finds the same with it and without it
  (`ofValue?_insert`). So every step of a rearrangement keeps what is read, and so does a whole one
  (`ofValue?_of_rearranged`). A name that a field has must not stand there twice
  (`ofValue?_eq_none_of_repeated`).

  In an array the fields stand in their order and without names. Those at the end may be missing,
  and then have their defaults (`ofValue?_items`).

  All this is about values, and carries over to every text that spells them (`read?_eq_bind`).
-/
import ChunkedTree.Proofs.ObjectText
import ChunkedTree.Proofs.ParameterDocument
import Mathlib

namespace ChunkedTree

open Json

/-! ## Foreign members -/

/-- The member bears a name, and that of no field. -/
def Foreign (m : Text × Value) : Prop := ∃ name, m.1 = some name ∧ ∀ f : Field, name ≠ f.key

/-- The members stand in another order, and foreign ones are put in and taken out. -/
inductive Rearranged : List (Text × Value) → List (Text × Value) → Prop where
  | reorder {members members' : List (Text × Value)} (h : members.Perm members') :
    Rearranged members members'
  | insert {m : Text × Value} (h : Foreign m) (before after : List (Text × Value)) :
    Rearranged (before ++ after) (before ++ m :: after)
  | remove {m : Text × Value} (h : Foreign m) (before after : List (Text × Value)) :
    Rearranged (before ++ m :: after) (before ++ after)
  | trans {first second third : List (Text × Value)} (h : Rearranged first second)
    (h' : Rearranged second third) : Rearranged first third

namespace Config

section

variable {m : Text × Value} (h : Foreign m) (before after : List (Text × Value))
include h

theorem sole?_insert (f : Field) :
    sole? (before ++ m :: after) f.key = sole? (before ++ after) f.key := by
  obtain ⟨name, hname, hforeign⟩ := h
  have hother : ¬ (m.1 == some f.key) = true := by
    rw [hname, beq_iff_eq, Option.some.injEq]
    exact hforeign f
  unfold sole?
  rw [List.filter_append, List.filter_append, List.filter_cons, if_neg hother]

theorem wellNamed_insert : wellNamed (before ++ m :: after) = wellNamed (before ++ after) := by
  have hnamed : m.1.isSome = true := by
    obtain ⟨name, hname, _⟩ := h
    rw [hname]
    rfl
  unfold wellNamed
  simp only [sole?_insert h before after, List.all_append, List.all_cons, hnamed, Bool.true_and]

/-- A foreign member is ignored, wherever it stands. -/
theorem ofValue?_insert :
    ofValue? (.object (before ++ m :: after)) = ofValue? (.object (before ++ after)) := by
  unfold ofValue?
  simp only [wellNamed_insert h before after, sole?_insert h before after]

end

theorem ofValue?_of_rearranged {members members' : List (Text × Value)}
    (h : Rearranged members members') :
    ofValue? (.object members') = ofValue? (.object members) := by
  induction h with
  | reorder hperm => exact (ofValue?_perm hperm).symm
  | insert hforeign before after => exact ofValue?_insert hforeign before after
  | remove hforeign before after => exact (ofValue?_insert hforeign before after).symm
  | trans _ _ ih ih' => exact ih'.trans ih

theorem sole?_eq_none_of_repeated {members : List (Text × Value)} {key : String}
    (h : 2 ≤ (members.map (·.1)).count (some key)) : sole? members key = none := by
  rw [List.count, List.countP_map, List.countP_eq_length_filter] at h
  unfold sole?
  split
  · next hnone => simp [Function.comp_def, hnone] at h
  · next hone => simp [Function.comp_def, hone] at h
  · rfl

theorem ofValue?_eq_none_of_repeated {members : List (Text × Value)} {f : Field}
    (h : 2 ≤ (members.map (·.1)).count (some f.key)) : ofValue? (.object members) = none := by
  have hill : ¬ wellNamed members = true := by
    unfold wellNamed
    rw [Bool.and_eq_true, List.all_eq_true, List.all_eq_true]
    intro hwell
    have hsole := hwell.2 f f.mem_all
    rw [sole?_eq_none_of_repeated h] at hsole
    cases hsole
  rw [ofValue?, if_neg hill]

/-! ## Arrays -/

variable (c : Config)

/-- What stands for a field in an array, where no field can be left out. -/
def item : Field → Option Scalar
  | .startDepth => some (.natural c.startDepth.toNat)
  | f => c.entry f

/-- As a value; null stands for what is absent. -/
def itemValue (f : Field) : Value := ((c.item f).map Scalar.toValue).getD .null

/-- As text. -/
def itemText (f : Field) : List Char :=
  ((c.item f).map Scalar.written).getD ['n', 'u', 'l', 'l']

/-- The items of all fields, in their order. -/
def items : List Value := Field.all.map c.itemValue

def itemTexts : List (List Char) := Field.all.map c.itemText

variable (k : Nat)

/-- The item of a field, if it is one of the first `k`. -/
def itemUpTo (f : Field) : Option Value :=
  if f.position < k then some (c.itemValue f) else none

/-- Where a field is taken from: the first `k` from `c`, and the others have their defaults. -/
def source (f : Field) : Config := if f.position < k then c else {}

/-- The first `k` fields, and the others at their defaults. -/
def upTo : Config where
  nullDepth := (c.source k .nullDepth).nullDepth
  baseDepth := (c.source k .baseDepth).baseDepth
  coldDepth := (c.source k .coldDepth).coldDepth
  pointsPerChunk := (c.source k .pointsPerChunk).pointsPerChunk
  dimensions := (c.source k .dimensions).dimensions
  numPointsHint := (c.source k .numPointsHint).numPointsHint
  tubular := (c.source k .tubular).tubular
  dynamicChunks := (c.source k .dynamicChunks).dynamicChunks
  prefixIds := (c.source k .prefixIds).prefixIds
  sparseDepth := (c.source k .sparseDepth).sparseDepth
  startDepth := (c.source k .startDepth).startDepth
  shapeName := (c.source k .shapeName).shapeName

theorem getElem?_take_items (f : Field) : (c.items.take k)[f.position]? = c.itemUpTo k f := by
  have hitem : c.items[f.position]? = some (c.itemValue f) := by
    cases f <;> rfl
  rw [List.getElem?_take, hitem, itemUpTo]

/-- A field that has a default reads its item, or takes the default. -/
theorem required_item {α : Type} {read : Value → Option α} {default : α} (f : Field)
    (get : Config → α) (hdefault : get {} = default) (h : read (c.itemValue f) = some (get c)) :
    Field.required read default (c.itemUpTo k f) = some (get (c.source k f)) := by
  unfold itemUpTo source
  split
  · exact h
  · rw [hdefault]
    rfl

/-- A field that may be absent reads its item, or is absent. -/
theorem optional_item {α : Type} {read : Value → Option α} (write : α → Scalar)
    (hread : ∀ a, read (write a).toValue = some a) (f : Field) (get : Config → Option α)
    (hdefault : get {} = none) (hitem : c.item f = (get c).map write) :
    Field.optional read (c.itemUpTo k f) = some (get (c.source k f)) := by
  unfold itemUpTo source
  split
  · unfold itemValue
    rw [hitem]
    cases hget : get c with
    | none => rfl
    | some a => exact optional_map hread (some a)
  · rw [hdefault]
    rfl

/-- The items of the first fields are read as these fields, and the others take their defaults. -/
theorem ofFields?_items : ofFields? (c.itemUpTo k) = some (c.upTo k) := by
  have hword (f : Field) (get : Config → UInt64) (hdefault : get {} = 0)
      (h : c.itemValue f = .natural (get c).toNat) :
      Field.required Value.word? 0 (c.itemUpTo k f) = some (get (c.source k f)) :=
    c.required_item k f get hdefault ((congrArg Value.word? h).trans (word?_toNat (get c)))
  have hflag (f : Field) (get : Config → Bool) (hdefault : get {} = false)
      (h : c.itemValue f = .bool (get c)) :
      Field.required Value.flag? false (c.itemUpTo k f) = some (get (c.source k f)) :=
    c.required_item k f get hdefault (congrArg Value.flag? h)
  have hdimensions := c.optional_item k _ word?_toNat .dimensions Config.dimensions rfl rfl
  have htubular := c.optional_item k Scalar.bool (fun b => (rfl : Value.flag? (.bool b) = some b))
    .tubular Config.tubular rfl rfl
  have hname := c.optional_item k Scalar.string (fun s => (rfl : Value.text? (.string s) = some s))
    .shapeName Config.shapeName rfl rfl
  unfold ofFields?
  rw [hword .nullDepth Config.nullDepth rfl rfl, hword .baseDepth Config.baseDepth rfl rfl,
    hword .coldDepth Config.coldDepth rfl rfl, hword .pointsPerChunk Config.pointsPerChunk rfl rfl,
    hdimensions, hword .numPointsHint Config.numPointsHint rfl rfl, htubular,
    hflag .dynamicChunks Config.dynamicChunks rfl rfl, hflag .prefixIds Config.prefixIds rfl rfl,
    hword .sparseDepth Config.sparseDepth rfl rfl, hword .startDepth Config.startDepth rfl rfl,
    hname]
  rfl

theorem ofValue?_items : ofValue? (.array (c.items.take k)) = some (c.upTo k) := by
  have hlen : (c.items.take k).length ≤ Field.all.length := by
    rw [List.length_take, items, List.length_map]
    exact Nat.min_le_right _ _
  rw [ofValue?, if_pos hlen]
  simp only [getElem?_take_items]
  exact c.ofFields?_items k

theorem cuts_itemText (f : Field) : Cuts (c.itemText f) (c.itemValue f).tokens := by
  unfold itemText itemValue
  cases c.item f with
  | none =>
    intro rest _ done
    change tokensAfter done ('n' :: 'u' :: 'l' :: 'l' :: rest) =
      tokensAfter (Value.null.tokens.reverse ++ done) rest
    rw [Value.tokens]
    exact tokensAfter_of_token? rfl rfl
  | some s =>
    change Cuts s.written s.toValue.tokens
    rw [s.tokens_toValue]
    exact cuts_scalar s

/-! ## Texts -/

theorem read?_eq_bind (text : String) : read? text = (Value.read? text).bind ofValue? := by
  unfold read? ofTokens? Value.read?
  cases Value.ofTokens? (tokens text) with
  | none => rfl
  | some front =>
    obtain ⟨v, rest⟩ := front
    cases hv : ofValue? v with
    | none => cases rest <;> simp [hv]
    | some c => cases rest <;> simp [hv]

theorem read?_of_value {text : String} {v : Value} (h : Value.read? text = some v) :
    read? text = ofValue? v := by
  rw [read?_eq_bind, h, Option.bind_some]

theorem valueRead?_itemTexts {margins : Margins} (hblank : margins.IsBlank) :
    Value.read? (margins.array (c.itemTexts.take k)) = some (.array (c.items.take k)) := by
  apply read?_array hblank
  unfold itemTexts items
  rw [← List.map_take, ← List.map_take, List.map_map, List.forall₂_map_left_iff,
    List.forall₂_map_right_iff, List.forall₂_same]
  exact fun f _ => c.cuts_itemText f

end Config

/-- What the parameters that an object text is read as depend on. -/
structure ReadByKnownMembers (text : String) (members : List (Text × Value)) : Prop where
  /-- The text is made of pieces, one for each member. -/
  pieces : ∃ (margins : Margins) (pieces : List (List Char)), margins.IsBlank ∧
    List.Forall₂ Spells pieces members ∧ text = margins.object pieces
  /-- Pieces that spell a rearrangement of the members make a text that is read the same: as the
      same parameters, or as none. -/
  rearranged : ∀ (margins : Margins) (pieces : List (List Char)) (members' : List (Text × Value)),
    margins.IsBlank → List.Forall₂ Spells pieces members' → Rearranged members members' →
    Config.read? (margins.object pieces) = Config.read? text
  /-- No known name may be repeated. -/
  repeated : ∀ f : Field, 2 ≤ (members.map (·.1)).count (some f.key) → Config.read? text = none

/-- What an array text is read as that begins with the items of `c` and ends after `k` of them. -/
structure ReadInOrder (c : Config) (k : Nat) : Prop where
  /-- The written items make such a text, with any blanks around them. -/
  texts : ∀ margins : Margins, margins.IsBlank →
    Value.read? (margins.array (c.itemTexts.take k)) = some (.array (c.items.take k))
  /-- It is read as the first fields, and the others are at their defaults. -/
  reads : ∀ text, Value.read? text = some (.array (c.items.take k)) →
    Config.read? text = some (c.upTo k)

/-- **Reading depends on the known members alone.** The text of an object is made of its members,
    and is read the same, or not at all, in whatever order they stand and whatever foreign ones
    stand among them; a known name that is repeated is always an error. The items of all fields in
    their order, cut off anywhere, are read as these fields with the defaults of the others. -/
theorem read_by_known_members :
    (∀ text members, Value.read? text = some (.object members) →
      ReadByKnownMembers text members) ∧
    ∀ c k, ReadInOrder c k := by
  constructor
  · intro text members h
    constructor
    case pieces => exact read?_eq_object_iff.1 h
    case rearranged =>
      intro margins pieces members' hblank hpieces hsame
      have h' := read?_eq_object_iff.2 ⟨margins, pieces, hblank, hpieces, rfl⟩
      rw [Config.read?_of_value h, Config.read?_of_value h']
      exact Config.ofValue?_of_rearranged hsame
    case repeated =>
      intro f hf
      rw [Config.read?_of_value h]
      exact Config.ofValue?_eq_none_of_repeated hf
  · intro c k
    constructor
    case texts => exact fun margins hblank => c.valueRead?_itemTexts k hblank
    case reads =>
      intro text h
      rw [Config.read?_of_value h]
      exact c.ofValue?_items k

/-- An octree of two members is read the same if they change places and a foreign member comes
    between them, and not at all if its name is repeated. In an array it stands without a name. -/
theorem namedOctree_read_by_known_members :
    Config.read? "\x7b\"type\":\"octree\",\"baseDepth\":4\x7d" =
      some { baseDepth := 4, shapeName := some "octree" } ∧
    Config.read? "\x7b \"baseDepth\":4,\"note\": [1e9,[]],\"type\" :\"octree\"\x7d\n" =
      some { baseDepth := 4, shapeName := some "octree" } ∧
    Config.read? "\x7b\"type\":\"octree\",\"type\":null\x7d" = none ∧
    Config.read? "[0,4]" = some { baseDepth := 4 } := by
  let named : Text × Value := (some "type", .string (some "octree"))
  let based : Text × Value := (some "baseDepth", .natural 4)
  let noted : Text × Value := (some "note", .array [.numeral "1e9", .array []])
  have hvalue : Value.read? "\x7b\"type\":\"octree\",\"baseDepth\":4\x7d" =
      some (.object [named, based]) := by
    cbv
  have hread : Config.read? "\x7b\"type\":\"octree\",\"baseDepth\":4\x7d" =
      some { baseDepth := 4, shapeName := some "octree" } :=
    Config.read?_of_value hvalue
  refine ⟨hread, ?_, ?_, ?_⟩
  · have hforeign : Foreign noted := ⟨"note", rfl, fun f => by cases f <;> decide⟩
    have hsame : Rearranged [named, based] [based, noted, named] :=
      .trans (.reorder (.swap based named [])) (.insert hforeign [based] [named])
    have hbased : Spells "\"baseDepth\":4".toList based := by unfold Spells; cbv
    have hnoted : Spells "\"note\": [1e9,[]]".toList noted := by unfold Spells; cbv
    have hnamed : Spells "\"type\" :\"octree\"".toList named := by unfold Spells; cbv
    have htext := (read_by_known_members.1 _ _ hvalue).rearranged ⟨[], [' '], ['\n']⟩ _ _
      ⟨rfl, rfl, rfl⟩ (.cons hbased (.cons hnoted (.cons hnamed .nil))) hsame
    exact htext.trans hread
  · have htwice : Value.read? "\x7b\"type\":\"octree\",\"type\":null\x7d" =
        some (.object [named, (some "type", .null)]) := by
      cbv
    exact (read_by_known_members.1 _ _ htwice).repeated .shapeName (by decide)
  · have harray : Value.read? "[0,4]" = some (.array ((Config.octree 4 0 0).items.take 2)) := by
      cbv
    exact (read_by_known_members.2 (.octree 4 0 0) 2).reads _ harray

end ChunkedTree
