/-
  The ways of reading a text agree.

  A geometry is read from a text as a whole, from the front of a text, and from a file. The first
  and the last look at what follows the document before they build, the second only after that; and
  a malformed text is told as invalid data if it comes from a file.

  A text that is a document gives all three the same parameters, and each tells in its own words
  what building them comes to (`ofText_of_read?`, `ofFile_of_read?`, `parse_of_read?`). Any other
  text fails in all three. Reading from the front may then still tell why it rejects the parameters
  that the text begins with (`parse_of_read?_eq_none`).
-/
import ChunkedTree.Geometry.File
import ChunkedTree.Proofs.FileStore
import Mathlib

namespace ChunkedTree

theorem fromUTF8?_toUTF8 (s : String) : String.fromUTF8? s.toUTF8 = some s := by
  unfold String.fromUTF8?
  exact dif_pos s.isValidUTF8

namespace Config

variable {text : String} {c : Config}

theorem read?_eq_some_iff : read? text = some c ↔ ofTokens? (Json.tokens text) = some (c, []) := by
  unfold read?
  split
  · next c' h =>
    rw [h, Option.some.injEq, Option.some.injEq, Prod.mk.injEq, and_iff_left rfl]
  · next h =>
    exact iff_of_false (fun hnone => by cases hnone) (h c)

theorem ofFile_of_read? (h : read? text = some c) : ofFile (.ok text.toUTF8) = .ok c := by
  unfold ofFile
  simp only [fromUTF8?_toUTF8, Option.bind_some, h]

theorem ofFile_of_read?_eq_none (h : read? text = none) :
    ofFile (.ok text.toUTF8) = .error .invalidData := by
  unfold ofFile
  simp only [fromUTF8?_toUTF8, Option.bind_some, h]

end Config

namespace Geometry

variable {text : String} {c : Config}

/-! ## Texts that are documents -/

section

variable (h : Config.read? text = some c)
include h

theorem ofText_of_read? : ofText text = c.build.mapError (Failure.map .config) := by
  unfold ofText
  rw [h]
  rfl

theorem ofFile_of_read? : ofFile (.ok text.toUTF8) = c.build.mapError (Failure.map .config) := by
  unfold ofFile
  rw [Config.ofFile_of_read? h]
  rfl

/-- Nothing is left after the document, so the last look at the text changes nothing. -/
theorem parse_of_read? : parse text = c.build.mapError (Failure.map .rejected) := by
  unfold parse
  rw [Config.read?_eq_some_iff.1 h]
  show (c.build.mapError _ >>= fun g => pure g) = _
  rw [bind_pure]

end

/-! ## Texts that are none -/

section

variable (h : Config.read? text = none)
include h

theorem ofText_of_read?_eq_none : ofText text = .error (.refused .json) := by
  unfold ofText
  rw [h]

theorem ofFile_of_read?_eq_none :
    ofFile (.ok text.toUTF8) = .error (.refused (.io .invalidData)) := by
  unfold ofFile
  rw [Config.ofFile_of_read?_eq_none h]

/-- Either nothing is told, or what becomes of building the parameters that the text begins with. -/
theorem parse_of_read?_eq_none : parse text = .error (.refused .malformed) ∨
    ∃ c rest cause, Config.ofTokens? (Json.tokens text) = some (c, rest) ∧
      c.build = .error cause ∧ parse text = .error (cause.map .rejected) := by
  unfold parse
  cases hfront : Config.ofTokens? (Json.tokens text) with
  | none => exact Or.inl rfl
  | some front =>
    obtain ⟨c, rest⟩ := front
    cases hbuild : c.build with
    | error cause =>
      refine Or.inr ⟨c, rest, cause, rfl, hbuild, ?_⟩
      simp only [hbuild]
      rfl
    | ok g =>
      cases rest with
      | nil =>
        rw [Config.read?_eq_some_iff.2 hfront] at h
        cases h
      | cons t rest =>
        refine Or.inl ?_
        simp only [hbuild]
        rfl

end

/-! ## Agreement -/

/-- Building faults on the parameters that the text begins with, whatever follows them. -/
def FaultsInFront (text : String) : Prop :=
  ∃ c rest f, Config.ofTokens? (Json.tokens text) = some (c, rest) ∧ c.build = .error (.fault f)

/-- The text reads alike as a whole, from the front, and from a file that gave `loaded`. -/
structure ReadsAlike (text : String) (loaded : Except (Failure Error) Geometry) : Prop where
  built : ∀ g, (ofText text = .ok g ↔ parse text = .ok g) ∧ (ofText text = .ok g ↔ loaded = .ok g)
  /-- Reading from the front tells the reason in its own words, with none before them. -/
  rejected : ∀ reason, ofText text = .error (.refused (.config reason)) →
    loaded = .error (.refused (.config reason)) ∧
    ∃ e, parse text = .error (.refused e) ∧ e.message = some reason.message
  malformed : ofText text = .error (.refused .json) →
    loaded = .error (.refused (.io .invalidData)) ∧
    (¬ FaultsInFront text → ∃ e, parse text = .error (.refused e))
  faulted : ∀ f, ofText text = .error (.fault f) →
    loaded = .error (.fault f) ∧ parse text = .error (.fault f)
  /-- A text does not fail in any other way. -/
  complete : (∃ g, ofText text = .ok g) ∨
    (∃ reason, ofText text = .error (.refused (.config reason))) ∨
    ofText text = .error (.refused .json) ∨ ∃ f, ofText text = .error (.fault f)

/-- What building comes to decides, and all three readings tell it. -/
theorem readsAlike_of_read? (h : Config.read? text = some c) :
    ReadsAlike text (ofFile (.ok text.toUTF8)) := by
  have htext := ofText_of_read? h
  have hfront := parse_of_read? h
  rw [ofFile_of_read? h, ← htext]
  constructor
  case built =>
    intro g
    rw [htext, hfront, mapError_eq_ok_iff, mapError_eq_ok_iff]
    exact ⟨Iff.rfl, Iff.rfl⟩
  case rejected =>
    intro reason hreason
    refine ⟨hreason, .rejected reason, ?_, rfl⟩
    rw [htext, mapError_eq_error_iff] at hreason
    obtain ⟨cause, hcause, hmap⟩ := hreason
    cases cause with
    | refused r =>
      cases hmap
      rw [hfront, hcause]
      rfl
    | fault f => cases hmap
  case malformed =>
    intro hjson
    rw [htext, mapError_eq_error_iff] at hjson
    obtain ⟨cause, _, hmap⟩ := hjson
    cases cause <;> cases hmap
  case faulted =>
    intro f hfault
    refine ⟨hfault, ?_⟩
    rw [htext, mapError_eq_error_iff] at hfault
    obtain ⟨cause, hcause, hmap⟩ := hfault
    cases cause with
    | refused r => cases hmap
    | fault f =>
      cases hmap
      rw [hfront, hcause]
      rfl
  case complete =>
    rw [htext]
    cases c.build with
    | ok g => exact Or.inl ⟨g, rfl⟩
    | error cause =>
      cases cause with
      | refused reason => exact Or.inr (Or.inl ⟨reason, rfl⟩)
      | fault f => exact Or.inr (Or.inr (Or.inr ⟨f, rfl⟩))

/-- Nothing is built, and only the front of the text may be told more of than that. -/
theorem readsAlike_of_read?_eq_none (h : Config.read? text = none) :
    ReadsAlike text (ofFile (.ok text.toUTF8)) := by
  have htext := ofText_of_read?_eq_none h
  have hfile := ofFile_of_read?_eq_none h
  have hfront := parse_of_read?_eq_none h
  constructor
  case built =>
    intro g
    have hparse : parse text ≠ .ok g := by
      rcases hfront with hparse | ⟨_, _, _, _, _, hparse⟩ <;> simp [hparse]
    rw [htext, hfile]
    exact ⟨iff_of_false (fun hok => by cases hok) hparse, iff_of_false (fun hok => by cases hok)
      (fun hok => by cases hok)⟩
  case rejected =>
    intro reason hreason
    rw [htext] at hreason
    cases hreason
  case malformed =>
    intro _
    refine ⟨hfile, fun hnofault => ?_⟩
    rcases hfront with hparse | ⟨c, rest, cause, htokens, hbuild, hparse⟩
    · exact ⟨.malformed, hparse⟩
    · cases cause with
      | refused reason => exact ⟨.rejected reason, hparse⟩
      | fault f => exact absurd ⟨c, rest, f, htokens, hbuild⟩ hnofault
  case faulted =>
    intro f hfault
    rw [htext] at hfault
    cases hfault
  case complete => exact Or.inr (Or.inr (Or.inl htext))

end Geometry

open ChunkedTree.Geometry

/-- **The ways of reading a document agree.** Whatever a text holds, the geometry that it gives as a
    whole is the one that it gives read from the front and from a file. Parameters that are rejected
    are rejected for the same reason everywhere, and a text that is malformed as a whole gives no
    geometry in any other way; from a file it is invalid data. -/
theorem readers_agree {text : String} {dir : Directory} {name : String}
    (hfile : dir.read name = .ok text.toUTF8) : ReadsAlike text (Geometry.load dir name) := by
  unfold Geometry.load
  rw [hfile]
  cases h : Config.read? text with
  | some c => exact readsAlike_of_read? h
  | none => exact readsAlike_of_read?_eq_none h

/-- A base depth of 4 is built. Without one the parameters are rejected; that the text behind them
    is spoiled is seen before that in a file, and never from the front. -/
theorem readers_agree_on_spoiled_text :
    (∃ dir g, Directory.empty.write "tree.json" "[0, 4]".toUTF8 = .ok dir ∧
      Geometry.load dir "tree.json" = .ok g ∧ parse "[0, 4]" = .ok g) ∧
    ∃ dir, Directory.empty.write "tree.json" "[] x".toUTF8 = .ok dir ∧
      Geometry.load dir "tree.json" = .error (.refused (.io .invalidData)) ∧
      ∃ e, parse "[] x" = .error (.refused e) := by
  have hwrite (bytes : ByteArray) :
      ∃ dir, Directory.empty.write "tree.json" bytes = .ok dir := ⟨_, rfl⟩
  constructor
  · obtain ⟨dir, hdir⟩ := hwrite "[0, 4]".toUTF8
    obtain ⟨g, hbuild⟩ : ∃ g, ofText "[0, 4]" = .ok g := ⟨_, by cbv⟩
    have hagree := (readers_agree (Directory.read_of_write hdir)).built g
    exact ⟨dir, g, hdir, hagree.2.1 hbuild, hagree.1.1 hbuild⟩
  · obtain ⟨dir, hdir⟩ := hwrite "[] x".toUTF8
    have hagree := (readers_agree (Directory.read_of_write hdir)).malformed (by cbv)
    have hcalm : ¬ FaultsInFront "[] x" := by
      rintro ⟨c, rest, f, htokens, hbuild⟩
      have hfront : Config.ofTokens? (Json.tokens "[] x") = some ({}, [.invalid]) := by cbv
      rw [hfront] at htokens
      cases htokens
      have hreject : ({} : Config).build = .error (.refused (.shallowBase 0)) := by decide
      rw [hreject] at hbuild
      cases hbuild
    exact ⟨dir, hdir, hagree.1, hagree.2 hcalm⟩

end ChunkedTree
