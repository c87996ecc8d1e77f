/-
  A geometry that is written down reopens as itself.

  The parameters of a built geometry build it again, and every way of writing them has ways of
  reading that give these parameters back: the value, in whatever order its members stand, the
  compact and the pretty text, and the file.
-/
import ChunkedTree.Proofs.ParameterDocument
import ChunkedTree.Proofs.Readers
import ChunkedTree.Proofs.Rebuild

namespace ChunkedTree

/-! ## Files of parameters -/

theorem Config.load_of_save {c : Config} {dir dir' : Directory} {name : String}
    (h : c.save dir name = .ok dir') : Config.load dir' name = .ok c := by
  unfold Config.load
  rw [Directory.read_of_write h]
  exact ofFile_of_read? c.read?_pretty

namespace Geometry

variable {g : Geometry} {c : Config}

/-! ## Reading parameters that build -/

section

variable (hb : c.build = .ok g)
include hb

theorem ofConfig_of_build : ofConfig c = .ok g := by
  unfold ofConfig
  rw [hb]
  rfl

theorem ofValue_of_build {v : Json.Value} (h : Config.ofValue? v = some c) :
    ofValue v = .ok g := by
  unfold ofValue
  rw [h]
  exact ofConfig_of_build hb

/-- A text with the tokens of a document is read as it is, and built while it is read. -/
theorem ofText_and_parse_of_build {text : String}
    (h : Json.tokens text = c.document.tokens) : ofText text = .ok g ∧ parse text = .ok g := by
  have hread := c.read?_of_tokens h
  rw [ofText_of_read? hread, parse_of_read? hread, hb]
  exact ⟨rfl, rfl⟩

theorem load_of_build {dir : Directory} {name : String} (h : Config.load dir name = .ok c) :
    load dir name = .ok g := by
  unfold Config.load at h
  unfold load ofFile
  rw [h]
  exact ofConfig_of_build hb

end

theorem load_of_save (hb : g.parameters.build = .ok g) {dir dir' : Directory} {name : String}
    (h : g.save dir name = .ok dir') : load dir' name = .ok g := by
  apply load_of_build hb
  unfold save at h
  cases hsave : g.parameters.save dir name with
  | error reason =>
    rw [hsave] at h
    cases h
  | ok written =>
    rw [hsave] at h
    obtain rfl : written = dir' := Except.ok.inj h
    exact Config.load_of_save hsave

end Geometry

open ChunkedTree.Geometry

variable {c : Config} {g : Geometry}

/-- **A built geometry reopens as itself.** Its parameters build it again, so they are the same for
    two built geometries only if these are equal; and it is built again from the members of its
    document in any order, from the compact and from the pretty text, read as a whole or from the
    front, and from a file that it was saved to, whatever the name of the file. -/
theorem reopens_of_build (hb : c.build = .ok g) :
    g.parameters.build = .ok g ∧
    (∀ (c' : Config) (g' : Geometry), c'.build = .ok g' → (g'.parameters = g.parameters ↔ g' = g)) ∧
    Geometry.ofValue g.parameters.toValue = .ok g ∧
    (∀ members, members.Perm g.parameters.members →
      Geometry.ofValue (.object members) = .ok g) ∧
    (Geometry.ofText g.parameters.compact = .ok g ∧ Geometry.parse g.parameters.compact = .ok g) ∧
    (Geometry.ofText g.parameters.pretty = .ok g ∧ Geometry.parse g.parameters.pretty = .ok g) ∧
    ∀ dir name dir', g.save dir name = .ok dir' → Geometry.load dir' name = .ok g := by
  have hrebuild := Config.parameters_build hb
  refine ⟨hrebuild, ?_, ?_, ?_, ?_, ?_, ?_⟩
  · intro c' g' hb'
    constructor
    · intro hsame
      have hrebuild' := Config.parameters_build hb'
      rw [hsame, hrebuild] at hrebuild'
      exact (Except.ok.inj hrebuild').symm
    · intro hsame
      rw [hsame]
  · exact ofValue_of_build hrebuild (Config.ofValue?_toValue _)
  · intro members hperm
    apply ofValue_of_build hrebuild
    rw [Config.ofValue?_perm hperm, ← Config.toValue_eq]
    exact Config.ofValue?_toValue _
  · exact ofText_and_parse_of_build hrebuild (Json.tokens_compact _)
  · exact ofText_and_parse_of_build hrebuild (Json.tokens_pretty _)
  · intro dir name dir' hsave
    exact load_of_save hrebuild hsave

/-! ## An octree whose sparse depth follows from a hint -/

def Config.hintedOctree : Config :=
  { Config.octree 6 20 64 with
    nullDepth := 1, numPointsHint := 1000000000, dynamicChunks := true }

def Geometry.hintedOctree : Geometry := Config.hintedOctree.geometry .octree 12

/-- The sparse depth is written beside the hint that placed it, and is not derived again. The file
    may be named from the working directory or from the root. -/
theorem hintedOctree_reopens :
    Config.hintedOctree.build = .ok hintedOctree ∧ hintedOctree.parameters ≠ Config.hintedOctree ∧
      hintedOctree.parameters.build = .ok hintedOctree ∧
      Geometry.ofValue hintedOctree.parameters.toValue = .ok hintedOctree ∧
      Geometry.parse hintedOctree.parameters.compact = .ok hintedOctree ∧
      Geometry.ofText hintedOctree.parameters.pretty = .ok hintedOctree ∧
      (∃ dir, hintedOctree.save Directory.empty "trees/octree.json" = .ok dir ∧
        Geometry.load dir "trees/octree.json" = .ok hintedOctree) ∧
      ∃ dir, hintedOctree.save Directory.empty "/tmp/trees/../octree.json" = .ok dir ∧
        Geometry.load dir "/tmp/trees/../octree.json" = .ok hintedOctree := by
  have hbuild : Config.hintedOctree.build = .ok hintedOctree := by decide
  obtain ⟨hrebuild, _, hvalue, _, hcompact, hpretty, hfile⟩ := reopens_of_build hbuild
  refine ⟨hbuild, by decide, hrebuild, hvalue, hcompact.2, hpretty.1, ?_, ?_⟩
  · obtain ⟨dir, hsave⟩ :
        ∃ dir, hintedOctree.save Directory.empty "trees/octree.json" = .ok dir := ⟨_, rfl⟩
    exact ⟨dir, hsave, hfile _ _ _ hsave⟩
  · obtain ⟨dir, hsave⟩ :
        ∃ dir, hintedOctree.save Directory.empty "/tmp/trees/../octree.json" = .ok dir := ⟨_, rfl⟩
    exact ⟨dir, hsave, hfile _ _ _ hsave⟩

end ChunkedTree
