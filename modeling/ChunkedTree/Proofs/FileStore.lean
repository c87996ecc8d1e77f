/-
  A file that was written is read back.

  Resolving a name only ever steps through directories, and a file is put where no directory stands.
  A name that was resolved before the file is put is therefore resolved to the same place after it
  (`walk_put`). The root and the working directory have directories all the way up (`Grounded`), and
  so have all places that a name leads to, be it resolved from the one or the other. A name that
  ends in dots therefore leads to a directory, and no file is written to it; any other name that is
  written to is resolved by a plain walk (`walk_of_target`).
-/
import ChunkedTree.Storage
import ChunkedTree.Checked
import Mathlib.Data.List.Basic

namespace ChunkedTree.Directory

variable {dir dir' : Directory} {p q : Place} {part : String}

/-! ## Steps -/

theorem directory_of_step (h : dir.step p part = .ok q) : dir.entry? p = some .directory := by
  unfold step at h
  split at h
  · cases h
  · cases h
  · next hentry => exact hentry

/-- A step depends on nothing but what stands at the place it starts from. -/
theorem step_congr (h : dir'.entry? p = dir.entry? p) (part : String) :
    dir'.step p part = dir.step p part := by
  unfold step
  rw [h]

/-- A part stays, goes up by its dots, or leads one level down. -/
theorem step_cases (h : dir.step p part = .ok q) :
    q = p ∨ q = p.up ∨ (Path.isDots part = false ∧ q = p.down part) := by
  unfold step at h
  split at h
  · cases h
  · cases h
  · unfold Path.isDots
    split_ifs at h with hhere hup hlong
    · exact Or.inl (Except.ok.inj h).symm
    · exact Or.inr (Or.inl (Except.ok.inj h).symm)
    · refine Or.inr (Or.inr ⟨?_, (Except.ok.inj h).symm⟩)
      simp [hhere, hup]

/-! ## Putting a file -/

theorem entry?_of_isSuffix (h : p.names <:+ dir.place.names) :
    dir.entry? p = some .directory := by
  unfold entry?
  rw [if_pos (List.isSuffixOf_iff_suffix.2 h)]

theorem entry?_root : dir.entry? .root = some .directory := entry?_of_isSuffix List.nil_suffix

theorem entry?_put_self {entry : Entry} (hp : dir.entry? p ≠ some .directory) :
    entry? (dir.put p entry) p = some entry := by
  have hbelow : ¬ p.names.isSuffixOf dir.place.names = true :=
    fun h => hp (entry?_of_isSuffix (List.isSuffixOf_iff_suffix.1 h))
  unfold entry? put
  rw [if_neg hbelow, List.lookup_cons_self]

theorem entry?_put_of_ne {entry : Entry} (h : q ≠ p) :
    entry? (dir.put p entry) q = dir.entry? q := by
  unfold entry? put
  rw [List.lookup_cons, beq_eq_false_iff_ne.2 h]

/-- Steps start from directories, and the file stands at another place. -/
theorem step_put {entry : Entry} (hp : dir.entry? p ≠ some .directory) {r : Place}
    (h : dir.step q part = .ok r) : (dir.put p entry).step q part = .ok r := by
  have hne : q ≠ p := by
    rintro rfl
    exact hp (directory_of_step h)
  rwa [step_congr (entry?_put_of_ne hne)]

theorem foldlM_step_put {entry : Entry} (hp : dir.entry? p ≠ some .directory) (path : Path) :
    ∀ q r, path.foldlM dir.step q = .ok r → path.foldlM (dir.put p entry).step q = .ok r := by
  induction path with
  | nil =>
    intro q r h
    exact h
  | cons part path ih =>
    intro q r h
    rw [List.foldlM_cons, bind_eq_ok_iff] at h
    obtain ⟨next, hstep, hrest⟩ := h
    rw [List.foldlM_cons, step_put hp hstep, ok_bind]
    exact ih next r hrest

theorem walk_put {entry : Entry} (hp : dir.entry? p ≠ some .directory) {path : Path}
    (h : dir.walk path = .ok q) : (dir.put p entry).walk path = .ok q :=
  foldlM_step_put hp path _ _ h

/-! ## Directories all the way up -/

/-- Directories stand everywhere between the root and the place that the names lead to, of which the
    last one comes first. -/
def GroundedAt (dir : Directory) : List String → Prop
  | [] => True
  | _ :: names => dir.entry? ⟨names⟩ = some .directory ∧ dir.GroundedAt names

/-- Directories stand everywhere on the way down to the place. -/
def Grounded (dir : Directory) (p : Place) : Prop := dir.GroundedAt p.names

theorem Grounded.directory_up (h : dir.Grounded p) : dir.entry? p.up = some .directory := by
  obtain ⟨names⟩ := p
  cases names with
  | nil => exact entry?_root
  | cons _ names => exact h.1

theorem Grounded.up (h : dir.Grounded p) : dir.Grounded p.up := by
  obtain ⟨names⟩ := p
  cases names with
  | nil => trivial
  | cons _ names => exact h.2

theorem groundedAt_of_isSuffix {names : List String} (h : names <:+ dir.place.names) :
    dir.GroundedAt names := by
  induction names with
  | nil => trivial
  | cons name names ih =>
    have hup := (List.suffix_cons name names).trans h
    exact ⟨entry?_of_isSuffix hup, ih hup⟩

theorem grounded_start (path : Path) : dir.Grounded (dir.start path) := by
  unfold start
  split
  · trivial
  · exact groundedAt_of_isSuffix List.suffix_rfl

theorem Grounded.step (h : dir.Grounded p) (hstep : dir.step p part = .ok q) :
    dir.Grounded q := by
  rcases step_cases hstep with rfl | rfl | ⟨_, rfl⟩
  · exact h
  · exact h.up
  · exact ⟨directory_of_step hstep, h⟩

theorem Grounded.foldlM (path : Path) :
    ∀ p, dir.Grounded p → path.foldlM dir.step p = .ok q → dir.Grounded q := by
  induction path with
  | nil =>
    intro p h hwalk
    obtain rfl := pure_eq_ok_iff.1 hwalk
    exact h
  | cons part path ih =>
    intro p h hwalk
    rw [List.foldlM_cons, bind_eq_ok_iff] at hwalk
    obtain ⟨next, hstep, hrest⟩ := hwalk
    exact ih next (h.step hstep) hrest

theorem grounded_of_walk {path : Path} (h : dir.walk path = .ok q) : dir.Grounded q :=
  Grounded.foldlM path _ (grounded_start path) h

/-- A part made of dots leads to a directory. -/
theorem directory_of_isDots (h : dir.Grounded p) (hstep : dir.step p part = .ok q)
    (hdots : Path.isDots part = true) : dir.entry? q = some .directory := by
  rcases step_cases hstep with rfl | rfl | ⟨hname, _⟩
  · exact directory_of_step hstep
  · exact h.directory_up
  · rw [hdots] at hname
    cases hname

/-! ## Reading what was written -/

/-- Without a slash after it, the last part is the one that the name ends with. -/
theorem eq_append_of_getLast? {path front : Path} {last : String}
    (hslash : path.getLast? ≠ some "")
    (hparts : path.reverse.dropWhile (· == "") = last :: front) :
    path = front.reverse ++ [last] := by
  have hsame : path.reverse.dropWhile (· == "") = path.reverse := by
    rw [← List.head?_reverse] at hslash
    cases hrev : path.reverse with
    | nil => rfl
    | cons part rest =>
      rw [hrev, List.head?_cons, ne_eq, Option.some.injEq] at hslash
      rw [List.dropWhile_cons, if_neg (by simpa using hslash)]
  rw [hsame] at hparts
  rw [← List.reverse_reverse path, hparts, List.reverse_cons]

/-- A last part that is not empty is of no account for where the name is resolved from. -/
theorem start_append_singleton {front : Path} {last : String} (h : last ≠ "") :
    dir.start (front ++ [last]) = dir.start front := by
  unfold start Path.isAbsolute
  cases front with
  | nil => simp [h]
  | cons part front => rfl

/-- A place that a file can be written to is the one that the name is resolved to. -/
theorem walk_of_target {path : Path} (hp : dir.entry? p ≠ some .directory)
    (h : dir.target path = .ok p) : dir.walk path = .ok p := by
  unfold target at h
  split at h
  · cases h
  · next last front hparts =>
    rw [bind_eq_ok_iff] at h
    obtain ⟨q, hfront, hlast⟩ := h
    split_ifs at hlast with hslash
    · rw [bind_eq_ok_iff] at hlast
      obtain ⟨_, _, hthrow⟩ := hlast
      cases hthrow
    · have hdots : Path.isDots last = false := by
        by_contra hcon
        exact hp (directory_of_isDots (grounded_of_walk hfront) hlast (by simpa using hcon))
      have hne : last ≠ "" := by
        rintro rfl
        cases hdots
      have hpath := eq_append_of_getLast? (by simpa [hdots] using hslash) hparts
      unfold walk
      rw [hpath, start_append_singleton hne, List.foldlM_append, bind_eq_ok_iff]
      refine ⟨q, hfront, ?_⟩
      rw [List.foldlM_cons, hlast]
      rfl

theorem read_of_write {name : String} {bytes : ByteArray}
    (h : dir.write name bytes = .ok dir') : dir'.read name = .ok bytes := by
  unfold write at h
  simp only [bind_eq_ok_iff] at h
  obtain ⟨path, hname, _, _, made, _, _, hcheck, p, htarget, hput⟩ := h
  have hp : made.entry? p ≠ some .directory := by
    intro hentry
    rw [hentry] at hput
    cases hput
  obtain rfl : made.put p (.file bytes) = dir' := by
    split at hput
    · cases hput
    · exact Except.ok.inj hput
  unfold read
  rw [hname, ok_bind, hcheck, ok_bind, walk_put hp (walk_of_target hp htarget), ok_bind,
    entry?_put_self hp]
  rfl

end ChunkedTree.Directory
