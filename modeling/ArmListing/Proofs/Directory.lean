import ArmListing.Directory

/-!
# ArmListing.Proofs.Directory

What **putting a file** into a directory does to it: the file at the place has
the new contents, all other files have theirs (`file?_put`), and every path
leads to where it led before (`find_put`). So what has been put at the place that
a path makes a file at is read by this path (`read_put`), and by any other path
to the same place.

The operations of `Directory.access` are told by what they answer and the
directory behind them (`run_read`, `run_create_of_some`).
-/

namespace ArmListing.Directory

variable {d : Directory} {p q r : Place} {text : String} {contents : ByteArray}

/-! ### Files -/

@[simp] theorem directories_put (d : Directory) (p : Place) (contents : ByteArray) :
    (d.put p contents).directories = d.directories := rfl

@[simp] theorem isDirectory_put (d : Directory) (p q : Place) (contents : ByteArray) :
    (d.put p contents).isDirectory q = d.isDirectory q := rfl

/-- Taking the files at a place out leaves the others where they are. -/
theorem lookup_filter_ne (h : q ≠ p) (files : List (Place × ByteArray)) :
    (files.filter (·.1 != p)).lookup q = files.lookup q := by
  induction files with
  | nil => rfl
  | cons file files ih =>
    obtain ⟨r, contents⟩ := file
    by_cases hp : r = p
    · subst hp
      have hq : (q == r) = false := beq_eq_false_iff_ne.mpr h
      simp [List.lookup_cons, hq, ih]
    · by_cases hq : q = r
      · simp [hp, hq]
      · have hq' : (q == r) = false := beq_eq_false_iff_ne.mpr hq
        simp [List.lookup_cons, hp, hq', ih]

theorem file?_put (d : Directory) (p q : Place) (contents : ByteArray) :
    (d.put p contents).file? q = if q = p then some contents else d.file? q := by
  unfold put file?
  by_cases h : q = p
  · simp [h]
  · have hq : (q == p) = false := beq_eq_false_iff_ne.mpr h
    simp [List.lookup_cons, h, hq, lookup_filter_ne h]

/-- Of two files that are put at one place the second one stays. -/
@[simp] theorem put_put (d : Directory) (p : Place) (first second : ByteArray) :
    (d.put p first).put p second = d.put p second := by
  simp [put, List.filter_filter]

/-! ### Paths -/

/-- Which place a name leads to depends on the directories alone. -/
theorem follow_put {name : String} :
    (d.put p contents).follow q name = .ok r ↔ d.follow q name = .ok r := by
  unfold follow
  rw [isDirectory_put]
  split
  · exact Iff.rfl
  · constructor
    · intro h
      split at h <;> contradiction
    · intro h
      split at h <;> contradiction

theorem foldlM_follow_put (names : List String) :
    names.foldlM (d.put p contents).follow q = .ok r ↔ names.foldlM d.follow q = .ok r := by
  induction names generalizing q with
  | nil => exact Iff.rfl
  | cons name names ih =>
    rw [List.foldlM_cons, List.foldlM_cons]
    cases hbefore : d.follow q name with
    | ok next =>
      rw [follow_put.mpr hbefore]
      exact ih
    | error e =>
      cases hafter : (d.put p contents).follow q name with
      | ok next => rw [follow_put.mp hafter] at hbefore; contradiction
      | error e' => exact iff_of_false nofun nofun

/-- **Putting a file does not change where paths lead.** -/
theorem find_put : (d.put p contents).find text = .ok q ↔ d.find text = .ok q := by
  unfold find
  split
  · exact Iff.rfl
  · split
    · exact Iff.rfl
    · exact foldlM_follow_put _

/-- A path makes a file where it leads, unless there is a directory or it asks for one. -/
theorem placeOfNew?_eq_some_iff :
    d.placeOfNew? text = some p ↔
      d.find text = .ok p ∧ d.isDirectory p = false ∧ (Path.ofString text).slash = false := by
  unfold placeOfNew?
  cases d.find text with
  | error e => exact iff_of_false nofun nofun
  | ok place =>
    rw [Except.ok.injEq]
    by_cases hnew : (!d.isDirectory place && !(Path.ofString text).slash) = true
    · have hguard : guard (!d.isDirectory place && !(Path.ofString text).slash) = some () :=
        if_pos hnew
      show (do guard _; return place) = some p ↔ _
      rw [hguard]
      simp only [Bool.and_eq_true, Bool.not_eq_true'] at hnew
      constructor
      · intro h
        cases h
        exact ⟨rfl, hnew⟩
      · rintro ⟨rfl, -⟩
        rfl
    · have hguard : guard (!d.isDirectory place && !(Path.ofString text).slash) = none :=
        if_neg hnew
      show (do guard _; return place) = some p ↔ _
      rw [hguard]
      constructor
      · intro h
        contradiction
      · rintro ⟨rfl, hdirectory, hslash⟩
        exact absurd (by rw [hdirectory, hslash]; rfl) hnew

/-- What is read where a path leads. -/
theorem read_of_find (h : d.find text = .ok p) :
    d.read text =
      if d.isDirectory p then .error .isDirectory
      else
        match d.file? p with
        | none => .error .notFound
        | some contents =>
          if (Path.ofString text).slash then .error .notDirectory else .ok contents := by
  unfold read
  rw [h]
  show (if d.isDirectory p then _ else _) = _
  cases d.isDirectory p with
  | true => rfl
  | false =>
    cases d.file? p with
    | none => rfl
    | some contents => cases (Path.ofString text).slash <;> rfl

/-- What has been put at the place of a new file is read from there. -/
theorem read_put (h : d.placeOfNew? text = some p) :
    (d.put p contents).read text = .ok contents := by
  obtain ⟨hfind, hdirectory, hslash⟩ := placeOfNew?_eq_some_iff.mp h
  rw [read_of_find (find_put.mpr hfind), isDirectory_put, hdirectory, file?_put, hslash]
  simp

/-! ### Operations -/

theorem run_read {result : Except FileError ByteArray} (h : d.read text = result) :
    (access.read text).run d = (result, d) :=
  congrArg (·, d) h

/-- Where no file can be made nothing changes. -/
theorem run_create_of_none (h : d.placeOfNew? text = none) :
    (access.create text).run d = (none, d) := by
  simp only [access, StateT.run_bind, StateT.run_get, pure_bind, h, StateT.run_pure]
  rfl

/-- A file is empty once it is made, and bytes are put at its place later. -/
theorem run_create_of_some (h : d.placeOfNew? text = some p) :
    (access.create text).run d =
      (some fun contents => modify (·.put p contents), d.put p ByteArray.empty) := by
  simp only [access, StateT.run_bind, StateT.run_get, pure_bind, h]
  rfl

end ArmListing.Directory
