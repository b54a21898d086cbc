/-
What a run needs of a file system: files that are read and written as
whole texts, by path. What is written to a path is read there again, and
a write changes one file only; a file system comes with the proofs of
both. A directory that is a value is a file system (`Volume.fileSystem`).
-/
import TapeAsm.Files.Volume

namespace TapeAsm

/-- A file system with the given states. Reading and writing succeed or
fail as a whole. -/
structure FileSystem (State : Type) where
  /-- What tells a file from the others. -/
  File : Type
  /-- The content of a file, if it exists. -/
  content? : State → File → Option Content
  /-- The text of the file that a path leads to. -/
  read : State → String → Except FileError String
  /-- The state after a text has been written to where a path leads. -/
  write : State → String → String → Except FileError State
  /-- What is written to a path is read there. -/
  read_write : ∀ {s s' : State} {path text : String},
    write s path text = .ok s' → read s' path = .ok text
  /-- A write puts the text in one file and leaves the others alone. -/
  written : ∀ {s s' : State} {path text : String},
    write s path text = .ok s' → ∃ file,
      content? s' file = some (.text text)
        ∧ ∀ other, other ≠ file → content? s' other = content? s other

/-- A place once there is a file with the given name. -/
def Place.present (name : String) : Place → Place
  | .vacant true name' asDirectory =>
    if name' = name then .file name asDirectory
    else .vacant true name' asDirectory
  | place => place

namespace Volume

-- =================================================== one file replaced

/-- The files with the content of one name replaced. -/
def replaced (files : List (String × Content)) (name : String)
    (content : Content) : List (String × Content) :=
  files.map fun file => if file.1 = name then (name, content) else file

variable {files : List (String × Content)} {name other : String}

theorem lookup_replaced_of_ne (h : other ≠ name) (content : Content) :
    (replaced files name content).lookup other = files.lookup other := by
  induction files with
  | nil => rfl
  | cons file files ih =>
      unfold replaced at *
      rw [List.map_cons, List.lookup_cons, List.lookup_cons, ih]
      by_cases hfile : file.1 = name
      · have hne : (other == name) = false := beq_eq_false_iff_ne.mpr h
        rw [if_pos hfile, hfile, hne]
      · rw [if_neg hfile]

theorem lookup_replaced (h : (files.lookup name).isSome)
    (content : Content) :
    (replaced files name content).lookup name = some content := by
  induction files with
  | nil => cases h
  | cons file files ih =>
      unfold replaced at *
      rw [List.map_cons, List.lookup_cons]
      by_cases hfile : file.1 = name
      · rw [if_pos hfile, beq_self_eq_true]
      · have hne : (name == file.1) = false :=
          beq_eq_false_iff_ne.mpr (Ne.symm hfile)
        rw [List.lookup_cons, hne] at h
        rw [if_neg hfile, hne]
        exact ih h

variable (v : Volume)

/-- A file that is put in a directory has its new content, and the
others have theirs. -/
theorem content?_put (name other : String) (content : Content) :
    (v.put name content).content? other
      = if other = name then some content else v.content? other := by
  unfold put
  by_cases hsome : (v.content? name).isSome
  · rw [if_pos hsome]
    show (replaced v.files name content).lookup other = _
    by_cases hother : other = name
    · rw [if_pos hother, hother, lookup_replaced hsome]
    · rw [if_neg hother, lookup_replaced_of_ne hother]
      rfl
  · rw [if_neg hsome]
    have hnone : v.files.lookup name = none :=
      Option.not_isSome_iff_eq_none.mp hsome
    show (v.files ++ [(name, content)]).lookup other = _
    rw [List.lookup_append]
    by_cases hother : other = name
    · rw [if_pos hother, hother, hnone]
      simp
    · have hne : (other == name) = false := beq_eq_false_iff_ne.mpr hother
      rw [if_neg hother, List.lookup_cons, hne]
      simp [content?]

-- =========================================================== the path

variable {v}

/-- A step along a path leads where it did before a file was put in the
directory, but for the file itself. -/
theorem enter_put {place place' : Place} {part : String}
    (name : String) (content : Content)
    (h : v.enter place part = .ok place') :
    (v.put name content).enter (place.present name) part
      = .ok (place'.present name) := by
  cases place with
  | here =>
      simp only [enter, Place.present, content?_put] at h ⊢
      split at h
      · cases h
        rw [if_pos ‹_›]
      · rw [if_neg ‹_›]
        split at h
        · cases h
          rw [if_pos ‹_›]
        · rw [if_neg ‹_›]
          by_cases hpart : part = name
          · rw [if_pos hpart, Option.isSome_some, if_pos rfl]
            split at h
            · cases h
              rfl
            · cases h
              simp [hpart]
          · rw [if_neg hpart]
            split at h
            · cases h
              rw [if_pos ‹_›]
            · cases h
              rw [if_neg ‹_›]
              simp [hpart]
  | around =>
      simp only [enter, Place.present] at h ⊢
      rw [h]
      split at h
      · cases h
        rfl
      · cases h
        rfl
  | file name' asDirectory =>
      simp only [enter, Place.present] at h ⊢
      rw [h]
      split at h
      · cases h
        rfl
      · cases h
  | vacant inside name' asDirectory =>
      simp only [enter] at h
      split at h
      · cases h
        cases inside with
        | false => simp [Place.present, enter, *]
        | true =>
            by_cases hname : name' = name
            · simp [Place.present, enter, *]
            · simp [Place.present, enter, *]
      · cases h

theorem foldlM_enter_put {place place' : Place} (name : String)
    (content : Content) {parts : List String}
    (h : parts.foldlM v.enter place = .ok place') :
    parts.foldlM (v.put name content).enter (place.present name)
      = .ok (place'.present name) := by
  induction parts generalizing place with
  | nil =>
      cases h
      rfl
  | cons part parts ih =>
      rw [List.foldlM_cons] at h ⊢
      cases henter : v.enter place part with
      | error e =>
          rw [henter] at h
          cases h
      | ok next =>
          rw [henter] at h
          rw [enter_put name content henter]
          exact ih h

/-- A path leads where it did before a file was put in the directory, but
for the file itself. -/
theorem resolve_put {path : String} {place : Place} (name : String)
    (content : Content) (h : v.resolve path = .ok place) :
    (v.put name content).resolve path = .ok (place.present name) := by
  unfold resolve at h ⊢
  split at h
  · cases h
  · rw [if_neg ‹_›]
    split at h
    · exact foldlM_enter_put name content h
    · exact foldlM_enter_put name content h

/-- A text is written to a file that is there, or to a new one. -/
theorem exists_put_of_writeText {v' : Volume} {path text : String}
    (h : v.writeText path text = .ok v') :
    ∃ place name, v.resolve path = .ok place
      ∧ place.present name = .file name false
      ∧ v' = v.put name (.text text) := by
  unfold writeText at h
  cases hplace : v.resolve path with
  | error e =>
      rw [hplace] at h
      cases h
  | ok place =>
      rw [hplace] at h
      simp only [bind, Except.bind] at h
      split at h
      · cases h
      · cases h
      · cases h
      · cases h
      · split at h
        · cases h
          exact ⟨_, _, rfl, by simp [Place.present], rfl⟩
        · cases h
      · cases h
      · cases h
        exact ⟨_, _, rfl, rfl, rfl⟩

/-- A text that is written to a path is read there. -/
theorem readText_of_writeText {v' : Volume} {path text : String}
    (h : v.writeText path text = .ok v') : v'.readText path = .ok text := by
  obtain ⟨place, name, hplace, hpresent, rfl⟩ := exists_put_of_writeText h
  have hresolve := resolve_put name (.text text) hplace
  have hcontent : (v.put name (.text text)).content? name
      = some (.text text) := by
    rw [content?_put, if_pos rfl]
  rw [hpresent] at hresolve
  unfold readText
  rw [hresolve]
  simp only [bind, Except.bind, hcontent]
  rfl

/-- A directory that is a value, as a file system. -/
def fileSystem : FileSystem Volume where
  File := String
  content? := content?
  read := readText
  write := writeText
  read_write := readText_of_writeText
  written := by
    intro v v' path text h
    obtain ⟨place, name, -, -, rfl⟩ := exists_put_of_writeText h
    refine ⟨name, ?_, fun other hother => ?_⟩
    · rw [content?_put, if_pos rfl]
    · rw [content?_put, if_neg hother]

end Volume

end TapeAsm
