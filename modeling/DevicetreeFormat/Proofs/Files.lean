import DevicetreeFormat.Files.FileSystem

/-!
# Writing over files

A write puts one file at one location and leaves every other location as it
was. Over a file that is there it also keeps the shape of the file system, so
every path means the same place as before.
-/

namespace DevicetreeFormat

set_option autoImplicit false

theorem mem_of_lookup_eq_some {Key Item : Type} [BEq Key] [LawfulBEq Key]
    {entries : List (Key × Item)} {key : Key} {item : Item}
    (found : entries.lookup key = some item) : (key, item) ∈ entries := by
  obtain ⟨before, after, rfl, _⟩ := List.lookup_eq_some_iff.mp found
  simp

namespace FileSystem

theorem lookup_cons_eq (other : Location × Entry) (rest : List (Location × Entry))
    (location : Location) :
    (other :: rest).lookup location =
      if location = other.1 then some other.2 else rest.lookup location := by
  rw [List.lookup_cons]
  by_cases same : location = other.1
  · rw [if_pos same, beq_iff_eq.mpr same]
  · rw [if_neg same, beq_eq_false_iff_ne.mpr same]

theorem lookup_set_entry (place : Location) (entry : Entry) (entries : List (Location × Entry))
    (location : Location) :
    (setEntry place entry entries).lookup location =
      if location = place then some entry else entries.lookup location := by
  induction entries with
  | nil => exact lookup_cons_eq (place, entry) [] location
  | cons other rest induction =>
      rw [setEntry]
      split
      · next found =>
          rw [lookup_cons_eq, lookup_cons_eq, found]
          split <;> rfl
      · next differs =>
          rw [lookup_cons_eq, lookup_cons_eq, induction]
          by_cases same : location = other.1
          · rw [if_pos same, if_pos same, if_neg (by rw [same]; exact differs)]
          · rw [if_neg same, if_neg same]

theorem entry_at_put (files : FileSystem) {place : Location} (below : place ≠ [])
    (content : ByteArray) (location : Location) :
    (files.put place content).entryAt location =
      if location = place then some (.file content) else files.entryAt location := by
  unfold entryAt
  by_cases top : location = []
  · rw [if_pos top, if_pos top, if_neg (by rw [top]; exact below.symm)]
  · rw [if_neg top, if_neg top]
    exact lookup_set_entry place (.file content) files.entries location

/-! ### The shape of a file system -/

/-- Two file systems with the same directories and with files in the same places. -/
structure SameShape (before after : FileSystem) : Prop where
  workingDirectory : after.workingDirectory = before.workingDirectory
  directories : ∀ location, after.isDirectoryAt location = before.isDirectoryAt location
  present : ∀ location, (after.entryAt location).isSome = (before.entryAt location).isSome

namespace SameShape

variable {before after : FileSystem}

theorem refl (files : FileSystem) : SameShape files files :=
  ⟨rfl, fun _ => rfl, fun _ => rfl⟩

theorem trans {middle : FileSystem} (first : SameShape before middle)
    (second : SameShape middle after) : SameShape before after where
  workingDirectory := second.workingDirectory.trans first.workingDirectory
  directories location := (second.directories location).trans (first.directories location)
  present location := (second.present location).trans (first.present location)

theorem walk (shape : SameShape before after) (here : Location) (parts : List String) :
    after.walk here parts = before.walk here parts := by
  induction parts generalizing here with
  | nil => rfl
  | cons part rest induction =>
      simp only [FileSystem.walk, shape.directories, shape.present, induction]

theorem start_of (shape : SameShape before after) (path : Path) :
    after.startOf path = before.startOf path := by
  simp only [FileSystem.startOf, shape.workingDirectory]

theorem locate (shape : SameShape before after) (path : Path) :
    after.locate path = before.locate path := by
  rw [FileSystem.locate, shape.start_of, shape.walk, FileSystem.locate]

theorem target (shape : SameShape before after) (path : Path) :
    after.target path = before.target path := by
  simp only [FileSystem.target, shape.start_of, shape.walk, shape.directories]

theorem write_text (shape : SameShape before after) {path : Path} {text : String}
    (writable : ∃ written, before.writeText path text = .ok written) :
    ∃ written, after.writeText path text = .ok written := by
  obtain ⟨written, writes⟩ := writable
  unfold FileSystem.writeText at writes ⊢
  rw [shape.target]
  split at writes
  · cases writes
  · next nameable =>
      rw [if_neg nameable]
      split at writes
      · cases writes
      · next place target => exact ⟨after.put place text.toUTF8, rfl⟩

end SameShape

/-! ### The place of a path -/

/-- Whether two paths mean one place. -/
def samePlace (files : FileSystem) (first second : Path) : Bool :=
  match files.locate first, files.locate second with
  | .ok here, .ok there => here == there
  | _, _ => false

theorem same_place_comm (files : FileSystem) (first second : Path) :
    files.samePlace first second = files.samePlace second first := by
  unfold samePlace
  cases files.locate first with
  | error fault => cases files.locate second <;> rfl
  | ok here =>
      cases files.locate second with
      | error fault => rfl
      | ok there => exact BEq.comm

theorem SameShape.same_place {before after : FileSystem} (shape : SameShape before after)
    (first second : Path) : after.samePlace first second = before.samePlace first second := by
  simp only [FileSystem.samePlace, shape.locate]

theorem locate_ne_of_apart {files : FileSystem} {first second : Path} {location : Location}
    (apart : files.samePlace first second = false) (located : files.locate second = .ok location) :
    files.locate first ≠ .ok location := by
  intro same
  simp [samePlace, same, located] at apart

/-! ### Reading -/

theorem locate_of_read {files : FileSystem} {path : Path} {content : ByteArray}
    (reads : files.read path = .ok content) :
    ∃ location, files.locate path = .ok location ∧ files.entryAt location = some (.file content) := by
  unfold read at reads
  split at reads
  · cases reads
  · split at reads
    · cases reads
    · next location located =>
        split at reads
        · next found entry =>
            cases reads
            exact ⟨location, located, entry⟩
        · cases reads
        · cases reads

theorem nameable_of_read {files : FileSystem} {path : Path} {content : ByteArray}
    (reads : files.read path = .ok content) : path.isNameable = true := by
  unfold read at reads
  split at reads
  · cases reads
  · next nameable => simpa using nameable

theorem read_of_locate {files : FileSystem} {path : Path} {content : ByteArray}
    {location : Location} (nameable : path.isNameable = true)
    (located : files.locate path = .ok location)
    (entry : files.entryAt location = some (.file content)) : files.read path = .ok content := by
  simp [read, nameable, located, entry]

/-- Reading a path looks at no other location than the one that it means. -/
theorem read_eq_read {before after : FileSystem} {path : Path}
    (same : after.locate path = before.locate path)
    (kept : ∀ location, before.locate path = .ok location →
      after.entryAt location = before.entryAt location) :
    after.read path = before.read path := by
  unfold read
  rw [same]
  cases located : before.locate path with
  | error fault => rfl
  | ok location => simp only [kept location located]

theorem read_text_eq_read_text {before after : FileSystem} {path : Path}
    (same : after.read path = before.read path) : after.readText path = before.readText path := by
  unfold readText
  rw [same]

theorem read_of_read_text {files : FileSystem} {path : Path} {text : String}
    (reads : files.readText path = .ok text) :
    ∃ content decoded, files.read path = .ok content ∧ String.fromUTF8? content = some decoded ∧
      text = Text.normalizeNewlines decoded := by
  unfold readText at reads
  split at reads
  · cases reads
  · next content found =>
      split at reads
      · next decoded valid =>
          cases reads
          exact ⟨content, decoded, found, valid, rfl⟩
      · cases reads

/-! ### Writing -/

theorem walk_append (files : FileSystem) (here : Location) (parts others : List String) :
    files.walk here (parts ++ others) = files.walk here parts >>= fun there =>
      files.walk there others := by
  induction parts generalizing here with
  | nil => rfl
  | cons part rest induction =>
      rw [List.cons_append, walk, walk]
      split
      · rfl
      · split
        · exact induction here.dropLast
        · split
          · exact induction (here ++ [part])
          · rfl

/-- A file that is there is written where it is read. -/
theorem locate_eq_target {files : FileSystem} {path : Path} {place location : Location}
    (target : files.target path = .ok place) (located : files.locate path = .ok location) :
    location = place := by
  unfold FileSystem.target at target
  split at target
  · cases target
  · next name last =>
      obtain ⟨front, parts⟩ := List.getLast?_eq_some_iff.mp last
      rw [locate, parts, walk_append] at located
      rw [parts, List.dropLast_concat] at target
      split at target
      · cases target
      · next parent walked =>
          have final : files.walk parent [name] = .ok location := by
            rw [walked] at located
            exact located
          rw [walk] at final
          split at target
          · cases target
          · split at target
            · cases target
            · split at target
              · cases target
              · next directory notUp _ =>
                  rw [if_neg directory, if_neg notUp] at final
                  split at final
                  · cases target
                    cases final
                    rfl
                  · cases final

/-- The file system `after` differs from `before` in the content of one file. -/
structure Overwrites (before : FileSystem) (place : Location) (content : ByteArray)
    (after : FileSystem) : Prop where
  shape : SameShape before after
  here : after.entryAt place = some (.file content)
  elsewhere : ∀ location, location ≠ place → after.entryAt location = before.entryAt location

theorem overwrites_put {files : FileSystem} {place : Location} {old : ByteArray}
    (there : files.entryAt place = some (.file old)) (content : ByteArray) :
    Overwrites files place content (files.put place content) := by
  have below : place ≠ [] := by
    rintro rfl
    cases there
  have entries := files.entry_at_put below content
  refine ⟨⟨rfl, ?_, ?_⟩, ?_, ?_⟩
  · intro location
    by_cases same : location = place
    · subst same
      simp [isDirectoryAt, entries, there]
    · simp [isDirectoryAt, entries, same]
  · intro location
    by_cases same : location = place
    · subst same
      simp [entries, there]
    · simp [entries, same]
  · simp [entries]
  · intro location other
    simp [entries, other]

theorem overwrites_of_write_text {files written : FileSystem} {path : Path} {old : ByteArray}
    {text : String} (reads : files.read path = .ok old)
    (writes : files.writeText path text = .ok written) :
    ∃ place, files.locate path = .ok place ∧ Overwrites files place text.toUTF8 written := by
  obtain ⟨place, located, there⟩ := locate_of_read reads
  refine ⟨place, located, ?_⟩
  unfold writeText at writes
  split at writes
  · cases writes
  · split at writes
    · cases writes
    · next location target =>
        cases writes
        rw [← locate_eq_target target located]
        exact overwrites_put there text.toUTF8

theorem Overwrites.read_here {before after : FileSystem} {place : Location} {content : ByteArray}
    {path : Path} (change : Overwrites before place content after)
    (nameable : path.isNameable = true) (located : before.locate path = .ok place) :
    after.read path = .ok content := by
  apply read_of_locate nameable _ change.here
  rw [change.shape.locate]
  exact located

/-- What is written over a file is what the file holds. -/
theorem read_of_write_text {files written : FileSystem} {path : Path} {old : ByteArray}
    {text : String} (reads : files.read path = .ok old)
    (writes : files.writeText path text = .ok written) : written.read path = .ok text.toUTF8 := by
  obtain ⟨place, located, change⟩ := overwrites_of_write_text reads writes
  exact change.read_here (nameable_of_read reads) located

end FileSystem

end DevicetreeFormat
