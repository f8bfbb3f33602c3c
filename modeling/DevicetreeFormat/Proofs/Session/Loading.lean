import DevicetreeFormat.CommandLine.Session
import Mathlib.Data.List.Basic

/-!
# Settings for every file

Files that share a settings file share its settings, and it is loaded once. This
cannot be seen: every path has the settings that are discovered from it alone,
which come from the nearest settings file above it. If some path has none, the
first such path in the list decides how loading fails.
-/

namespace DevicetreeFormat

set_option autoImplicit false

/-! ### The first fault -/

/-- The first fault among outcomes, with nothing but values before it. -/
def FirstFault {Error Value : Type} (outcomes : List (Except Error Value)) (fault : Error) : Prop :=
  ∃ front rest, outcomes = front ++ .error fault :: rest ∧ ∀ outcome ∈ front, ∃ value, outcome = .ok value

section

variable {Error Value Item : Type}

theorem FirstFault.mem {outcomes : List (Except Error Value)} {fault : Error}
    (first : FirstFault outcomes fault) : .error fault ∈ outcomes := by
  obtain ⟨front, rest, rfl, _⟩ := first
  simp

theorem first_fault_nil {fault : Error} : ¬ FirstFault ([] : List (Except Error Value)) fault := by
  rintro ⟨front, rest, shape, _⟩
  cases front <;> cases shape

theorem first_fault_error {first fault : Error} {rest : List (Except Error Value)} :
    FirstFault (.error first :: rest) fault ↔ first = fault := by
  constructor
  · rintro ⟨front, later, shape, fine⟩
    cases front with
    | nil =>
        cases shape
        rfl
    | cons outcome others =>
        obtain ⟨value, same⟩ := fine outcome (by simp)
        rw [same] at shape
        cases shape
  · rintro rfl
    exact ⟨[], rest, rfl, by simp⟩

theorem first_fault_ok {value : Value} {fault : Error} {rest : List (Except Error Value)} :
    FirstFault (.ok value :: rest) fault ↔ FirstFault rest fault := by
  constructor
  · rintro ⟨front, later, shape, fine⟩
    cases front with
    | nil => cases shape
    | cons outcome others =>
        cases shape
        exact ⟨others, later, rfl, fun other member => fine other (by simp [member])⟩
  · rintro ⟨front, later, rfl, fine⟩
    exact ⟨.ok value :: front, later, rfl, List.forall_mem_cons.mpr ⟨⟨value, rfl⟩, fine⟩⟩

theorem first_fault_singleton {outcome : Except Error Value} {fault : Error} :
    FirstFault [outcome] fault ↔ outcome = .error fault := by
  cases outcome with
  | error first => simp [first_fault_error]
  | ok value => simp [first_fault_ok, first_fault_nil]

/-- The fault of an outcome, if it is one. -/
def faultOf : Except Error Value → Option Error
  | .error fault => some fault
  | .ok _ => none

theorem eq_error_of_fault_of {outcome : Except Error Value} {fault : Error}
    (shown : faultOf outcome = some fault) : outcome = .error fault := by
  cases outcome with
  | error other =>
      cases shown
      rfl
  | ok value => cases shown

/-- The first fault is found by looking at one outcome after the other. -/
theorem first_fault_iff {outcomes : List (Except Error Value)} {fault : Error} :
    FirstFault outcomes fault ↔ outcomes.findSome? faultOf = some fault := by
  induction outcomes with
  | nil => simp [first_fault_nil]
  | cons outcome rest induction =>
      rw [List.findSome?_cons]
      cases outcome with
      | error first => simp [first_fault_error, faultOf]
      | ok value => rw [first_fault_ok, induction, faultOf]

/-- Where there is a fault, there is a first one. -/
theorem exists_first_fault {outcomes : List (Except Error Value)} {fault : Error}
    (member : .error fault ∈ outcomes) : ∃ first, FirstFault outcomes first := by
  induction outcomes with
  | nil => cases member
  | cons outcome rest induction =>
      cases outcome with
      | error other => exact ⟨other, first_fault_error.mpr rfl⟩
      | ok value =>
          obtain ⟨first, later⟩ := induction (by simpa using member)
          exact ⟨first, first_fault_ok.mpr later⟩

theorem mapM_eq_ok_iff {load : Item → Except Error Value} {items : List Item} {values : List Value} :
    items.mapM load = .ok values ↔ items.map load = values.map .ok := by
  induction items generalizing values with
  | nil => cases values <;> simp [pure, Except.pure]
  | cons item rest induction =>
      rw [List.mapM_cons, List.map_cons]
      cases load item with
      | error fault => cases values <;> simp [bind, Except.bind]
      | ok value =>
          cases later : rest.mapM load with
          | error fault => cases values <;> simp [bind, Except.bind, ← induction, later]
          | ok others => cases values <;> simp [bind, Except.bind, pure, Except.pure, ← induction, later]

theorem mapM_eq_error_iff {load : Item → Except Error Value} {items : List Item} {fault : Error} :
    items.mapM load = .error fault ↔ FirstFault (items.map load) fault := by
  induction items with
  | nil => simp [pure, Except.pure, first_fault_nil]
  | cons item rest induction =>
      rw [List.mapM_cons, List.map_cons]
      cases load item with
      | error first => simp [bind, Except.bind, first_fault_error]
      | ok value =>
          rw [first_fault_ok, ← induction]
          cases rest.mapM load <;> simp [bind, Except.bind, pure, Except.pure]

end

/-! ### The nearest settings file -/

namespace Settings

/-- A directory at or above a path: above the location of the path, or at it if a
directory is there. -/
def AtOrAbove (files : FileSystem) (start : Path) (directory : Location) : Prop :=
  directory <+: files.resolve start ∧
    (directory = files.resolve start → files.isDirectoryAt directory = true)

/-- The closest directory at or above a path that holds a settings file. -/
structure Closest (files : FileSystem) (start : Path) (directory : Location) : Prop where
  above : AtOrAbove files start directory
  holds : files.isFileAt (directory ++ [fileName]) = true
  first : ∀ other, AtOrAbove files start other → files.isFileAt (other ++ [fileName]) = true →
    other <+: directory

theorem is_directory_at_top (files : FileSystem) : files.isDirectoryAt [] = true := rfl

theorem at_or_above_iff {files : FileSystem} {start : Path} {directory : Location} :
    AtOrAbove files start directory ↔ directory <+: searchStart files start := by
  unfold AtOrAbove searchStart
  simp only
  split
  · next there =>
      constructor
      · exact fun above => above.1
      · intro above
        refine ⟨above, ?_⟩
        rintro rfl
        exact there
  · next absent =>
      have filled : files.resolve start ≠ [] := by
        intro top
        rw [top, is_directory_at_top] at absent
        exact absent rfl
      obtain ⟨parent, name, shape⟩ := List.eq_nil_or_concat (files.resolve start) |>.resolve_left filled
      rw [List.concat_eq_append] at shape
      rw [shape] at absent ⊢
      rw [List.dropLast_concat, List.prefix_concat_iff]
      constructor
      · rintro ⟨same | above, whole⟩
        · rw [same] at whole
          exact absurd (whole rfl) absent
        · exact above
      · intro above
        refine ⟨.inr above, ?_⟩
        intro same
        have shorter := above.length_le
        rw [same, List.length_append, List.length_singleton] at shorter
        omega

theorem mem_ancestors {location directory : Location} :
    directory ∈ ancestors location ↔ directory <+: location := by
  rw [ancestors, List.mem_map]
  constructor
  · rintro ⟨level, _, rfl⟩
    exact List.take_prefix _ _
  · intro above
    refine ⟨location.length - directory.length, ?_, ?_⟩
    · rw [List.mem_range]
      omega
    · have shorter := above.length_le
      rw [Nat.sub_sub_self shorter]
      exact (List.prefix_iff_eq_take.mp above).symm

theorem ancestors_ordered (location : Location) :
    (ancestors location).Pairwise fun nearer farther => farther <+: nearer := by
  rw [ancestors, List.pairwise_map]
  refine List.pairwise_lt_range.imp ?_
  intro nearer farther less
  exact List.take_prefix_take_left (by omega)

/-- The search finds the file of the closest directory, or there is none. -/
theorem find_file_cases (files : FileSystem) (start : Path) :
    (∃ directory, Closest files start directory ∧
        findFile files start = some ⟨"/", directory ++ [fileName]⟩) ∨
      (∀ directory, AtOrAbove files start directory →
          files.isFileAt (directory ++ [fileName]) = false) ∧
        findFile files start = none := by
  simp only [findFile, List.find?_map, Function.comp_def]
  cases found : (ancestors (searchStart files start)).find?
      fun directory => files.isFileAt (directory ++ [fileName]) with
  | none =>
      refine .inr ⟨?_, rfl⟩
      intro directory above
      rw [List.find?_eq_none] at found
      simpa using found directory (mem_ancestors.mpr (at_or_above_iff.mp above))
  | some directory =>
      refine .inl ⟨directory, ?_, rfl⟩
      obtain ⟨holds, front, rest, shape, without⟩ := List.find?_eq_some_iff_append.mp found
      have member : directory ∈ ancestors (searchStart files start) := by
        rw [shape]
        simp
      refine ⟨at_or_above_iff.mpr (mem_ancestors.mp member), holds, ?_⟩
      intro other above there
      have inside := mem_ancestors.mpr (at_or_above_iff.mp above)
      have order := ancestors_ordered (searchStart files start)
      rw [shape] at inside order
      -- A directory that is searched earlier holds no file.
      rcases List.mem_append.mp inside with earlier | later
      · have absent := without other earlier
        rw [there] at absent
        cases absent
      · rcases List.mem_cons.mp later with rfl | after
        · exact List.prefix_refl other
        · exact (List.pairwise_cons.mp (List.pairwise_append.mp order).2.1).1 other after

end Settings

/-! ### Loading each settings file once -/

namespace CommandLine

/-- What is loaded already is what would be loaded again. -/
def Remembers (loader : Settings.Loader) (files : FileSystem) (given : Entries)
    (loaded : List (Option Path × Settings)) : Prop :=
  ∀ found settings, loaded.lookup found = some settings →
    Settings.loadFound loader files found given = .ok settings

theorem discover_of_nameable (loader : Settings.Loader) (files : FileSystem) {path : Path}
    (nameable : path.isNameable = true) (given : Entries) :
    Settings.discover loader files path given =
      Settings.loadFound loader files (Settings.findFile files path) given :=
  if_pos nameable

theorem remembers_nil (loader : Settings.Loader) (files : FileSystem) (given : Entries) :
    Remembers loader files given [] := by
  intro found settings seen
  cases seen

theorem remembers_cons {loader : Settings.Loader} {files : FileSystem} {given : Entries}
    {loaded : List (Option Path × Settings)} {found : Option Path} {settings : Settings}
    (remembers : Remembers loader files given loaded)
    (loads : Settings.loadFound loader files found given = .ok settings) :
    Remembers loader files given ((found, settings) :: loaded) := by
  intro other known seen
  rw [List.lookup_cons] at seen
  split at seen
  · next same =>
      cases seen
      rw [beq_iff_eq.mp same]
      exact loads
  · exact remembers other known seen

theorem load_each_eq_mapM {loader : Settings.Loader} {files : FileSystem} {given : Entries}
    {loaded : List (Option Path × Settings)} (remembers : Remembers loader files given loaded)
    (paths : List Path) :
    loadEach loader files given loaded paths =
      paths.mapM fun path => Settings.discover loader files path given := by
  induction paths generalizing loaded with
  | nil => rfl
  | cons path rest induction =>
      rw [loadEach, List.mapM_cons]
      split
      · next unnameable =>
          rw [Settings.discover, if_neg (by simpa using unnameable)]
          rfl
      · next nameable =>
          have named : path.isNameable = true := by simpa using nameable
          have discovered := discover_of_nameable loader files named given
          simp only
          split
          · next settings known =>
              rw [discovered, remembers _ _ known, induction remembers]
              rfl
          · cases loads : Settings.discover loader files path given with
            | error fault => rfl
            | ok settings =>
                have again := remembers_cons remembers (discovered.symm.trans loads)
                change (loadEach loader files given _ rest >>= fun others => pure (settings :: others)) = _
                rw [induction again]
                rfl

theorem settings_for_eq_mapM (loader : Settings.Loader) (files : FileSystem) {options : Options}
    (nearest : options.config = .nearest) (paths : List Path) :
    settingsFor loader files options paths =
      paths.mapM fun path => Settings.discover loader files path (overrides options) := by
  rw [settingsFor, nearest]
  exact load_each_eq_mapM (remembers_nil loader files _) paths

theorem settings_for_length {loader : Settings.Loader} {files : FileSystem} {options : Options}
    {paths : List Path} {settings : List Settings}
    (loads : settingsFor loader files options paths = .ok settings) :
    settings.length = paths.length := by
  cases asked : options.config with
  | named config =>
      rw [settingsFor, asked] at loads
      cases own : Settings.load loader files config (overrides options) with
      | error fault =>
          simp only [own] at loads
          cases loads
      | ok shared =>
          simp only [own] at loads
          cases loads
          exact List.length_map _
  | nearest =>
      rw [settings_for_eq_mapM loader files asked, mapM_eq_ok_iff] at loads
      simpa using (congrArg List.length loads).symm
  | blank =>
      rw [settingsFor, asked] at loads
      cases loads

/-- **Every path has the settings that are discovered from it**, from the closest
settings file at or above it, or the default ones. Loading fails exactly if it fails
for some path, as it fails for the first of them. -/
theorem settings_for_discovered (loader : Settings.Loader) (files : FileSystem) {options : Options}
    (nearest : options.config = .nearest) (paths : List Path) :
    (∀ settings, settingsFor loader files options paths = .ok settings ↔
      (paths.map fun path => Settings.discover loader files path (overrides options)) =
        settings.map .ok) ∧
    (∀ fault, settingsFor loader files options paths = .error fault ↔
      FirstFault (paths.map fun path => Settings.discover loader files path (overrides options)) fault) ∧
    ∀ path, path.isNameable = true →
      (∃ directory, Settings.Closest files path directory ∧
        Settings.discover loader files path (overrides options) =
          Settings.load loader files ⟨"/", directory ++ [Settings.fileName]⟩ (overrides options)) ∨
      (∀ directory, Settings.AtOrAbove files path directory →
          files.isFileAt (directory ++ [Settings.fileName]) = false) ∧
        Settings.discover loader files path (overrides options) =
          Settings.ofEntries "<config>" (overrides options) := by
  rw [settings_for_eq_mapM loader files nearest]
  refine ⟨fun settings => mapM_eq_ok_iff, fun fault => mapM_eq_error_iff, ?_⟩
  intro path nameable
  rw [discover_of_nameable loader files nameable]
  rcases Settings.find_file_cases files path with ⟨directory, closest, found⟩ | ⟨absent, found⟩
  · rw [found]
    exact .inl ⟨directory, closest, rfl⟩
  · rw [found]
    exact .inr ⟨absent, rfl⟩

/-- A project with settings and, inside it, one with its own. -/
def nestedFiles : FileSystem :=
  ⟨[([".dtsfmtrc.yaml"], .file "layout: corne\n".toUTF8), (["a.dts"], .file ByteArray.empty),
    (["inner"], .directory), (["inner", ".dtsfmtrc.yaml"], .file "indent_unit: '    '\n".toUTF8),
    (["inner", "b.dts"], .file ByteArray.empty)], []⟩

def nestedPaths : List Path :=
  [⟨"", ["inner", "b.dts"]⟩, ⟨"", ["a.dts"]⟩, ⟨"", ["inner", "..", "inner", "c.dts"]⟩]

/-- The first and the last path share their settings, and the one between them has others. -/
theorem settings_for_discovered_nested :
    ∃ settings, settingsFor Yaml.load nestedFiles {} nestedPaths = .ok settings ∧
      settings.map (fun own => (own.layout.text?, own.indentUnit)) =
        [(some "adv360", "    "), (some "corne", "  "), (some "adv360", "    ")] ∧
      (nestedPaths.map fun path => Settings.discover Yaml.load nestedFiles path (overrides {})) =
        settings.map .ok := by
  have shown : ((settingsFor Yaml.load nestedFiles {} nestedPaths).toOption.map
      (List.map fun own => (own.layout.text?, own.indentUnit))) =
        some [(some "adv360", "    "), (some "corne", "  "), (some "adv360", "    ")] := by decide +kernel
  have nearest : ({} : Options).config = .nearest := rfl
  obtain ⟨each, _, _⟩ := settings_for_discovered Yaml.load nestedFiles nearest nestedPaths
  cases loads : settingsFor Yaml.load nestedFiles {} nestedPaths with
  | error fault =>
      rw [loads] at shown
      cases shown
  | ok settings =>
      rw [loads] at shown
      exact ⟨settings, rfl, Option.some.inj shown, (each settings).mp loads⟩

/-- Whether every file holds a text. -/
def allText (files : FileSystem) : Bool :=
  files.entries.all fun entry =>
    match entry.2 with
    | .file content => (String.fromUTF8? content).isSome
    | .directory => true

/-- Two projects, one whose settings name a day that does not exist, and one whose
settings are a list. -/
def datedFiles : FileSystem :=
  ⟨[(["left"], .directory), (["left", ".dtsfmtrc.yaml"], .file "layout: 2024-02-30\n".toUTF8),
    (["left", "a.dts"], .file "//a".toUTF8), (["right"], .directory),
    (["right", ".dtsfmtrc.yaml"], .file "- a\n".toUTF8), (["right", "b.dts"], .file "//b".toUTF8)], []⟩

/-- The settings of the second file are refused, but loading breaks off at the first. -/
theorem settings_for_breaks_off :
    allText datedFiles = true ∧
    Settings.discover Yaml.load datedFiles ⟨"", ["right", "b.dts"]⟩ [] =
      .error (.refused "/right/.dtsfmtrc.yaml: expected a mapping at the top level") ∧
    settingsFor Yaml.load datedFiles {} [⟨"", ["left", "a.dts"]⟩, ⟨"", ["right", "b.dts"]⟩] =
      .error .valueless :=
  ⟨by decide +kernel, eq_error_of_fault_of (by decide +kernel),
    eq_error_of_fault_of (by decide +kernel)⟩

end CommandLine

end DevicetreeFormat
