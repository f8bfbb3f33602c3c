import DevicetreeFormat.Proofs.Session.Agreement
import DevicetreeFormat.Proofs.Session.Loading

/-!
# Runs without settings

Every command loads all the settings that it needs before it reads a source or
writes anything. So settings that cannot be loaded leave no trace but a message:
the files stay as they are and nothing is printed, whichever of the files has
the bad settings. What the run says depends on the first settings that cannot be
loaded; only a refusal has a message.
-/

namespace DevicetreeFormat.CommandLine

set_option autoImplicit false

namespace Options

/-- The request is for the place where the program runs, and not for files. -/
def isHere (options : Options) : Bool :=
  options.listLayouts || options.paths.isEmpty

/-- The paths for which a request needs settings. -/
def subjects (files : FileSystem) (options : Options) : List Path :=
  if options.isHere then [⟨"/", files.workingDirectory⟩] else files.collectSources options.paths

/-- What comes of each settings file that a request needs, in order. A file that is
named is the only one. -/
def loadings (loader : Settings.Loader) (files : FileSystem) (options : Options) :
    List (Except Settings.LoadFault Settings) :=
  match options.config with
  | .named config => [Settings.load loader files config (overrides options)]
  | .nearest =>
      (options.subjects files).map fun path => Settings.discover loader files path (overrides options)
  | .blank => [.error .unnamed]

end Options

variable {loader : Settings.Loader} {files : FileSystem} {options : Options} {fault : Settings.LoadFault}

theorem settings_here_fails_iff (here : options.isHere = true) :
    settingsHere loader files options = .error fault ↔ FirstFault (options.loadings loader files) fault := by
  unfold settingsHere Options.loadings Options.subjects
  cases options.config with
  | named config => rw [first_fault_singleton]
  | nearest => rw [if_pos here, List.map_singleton, first_fault_singleton]
  | blank => rw [first_fault_singleton]

theorem settings_for_fails_iff (away : options.isHere = false) :
    settingsFor loader files options (files.collectSources options.paths) = .error fault ↔
      FirstFault (options.loadings loader files) fault := by
  cases asked : options.config with
  | named config =>
      rw [settingsFor, Options.loadings, asked, first_fault_singleton]
      simp only
      cases Settings.load loader files config (overrides options) with
      | error other =>
          change (.error other : Except Settings.LoadFault (List Settings)) = _ ↔ _
          rw [Except.error.injEq, Except.error.injEq]
      | ok settings =>
          refine iff_of_false ?_ ?_
          · rintro ⟨⟩
          · rintro ⟨⟩
  | nearest =>
      rw [settings_for_eq_mapM loader files asked, mapM_eq_error_iff, Options.loadings, asked,
        Options.subjects, if_neg (by simp [away])]
  | blank =>
      rw [settingsFor, Options.loadings, asked, first_fault_singleton]
      simp only [Except.error.injEq]

theorem refuse_settings_unrefused (session : Session)
    (unrefused : ∀ message, fault ≠ .refused message) :
    ∃ cause, refuseSettings session fault = (session, .broken cause) := by
  cases fault with
  | refused message => exact absurd rfl (unrefused message)
  | undecodable => exact ⟨.undecodable, rfl⟩
  | unnameable => exact ⟨.unnameable, rfl⟩
  | valueless => exact ⟨.valueless, rfl⟩
  | immeasurable => exact ⟨.immeasurable, rfl⟩
  | unnamed => exact ⟨.blankConfig, rfl⟩

/-- The run ends before it begins. -/
theorem run_of_first_fault (grammar : Grammar) {arguments : List String}
    (parsed : parseArguments arguments = .ok options)
    (fails : FirstFault (options.loadings loader files) fault) (input : ByteArray) :
    run grammar loader files arguments input = refuseSettings { files } fault := by
  unfold run
  simp only [parsed, runOptions]
  split
  · next lists =>
      have here : options.isHere = true := by simp [Options.isHere, lists]
      simp only [runList, (settings_here_fails_iff here).mpr fails]
  · next formats =>
      split
      · next unasked =>
          have here : options.isHere = true := by simp [Options.isHere, unasked]
          simp only [runInput, (settings_here_fails_iff here).mpr fails]
      · next asked =>
          have away : options.isHere = false := by simp [Options.isHere, formats, asked]
          simp only [runFiles, (settings_for_fails_iff away).mpr fails]

/-- **Settings that cannot be loaded leave the files alone.** Nothing is printed,
and the first settings that fail decide how the run ends: if they are refused, with
one message and failure, and otherwise by breaking off without a message. -/
theorem run_refused_settings (grammar : Grammar) {arguments : List String}
    (parsed : parseArguments arguments = .ok options) (fails : .error fault ∈ options.loadings loader files)
    (input : ByteArray) :
    (run grammar loader files arguments input).1.files = files ∧
      (run grammar loader files arguments input).1.output = "" ∧
      (∃ first, FirstFault (options.loadings loader files) first) ∧
      (∀ message, FirstFault (options.loadings loader files) (.refused message) →
        (run grammar loader files arguments input).1.errors = "Error: " ++ message ++ "\n" ∧
          (run grammar loader files arguments input).2 = .exit 1) ∧
      (∀ first, FirstFault (options.loadings loader files) first → (∀ message, first ≠ .refused message) →
        (run grammar loader files arguments input).1.errors = "" ∧
          ∃ cause, (run grammar loader files arguments input).2 = .broken cause) := by
  obtain ⟨first, leads⟩ := exists_first_fault fails
  have stopped (other : Settings.LoadFault) (leads : FirstFault (options.loadings loader files) other) :=
    run_of_first_fault grammar parsed leads input
  obtain ⟨kept, silent⟩ := refuse_settings_keeps { files } first
  refine ⟨?_, ?_, ⟨first, leads⟩, ?_, ?_⟩
  · rw [stopped first leads]
    exact kept
  · rw [stopped first leads]
    exact silent
  · intro message leads
    rw [stopped _ leads]
    exact ⟨String.empty_append, rfl⟩
  · intro other leads unrefused
    obtain ⟨cause, broken⟩ := refuse_settings_unrefused { files } unrefused
    rw [stopped other leads, broken]
    exact ⟨rfl, cause, rfl⟩

/-- A request for one file in each of two projects. -/
def twoProjects : Options :=
  { paths := [⟨"", ["left", "a.dts"]⟩, ⟨"", ["right", "b.dts"]⟩] }

/-- Two projects, of which the second has settings that are a list. -/
def halfRefused : FileSystem :=
  ⟨[(["left"], .directory), (["left", ".dtsfmtrc.yaml"], .file "layout: corne\n".toUTF8),
    (["left", "a.dts"], .file "//a".toUTF8), (["right"], .directory),
    (["right", ".dtsfmtrc.yaml"], .file "- a\n".toUTF8), (["right", "b.dts"], .file "//b".toUTF8)], []⟩

/-- The message about these settings. -/
def listMessage : String :=
  "/right/.dtsfmtrc.yaml: expected a mapping at the top level"

/-- The first file, whose settings are fine, is not formatted either. -/
theorem run_refused_settings_second :
    let after := run commentGrammar Yaml.load halfRefused ["left/a.dts", "right/b.dts"] ByteArray.empty
    after.1.files = halfRefused ∧ after.1.output = "" ∧
      after.1.errors = "Error: " ++ listMessage ++ "\n" ∧ after.2 = .exit 1 := by
  have parsed : parseArguments ["left/a.dts", "right/b.dts"] = .ok twoProjects := by rfl
  have leads : FirstFault (twoProjects.loadings Yaml.load halfRefused) (.refused listMessage) :=
    first_fault_iff.mpr (by decide +kernel)
  obtain ⟨files, output, _, refused, _⟩ :=
    run_refused_settings commentGrammar parsed leads.mem ByteArray.empty
  obtain ⟨errors, ending⟩ := refused listMessage leads
  exact ⟨files, output, errors, ending⟩

/-- Where the first settings name a day that does not exist, the run breaks off before it
comes to the second ones, which it would refuse. -/
theorem run_breaks_before_refusal :
    allText datedFiles = true ∧ parseArguments ["left/a.dts", "right/b.dts"] = .ok twoProjects ∧
      .error (.refused listMessage) ∈ twoProjects.loadings Yaml.load datedFiles ∧
      (run commentGrammar Yaml.load datedFiles ["left/a.dts", "right/b.dts"] ByteArray.empty).2 =
        .broken .valueless ∧
      (run commentGrammar Yaml.load datedFiles ["left/a.dts", "right/b.dts"] ByteArray.empty).1.errors =
        "" := by
  refine ⟨by decide +kernel, rfl, ?_, by decide +kernel, by decide +kernel⟩
  apply List.mem_map.mpr
  exact ⟨⟨"", ["right", "b.dts"]⟩, by decide +kernel, eq_error_of_fault_of (by decide +kernel)⟩

end DevicetreeFormat.CommandLine
