import DevicetreeFormat.Proofs.Session.Steps

/-!
# What a check says about formatting in place

A check and a run that formats in place see the same files up to the first file
that is written. From there on they may see different texts, for a file can be
listed twice, but the check has already found that file wanting. So a check
reports failure exactly when formatting in place would fail or write something.
-/

namespace DevicetreeFormat.CommandLine

set_option autoImplicit false

/-- The files at these paths are given new texts, one after the other, and each holds its
text then. -/
inductive Rewrites : FileSystem → List Path → FileSystem → Prop
  | none {files : FileSystem} : Rewrites files [] files
  | next {files written after : FileSystem} {path : Path} {rest : List Path} {source text : String}
      (reads : files.readText path = .ok source) (changed : source ≠ text)
      (writes : files.writeText path text = .ok written)
      (holds : written.read path = .ok text.toUTF8) (later : Rewrites written rest after) :
      Rewrites files (path :: rest) after

/-- The files that a run has rewritten, as the files and the output show them. -/
structure Rewritten (before after : Session) (paths : List Path) : Prop where
  files : Rewrites before.files paths after.files
  output : after.output = before.output ++ String.join (paths.map formattedLine)

section

variable {grammar : Grammar} {loader : Settings.Loader}

theorem Rewritten.unchanged {before middle after : Session} {paths : List Path}
    (later : Rewritten middle after paths) (files : middle.files = before.files)
    (output : middle.output = before.output) : Rewritten before after paths :=
  ⟨files ▸ later.files, output ▸ later.output⟩

theorem Rewritten.written {before middle after : Session} {job : Job} {paths : List Path}
    {source text : String} (later : Rewritten middle after paths)
    (formats : Formats grammar before.files job source text) (changed : source ≠ text)
    (writes : before.files.writeText job.1 text = .ok middle.files)
    (holds : middle.files.read job.1 = .ok text.toUTF8)
    (output : middle.output = before.output ++ formattedLine job.1) :
    Rewritten before after (job.1 :: paths) := by
  refine ⟨.next formats.1 changed writes holds later.files, ?_⟩
  rw [later.output, output, List.map_cons, String.join_cons, String.append_assoc]

theorem format_files_rewritten {jobs : List Job} {session after : Session} {failed : Bool}
    {code : Nat} (run : formatFiles grammar .inPlace session failed jobs = (after, .exit code)) :
    ∃ paths, Rewritten session after paths := by
  induction jobs generalizing session failed with
  | nil =>
      cases run
      exact ⟨[], .none, by simp⟩
  | cons job rest induction =>
      obtain ⟨middle, wanting, step, remaining⟩ := format_files_cons run
      obtain ⟨paths, later⟩ := induction remaining
      cases format_file_visit step with
      | failed _ files output _ => exact ⟨paths, later.unchanged files output⟩
      | settled _ _ files output => exact ⟨paths, later.unchanged files output⟩
      | written formats changed writes holds output =>
          exact ⟨job.1 :: paths, later.written formats changed writes holds output⟩
      | unwritten _ _ _ files output _ => exact ⟨paths, later.unchanged files output⟩

/-- Two runs over the same files, a check and one in place. -/
theorem format_files_agree {jobs : List Job} {checked checkedAfter placed placedAfter : Session}
    {failed : Bool} {code placedCode : Nat} (same : checked.files = placed.files)
    (checkRun : formatFiles grammar .check checked failed jobs = (checkedAfter, .exit code))
    (placeRun : formatFiles grammar .inPlace placed failed jobs = (placedAfter, .exit placedCode)) :
    ∃ paths, Rewritten placed placedAfter paths ∧ (code = 1 ↔ placedCode = 1 ∨ paths ≠ []) := by
  induction jobs generalizing checked placed failed with
  | nil =>
      cases checkRun
      cases placeRun
      exact ⟨[], ⟨.none, by simp⟩, by simp⟩
  | cons job rest induction =>
      obtain ⟨checkedNext, wanting, checkStep, checkRest⟩ := format_files_cons checkRun
      obtain ⟨placedNext, placedWanting, placeStep, placeRest⟩ := format_files_cons placeRun
      obtain ⟨checkFiles, inOrder⟩ := format_file_check checkStep
      rw [same] at checkFiles inOrder
      have finds (unsettled : ¬ ∃ text, Formats grammar placed.files job text text) :
          wanting = true := by
        apply Bool.of_not_eq_false
        rintro rfl
        exact unsettled (inOrder.mp rfl)
      -- As long as no file is written, both runs go on over the same files.
      have proceed (equal : wanting = placedWanting) (files : placedNext.files = placed.files)
          (output : placedNext.output = placed.output) :
          ∃ paths, Rewritten placed placedAfter paths ∧
            (code = 1 ↔ placedCode = 1 ∨ paths ≠ []) := by
        subst equal
        obtain ⟨paths, later, agree⟩ :=
          induction (checkFiles.trans files.symm) checkRest placeRest
        exact ⟨paths, later.unchanged files output, agree⟩
      cases format_file_visit placeStep with
      | failed fails files output _ => exact proceed (finds fails.not_settled) files output
      | settled _ formats files output =>
          cases inOrder.mpr ⟨_, formats⟩
          exact proceed rfl files output
      | unwritten formats changed _ files output _ =>
          exact proceed (finds (formats.not_settled changed)) files output
      | written formats changed writes holds output =>
          -- The check goes on as a run that reports failure, whatever comes after.
          rw [finds (formats.not_settled changed), Bool.or_true] at checkRest
          obtain ⟨paths, later⟩ := format_files_rewritten placeRest
          refine ⟨job.1 :: paths, later.written formats changed writes holds output, ?_⟩
          exact iff_of_true (format_files_failed checkRest) (.inr (List.cons_ne_nil _ _))

theorem refuse_settings_keeps (session : Session) (fault : Settings.LoadFault) :
    (refuseSettings session fault).1.files = session.files ∧
      (refuseSettings session fault).1.output = session.output := by
  cases fault <;> exact ⟨rfl, rfl⟩

theorem run_files_check_files {session : Session} {options : Options} (checks : options.check = true) :
    (runFiles grammar loader session options).1.files = session.files := by
  cases loads : settingsFor loader session.files options
      (session.files.collectSources options.paths) with
  | error fault =>
      rw [run_files_refused loads]
      exact (refuse_settings_keeps session fault).1
  | ok settings =>
      rw [run_files_loaded (by rw [checks, if_pos rfl]) loads]
      exact format_files_check_files rfl

theorem run_files_agree {session : Session} {options : Options} {code placedCode : Nat}
    (checks : (runFiles grammar loader session options.checking).2 = .exit code)
    (places : (runFiles grammar loader session options.placing).2 = .exit placedCode) :
    ∃ paths, Rewritten session (runFiles grammar loader session options.placing).1 paths ∧
      (code = 1 ↔ placedCode = 1 ∨ paths ≠ []) := by
  -- Which settings are loaded depends neither on the check nor on the delivery.
  cases loads : settingsFor loader session.files options
      (session.files.collectSources options.paths) with
  | error fault =>
      have checked : runFiles grammar loader session options.checking = refuseSettings session fault :=
        run_files_refused loads
      have placed : runFiles grammar loader session options.placing = refuseSettings session fault :=
        run_files_refused loads
      rw [checked] at checks
      rw [placed, checks] at places
      rw [placed]
      cases places
      obtain ⟨files, output⟩ := refuse_settings_keeps session fault
      exact ⟨[], ⟨files ▸ .none, by simp [output]⟩, by simp⟩
  | ok settings =>
      have checked : runFiles grammar loader session options.checking =
          formatFiles grammar .check session false _ := run_files_loaded rfl loads
      have placed : runFiles grammar loader session options.placing =
          formatFiles grammar .inPlace session false _ := run_files_loaded rfl loads
      rw [checked] at checks
      rw [placed] at places ⊢
      exact format_files_agree rfl (Prod.ext rfl checks) (Prod.ext rfl places)

end

/-- **A check says what formatting in place would do.** It changes no file, and it reports
failure exactly when the same request in place reports failure or rewrites a file. -/
theorem run_check_agrees {grammar : Grammar} {loader : Settings.Loader} {files : FileSystem}
    {options : Options} {checkArguments placeArguments : List String} {input : ByteArray}
    (checks : parseArguments checkArguments = .ok options.checking)
    (places : parseArguments placeArguments = .ok options.placing)
    (formats : options.listLayouts = false) (asked : options.paths ≠ []) :
    (run grammar loader files checkArguments input).1.files = files ∧
      ∀ code placedCode, (run grammar loader files checkArguments input).2 = .exit code →
        (run grammar loader files placeArguments input).2 = .exit placedCode →
        ∃ paths, Rewritten { files } (run grammar loader files placeArguments input).1 paths ∧
          (code = 1 ↔ placedCode = 1 ∨ paths ≠ []) := by
  rw [run_files checks formats asked, run_files places formats asked]
  refine ⟨run_files_check_files rfl, ?_⟩
  intro code placedCode checkEnds placeEnds
  exact run_files_agree checkEnds placeEnds

/-- A request for one file in two ways. -/
def leftTwice : Options :=
  { paths := [⟨"", ["keys", "left.keymap"]⟩, ⟨"", ["keys"]⟩] }

/-- The run in place finds the file settled the second time; the check finds it wanting
both times. -/
theorem run_check_agrees_repeated :
    (run commentGrammar Yaml.load keymapFiles ["--check", "keys/left.keymap", "keys"] ByteArray.empty).2 =
        .exit 1 ∧
      (run commentGrammar Yaml.load keymapFiles ["--emit", "files", "keys/left.keymap", "keys"]
        ByteArray.empty).2 = .exit 0 ∧
      ∃ paths, Rewritten { files := keymapFiles }
        (run commentGrammar Yaml.load keymapFiles ["--emit", "files", "keys/left.keymap", "keys"]
          ByteArray.empty).1 paths ∧ paths ≠ [] := by
  have checks : parseArguments ["--check", "keys/left.keymap", "keys"] =
      .ok leftTwice.checking := by rfl
  have places : parseArguments ["--emit", "files", "keys/left.keymap", "keys"] =
      .ok leftTwice.placing := by rfl
  have checkEnds : (run commentGrammar Yaml.load keymapFiles ["--check", "keys/left.keymap", "keys"]
      ByteArray.empty).2 = .exit 1 := by decide +kernel
  have placeEnds : (run commentGrammar Yaml.load keymapFiles
      ["--emit", "files", "keys/left.keymap", "keys"] ByteArray.empty).2 = .exit 0 := by
    decide +kernel
  obtain ⟨paths, rewritten, agree⟩ :=
    (run_check_agrees checks places rfl (by decide)).2 1 0 checkEnds placeEnds
  refine ⟨checkEnds, placeEnds, paths, rewritten, ?_⟩
  simpa using agree.mp rfl

end DevicetreeFormat.CommandLine
