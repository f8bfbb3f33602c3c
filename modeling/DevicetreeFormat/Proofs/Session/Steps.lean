import DevicetreeFormat.CommandLine.Session
import DevicetreeFormat.Proofs.Files

/-!
# One file of a run

A run formats one file after the other. Each file is read and formatted with its
own settings, or it fails, and this depends on the files alone. What becomes of it
then depends on the delivery: a check leaves it as it is and says what would change,
and formatting in place writes over a file whose text is to change.
-/

namespace DevicetreeFormat.CommandLine

set_option autoImplicit false

/-- A file to format, with the settings for it. -/
abbrev Job := Path × Settings

/-- The file is read as `source`, and `source` is formatted as `text`. -/
def Formats (grammar : Grammar) (files : FileSystem) (job : Job) (source text : String) : Prop :=
  files.readText job.1 = .ok source ∧
    (formatSource job.2 source (grammar source)).outcome = .ok text

/-- The file cannot be read, or its text cannot be formatted. -/
def Fails (grammar : Grammar) (files : FileSystem) (job : Job) : Prop :=
  ∀ source text, ¬ Formats grammar files job source text

section

variable {grammar : Grammar} {job : Job}

theorem Formats.unique {files : FileSystem} {source text other changed : String}
    (first : Formats grammar files job source text) (second : Formats grammar files job other changed) :
    source = other ∧ text = changed := by
  obtain ⟨reads, formatted⟩ := first
  obtain ⟨readsOther, formattedOther⟩ := second
  rw [reads] at readsOther
  cases readsOther
  rw [formatted] at formattedOther
  cases formattedOther
  exact ⟨rfl, rfl⟩

theorem Formats.not_settled {files : FileSystem} {source text : String}
    (formats : Formats grammar files job source text) (changed : source ≠ text) :
    ¬ ∃ same, Formats grammar files job same same := by
  rintro ⟨same, stays⟩
  obtain ⟨first, second⟩ := formats.unique stays
  exact changed (first.trans second.symm)

theorem Fails.not_settled {files : FileSystem} (fails : Fails grammar files job) :
    ¬ ∃ same, Formats grammar files job same same := by
  rintro ⟨same, stays⟩
  exact fails same same stays

theorem formats_congr {before after : FileSystem} (same : after.readText job.1 = before.readText job.1)
    (source text : String) :
    Formats grammar after job source text ↔ Formats grammar before job source text := by
  rw [Formats, Formats, same]

theorem fails_congr {before after : FileSystem} (same : after.readText job.1 = before.readText job.1) :
    Fails grammar after job ↔ Fails grammar before job := by
  simp only [Fails, formats_congr same]

/-! ### The step -/

/-- The last thing among the complaints is one about the file. -/
def Reported (path : Path) (before after : Session) : Prop :=
  ∃ reports message, after.errors = before.errors ++ reports ++ sourceError path.text message

/-- Whether the run is to report failure for what was delivered. -/
def reportsFailure : Except DeliveryFault Bool → Bool
  | .ok wanting => wanting
  | .error _ => true

theorem format_file_of_formats {session : Session} {source text : String} (delivery : Delivery)
    (formats : Formats grammar session.files job source text) {delivered : Delivered}
    (delivers : delivery.deliver session.files ⟨some job.1, source, text⟩ = delivered) :
    ∃ after, formatFile grammar delivery session job.1 job.2 =
        (after, .ok (reportsFailure delivered.verdict)) ∧
      after.files = delivered.files ∧ after.output = session.output ++ delivered.output ∧
      ∀ fault, delivered.verdict = .error fault → Reported job.1 session after := by
  obtain ⟨reads, formatted⟩ := formats
  unfold formatFile
  simp only [reads, formatted, attemptOf, Session.complainAll, Session.complain, delivers]
  cases delivered.verdict with
  | ok wanting => exact ⟨_, rfl, rfl, rfl, nofun⟩
  | error fault => exact ⟨_, rfl, rfl, rfl, fun _ _ => ⟨_, fault.message, rfl⟩⟩

/-- A file that fails leaves a complaint, or it ends the run. -/
theorem format_file_of_fails {session after : Session} {delivery : Delivery}
    {verdict : Except Breakdown Bool} (fails : Fails grammar session.files job)
    (step : formatFile grammar delivery session job.1 job.2 = (after, verdict)) :
    after.files = session.files ∧ after.output = session.output ∧
      ((∃ cause, verdict = .error cause) ∨ verdict = .ok true ∧ Reported job.1 session after) := by
  unfold formatFile at step
  split at step
  · cases step
    exact ⟨rfl, rfl, .inl ⟨_, rfl⟩⟩
  · cases step
    exact ⟨rfl, rfl, .inl ⟨_, rfl⟩⟩
  · next fault _ _ =>
      cases step
      exact ⟨rfl, rfl, .inr ⟨rfl, "", fault.message job.1, by rw [String.append_empty]; rfl⟩⟩
  · next source reads =>
      simp only at step
      split at step
      · cases step
        exact ⟨rfl, rfl, .inl ⟨_, rfl⟩⟩
      · next message _ =>
          cases step
          exact ⟨rfl, rfl, .inr ⟨rfl, _, message, rfl⟩⟩
      · next text attempt =>
          cases outcome : (formatSource job.2 source (grammar source)).outcome with
          | ok formatted => exact absurd ⟨reads, outcome⟩ (fails source formatted)
          | error fault =>
              rw [outcome] at attempt
              cases fault with
              | source fault => cases fault <;> cases attempt
              | printing fault => cases attempt

theorem formats_or_fails (grammar : Grammar) (files : FileSystem) (job : Job) :
    (∃ source text, Formats grammar files job source text) ∨ Fails grammar files job := by
  by_cases formatted : ∃ source text, Formats grammar files job source text
  · exact .inl formatted
  · exact .inr fun source text formats => formatted ⟨source, text, formats⟩

/-- A check touches no file. It finds a file in order exactly when formatting it
changes nothing. -/
theorem format_file_check {session after : Session} {verdict : Except Breakdown Bool}
    (step : formatFile grammar .check session job.1 job.2 = (after, verdict)) :
    after.files = session.files ∧
      (verdict = .ok false ↔ ∃ text, Formats grammar session.files job text text) := by
  rcases formats_or_fails grammar session.files job with ⟨source, text, formats⟩ | fails
  · obtain ⟨reached, stepped, files, _⟩ := format_file_of_formats .check formats rfl
    rw [stepped] at step
    cases step
    rw [files]
    by_cases same : source = text
    · subst same
      exact ⟨by simp [Delivery.deliver, Result.isChanged],
        by simpa [Delivery.deliver, Result.isChanged, reportsFailure] using ⟨source, formats⟩⟩
    · refine ⟨by simp [Delivery.deliver, Result.isChanged, same], ?_⟩
      simpa [Delivery.deliver, Result.isChanged, reportsFailure, same] using
        formats.not_settled same
  · obtain ⟨files, _, ends⟩ := format_file_of_fails fails step
    refine ⟨files, iff_of_false ?_ fails.not_settled⟩
    rcases ends with ⟨cause, rfl⟩ | ⟨rfl, _⟩ <;> nofun

/-! ### What becomes of a file -/

/-- The line that is printed about a file that was written. -/
def formattedLine (path : Path) : String :=
  "Formatted " ++ path.text ++ "\n"

/-- What a visit to a file can come to under a delivery. The flag says that the run is
to report failure. -/
inductive Visit (grammar : Grammar) (job : Job) (before after : Session) : Delivery → Bool → Prop
  | failed {delivery : Delivery} (fails : Fails grammar before.files job)
      (files : after.files = before.files) (output : after.output = before.output)
      (reported : Reported job.1 before after) : Visit grammar job before after delivery true
  | settled {delivery : Delivery} {text : String} (quiet : delivery ≠ .print)
      (formats : Formats grammar before.files job text text) (files : after.files = before.files)
      (output : after.output = before.output) : Visit grammar job before after delivery false
  | unsettled {source text : String} (formats : Formats grammar before.files job source text)
      (changed : source ≠ text) (files : after.files = before.files)
      (output : after.output =
        before.output ++ Delivery.checkReport ⟨some job.1, source, text⟩) :
      Visit grammar job before after .check true
  | printed {source text : String} (formats : Formats grammar before.files job source text)
      (files : after.files = before.files) (output : after.output = before.output ++ text) :
      Visit grammar job before after .print false
  | written {source text : String} (formats : Formats grammar before.files job source text)
      (changed : source ≠ text) (writes : before.files.writeText job.1 text = .ok after.files)
      (holds : after.files.read job.1 = .ok text.toUTF8)
      (output : after.output = before.output ++ formattedLine job.1) :
      Visit grammar job before after .inPlace false
  | unwritten {source text : String} {fault : AccessFault}
      (formats : Formats grammar before.files job source text) (changed : source ≠ text)
      (refused : before.files.writeText job.1 text = .error fault)
      (files : after.files = before.files) (output : after.output = before.output)
      (reported : Reported job.1 before after) : Visit grammar job before after .inPlace true

theorem deliver_settled {delivery : Delivery} (quiet : delivery ≠ .print) (files : FileSystem)
    (path : Path) (text : String) :
    delivery.deliver files ⟨some path, text, text⟩ = ⟨files, "", .ok false⟩ := by
  cases delivery with
  | print => exact absurd rfl quiet
  | check => simp [Delivery.deliver, Result.isChanged]
  | inPlace => simp [Delivery.deliver, Result.isChanged]

theorem Formats.visit {session after : Session} {delivery : Delivery} {wanting : Bool}
    {source text : String} (formats : Formats grammar session.files job source text)
    (step : formatFile grammar delivery session job.1 job.2 = (after, .ok wanting)) :
    Visit grammar job session after delivery wanting := by
  obtain ⟨reached, stepped, files, output, reported⟩ := format_file_of_formats delivery formats rfl
  rw [stepped] at step
  cases step
  by_cases prints : delivery = .print
  · subst prints
    exact .printed formats files output
  · by_cases same : source = text
    · subst same
      rw [deliver_settled prints] at files output
      simp only [deliver_settled prints, String.append_empty] at output ⊢
      exact .settled prints formats files output
    · have differs : Result.isChanged ⟨some job.1, source, text⟩ = true := by
        simpa [Result.isChanged] using same
      cases delivery with
      | print => exact absurd rfl prints
      | check =>
          simp only [Delivery.deliver, differs, if_true] at files output ⊢
          exact .unsettled formats same files output
      | inPlace =>
          simp only [Delivery.deliver, differs, if_true] at files output reported ⊢
          cases writes : session.files.writeText job.1 text with
          | ok written =>
              simp only [writes] at files output ⊢
              obtain ⟨old, _, reads, _, _⟩ := FileSystem.read_of_read_text formats.1
              rw [← files] at writes
              exact .written formats same writes (FileSystem.read_of_write_text reads writes) output
          | error fault =>
              simp only [writes, String.append_empty] at files output reported ⊢
              exact .unwritten formats same writes files output (reported _ rfl)

theorem format_file_visit {session after : Session} {delivery : Delivery} {wanting : Bool}
    (step : formatFile grammar delivery session job.1 job.2 = (after, .ok wanting)) :
    Visit grammar job session after delivery wanting := by
  rcases formats_or_fails grammar session.files job with ⟨source, text, formats⟩ | fails
  · exact formats.visit step
  · obtain ⟨files, output, ⟨cause, broken⟩ | ⟨wants, reported⟩⟩ := format_file_of_fails fails step
    · cases broken
    · cases wants
      exact .failed fails files output reported

/-! ### The run -/

theorem format_files_cons {delivery : Delivery} {session after : Session} {failed : Bool}
    {jobs : List Job} {code : Nat}
    (run : formatFiles grammar delivery session failed (job :: jobs) = (after, .exit code)) :
    ∃ middle wanting, formatFile grammar delivery session job.1 job.2 = (middle, .ok wanting) ∧
      formatFiles grammar delivery middle (failed || wanting) jobs = (after, .exit code) := by
  unfold formatFiles at run
  split at run
  · cases run
  · next middle wanting step => exact ⟨middle, wanting, step, run⟩

/-- A run that is to report failure does so at its end. -/
theorem format_files_failed {delivery : Delivery} {jobs : List Job} {session after : Session}
    {code : Nat} (run : formatFiles grammar delivery session true jobs = (after, .exit code)) :
    code = 1 := by
  induction jobs generalizing session with
  | nil =>
      cases run
      rfl
  | cons job rest induction =>
      obtain ⟨middle, wanting, _, remaining⟩ := format_files_cons run
      rw [Bool.true_or] at remaining
      exact induction remaining

theorem format_files_check_files {jobs : List Job} {session after : Session} {failed : Bool}
    {ending : Ending} (run : formatFiles grammar .check session failed jobs = (after, ending)) :
    after.files = session.files := by
  induction jobs generalizing session failed with
  | nil =>
      cases run
      rfl
  | cons job rest induction =>
      unfold formatFiles at run
      split at run
      · next reached cause step =>
          cases run
          exact (format_file_check step).1
      · next middle wanting step =>
          rw [induction run, (format_file_check step).1]

end

/-- The same request as a check. -/
def Options.checking (options : Options) : Options :=
  { options with check := true }

/-- The same request in place. -/
def Options.placing (options : Options) : Options :=
  { options with check := false, delivery := some .inPlace }

theorem run_files {grammar : Grammar} {loader : Settings.Loader} {files : FileSystem}
    {arguments : List String} {options : Options} (parsed : parseArguments arguments = .ok options)
    (formats : options.listLayouts = false) (paths : options.paths ≠ []) (input : ByteArray) :
    run grammar loader files arguments input = runFiles grammar loader { files } options := by
  unfold run
  simp [parsed, runOptions, formats, paths]

theorem run_files_refused {grammar : Grammar} {loader : Settings.Loader} {session : Session}
    {options : Options} {fault : Settings.LoadFault}
    (refused : settingsFor loader session.files options
      (session.files.collectSources options.paths) = .error fault) :
    runFiles grammar loader session options = refuseSettings session fault := by
  unfold runFiles
  simp only [refused]

theorem run_files_loaded {grammar : Grammar} {loader : Settings.Loader} {session : Session}
    {options : Options} {delivery : Delivery} {settings : List Settings}
    (chosen : (if options.check then some .check else options.delivery) = some delivery)
    (loaded : settingsFor loader session.files options
      (session.files.collectSources options.paths) = .ok settings) :
    runFiles grammar loader session options = formatFiles grammar delivery session false
      ((session.files.collectSources options.paths).zip settings) := by
  unfold runFiles
  simp only [loaded, chosen]

/-! ### A small grammar -/

/-- The grammar in which every text is one comment, but a question mark is an error. -/
def commentGrammar : Grammar := fun source =>
  let faulty := source.toList.contains '?'
  let marks : Marks := ⟨true, faulty, false, faulty⟩
  let stop := source.toUTF8.size
  .branch "document" marks 0 stop [.branch "comment" marks 0 stop []]

/-- A keymap in a directory, and beside it one that is in order but for its line ending,
one with an error, and a file of another kind. -/
def keymapFiles : FileSystem :=
  ⟨[(["keys"], .directory), (["keys", "left.keymap"], .file "//base".toUTF8),
    (["right.keymap"], .file "// base\r\n".toUTF8), (["torn.keymap"], .file "?".toUTF8),
    (["notes"], .file "//base".toUTF8)], []⟩

end DevicetreeFormat.CommandLine
