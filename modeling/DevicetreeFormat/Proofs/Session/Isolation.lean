import DevicetreeFormat.Proofs.Newlines
import DevicetreeFormat.Proofs.Session.Loading
import DevicetreeFormat.Proofs.Session.Steps

/-!
# What formatting in place leaves behind

Files in different places do not disturb each other. Each of them ends up with
the text that its own content is formatted as, or with the content that it had,
and nothing else in the file system changes. A written text is read back as it
was printed, because it has no carriage return.
-/

namespace DevicetreeFormat.CommandLine

set_option autoImplicit false

open FileSystem

/-- Every listed file that could be formatted has its formatted text, a listed file that
needed no change or failed has its content, and so has everything that is not listed. -/
structure Isolated (grammar : Grammar) (jobs : List Job) (before after : FileSystem) : Prop where
  shape : SameShape before after
  formatted : ∀ job ∈ jobs, ∀ source text, Formats grammar before job source text →
    after.readText job.1 = .ok text
  settled : ∀ job ∈ jobs, ∀ text, Formats grammar before job text text →
    after.read job.1 = before.read job.1
  failed : ∀ job ∈ jobs, Fails grammar before job → after.read job.1 = before.read job.1
  unlisted : ∀ location, (∀ job ∈ jobs, before.locate job.1 ≠ .ok location) →
    after.entryAt location = before.entryAt location

/-- Every file whose text is to change can be written. -/
def Writable (grammar : Grammar) (jobs : List Job) (files : FileSystem) : Prop :=
  ∀ job ∈ jobs, ∀ source text, Formats grammar files job source text → source ≠ text →
    ∃ written, files.writeText job.1 text = .ok written

/-- Files in different places. -/
def Apart (files : FileSystem) (paths : List Path) : Prop :=
  paths.Pairwise fun first second => files.samePlace first second = false

instance (files : FileSystem) (paths : List Path) : Decidable (Apart files paths) :=
  inferInstanceAs (Decidable (List.Pairwise _ paths))

section

variable {grammar : Grammar} {job : Job} {jobs : List Job}

theorem isolated_nil (files : FileSystem) : Isolated grammar [] files files :=
  ⟨.refl files, nofun, nofun, nofun, fun _ _ => rfl⟩

/-! ### One file -/

theorem isolated_same {files : FileSystem}
    (stays : Fails grammar files job ∨ ∃ text, Formats grammar files job text text) :
    Isolated grammar [job] files files := by
  refine ⟨.refl files, ?_, fun _ _ _ _ => rfl, fun _ _ _ => rfl, fun _ _ => rfl⟩
  intro other member source text formats
  cases List.mem_singleton.mp member
  rcases stays with fails | ⟨same, settled⟩
  · exact absurd formats (fails source text)
  · obtain ⟨_, rfl⟩ := formats.unique settled
    exact settled.1

theorem isolated_written {files written : FileSystem} {source text : String}
    (formats : Formats grammar files job source text) (changed : source ≠ text)
    (writes : files.writeText job.1 text = .ok written) :
    Isolated grammar [job] files written := by
  obtain ⟨old, _, reads, _, _⟩ := read_of_read_text formats.1
  obtain ⟨place, located, change⟩ := overwrites_of_write_text reads writes
  have clean := format_source_clean (read_text_clean formats.1) formats.2
  refine ⟨change.shape, ?_, ?_, ?_, ?_⟩
  · intro other member _ shown again
    cases List.mem_singleton.mp member
    obtain ⟨_, rfl⟩ := formats.unique again
    exact read_text_of_clean clean (change.read_here (nameable_of_read reads) located)
  · intro other member same settled
    cases List.mem_singleton.mp member
    exact absurd ⟨same, settled⟩ (formats.not_settled changed)
  · intro other member fails
    cases List.mem_singleton.mp member
    exact absurd formats (fails source text)
  · intro location elsewhere
    apply change.elsewhere
    rintro rfl
    exact elsewhere job (List.mem_singleton_self job) located

/-- One step of a run in place keeps to its own file, and it reports failure exactly when
the file fails. -/
theorem visit_isolated {before after : Session} {wanting : Bool}
    (visit : Visit grammar job before after .inPlace wanting)
    (writable : ∀ source text, Formats grammar before.files job source text → source ≠ text →
      ∃ written, before.files.writeText job.1 text = .ok written) :
    Isolated grammar [job] before.files after.files ∧
      (wanting = true ↔ Fails grammar before.files job) := by
  cases visit with
  | failed fails files _ _ =>
      rw [files]
      exact ⟨isolated_same (.inl fails), iff_of_true rfl fails⟩
  | settled _ formats files _ =>
      rw [files]
      refine ⟨isolated_same (.inr ⟨_, formats⟩), iff_of_false nofun ?_⟩
      exact fun fails => fails _ _ formats
  | written formats changed writes _ _ =>
      refine ⟨isolated_written formats changed writes, iff_of_false nofun ?_⟩
      exact fun fails => fails _ _ formats
  | unwritten formats changed refused _ _ _ =>
      obtain ⟨written, writes⟩ := writable _ _ formats changed
      rw [refused] at writes
      cases writes

/-! ### One file after the other -/

/-- A file that is somewhere else is read as before. -/
theorem Isolated.read_apart {before after : FileSystem} {path : Path}
    (isolated : Isolated grammar jobs before after)
    (apart : ∀ job ∈ jobs, before.samePlace job.1 path = false) :
    after.read path = before.read path := by
  apply read_eq_read (isolated.shape.locate path)
  intro location located
  apply isolated.unlisted
  intro job member
  exact locate_ne_of_apart (apart job member) located

theorem isolated_cons {before middle after : FileSystem}
    (apart : ∀ other ∈ jobs, before.samePlace job.1 other.1 = false)
    (first : Isolated grammar [job] before middle) (rest : Isolated grammar jobs middle after) :
    Isolated grammar (job :: jobs) before after := by
  have before_rest (other : Job) (member : other ∈ jobs) :
      middle.read other.1 = before.read other.1 := by
    apply first.read_apart
    simpa using apart other member
  have after_first : after.read job.1 = middle.read job.1 := by
    apply rest.read_apart
    intro other member
    rw [first.shape.same_place, same_place_comm]
    exact apart other member
  have here := List.mem_singleton_self job
  refine ⟨first.shape.trans rest.shape, ?_, ?_, ?_, ?_⟩
  · refine List.forall_mem_cons.mpr ⟨?_, ?_⟩
    · intro source text formats
      rw [read_text_eq_read_text after_first]
      exact first.formatted job here source text formats
    · intro other member source text formats
      apply rest.formatted other member source text
      rw [formats_congr (read_text_eq_read_text (before_rest other member))]
      exact formats
  · refine List.forall_mem_cons.mpr ⟨?_, ?_⟩
    · intro text formats
      rw [after_first, first.settled job here text formats]
    · intro other member text formats
      rw [← before_rest other member]
      apply rest.settled other member text
      rw [formats_congr (read_text_eq_read_text (before_rest other member))]
      exact formats
  · refine List.forall_mem_cons.mpr ⟨?_, ?_⟩
    · intro fails
      rw [after_first, first.failed job here fails]
    · intro other member fails
      rw [← before_rest other member]
      apply rest.failed other member
      rw [fails_congr (read_text_eq_read_text (before_rest other member))]
      exact fails
  · intro location elsewhere
    rw [rest.unlisted, first.unlisted]
    · intro other member
      cases List.mem_singleton.mp member
      exact elsewhere job (by simp)
    · intro other member
      rw [first.shape.locate]
      exact elsewhere other (by simp [member])

theorem format_files_isolated {session after : Session} {failed : Bool} {code : Nat}
    (apart : Apart session.files (jobs.map Prod.fst))
    (writable : Writable grammar jobs session.files)
    (run : formatFiles grammar .inPlace session failed jobs = (after, .exit code)) :
    Isolated grammar jobs session.files after.files ∧
      (code = 1 ↔ failed = true ∨ ∃ job ∈ jobs, Fails grammar session.files job) := by
  induction jobs generalizing session failed with
  | nil =>
      cases run
      exact ⟨isolated_nil _, by cases failed <;> simp⟩
  | cons job rest induction =>
      obtain ⟨middle, wanting, step, remaining⟩ := format_files_cons run
      obtain ⟨first, fails⟩ := visit_isolated (format_file_visit step) (writable job (by simp))
      obtain ⟨apartFirst, apartRest⟩ := List.pairwise_cons.mp apart
      have others : ∀ other ∈ rest, session.files.samePlace job.1 other.1 = false := by
        intro other member
        exact apartFirst other.1 (List.mem_map_of_mem member)
      have reads : ∀ other ∈ rest, middle.files.readText other.1 = session.files.readText other.1 := by
        intro other member
        apply read_text_eq_read_text
        apply first.read_apart
        simpa using others other member
      have apartMiddle : Apart middle.files (rest.map Prod.fst) := by
        simpa only [Apart, first.shape.same_place] using apartRest
      have writableMiddle : Writable grammar rest middle.files := by
        intro other member source text formats changed
        apply first.shape.write_text
        apply writable other (by simp [member]) source text _ changed
        rw [← formats_congr (reads other member)]
        exact formats
      obtain ⟨later, exits⟩ := induction apartMiddle writableMiddle remaining
      refine ⟨isolated_cons others first later, ?_⟩
      have failing : (∃ other ∈ rest, Fails grammar middle.files other) ↔
          ∃ other ∈ rest, Fails grammar session.files other := by
        apply exists_congr
        intro other
        apply and_congr_right
        intro member
        exact fails_congr (reads other member)
      rw [exits, Bool.or_eq_true, failing, fails, List.exists_mem_cons_iff, or_assoc]

end

/-! ### The whole run -/

/-- **Formatting in place leaves exactly the formatted texts**, if the files lie in different
places and can be written. A file that fails does not disturb the others, and the run reports
failure exactly when there is one. -/
theorem run_isolated {grammar : Grammar} {loader : Settings.Loader} {files : FileSystem}
    {options : Options} {arguments : List String} {input : ByteArray} {paths : List Path}
    {settings : List Settings} {code : Nat} (parsed : parseArguments arguments = .ok options.placing)
    (formats : options.listLayouts = false) (asked : options.paths ≠ [])
    (collected : files.collectSources options.paths = paths)
    (loaded : settingsFor loader files options paths = .ok settings) (apart : Apart files paths)
    (writable : Writable grammar (paths.zip settings) files)
    (ends : (run grammar loader files arguments input).2 = .exit code) :
    (paths.zip settings).map Prod.fst = paths ∧
      Isolated grammar (paths.zip settings) files (run grammar loader files arguments input).1.files ∧
      (code = 1 ↔ ∃ job ∈ paths.zip settings, Fails grammar files job) := by
  have listed : (paths.zip settings).map Prod.fst = paths :=
    List.map_fst_zip (Nat.le_of_eq (settings_for_length loaded).symm)
  have started : run grammar loader files arguments input =
      formatFiles grammar .inPlace { files } false (paths.zip settings) := by
    subst collected
    rw [run_files parsed formats asked]
    exact run_files_loaded rfl loaded
  rw [started] at ends ⊢
  have apartJobs : Apart files ((paths.zip settings).map Prod.fst) := by
    rw [listed]
    exact apart
  obtain ⟨isolated, exits⟩ := format_files_isolated apartJobs writable (Prod.ext rfl ends)
  exact ⟨listed, isolated, by simpa using exits⟩

/-- A request for a directory and three files, one of them with an error and one missing. -/
def mixedRequest : Options :=
  { paths := [⟨"", ["keys"]⟩, ⟨"", ["right.keymap"]⟩, ⟨"", ["torn.keymap"]⟩, ⟨"", ["gone.keymap"]⟩] }

def mixedPaths : List Path :=
  [⟨"", ["keys", "left.keymap"]⟩, ⟨"", ["right.keymap"]⟩, ⟨"", ["torn.keymap"]⟩,
    ⟨"", ["gone.keymap"]⟩]

theorem adv360_known : (Layout.find? [] "adv360").isSome = true := rfl

theorem two_spaces_blank : isIndentUnit "  " = true := rfl

/-- The settings that hold where no settings file is found. -/
def plainSettings : Settings where
  layout := "adv360"
  indentUnit := "  "
  warnUnhandled := false
  layouts := []
  layout_known := adv360_known
  indentUnit_blank := two_spaces_blank

theorem mixed_writable : Writable commentGrammar
    (mixedPaths.zip (List.replicate 4 plainSettings)) keymapFiles := by
  intro job member source text _ _
  have listed : job.1 ∈ mixedPaths := (List.of_mem_zip member).1
  simp only [mixedPaths, List.mem_cons, List.not_mem_nil, or_false] at listed
  rcases listed with same | same | same | same <;> rw [same] <;> exact ⟨_, rfl⟩

theorem torn_fails :
    Fails commentGrammar keymapFiles (⟨"", ["torn.keymap"]⟩, plainSettings) := by
  have reads : keymapFiles.readText ⟨"", ["torn.keymap"]⟩ = .ok "?" := by decide +kernel
  have refused : (formatSource plainSettings "?" (commentGrammar "?")).outcome =
      .error (.source (.unexpected 1 1)) := by decide +kernel
  rintro source text ⟨readsAgain, formatted⟩
  rw [reads] at readsAgain
  cases readsAgain
  rw [refused] at formatted
  cases formatted

/-- Two files fail. Of the others one is written, and one keeps its carriage return. -/
theorem run_isolated_mixed :
    let after := run commentGrammar Yaml.load keymapFiles
      ["keys", "right.keymap", "torn.keymap", "gone.keymap"] ByteArray.empty
    after.2 = .exit 1 ∧
      after.1.files.readText ⟨"", ["keys", "left.keymap"]⟩ = .ok "// base\n" ∧
      after.1.files.read ⟨"", ["right.keymap"]⟩ = keymapFiles.read ⟨"", ["right.keymap"]⟩ ∧
      after.1.files.read ⟨"", ["torn.keymap"]⟩ = keymapFiles.read ⟨"", ["torn.keymap"]⟩ ∧
      after.1.files.entryAt ["notes"] = keymapFiles.entryAt ["notes"] := by
  have parsed : parseArguments ["keys", "right.keymap", "torn.keymap", "gone.keymap"] =
      .ok mixedRequest.placing := by rfl
  have collected : keymapFiles.collectSources mixedRequest.paths = mixedPaths := by decide +kernel
  have loaded : settingsFor Yaml.load keymapFiles mixedRequest mixedPaths =
      .ok (List.replicate 4 plainSettings) := by rfl
  have apart : Apart keymapFiles mixedPaths := by decide +kernel
  have ends : (run commentGrammar Yaml.load keymapFiles
      ["keys", "right.keymap", "torn.keymap", "gone.keymap"] ByteArray.empty).2 = .exit 1 := by
    decide +kernel
  obtain ⟨_, isolated, _⟩ :=
    run_isolated parsed rfl (by decide) collected loaded apart mixed_writable ends
  have left : Formats commentGrammar keymapFiles (⟨"", ["keys", "left.keymap"]⟩, plainSettings)
      "//base" "// base\n" := ⟨by decide +kernel, by decide +kernel⟩
  have right : Formats commentGrammar keymapFiles (⟨"", ["right.keymap"]⟩, plainSettings)
      "// base\n" "// base\n" := ⟨by decide +kernel, by decide +kernel⟩
  have notes : ∀ path ∈ mixedPaths, keymapFiles.locate path ≠ .ok ["notes"] := by decide +kernel
  refine ⟨ends, ?_, ?_, ?_, ?_⟩
  · exact isolated.formatted _ (by simp [mixedPaths]) _ _ left
  · exact isolated.settled _ (by simp [mixedPaths]) _ right
  · exact isolated.failed _ (by simp [mixedPaths]) torn_fails
  · apply isolated.unlisted
    intro job member
    exact notes job.1 (List.of_mem_zip member).1

end DevicetreeFormat.CommandLine
