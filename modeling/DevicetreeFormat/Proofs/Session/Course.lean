import DevicetreeFormat.Proofs.Completion
import DevicetreeFormat.Proofs.Session.Isolation
import DevicetreeFormat.Proofs.Session.Refusal
import DevicetreeFormat.Proofs.Slices

/-!
# The course of a run

A file that is missing, that is a directory or whose text has a fault is
reported, and the run goes on to the next one. What stops a run is a file whose
name or whose bytes cannot be read as text, whatever else it was asked to do,
settings that fail without being refused, and a layout that is to be listed and
has an identifier that cannot be printed. Nothing else does, as long as the trees
of the grammar can be printed.
-/

namespace DevicetreeFormat.RawTree

set_option autoImplicit false

/-- A directive, a branch or an include has a child that is not spacing. -/
def Filled (source : String) (raw : RawTree) : Prop :=
  ((Kind.ofName raw.name).isDirective || (Kind.ofName raw.name).isBranch ||
      Kind.ofName raw.name = .fileInclude) = true →
    ∃ child ∈ raw.children, isKept source.toUTF8 child = true

theorem filled_of_plain {source : String} {raw : RawTree}
    (plain : ((Kind.ofName raw.name).isDirective || (Kind.ofName raw.name).isBranch ||
      Kind.ofName raw.name = .fileInclude) = false) : raw.Filled source := by
  intro needy
  rw [plain] at needy
  cases needy

theorem Gives.filled {source : String} {raw : RawTree} {tree : Tree} (filled : raw.Filled source)
    (gives : Gives source raw tree) : tree.Filled := by
  obtain ⟨copied, given⟩ := gives.copied
  intro needy childless
  have same : tree.kind = Kind.ofName raw.name := by
    rw [Tree.kind, copied.name]
    cases raw
    rfl
  rw [same] at needy
  obtain ⟨child, member, kept⟩ := filled needy
  rw [childless, List.forall₂_nil_right_iff, List.filter_eq_nil_iff] at given
  exact given child member kept

end DevicetreeFormat.RawTree

namespace DevicetreeFormat.FileSystem

set_option autoImplicit false

/-! ### Files that cannot be read as text -/

/-- A file whose name is not possible or whose bytes are no text. -/
def Unreadable (files : FileSystem) (path : Path) : Prop :=
  path.isNameable = false ∨ ∃ content, files.read path = .ok content ∧ String.fromUTF8? content = none

instance (files : FileSystem) (path : Path) : Decidable (files.Unreadable path) :=
  match reads : files.read path with
  | .error _ => decidable_of_iff (path.isNameable = false) (by simp [Unreadable, reads])
  | .ok content =>
      decidable_of_iff (path.isNameable = false ∨ String.fromUTF8? content = none)
        (by simp [Unreadable, reads])

theorem walk_ne_unnameable (files : FileSystem) (here : Location) (parts : List String) :
    files.walk here parts ≠ .error .unnameable := by
  induction parts generalizing here with
  | nil => simp [walk]
  | cons part rest induction =>
      rw [walk]
      split
      · simp
      · split
        · exact induction here.dropLast
        · split
          · exact induction (here ++ [part])
          · simp

theorem read_eq_unnameable_iff {files : FileSystem} {path : Path} :
    files.read path = .error .unnameable ↔ path.isNameable = false := by
  unfold FileSystem.read
  split
  · next unnameable => exact iff_of_true rfl (by simpa using unnameable)
  · next nameable =>
      refine iff_of_false ?_ (by simpa using nameable)
      split
      · next fault located =>
          rintro ⟨⟩
          exact walk_ne_unnameable files _ _ located
      · split <;> simp

/-- A file that is not unreadable has a text, or it can be said why not. -/
theorem read_text_of_readable {files : FileSystem} {path : Path} (readable : ¬ files.Unreadable path) :
    (∃ source, files.readText path = .ok source) ∨
      ∃ fault, fault ≠ .unnameable ∧ files.readText path = .error (.access fault) := by
  rw [Unreadable, not_or] at readable
  obtain ⟨named, decodes⟩ := readable
  unfold readText
  cases reads : files.read path with
  | error fault =>
      refine .inr ⟨fault, ?_, rfl⟩
      rintro rfl
      exact named (read_eq_unnameable_iff.mp reads)
  | ok content =>
      cases decoded : String.fromUTF8? content with
      | none => exact absurd ⟨content, reads, decoded⟩ decodes
      | some text => exact .inl ⟨Text.normalizeNewlines text, by simp only [decoded]⟩

theorem read_text_of_unreadable {files : FileSystem} {path : Path} (unreadable : files.Unreadable path) :
    files.readText path = .error (.access .unnameable) ∨ files.readText path = .error .undecodable := by
  unfold readText
  rcases unreadable with unnameable | ⟨content, reads, undecodable⟩
  · exact .inl (by simp only [read_eq_unnameable_iff.mpr unnameable])
  · exact .inr (by simp only [reads, undecodable])

theorem unreadable_congr {before after : FileSystem} {path : Path}
    (same : after.read path = before.read path) : after.Unreadable path ↔ before.Unreadable path := by
  rw [Unreadable, Unreadable, same]

/-- Writing a text over a text makes no file unreadable and none readable. -/
theorem Overwrites.unreadable_iff {before after : FileSystem} {place : Location} {old : ByteArray}
    {text decoded : String} (change : Overwrites before place text.toUTF8 after)
    (there : before.entryAt place = some (.file old)) (sound : String.fromUTF8? old = some decoded)
    (path : Path) : after.Unreadable path ↔ before.Unreadable path := by
  by_cases here : before.locate path = .ok place
  · by_cases nameable : path.isNameable = true
    · have readsBefore := read_of_locate nameable here there
      have readsAfter := change.read_here nameable here
      have fresh := Text.fromUTF8?_toUTF8 text
      simp only [Unreadable, nameable, readsBefore, readsAfter, Except.ok.injEq, exists_eq_left', sound,
        fresh, reduceCtorEq]
    · simp [Unreadable, nameable]
  · apply unreadable_congr
    apply read_eq_read (change.shape.locate path)
    intro location located
    apply change.elsewhere
    rintro rfl
    exact here located

end DevicetreeFormat.FileSystem

namespace DevicetreeFormat.CommandLine

set_option autoImplicit false

open FileSystem

/-! ### One file -/

/-- A grammar whose trees can be printed. If a tree has no fault, its ranges cut no
character, and its directives, branches and includes keep a child. -/
def Tame (grammar : Grammar) : Prop :=
  ∀ source, (grammar source).marks.faulty = false →
    (grammar source).Everywhere (RawTree.Ranged source) ∧
      (grammar source).Everywhere (RawTree.Filled source)

theorem attempt_ne_broken {grammar : Grammar} (tame : Tame grammar) (settings : Settings)
    (source : String) (cause : Breakdown) :
    attemptOf (formatSource settings source (grammar source)).outcome ≠ .broken cause := by
  cases faulty : (grammar source).marks.faulty with
  | true =>
      simp only [formatSource, RawTree.toTree, faulty, if_true, RawTree.fault]
      split <;> simp [attemptOf]
  | false =>
      obtain ⟨ranged, filled⟩ := tame source faulty
      obtain ⟨tree, gives⟩ := RawTree.exists_gives ranged
      have whole := gives.everywhere
        (fun _ _ filled gives => gives.filled (RawTree.everywhere_iff.mp filled).1) filled
      have printed := Printer.format_tree_of_complete
        (Printer.document_complete settings (Tree.everywhere_iff.mp whole).2)
      simp only [formatSource, RawTree.to_tree_of_gives faulty gives, printed]
      simp [attemptOf, Except.mapError]

variable {grammar : Grammar} {delivery : Delivery} {session : Session} {job : Job}

theorem format_file_of_readable (tame : Tame grammar) (delivery : Delivery)
    (readable : ¬ session.files.Unreadable job.1) :
    ∃ after wanting, formatFile grammar delivery session job.1 job.2 = (after, .ok wanting) := by
  unfold formatFile
  rcases read_text_of_readable readable with ⟨source, reads⟩ | ⟨fault, reportable, reads⟩
  · simp only [reads]
    cases attempt : attemptOf (formatSource job.2 source (grammar source)).outcome with
    | broken cause => exact absurd attempt (attempt_ne_broken tame job.2 source cause)
    | refused message => exact ⟨_, _, rfl⟩
    | text formatted =>
        simp only
        split
        · exact ⟨_, _, rfl⟩
        · exact ⟨_, _, rfl⟩
  · simp only [reads]
    cases fault with
    | unnameable => exact absurd rfl reportable
    | notFound => exact ⟨_, _, rfl⟩
    | isDirectory => exact ⟨_, _, rfl⟩
    | notDirectory => exact ⟨_, _, rfl⟩

theorem format_file_of_unreadable (grammar : Grammar) (delivery : Delivery)
    (unreadable : session.files.Unreadable job.1) :
    ∃ cause, formatFile grammar delivery session job.1 job.2 = (session, .error cause) := by
  unfold formatFile
  rcases read_text_of_unreadable unreadable with reads | reads
  · exact ⟨.unnameable, by simp only [reads]⟩
  · exact ⟨.undecodable, by simp only [reads]⟩

/-- A visit leaves the files as they are or writes a formatted text. -/
theorem Visit.keeps_or_writes {after : Session} {wanting : Bool}
    (visit : Visit grammar job session after delivery wanting) :
    after.files = session.files ∨ ∃ source text, Formats grammar session.files job source text ∧
      session.files.writeText job.1 text = .ok after.files := by
  cases visit with
  | failed _ files _ _ => exact .inl files
  | settled _ _ files _ => exact .inl files
  | unsettled _ _ files _ => exact .inl files
  | printed _ files _ => exact .inl files
  | unwritten _ _ _ files _ _ => exact .inl files
  | written formats _ writes _ _ => exact .inr ⟨_, _, formats, writes⟩

theorem Visit.unreadable_iff {after : Session} {wanting : Bool}
    (visit : Visit grammar job session after delivery wanting) (path : Path) :
    after.files.Unreadable path ↔ session.files.Unreadable path := by
  rcases visit.keeps_or_writes with files | ⟨source, text, formats, writes⟩
  · rw [files]
  · obtain ⟨old, decoded, reads, sound, _⟩ := read_of_read_text formats.1
    obtain ⟨place, located, change⟩ := overwrites_of_write_text reads writes
    obtain ⟨again, locatedAgain, there⟩ := locate_of_read reads
    rw [located] at locatedAgain
    cases locatedAgain
    exact change.unreadable_iff there sound path

/-- A file that counts as a failure of the run: it fails, a check finds that its text
would change, or the text that it is to have cannot be written. -/
inductive Wanting (grammar : Grammar) (delivery : Delivery) (files : FileSystem) (job : Job) : Prop
  | failing (fails : Fails grammar files job)
  | changing {source text : String} (checks : delivery = .check)
      (formats : Formats grammar files job source text) (changed : source ≠ text)
  | refused {source text : String} {fault : AccessFault} (places : delivery = .inPlace)
      (formats : Formats grammar files job source text) (changed : source ≠ text)
      (refused : files.writeText job.1 text = .error fault)

/-- A file whose text is to stay as it is counts as no failure. -/
theorem Formats.not_wanting {files : FileSystem} {text : String}
    (settled : Formats grammar files job text text) : ¬ Wanting grammar delivery files job := by
  rintro (fails | ⟨_, formats, changed⟩ | ⟨_, formats, changed, _⟩)
  · exact fails text text settled
  · exact formats.not_settled changed ⟨text, settled⟩
  · exact formats.not_settled changed ⟨text, settled⟩

theorem Visit.wanting_iff {after : Session} {wanting : Bool}
    (visit : Visit grammar job session after delivery wanting) :
    wanting = true ↔ Wanting grammar delivery session.files job := by
  cases visit with
  | failed fails _ _ _ => exact iff_of_true rfl (.failing fails)
  | settled _ formats _ _ => exact iff_of_false nofun formats.not_wanting
  | unsettled formats changed _ _ => exact iff_of_true rfl (.changing rfl formats changed)
  | unwritten formats changed refused _ _ _ =>
      exact iff_of_true rfl (.refused rfl formats changed refused)
  | printed formats _ _ =>
      refine iff_of_false nofun ?_
      rintro (fails | ⟨⟨⟩, _⟩ | ⟨⟨⟩, _⟩)
      exact fails _ _ formats
  | written formats _ writes _ _ =>
      refine iff_of_false nofun ?_
      rintro (fails | ⟨⟨⟩, _⟩ | ⟨_, again, _, refused⟩)
      · exact fails _ _ formats
      · obtain ⟨_, rfl⟩ := formats.unique again
        rw [refused] at writes
        cases writes

theorem Visit.of_fails {after : Session} {wanting : Bool}
    (visit : Visit grammar job session after delivery wanting)
    (fails : Fails grammar session.files job) : wanting = true ∧ after.files = session.files := by
  refine ⟨visit.wanting_iff.mpr (.failing fails), ?_⟩
  rcases visit.keeps_or_writes with files | ⟨source, text, formats, _⟩
  · exact files
  · exact absurd formats (fails source text)

theorem Visit.of_rewrites {after : Session} {wanting : Bool} {source text : String}
    (visit : Visit grammar job session after .inPlace wanting)
    (formats : Formats grammar session.files job source text) (changed : source ≠ text)
    (writable : ∃ written, session.files.writeText job.1 text = .ok written) :
    wanting = false ∧ after.files.read job.1 = .ok text.toUTF8 := by
  cases visit with
  | failed fails _ _ _ => exact absurd formats (fails source text)
  | settled _ settled _ _ => exact absurd ⟨_, settled⟩ (formats.not_settled changed)
  | written again _ _ holds _ =>
      obtain ⟨_, rfl⟩ := formats.unique again
      exact ⟨rfl, holds⟩
  | unwritten again _ refused _ _ _ =>
      obtain ⟨_, rfl⟩ := formats.unique again
      obtain ⟨written, writes⟩ := writable
      rw [refused] at writes
      cases writes

/-! ### One file after the other -/

/-- A run that formats one file after the other, each in the session that the one
before it has left. The flags say which files are to be reported as failures. -/
inductive Visits (grammar : Grammar) (delivery : Delivery) :
    Session → List Job → List Bool → Session → Prop
  | none {session : Session} : Visits grammar delivery session [] [] session
  | next {session middle after : Session} {job : Job} {rest : List Job} {wanting : Bool}
      {flags : List Bool}
      (step : formatFile grammar delivery session job.1 job.2 = (middle, .ok wanting))
      (visit : Visit grammar job session middle delivery wanting)
      (later : Visits grammar delivery middle rest flags after) :
      Visits grammar delivery session (job :: rest) (wanting :: flags) after

/-- A run from `session` over the files has come to the file of `job`. -/
def ComesTo (grammar : Grammar) (delivery : Delivery) (session : Session) (jobs : List Job)
    (job : Job) (here : Session) : Prop :=
  ∃ front rest flags, jobs = front ++ job :: rest ∧
    Visits grammar delivery session front flags here

theorem comes_to_first (session : Session) (job : Job) (rest : List Job) :
    ComesTo grammar delivery session (job :: rest) job session :=
  ⟨[], rest, [], rfl, .none⟩

theorem comes_to_cons {middle here : Session} {wanting : Bool} {other : Job} {rest : List Job}
    (step : formatFile grammar delivery session job.1 job.2 = (middle, .ok wanting)) :
    ComesTo grammar delivery session (job :: rest) other here ↔
      (other = job ∧ here = session) ∨ ComesTo grammar delivery middle rest other here := by
  constructor
  · rintro ⟨front, after, flags, split, visits⟩
    cases visits with
    | none =>
        cases split
        exact .inl ⟨rfl, rfl⟩
    | next again _ later =>
        cases split
        rw [step] at again
        cases again
        exact .inr ⟨_, after, _, rfl, later⟩
  · rintro (⟨rfl, rfl⟩ | ⟨front, after, flags, split, visits⟩)
    · exact comes_to_first here other rest
    · exact ⟨job :: front, after, wanting :: flags, by rw [split, List.cons_append],
        .next step (format_file_visit step) visits⟩

/-- The flags of a run are those of the files that it finds wanting as it comes to them. -/
theorem Visits.contains_iff {jobs : List Job} {flags : List Bool} {after : Session}
    (visits : Visits grammar delivery session jobs flags after) :
    flags.contains true = true ↔ ∃ job here, ComesTo grammar delivery session jobs job here ∧
      Wanting grammar delivery here.files job := by
  induction visits with
  | none =>
      refine iff_of_false (by simp) ?_
      rintro ⟨job, here, ⟨front, rest, _, split, _⟩, _⟩
      simp at split
  | @next session middle after job rest wanting flags step visit later induction =>
      rw [List.contains_cons, Bool.or_eq_true, induction, beq_iff_eq, eq_comm, visit.wanting_iff]
      simp only [comes_to_cons step]
      constructor
      · rintro (wants | ⟨other, here, comes, wants⟩)
        · exact ⟨job, session, .inl ⟨rfl, rfl⟩, wants⟩
        · exact ⟨other, here, .inr comes, wants⟩
      · rintro ⟨other, here, ⟨rfl, rfl⟩ | comes, wants⟩
        · exact .inl wants
        · exact .inr ⟨other, here, comes, wants⟩

/-- How a run over files goes: all of them are visited, or all before the first
that is unreadable. -/
inductive Course (grammar : Grammar) (delivery : Delivery) (session : Session) (jobs : List Job)
    (failed : Bool) : Session × Ending → Prop
  | whole {flags : List Bool} {after : Session}
      (readable : ∀ job ∈ jobs, ¬ session.files.Unreadable job.1)
      (visits : Visits grammar delivery session jobs flags after) :
      Course grammar delivery session jobs failed
        (after, .exit (if failed || flags.contains true then 1 else 0))
  | stopped {front rest : List Job} {bad : Job} {flags : List Bool} {after : Session}
      {cause : Breakdown} (split : jobs = front ++ bad :: rest)
      (readable : ∀ job ∈ front, ¬ session.files.Unreadable job.1)
      (unreadable : session.files.Unreadable bad.1)
      (visits : Visits grammar delivery session front flags after) :
      Course grammar delivery session jobs failed (after, .broken cause)

/-- A run that comes to its end reports failure exactly if it failed before or comes to
a file that is wanting then. -/
theorem Course.code_eq_one_iff {jobs : List Job} {failed : Bool} {ended : Session × Ending}
    {code : Nat} (course : Course grammar delivery session jobs failed ended)
    (ends : ended.2 = .exit code) :
    code = 1 ↔ failed = true ∨ ∃ job here, ComesTo grammar delivery session jobs job here ∧
      Wanting grammar delivery here.files job := by
  cases course with
  | stopped => cases ends
  | whole readable visits =>
      cases ends
      rw [← visits.contains_iff, ← Bool.or_eq_true]
      split
      · next failing => exact iff_of_true rfl failing
      · next fine => exact iff_of_false (by decide) fine

theorem format_files_course (tame : Tame grammar) (jobs : List Job) (failed : Bool) :
    Course grammar delivery session jobs failed
      (formatFiles grammar delivery session failed jobs) := by
  induction jobs generalizing session failed with
  | nil =>
      have same : formatFiles grammar delivery session failed [] =
          (session, .exit (if failed || ([] : List Bool).contains true then 1 else 0)) := by
        simp [formatFiles]
      rw [same]
      exact .whole (by simp) .none
  | cons job rest induction =>
      unfold formatFiles
      by_cases unreadable : session.files.Unreadable job.1
      · obtain ⟨cause, step⟩ := format_file_of_unreadable grammar delivery unreadable
        simp only [step]
        exact .stopped (List.nil_append (job :: rest)).symm (by simp) unreadable .none
      · obtain ⟨middle, wanting, step⟩ := format_file_of_readable tame delivery unreadable
        have visit := format_file_visit step
        have keeps := visit.unreadable_iff
        have readableFrom {others : List Job}
            (readable : ∀ other ∈ others, ¬ middle.files.Unreadable other.1) :
            ∀ other ∈ job :: others, ¬ session.files.Unreadable other.1 := by
          refine List.forall_mem_cons.mpr ⟨unreadable, ?_⟩
          intro other member
          rw [← keeps]
          exact readable other member
        have later := @induction middle (failed || wanting)
        simp only [step]
        generalize formatFiles grammar delivery middle (failed || wanting) rest = ended at later ⊢
        cases later with
        | @whole flags after readable visits =>
            have flagged : (failed || wanting || flags.contains true) =
                (failed || (wanting :: flags).contains true) := by
              cases wanting <;> simp
            rw [flagged]
            exact .whole (readableFrom readable) (.next step visit visits)
        | @stopped front others bad flags after cause split readable stops visits =>
            rw [keeps] at stops
            exact .stopped (by rw [split, List.cons_append]) (readableFrom readable) stops
              (.next step visit visits)

/-! ### The whole run -/

namespace Options

/-- What is to be done with formatted texts. A check takes precedence. -/
def chosen (options : Options) : Option Delivery :=
  if options.check then some .check else options.delivery

end Options

/-- The endings of a run that was not broken off. -/
def Ending.Orderly (ending : Ending) : Prop :=
  ending = .exit 0 ∨ ending = .exit 1

theorem orderly_exit (failed : Bool) : (Ending.exit (if failed then 1 else 0)).Orderly := by
  cases failed
  · exact .inl rfl
  · exact .inr rfl

theorem not_orderly_broken (cause : Breakdown) : ¬ (Ending.broken cause).Orderly := by
  rintro (same | same) <;> cases same

theorem Course.orderly_iff {jobs : List Job} {failed : Bool} {ended : Session × Ending}
    (course : Course grammar delivery session jobs failed ended) :
    ended.2.Orderly ↔ ∀ job ∈ jobs, ¬ session.files.Unreadable job.1 := by
  cases course with
  | whole readable visits => exact iff_of_true (orderly_exit _) readable
  | stopped split _ unreadable visits =>
      refine iff_of_false (not_orderly_broken _) ?_
      intro readable
      exact readable _ (by simp [split]) unreadable

variable {loader : Settings.Loader} {files : FileSystem} {options : Options}

theorem settings_here_loads (here : options.isHere = true)
    (loads : ∀ fault, ¬ FirstFault (options.loadings loader files) fault) :
    ∃ settings, settingsHere loader files options = .ok settings := by
  cases loaded : settingsHere loader files options with
  | ok settings => exact ⟨settings, rfl⟩
  | error fault => exact absurd ((settings_here_fails_iff here).mp loaded) (loads fault)

theorem settings_for_loads (away : options.isHere = false)
    (loads : ∀ fault, ¬ FirstFault (options.loadings loader files) fault) :
    ∃ settings, settingsFor loader files options (files.collectSources options.paths) = .ok settings := by
  cases loaded : settingsFor loader files options (files.collectSources options.paths) with
  | ok settings => exact ⟨settings, rfl⟩
  | error fault => exact absurd ((settings_for_fails_iff away).mp loaded) (loads fault)

theorem run_input_orderly_iff (tame : Tame grammar) {settings : Settings} {input : ByteArray}
    (loaded : settingsHere loader session.files options = .ok settings) :
    (runInput grammar loader session options input).2.Orderly ↔ (String.fromUTF8? input).isSome = true := by
  unfold runInput
  simp only [loaded]
  cases String.fromUTF8? input with
  | none => exact iff_of_false (not_orderly_broken _) Bool.false_ne_true
  | some decoded =>
      refine iff_of_true ?_ rfl
      simp only
      cases attempt : attemptOf (formatSource settings (Text.normalizeNewlines decoded)
          (grammar (Text.normalizeNewlines decoded))).outcome with
      | broken cause => exact absurd attempt (attempt_ne_broken tame settings _ cause)
      | refused message => exact .inr rfl
      | text formatted =>
          simp only
          split
          · exact orderly_exit _
          · exact .inr rfl

/-! ### The list of layouts -/

theorem print_layouts_ending (settings : Settings) (session : Session) (names : List LooseText) :
    (printLayouts settings session names).2 =
      if ∀ name ∈ names, name.text?.isSome = true then .exit 0 else .broken .unprintable := by
  induction names generalizing session with
  | nil => simp [printLayouts]
  | cons name rest induction =>
      rw [printLayouts, layoutLine]
      cases spelled : name.text? with
      | none => simp [spelled]
      | some text => simp only [Option.map_some, induction, List.forall_mem_cons, spelled,
          Option.isSome_some, true_and]

theorem mem_available_iff {customs : List (LooseText × Layout)} {name : LooseText} :
    name ∈ Layout.available customs ↔
      name ∈ Layout.builtin.map Prod.fst ∨ name ∈ customs.map Prod.fst := by
  rw [Layout.available, Layout.sortedNames, List.mem_eraseDups, List.mem_mergeSort, List.mem_append]

/-- The identifiers of the builtin layouts can be printed, so only the others matter. -/
theorem available_printable_iff {customs : List (LooseText × Layout)} :
    (∀ name ∈ Layout.available customs, name.text?.isSome = true) ↔
      ∀ custom ∈ customs, custom.1.text?.isSome = true := by
  have builtin : ∀ name ∈ Layout.builtin.map Prod.fst, name.text?.isSome = true := by decide
  simp only [mem_available_iff]
  constructor
  · intro printable custom member
    exact printable custom.1 (.inr (List.mem_map_of_mem member))
  · rintro printable name (member | member)
    · exact builtin name member
    · obtain ⟨custom, inside, rfl⟩ := List.mem_map.mp member
      exact printable custom inside

theorem run_list_ending (session : Session) {settings : Settings}
    (loaded : settingsHere loader session.files options = .ok settings) :
    (runList loader session options).2 =
      if ∀ custom ∈ settings.layouts, custom.1.text?.isSome = true then .exit 0
      else .broken .unprintable := by
  simp only [runList, loaded, print_layouts_ending, available_printable_iff]

theorem run_list_orderly_iff {settings : Settings}
    (loaded : settingsHere loader session.files options = .ok settings) :
    (runList loader session options).2.Orderly ↔
      ∀ custom ∈ settings.layouts, custom.1.text?.isSome = true := by
  rw [run_list_ending session loaded]
  split
  · next printable => exact iff_of_true (.inl rfl) printable
  · next unprintable => exact iff_of_false (not_orderly_broken _) unprintable

/-! ### What hinders a run -/

/-- What lets a run come to its end: settings are refused, or all are loaded, what is to
be read can be read, and the identifiers that are to be listed can be printed. -/
inductive Unhindered (loader : Settings.Loader) (files : FileSystem) (options : Options)
    (input : ByteArray) : Prop
  | refused {message : String} (leads : FirstFault (options.loadings loader files) (.refused message))
  | listing {settings : Settings} (loaded : settingsHere loader files options = .ok settings)
      (lists : options.listLayouts = true)
      (printable : ∀ custom ∈ settings.layouts, custom.1.text?.isSome = true)
  | input (loads : ∀ fault, ¬ FirstFault (options.loadings loader files) fault)
      (formats : options.listLayouts = false) (unasked : options.paths = [])
      (decodes : (String.fromUTF8? input).isSome = true)
  | sources (loads : ∀ fault, ¬ FirstFault (options.loadings loader files) fault)
      (away : options.isHere = false) (delivers : options.chosen.isSome = true)
      (readable : ∀ path ∈ files.collectSources options.paths, ¬ files.Unreadable path)

theorem run_here {arguments : List String} (parsed : parseArguments arguments = .ok options)
    (here : options.isHere = true) (input : ByteArray) :
    run grammar loader files arguments input =
      if options.listLayouts then runList loader { files } options
      else runInput grammar loader { files } options input := by
  unfold run
  simp only [parsed, runOptions]
  split
  · rfl
  · next formats =>
      have unasked : options.paths.isEmpty = true := by simpa [Options.isHere, formats] using here
      rw [if_pos unasked]

theorem run_away {arguments : List String} (parsed : parseArguments arguments = .ok options)
    (away : options.isHere = false) (input : ByteArray) :
    run grammar loader files arguments input = runFiles grammar loader { files } options := by
  rw [Options.isHere, Bool.or_eq_false_iff] at away
  refine run_files parsed away.1 ?_ input
  rintro unasked
  simp [unasked] at away

/-- The jobs of a run over files go their course. -/
theorem run_course (tame : Tame grammar) {arguments : List String} {settings : List Settings}
    (parsed : parseArguments arguments = .ok options) (away : options.isHere = false)
    (loaded : settingsFor loader files options (files.collectSources options.paths) = .ok settings)
    (chosen : options.chosen = some delivery) (input : ByteArray) :
    Course grammar delivery { files } ((files.collectSources options.paths).zip settings) false
      (run grammar loader files arguments input) := by
  rw [run_away parsed away, run_files_loaded chosen loaded]
  exact format_files_course tame _ false

theorem run_orderly_of_first_fault {arguments : List String} {fault : Settings.LoadFault}
    (parsed : parseArguments arguments = .ok options)
    (leads : FirstFault (options.loadings loader files) fault) (input : ByteArray) :
    (run grammar loader files arguments input).2.Orderly ↔ ∃ message, fault = .refused message := by
  rw [run_of_first_fault grammar parsed leads]
  by_cases refused : ∃ message, fault = .refused message
  · refine iff_of_true ?_ refused
    obtain ⟨message, rfl⟩ := refused
    exact .inr rfl
  · refine iff_of_false ?_ refused
    obtain ⟨cause, broken⟩ := refuse_settings_unrefused { files } (not_exists.mp refused)
    rw [broken]
    exact not_orderly_broken cause

theorem run_orderly_here (tame : Tame grammar) {arguments : List String}
    (parsed : parseArguments arguments = .ok options) (here : options.isHere = true)
    {settings : Settings} (loaded : settingsHere loader files options = .ok settings)
    (input : ByteArray) :
    (run grammar loader files arguments input).2.Orderly ↔
      if options.listLayouts then ∀ custom ∈ settings.layouts, custom.1.text?.isSome = true
      else (String.fromUTF8? input).isSome = true := by
  rw [run_here parsed here]
  cases lists : options.listLayouts with
  | true => exact run_list_orderly_iff loaded
  | false => exact run_input_orderly_iff tame loaded

theorem run_orderly_away (tame : Tame grammar) {arguments : List String}
    (parsed : parseArguments arguments = .ok options) (away : options.isHere = false)
    (loads : ∀ fault, ¬ FirstFault (options.loadings loader files) fault) (input : ByteArray) :
    (run grammar loader files arguments input).2.Orderly ↔ options.chosen.isSome = true ∧
      ∀ path ∈ files.collectSources options.paths, ¬ files.Unreadable path := by
  obtain ⟨settings, loaded⟩ := settings_for_loads away loads
  have jobwise : (∀ path ∈ ((files.collectSources options.paths).zip settings).map Prod.fst,
      ¬ files.Unreadable path) ↔ ∀ job ∈ (files.collectSources options.paths).zip settings,
      ¬ files.Unreadable job.1 := List.forall_mem_map
  rw [List.map_fst_zip (Nat.le_of_eq (settings_for_length loaded).symm)] at jobwise
  cases chosen : options.chosen with
  | none =>
      refine iff_of_false ?_ (by simp)
      rw [Options.chosen] at chosen
      simp only [run_away parsed away, runFiles, loaded, chosen]
      exact not_orderly_broken .blankMode
  | some delivery =>
      rw [(run_course tame parsed away loaded chosen input).orderly_iff, jobwise]
      simp only [Option.isSome_some, true_and]

/-- **A run ends with an exit code exactly if nothing hinders it,** and a file that
fails does not keep it from the files after it. Over files, every file is visited in
turn up to the first that is unreadable, whatever the files before it came to. Failure is
reported exactly if some file was found wanting when its turn came. -/
theorem run_unhindered (tame : Tame grammar) (loader : Settings.Loader) {arguments : List String}
    (parsed : parseArguments arguments = .ok options) (files : FileSystem) (input : ByteArray) :
    ((run grammar loader files arguments input).2.Orderly ↔ Unhindered loader files options input) ∧
      ∀ settings delivery jobs, options.isHere = false →
        settingsFor loader files options (files.collectSources options.paths) = .ok settings →
        options.chosen = some delivery →
        jobs = (files.collectSources options.paths).zip settings →
        jobs.map Prod.fst = files.collectSources options.paths ∧
          Course grammar delivery { files } jobs false (run grammar loader files arguments input) ∧
          ∀ code, (run grammar loader files arguments input).2 = .exit code →
            (code = 1 ↔ ∃ job here, ComesTo grammar delivery { files } jobs job here ∧
              Wanting grammar delivery here.files job) := by
  refine ⟨⟨?_, ?_⟩, ?_⟩
  · intro orderly
    by_cases fails : ∃ fault, FirstFault (options.loadings loader files) fault
    · obtain ⟨fault, leads⟩ := fails
      obtain ⟨message, rfl⟩ := (run_orderly_of_first_fault parsed leads input).mp orderly
      exact .refused leads
    · have loads := not_exists.mp fails
      cases here : options.isHere with
      | true =>
          obtain ⟨settings, loaded⟩ := settings_here_loads here loads
          have ends := (run_orderly_here tame parsed here loaded input).mp orderly
          cases lists : options.listLayouts with
          | true =>
              rw [if_pos lists] at ends
              exact .listing loaded lists ends
          | false =>
              have unasked : options.paths = [] := by simpa [Options.isHere, lists] using here
              rw [if_neg (by simp [lists])] at ends
              exact .input loads lists unasked ends
      | false =>
          obtain ⟨delivers, readable⟩ := (run_orderly_away tame parsed here loads input).mp orderly
          exact .sources loads here delivers readable
  · intro unhindered
    cases unhindered with
    | @refused message leads =>
        exact (run_orderly_of_first_fault parsed leads input).mpr ⟨message, rfl⟩
    | listing loaded lists printable =>
        have here : options.isHere = true := by simp [Options.isHere, lists]
        refine (run_orderly_here tame parsed here loaded input).mpr ?_
        rw [if_pos lists]
        exact printable
    | input loads formats unasked decodes =>
        have here : options.isHere = true := by simp [Options.isHere, unasked]
        obtain ⟨settings, loaded⟩ := settings_here_loads here loads
        refine (run_orderly_here tame parsed here loaded input).mpr ?_
        rw [if_neg (by simp [formats])]
        exact decodes
    | sources loads away delivers readable =>
        exact (run_orderly_away tame parsed away loads input).mpr ⟨delivers, readable⟩
  · rintro settings delivery jobs away loaded chosen rfl
    have course := run_course tame parsed away loaded chosen input
    refine ⟨List.map_fst_zip (Nat.le_of_eq (settings_for_length loaded).symm), course, ?_⟩
    intro code ends
    simpa using course.code_eq_one_iff ends

/-- A request for a file with an error, one that is missing and a directory. -/
def tornFirst : Options :=
  { paths := [⟨"", ["torn.keymap"]⟩, ⟨"", ["gone.keymap"]⟩, ⟨"", ["keys"]⟩] }

def tornFirstPaths : List Path :=
  [⟨"", ["torn.keymap"]⟩, ⟨"", ["gone.keymap"]⟩, ⟨"", ["keys", "left.keymap"]⟩]

theorem comment_grammar_tame : Tame commentGrammar := by
  intro source _
  have begins : Text.Boundary source 0 := String.Pos.Raw.isValid_zero
  have ends : Text.Boundary source source.toUTF8.size := String.Pos.Raw.isValid_rawEndPos
  exact ⟨⟨⟨begins, ends⟩, ⟨⟨begins, ends⟩, trivial⟩, trivial⟩,
    RawTree.filled_of_plain rfl, ⟨RawTree.filled_of_plain rfl, trivial⟩, trivial⟩

theorem gone_fails :
    Fails commentGrammar keymapFiles (⟨"", ["gone.keymap"]⟩, plainSettings) := by
  have missing : keymapFiles.readText ⟨"", ["gone.keymap"]⟩ = .error (.access .notFound) := by
    decide +kernel
  rintro source text ⟨reads, _⟩
  rw [missing] at reads
  cases reads

theorem left_rewrites :
    Formats commentGrammar keymapFiles (⟨"", ["keys", "left.keymap"]⟩, plainSettings) "//base"
        "// base\n" ∧
      ∃ written, keymapFiles.writeText ⟨"", ["keys", "left.keymap"]⟩ "// base\n" = .ok written :=
  ⟨⟨by decide +kernel, by decide +kernel⟩, _, rfl⟩

/-- The first two files fail and the third is rewritten, so the run reports failure. -/
theorem run_unhindered_torn :
    let ended := run commentGrammar Yaml.load keymapFiles ["torn.keymap", "gone.keymap", "keys"]
      ByteArray.empty
    ended.2 = .exit 1 ∧
      Visits commentGrammar .inPlace { files := keymapFiles }
        (tornFirstPaths.zip (List.replicate 3 plainSettings)) [true, true, false] ended.1 ∧
      ended.1.files.read ⟨"", ["keys", "left.keymap"]⟩ = .ok "// base\n".toUTF8 := by
  have parsed : parseArguments ["torn.keymap", "gone.keymap", "keys"] = .ok tornFirst := by rfl
  have collected : keymapFiles.collectSources tornFirst.paths = tornFirstPaths := by decide +kernel
  have loaded : settingsFor Yaml.load keymapFiles tornFirst tornFirstPaths =
      .ok (List.replicate 3 plainSettings) := by rfl
  have loads : ∀ fault, ¬ FirstFault (tornFirst.loadings Yaml.load keymapFiles) fault := by
    intro fault leads
    rw [← settings_for_fails_iff rfl, collected, loaded] at leads
    cases leads
  have readable : ∀ path ∈ keymapFiles.collectSources tornFirst.paths,
      ¬ keymapFiles.Unreadable path := by
    rw [collected]
    decide +kernel
  obtain ⟨ends, courses⟩ :=
    run_unhindered comment_grammar_tame Yaml.load parsed keymapFiles ByteArray.empty
  have orderly := ends.mpr (.sources loads rfl rfl readable)
  rw [collected] at courses
  obtain ⟨_, course, reports⟩ := courses _ .inPlace _ rfl loaded rfl rfl
  generalize run commentGrammar Yaml.load keymapFiles ["torn.keymap", "gone.keymap", "keys"]
    ByteArray.empty = ended at orderly course reports ⊢
  have code : ended.2 = .exit 1 := by
    rcases orderly with fine | failed
    · cases (reports 0 fine).mpr ⟨_, _, comes_to_first _ _ _, .failing torn_fails⟩
    · exact failed
  refine ⟨code, ?_⟩
  cases course with
  | stopped => exact absurd orderly (not_orderly_broken _)
  | whole _ visits =>
      cases visits with
      | next firstStep first later =>
          obtain ⟨rfl, firstFiles⟩ := first.of_fails torn_fails
          cases later with
          | next secondStep second later =>
              obtain ⟨rfl, secondFiles⟩ := second.of_fails (firstFiles ▸ gone_fails)
              cases later with
              | next thirdStep third later =>
                  cases later
                  have kept := secondFiles.trans firstFiles
                  change _ = keymapFiles at kept
                  obtain ⟨formats, writable⟩ := left_rewrites
                  rw [← kept] at formats writable
                  obtain ⟨rfl, holds⟩ := third.of_rewrites formats (by decide) writable
                  exact ⟨.next firstStep first (.next secondStep second
                    (.next thirdStep third .none)), holds⟩

/-- A file that is no text, one with a comment and one with an empty line. -/
def blobFiles : FileSystem :=
  ⟨[(["a.dts"], .file ⟨#[0xff]⟩), (["b.dts"], .file "//b".toUTF8), (["c.dts"], .file "\n".toUTF8)], []⟩

/-- The grammar in which every text is a directive whose only child is an unnamed token. -/
def directiveGrammar : Grammar := fun source =>
  let stop := source.toUTF8.size
  .branch "document" ⟨true, false, false, false⟩ 0 stop
    [.branch "preproc_call" ⟨true, false, false, false⟩ 0 stop
      [.branch "\n" ⟨false, false, false, false⟩ 0 stop []]]

/-- Settings with a layout whose identifier is half of a surrogate pair. -/
def halfNamedFiles : FileSystem :=
  ⟨[([".dtsfmtrc.yaml"], .file "layouts:\n  \"\\ud800\":\n    bindings: [1]\n".toUTF8)], []⟩

theorem half_named_loads :
    ∃ settings, settingsHere Yaml.load halfNamedFiles { listLayouts := true } = .ok settings ∧
      ¬ ∀ custom ∈ settings.layouts, custom.1.text?.isSome = true := by
  have shown : ((settingsHere Yaml.load halfNamedFiles { listLayouts := true }).toOption.map
      fun settings => settings.layouts.all fun custom => custom.1.text?.isSome) = some false := by
    decide +kernel
  cases loads : settingsHere Yaml.load halfNamedFiles { listLayouts := true } with
  | error fault =>
      rw [loads] at shown
      cases shown
  | ok settings =>
      rw [loads] at shown
      refine ⟨settings, rfl, ?_⟩
      simpa using Option.some.inj shown

/-- A file that is no text keeps a run from the file after it, which would be formatted.
A directive with spacing for its only child breaks a run off as well, and so does an
identifier in the list of layouts that cannot be printed. -/
theorem run_stops_at_blob :
    (run commentGrammar Yaml.load blobFiles ["a.dts", "b.dts"] ByteArray.empty).2 = .broken .undecodable ∧
      (run commentGrammar Yaml.load blobFiles ["a.dts", "b.dts"] ByteArray.empty).1.files.readText
        ⟨"", ["b.dts"]⟩ = .ok "//b" ∧
      (run commentGrammar Yaml.load blobFiles ["b.dts"] ByteArray.empty).1.files.readText
        ⟨"", ["b.dts"]⟩ = .ok "// b\n" ∧
      (run directiveGrammar Yaml.load blobFiles ["c.dts", "b.dts"] ByteArray.empty).2 =
        .broken (.printing .childlessDirective) ∧
      (run commentGrammar Yaml.load halfNamedFiles ["--list-layouts"] ByteArray.empty).2 =
        .broken .unprintable := by
  refine ⟨by decide +kernel, by decide +kernel, by decide +kernel, by decide +kernel, ?_⟩
  obtain ⟨settings, loaded, unprintable⟩ := half_named_loads
  have parsed : parseArguments ["--list-layouts"] = .ok { listLayouts := true } := by rfl
  rw [run_here parsed rfl, if_pos rfl, run_list_ending { files := halfNamedFiles } loaded,
    if_neg unprintable]

end DevicetreeFormat.CommandLine
