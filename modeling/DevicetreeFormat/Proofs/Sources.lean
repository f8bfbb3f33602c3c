import DevicetreeFormat.Files.Sources
import DevicetreeFormat.Proofs.Blank
import DevicetreeFormat.Proofs.Files
import Mathlib.Data.List.Induction
import Mathlib.Data.List.Lex
import Mathlib.Data.List.Nodup
import Mathlib.Data.List.Forall2
import Mathlib.Data.String.Basic

/-!
# The files that paths ask for

A directory stands for the sources below it: the files to which a path leads from it
through directories, name by name, and whose names end as those of sources do. They
are listed once each, in the order of their parts. The order looks at parts and not at
characters, so what lies in a directory stays together.
-/

namespace DevicetreeFormat

set_option autoImplicit false

/-! ### Suffixes of names -/

theorem Path.suffix_of_name_eq_some_iff (name suffix : String) :
    Path.suffixOfName name = some suffix ↔
      ∃ stem extension : List Char, stem ≠ [] ∧ extension ≠ [] ∧ '.' ∉ extension ∧
        name.toList = stem ++ '.' :: extension ∧ suffix = String.ofList ('.' :: extension) := by
  rw [suffixOfName]
  constructor
  · intro found
    split at found
    · next dot last front dropped =>
        split at found
        · cases found
        · next filled =>
            cases found
            obtain rfl : dot = '.' := by simpa using Text.drop_front_head dropped
            have whole : name.toList.reverse = name.toList.reverse.takeWhile (· != '.') ++
                '.' :: last :: front := by
              rw [← dropped, List.takeWhile_append_dropWhile]
            refine ⟨(last :: front).reverse, (name.toList.reverse.takeWhile (· != '.')).reverse,
              by simp, by simpa using filled, ?_, ?_, rfl⟩
            · intro member
              have kept := List.all_eq_true.mp List.all_takeWhile '.' (List.mem_reverse.mp member)
              simp at kept
            · have flipped := congrArg List.reverse whole
              simpa using flipped
    · cases found
  · rintro ⟨stem, extension, filled, longer, undotted, shape, rfl⟩
    have plain : ∀ c ∈ extension.reverse, (c != '.') = true := by
      intro c member
      rw [bne_iff_ne]
      rintro rfl
      exact undotted (List.mem_reverse.mp member)
    have flipped : name.toList.reverse = extension.reverse ++ '.' :: stem.reverse := by
      rw [shape]
      simp
    obtain ⟨last, front, stemmed⟩ := List.exists_cons_of_ne_nil (List.reverse_ne_nil_iff.mpr filled)
    rw [flipped, List.takeWhile_append_of_pos plain, List.dropWhile_append_of_pos plain]
    simp [stemmed, longer]

namespace FileSystem

/-- A name that ends in the suffix of a source and has more before it. -/
def IsSource (name : String) : Prop :=
  ∃ stem suffix, stem ≠ "" ∧ suffix ∈ sourceSuffixes ∧ name = stem ++ suffix

theorem source_suffix_shape {suffix : String} (member : suffix ∈ sourceSuffixes) :
    ∃ extension, extension ≠ [] ∧ '.' ∉ extension ∧ suffix.toList = '.' :: extension := by
  simp only [sourceSuffixes, List.mem_cons, List.not_mem_nil, or_false] at member
  rcases member with rfl | rfl | rfl | rfl
  · exact ⟨"dts".toList, by decide, by decide, rfl⟩
  · exact ⟨"dtsi".toList, by decide, by decide, rfl⟩
  · exact ⟨"overlay".toList, by decide, by decide, rfl⟩
  · exact ⟨"keymap".toList, by decide, by decide, rfl⟩

theorem is_source_name_iff (name : String) : isSourceName name = true ↔ IsSource name := by
  rw [isSourceName]
  constructor
  · intro source
    split at source
    · next suffix found =>
        obtain ⟨stem, extension, filled, _, _, shape, rfl⟩ :=
          (Path.suffix_of_name_eq_some_iff name suffix).mp found
        refine ⟨String.ofList stem, _, by simpa using filled, by simpa using source, ?_⟩
        rw [← String.toList_inj, shape]
        simp
    · cases source
  · rintro ⟨stem, suffix, filled, member, rfl⟩
    obtain ⟨extension, longer, undotted, shape⟩ := source_suffix_shape member
    have found : Path.suffixOfName (stem ++ suffix) = some suffix := by
      rw [Path.suffix_of_name_eq_some_iff]
      refine ⟨stem.toList, extension, Text.toList_ne_nil filled, longer, undotted, ?_, ?_⟩
      · rw [String.toList_append, shape]
      · rw [← shape, String.ofList_toList]
    rw [found]
    simpa using member

/-! ### The order of parts -/

/-- The lexicographic order of lists of parts. -/
def Earlier (first second : List String) : Prop :=
  List.Lex (· < ·) first second

theorem earlier_irrefl (parts : List String) : ¬ Earlier parts parts :=
  List.lex_irrefl lt_irrefl parts

theorem earlier_append_left (front : List String) {first second : List String}
    (earlier : Earlier first second) : Earlier (front ++ first) (front ++ second) :=
  List.Lex.append_left _ earlier front

theorem parts_ordered_iff (first second : List String) :
    partsOrdered first second = true ↔ first = second ∨ Earlier first second := by
  fun_induction partsOrdered first second with
  | case1 second =>
      cases second with
      | nil => simp
      | cons part rest => exact ⟨fun _ => .inr .nil, fun _ => rfl⟩
  | case2 part rest =>
      simp only [Bool.false_eq_true, reduceCtorEq, false_or, false_iff]
      exact fun earlier => nomatch earlier
  | case3 rest part others induction =>
      rw [induction, List.cons.injEq, Earlier, Earlier, List.lex_cons_iff]
      simp
  | case4 part rest other others differ =>
      rw [decide_eq_true_iff, List.cons.injEq]
      constructor
      · exact fun less => .inr (.rel less)
      · rintro (⟨same, _⟩ | earlier)
        · exact absurd same differ
        · cases earlier with
          | cons _ => exact absurd rfl differ
          | rel less => exact less

theorem parts_ordered_trans (first second third : List String)
    (left : partsOrdered first second = true) (right : partsOrdered second third = true) :
    partsOrdered first third = true := by
  rw [parts_ordered_iff] at left right ⊢
  rcases left with rfl | left
  · exact right
  · rcases right with rfl | right
    · exact .inr left
    · exact .inr (List.lex_trans lt_trans left right)

theorem parts_ordered_total (first second : List String) :
    (partsOrdered first second || partsOrdered second first) = true := by
  induction first generalizing second with
  | nil => rfl
  | cons part rest induction =>
      cases second with
      | nil => rfl
      | cons other others =>
          by_cases same : part = other
          · simpa [partsOrdered, same] using induction others
          · rcases lt_or_gt_of_ne same with less | greater
            · simp [partsOrdered, same, less]
            · simp [partsOrdered, Ne.symm same, greater]

/-! ### File systems that are trees -/

/-- A file system in which every location is listed once and lies in a directory, and
no name is a double dot. -/
structure IsTree (files : FileSystem) : Prop where
  once : (files.entries.map Prod.fst).Nodup
  inside : ∀ location ∈ files.entries.map Prod.fst, files.isDirectoryAt location.dropLast = true
  named : ∀ location ∈ files.entries.map Prod.fst, ".." ∉ location

theorem lookup_eq_some_of_mem {entries : List (Location × Entry)}
    (once : (entries.map Prod.fst).Nodup) {location : Location} {entry : Entry}
    (member : (location, entry) ∈ entries) : entries.lookup location = some entry := by
  induction entries with
  | nil => cases member
  | cons other rest induction =>
      rw [List.map_cons, List.nodup_cons] at once
      rw [lookup_cons_eq]
      rcases List.mem_cons.mp member with rfl | later
      · rw [if_pos rfl]
      · have differs : location ≠ other.1 := by
          rintro rfl
          exact once.1 (List.mem_map.mpr ⟨_, later, rfl⟩)
        rw [if_neg differs, induction once.2 later]

theorem isSome_of_is_directory_at {files : FileSystem} {location : Location}
    (directory : files.isDirectoryAt location = true) : (files.entryAt location).isSome = true := by
  unfold isDirectoryAt at directory
  split at directory
  · next found => rw [found]; rfl
  · cases directory

theorem isSome_of_is_file_at {files : FileSystem} {location : Location}
    (file : files.isFileAt location = true) : (files.entryAt location).isSome = true := by
  unfold isFileAt at file
  split at file
  · next found => rw [found]; rfl
  · cases file

namespace IsTree

variable {files : FileSystem} (tree : files.IsTree)

include tree

theorem mem_iff (location : Location) (filled : location ≠ []) (entry : Entry) :
    (location, entry) ∈ files.entries ↔ files.entryAt location = some entry := by
  rw [entryAt, if_neg filled]
  exact ⟨lookup_eq_some_of_mem tree.once, mem_of_lookup_eq_some⟩

theorem listed {location : Location} (filled : location ≠ [])
    (present : (files.entryAt location).isSome = true) :
    location ∈ files.entries.map Prod.fst := by
  obtain ⟨entry, found⟩ := Option.isSome_iff_exists.mp present
  exact List.mem_map_of_mem ((tree.mem_iff location filled entry).mpr found)

/-- Whatever is there lies in directories all the way up. -/
theorem is_directory_at_front {front parts : List String} (below : parts ≠ [])
    (present : (files.entryAt (front ++ parts)).isSome = true) :
    files.isDirectoryAt front = true := by
  induction parts using List.reverseRecOn with
  | nil => exact absurd rfl below
  | append_singleton parts name induction =>
      have parent := tree.inside _ (tree.listed (by simp) present)
      rw [← List.append_assoc, List.dropLast_concat] at parent
      by_cases direct : parts = []
      · simpa [direct] using parent
      · exact induction direct (isSome_of_is_directory_at parent)

theorem walk_down {front parts : List String}
    (present : (files.entryAt (front ++ parts)).isSome = true) :
    files.walk front parts = .ok (front ++ parts) := by
  induction parts generalizing front with
  | nil => simp [walk]
  | cons name rest induction =>
      have directory := tree.is_directory_at_front (List.cons_ne_nil name rest) present
      have proper : name ≠ ".." := by
        rintro rfl
        exact tree.named _ (tree.listed (by simp) present) (by simp)
      rw [List.append_cons] at present ⊢
      -- a name on the way is there because it is a directory, and the last because it is listed
      have here : (files.entryAt (front ++ [name])).isSome = true := by
        by_cases last : rest = []
        · simpa [last] using present
        · exact isSome_of_is_directory_at (tree.is_directory_at_front last present)
      rw [walk, directory, if_neg (by simp), if_neg proper, if_pos here, induction present]

end IsTree

/-- Without double dots a path only leads down. -/
theorem walk_plain {files : FileSystem} {here there : Location} {parts : List String}
    (plain : ".." ∉ parts) (walked : files.walk here parts = .ok there) : there = here ++ parts := by
  induction parts generalizing here with
  | nil =>
      cases walked
      simp
  | cons name rest induction =>
      rw [List.mem_cons, not_or] at plain
      rw [walk] at walked
      split at walked
      · cases walked
      · rw [if_neg (Ne.symm plain.1)] at walked
        split at walked
        · rw [induction plain.2 walked, ← List.append_cons]
        · cases walked

theorem locate_below (files : FileSystem) (path : Path) (parts : List String) :
    files.locate (path.below parts) = files.locate path >>= fun here => files.walk here parts :=
  files.walk_append (files.startOf path) path.parts parts

/-! ### The sources below a directory -/

theorem source_below_eq_some_iff (directory : Location) (entry : Location × Entry)
    (parts : List String) :
    sourceBelow directory entry = some parts ↔
      ∃ front name content, parts = front ++ [name] ∧ IsSource name ∧
        entry = (directory ++ parts, .file content) := by
  obtain ⟨location, kind⟩ := entry
  constructor
  · intro found
    unfold sourceBelow at found
    split at found
    · next content name file last =>
        split at found
        · next conditions =>
            simp only [Bool.and_eq_true, List.isPrefixOf_iff_prefix, decide_eq_true_eq] at conditions
            obtain ⟨⟨⟨below, rfl⟩, longer⟩, source⟩ := conditions
            have filled : below ≠ [] := by
              rintro rfl
              simp at longer
            rw [List.drop_left] at found
            cases found
            rw [List.getLast?_append_of_ne_nil _ filled] at last
            obtain ⟨front, rfl⟩ := List.getLast?_eq_some_iff.mp last
            exact ⟨front, name, content, rfl, (is_source_name_iff name).mp source, by rw [← file]⟩
        · cases found
    · cases found
  · rintro ⟨front, name, content, rfl, source, same⟩
    cases same
    have last : (directory ++ (front ++ [name])).getLast? = some name := by
      rw [← List.append_assoc, List.getLast?_concat]
    have conditions : (directory.isPrefixOf (directory ++ (front ++ [name])) &&
        decide (directory.length < (directory ++ (front ++ [name])).length) &&
        isSourceName name) = true := by
      simp [(is_source_name_iff name).mpr source]
    simp only [sourceBelow, last]
    rw [if_pos conditions, List.drop_left]

variable {files : FileSystem}

theorem mem_sources_below_iff (tree : files.IsTree) (directory : Location) (parts : List String) :
    parts ∈ files.sourcesBelow directory ↔
      ∃ front name, parts = front ++ [name] ∧ IsSource name ∧
        files.isFileAt (directory ++ parts) = true := by
  simp only [sourcesBelow, List.mem_mergeSort, List.mem_filterMap, source_below_eq_some_iff]
  constructor
  · rintro ⟨_, member, front, name, content, rfl, source, rfl⟩
    rw [tree.mem_iff _ (by simp)] at member
    exact ⟨front, name, rfl, source, by rw [isFileAt, member]⟩
  · rintro ⟨front, name, rfl, source, file⟩
    unfold isFileAt at file
    split at file
    · next content found =>
        rw [← tree.mem_iff _ (by simp)] at found
        exact ⟨_, found, front, name, content, rfl, source, rfl⟩
    · cases file

theorem sources_below_nodup (tree : files.IsTree) (directory : Location) :
    (files.sourcesBelow directory).Nodup := by
  rw [sourcesBelow, List.nodup_mergeSort]
  have apart : files.entries.Pairwise fun first second => first.1 ≠ second.1 :=
    List.pairwise_map.mp tree.once
  apply List.Pairwise.filterMap _ _ apart
  intro first second differ parts found others likewise same
  rw [source_below_eq_some_iff] at found likewise
  obtain ⟨_, _, _, _, _, rfl⟩ := found
  obtain ⟨_, _, _, _, _, rfl⟩ := likewise
  exact differ (by rw [same])

theorem sources_below_increasing (tree : files.IsTree) (directory : Location) :
    (files.sourcesBelow directory).Pairwise Earlier := by
  have ordered : (files.sourcesBelow directory).Pairwise fun first second =>
      partsOrdered first second = true :=
    List.pairwise_mergeSort parts_ordered_trans parts_ordered_total _
  have both := ordered.and (sources_below_nodup tree directory)
  apply both.imp
  rintro first second ⟨inOrder, differ⟩
  exact ((parts_ordered_iff first second).mp inOrder).resolve_left differ

/-- A source at some depth below the directory that `path` means: `source` goes on from
`path` by names alone and leads to a file. -/
def IsSourceBelow (files : FileSystem) (path source : Path) : Prop :=
  ∃ front name location, source = path.below (front ++ [name]) ∧ ".." ∉ front ++ [name] ∧
    IsSource name ∧ files.locate source = .ok location ∧ files.isFileAt location = true

theorem mem_sources_of_directory (tree : files.IsTree) {path : Path} {directory : Location}
    (located : files.locate path = .ok directory) (source : Path) :
    source ∈ (files.sourcesBelow directory).map path.below ↔ files.IsSourceBelow path source := by
  have walked : ∀ parts, files.locate (path.below parts) = files.walk directory parts := by
    intro parts
    rw [locate_below, located]
    rfl
  constructor
  · intro member
    obtain ⟨parts, inside, rfl⟩ := List.mem_map.mp member
    obtain ⟨front, name, rfl, ends, file⟩ := (mem_sources_below_iff tree directory parts).mp inside
    have present := isSome_of_is_file_at file
    have plain : ".." ∉ directory ++ (front ++ [name]) := tree.named _ (tree.listed (by simp) present)
    refine ⟨front, name, directory ++ (front ++ [name]), rfl, ?_, ends, ?_, file⟩
    · exact fun member => plain (List.mem_append_right _ member)
    · rw [walked, tree.walk_down present]
  · rintro ⟨front, name, location, rfl, plain, ends, found, file⟩
    rw [walked] at found
    rw [walk_plain plain found] at file
    exact List.mem_map_of_mem ((mem_sources_below_iff tree directory _).mpr ⟨front, name, rfl, ends, file⟩)

/-- What a path stands for: itself, or the sources below it if it is a directory. -/
structure IsBlock (files : FileSystem) (path : Path) (block : List Path) : Prop where
  itself : files.isDirectory path = false → block = [path]
  sources : files.isDirectory path = true →
    ∀ source, source ∈ block ↔ files.IsSourceBelow path source
  once : block.Nodup
  increasing : block.Pairwise fun first second => Earlier first.parts second.parts

theorem sources_of_is_block (tree : files.IsTree) (path : Path) :
    files.IsBlock path (files.sourcesOf path) := by
  unfold sourcesOf
  cases located : files.locate path with
  | error fault =>
      have elsewhere : files.isDirectory path = false := by rw [isDirectory, located]
      exact ⟨fun _ => rfl, fun directory => by simp [elsewhere] at directory, by simp, by simp⟩
  | ok location =>
      have means : files.isDirectory path = files.isDirectoryAt location := by
        rw [isDirectory, located]
      by_cases directory : files.isDirectoryAt location = true
      · have ordered := sources_below_increasing tree location
        have increasing : ((files.sourcesBelow location).map path.below).Pairwise fun first second =>
            Earlier first.parts second.parts :=
          List.pairwise_map.mpr (ordered.imp fun earlier => earlier_append_left path.parts earlier)
        simp only [directory, if_true]
        refine ⟨?_, fun _ => mem_sources_of_directory tree located, ?_, increasing⟩
        · intro file
          simp [means, directory] at file
        · apply increasing.imp
          rintro first second earlier rfl
          exact earlier_irrefl _ earlier
      · simp only [directory, Bool.false_eq_true, if_false]
        refine ⟨fun _ => rfl, ?_, by simp, by simp⟩
        intro isDirectory
        exact absurd (means ▸ isDirectory) directory

/-- The files that paths ask for are those of each path, one path after the other: the
path itself, or exactly the sources below it, once each and in the order of their parts. -/
theorem collect_sources_blocks (tree : files.IsTree) (paths : List Path) :
    ∃ blocks, files.collectSources paths = blocks.flatten ∧
      List.Forall₂ files.IsBlock paths blocks := by
  refine ⟨paths.map files.sourcesOf, List.flatMap_def, ?_⟩
  rw [List.forall₂_map_right_iff, List.forall₂_same]
  intro path _
  exact sources_of_is_block tree path

/-- Sources at two depths, one in a directory that is named like a source, and two files
that are none. -/
def boardFiles : FileSystem where
  entries :=
    [(["w"], .directory), (["w", "a-b.dts"], .file .empty), (["w", "a"], .directory),
      (["w", "a", "z.dtsi"], .file .empty), (["w", "x.dts"], .directory),
      (["w", "x.dts", "k.keymap"], .file .empty), (["w", ".dts"], .file .empty),
      (["w", "notes.txt"], .file .empty)]
  workingDirectory := ["w"]

theorem collect_sources_blocks_board :
    boardFiles.IsTree ∧ boardFiles.isDirectory ⟨"", []⟩ = true ∧
      boardFiles.isDirectory ⟨"", ["notes.txt"]⟩ = false ∧
      ∃ blocks, boardFiles.collectSources [⟨"", []⟩, ⟨"", ["notes.txt"]⟩] = blocks.flatten ∧
        List.Forall₂ boardFiles.IsBlock [⟨"", []⟩, ⟨"", ["notes.txt"]⟩] blocks := by
  have tree : boardFiles.IsTree := ⟨by decide, by decide, by decide⟩
  exact ⟨tree, by decide, by decide, collect_sources_blocks tree _⟩

end FileSystem

end DevicetreeFormat
