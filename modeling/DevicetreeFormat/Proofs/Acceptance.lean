import DevicetreeFormat.Validation.SettingsCheck
import DevicetreeFormat.Proofs.Files
import DevicetreeFormat.Proofs.Table
import Mathlib.Data.List.Forall2

/-!
# Accepted settings

A draft is what a value says before it is judged: texts, truth values and integers
as the checks of single values read them, and defaults for the entries that are
left out. A check passes exactly if the value reads as a draft and the draft is
usable, and what it returns is what the draft describes. Every check of a part is
specified in this form, so the parts combine without a look at their issues.
-/

namespace DevicetreeFormat.LooseText

set_option autoImplicit false

theorem characters_of_eq_some_iff {codes : List Code} {characters : List Char} :
    charactersOf codes = some characters ↔ codes = characters.map .character := by
  induction codes generalizing characters with
  | nil => rw [charactersOf, Option.some.injEq, eq_comm, eq_comm (a := []), List.map_eq_nil_iff]
  | cons code rest induction =>
      cases code with
      | character c =>
          cases characters <;> simp [charactersOf, induction, and_comm]
      | half offset => cases characters <;> simp [charactersOf]

theorem text?_eq_some_iff {loose : LooseText} {text : String} :
    loose.text? = some text ↔ loose = text := by
  obtain ⟨codes⟩ := loose
  rw [text?, Option.map_eq_some_iff, ofString, mk.injEq]
  constructor
  · rintro ⟨characters, found, rfl⟩
    rw [String.toList_ofList]
    exact characters_of_eq_some_iff.mp found
  · intro same
    exact ⟨text.toList, characters_of_eq_some_iff.mpr same, String.ofList_toList⟩

end DevicetreeFormat.LooseText

namespace DevicetreeFormat.Validation

set_option autoImplicit false

/-! ### Drafts -/

/-- What a value says about a layout. -/
structure LayoutDraft where
  name : LooseText
  cells : List Int
  rowCount : Int

/-- What a value says about settings. Layouts stand under their identifiers. -/
structure SettingsDraft where
  layout : LooseText
  indentUnit : String
  warnUnhandled : Bool
  layouts : List (LooseText × LayoutDraft)

/-- A value of the type that a check looks for, after coercion. -/
def Passes {α : Type} (check : Value → Checked α) (value : Value) (content : α) : Prop :=
  check value = .ok content

/-- The content of an entry that may be left out. -/
def Field {α : Type} (entries : Entries) (key : String) (default : α) (reads : Value → α → Prop)
    (content : α) : Prop :=
  match Value.field? entries key with
  | none => content = default
  | some value => reads value content

def ReadsLayout : Value → LayoutDraft → Prop
  | .mapping entries, draft =>
      Field entries "name" defaultName (Passes checkText) draft.name ∧
      (∃ items, Value.field? entries "bindings" = some (.list items) ∧
        List.Forall₂ (Passes checkInteger) items draft.cells) ∧
      Field entries "row_count" 1 (Passes checkInteger) draft.rowCount
  | _, _ => False

def ReadsNamed (entry : Scalar × Value) (named : LooseText × LayoutDraft) : Prop :=
  checkIdentifier entry.1 = .ok named.1 ∧ ReadsLayout entry.2 named.2

def ReadsLayouts : Value → List (LooseText × LayoutDraft) → Prop
  | .mapping entries, drafts => List.Forall₂ ReadsNamed entries drafts
  | _, _ => False

/-- A text without halves of surrogate pairs. -/
def ReadsUnit (value : Value) (unit : String) : Prop :=
  Passes checkText value unit

def ReadsSettings : Value → SettingsDraft → Prop
  | .mapping entries, draft =>
      (∀ entry ∈ entries, ∃ key ∈ settingsKeys, entry.1 = .text key) ∧
      Field entries "layout" ("adv360" : LooseText) (Passes checkText) draft.layout ∧
      Field entries "indent_unit" "  " ReadsUnit draft.indentUnit ∧
      Field entries "warn_on_unhandled_tokens" false (Passes checkTruth) draft.warnUnhandled ∧
      Field entries "layouts" [] ReadsLayouts draft.layouts
  | _, _ => False

structure LayoutDraft.Usable (draft : LayoutDraft) : Prop where
  filled : draft.cells ≠ []
  binary : ∀ cell ∈ draft.cells, cell = 0 ∨ cell = 1
  rows : 1 ≤ draft.rowCount
  even : draft.rowCount ∣ draft.cells.length

structure SettingsDraft.Usable (draft : SettingsDraft) : Prop where
  filled : draft.indentUnit ≠ ""
  blank : ∀ c ∈ draft.indentUnit.toList, c = ' ' ∨ c = '\t'
  layouts : ∀ named ∈ draft.layouts, named.2.Usable
  known : draft.layout ∈ Layout.builtin.map Prod.fst ∨ draft.layout ∈ draft.layouts.map Prod.fst

/-- A layout with the name `name` and what the draft says about the grid. -/
structure LayoutDraft.Describes (draft : LayoutDraft) (name : LooseText) (layout : Layout) : Prop where
  name : layout.name = name
  cells : layout.cells = draft.cells.map fun cell => decide (cell = 1)
  rowCount : layout.rowCount = draft.rowCount

/-- Custom layouts are named by their identifiers, whatever name a draft has. -/
def NamesLayout (named : LooseText × LayoutDraft) (custom : LooseText × Layout) : Prop :=
  custom.1 = named.1 ∧ named.2.Describes named.1 custom.2

structure SettingsDraft.Describes (draft : SettingsDraft) (settings : Settings) : Prop where
  layout : settings.layout = draft.layout
  indentUnit : settings.indentUnit = draft.indentUnit
  warnUnhandled : settings.warnUnhandled = draft.warnUnhandled
  layouts : List.Forall₂ NamesLayout draft.layouts settings.layouts

/-! ### Combined checks -/

section

variable {α β : Type}

theorem both_eq_ok_iff {left : Checked α} {right : Checked β} {first : α} {second : β} :
    Checked.both left right = .ok (first, second) ↔ left = .ok first ∧ right = .ok second := by
  cases left <;> cases right <;> simp [Checked.both]

theorem located_eq_ok_iff {key : String} {check : Checked α} {value : α} :
    check.located key = .ok value ↔ check = .ok value := by
  cases check <;> simp [Checked.located]

theorem all_eq_ok_iff {checks : List (Checked α)} {values : List α} :
    Checked.all checks = .ok values ↔
      List.Forall₂ (fun check value => check = .ok value) checks values := by
  induction checks generalizing values with
  | nil => rw [Checked.all, List.forall₂_nil_left_iff, Except.ok.injEq, eq_comm]
  | cons first rest induction =>
      rw [Checked.all, List.forall₂_cons_left_iff]
      constructor
      · intro passed
        split at passed
        · next value others combined =>
            obtain ⟨here, later⟩ := both_eq_ok_iff.mp combined
            cases passed
            exact ⟨value, others, here, induction.mp later, rfl⟩
        · cases passed
      · rintro ⟨value, others, here, later, rfl⟩
        rw [both_eq_ok_iff.mpr ⟨here, induction.mpr later⟩]

theorem optional_eq_ok_iff {check : Value → Checked α} {default : α} {entries : Entries}
    {key : String} {result : α} :
    optional entries key default check = .ok result ↔
      Field entries key default (Passes check) result := by
  rw [optional, Field]
  cases Value.field? entries key with
  | none => simp only [Except.ok.injEq, eq_comm]
  | some value => exact located_eq_ok_iff

/-- An entry whose check is specified by what a value reads as and by what the check
makes of it. -/
theorem field_iff {check : Value → Checked α} {reads : Value → β → Prop} {gives : β → α → Prop}
    (spec : ∀ value result,
      check value = .ok result ↔ ∃ content, reads value content ∧ gives content result)
    {default : α} {plain : β} (fallback : ∀ result, result = default ↔ gives plain result)
    {entries : Entries} {key : String} {result : α} :
    Field entries key default (Passes check) result ↔
      ∃ content, Field entries key plain reads content ∧ gives content result := by
  simp only [Field, Passes]
  cases Value.field? entries key with
  | none => simp only [fallback, exists_eq_left]
  | some value => exact spec value result

end

/-! ### Layouts -/

theorem key_of_cell_eq_none_iff {cell : Int} : keyOfCell cell = none ↔ ¬ (cell = 0 ∨ cell = 1) := by
  rw [keyOfCell]
  split
  · simp_all
  · split <;> simp_all

theorem key_of_cell_of_binary {cell : Int} (binary : cell = 0 ∨ cell = 1) :
    keyOfCell cell = some (decide (cell = 1)) := by
  rcases binary with rfl | rfl <;> rfl

theorem filterMap_key_of_cell {numbers : List Int} (binary : ∀ cell ∈ numbers, cell = 0 ∨ cell = 1) :
    numbers.filterMap keyOfCell = numbers.map fun cell => decide (cell = 1) := by
  rw [List.filterMap_congr fun cell member => key_of_cell_of_binary (binary cell member)]
  exact congrFun List.filterMap_eq_map numbers

theorem check_grid_eq_ok_iff {numbers : List Int} {cells : { cells : List Bool // cells ≠ [] }} :
    checkGrid numbers = .ok cells ↔ numbers ≠ [] ∧ (∀ cell ∈ numbers, cell = 0 ∨ cell = 1) ∧
      cells.val = numbers.map fun cell => decide (cell = 1) := by
  have valid : (numbers.filter fun cell => (keyOfCell cell).isNone) = [] ↔
      ∀ cell ∈ numbers, cell = 0 ∨ cell = 1 := by
    simp only [List.filter_eq_nil_iff, Option.isNone_iff_eq_none, key_of_cell_eq_none_iff, not_not]
  rw [checkGrid]
  constructor
  · intro passed
    split at passed
    · cases passed
    · next filled =>
        dsimp only at passed
        split at passed
        · next whole =>
            cases passed
            have binary := valid.mp whole.2
            exact ⟨by simpa using filled, binary, filterMap_key_of_cell binary⟩
        · cases passed
  · rintro ⟨filled, binary, same⟩
    have listed : numbers.filterMap keyOfCell = cells.val := by
      rw [filterMap_key_of_cell binary, same]
    have whole : numbers.filterMap keyOfCell ≠ [] ∧
        (numbers.filter fun cell => (keyOfCell cell).isNone) = [] :=
      ⟨listed ▸ cells.property, valid.mpr binary⟩
    rw [if_neg (by simpa using filled)]
    simp only [dif_pos whole, Except.ok.injEq]
    exact Subtype.ext listed

theorem check_items_passes {index : Nat} {items : List Value} {numbers : List Int} :
    List.Forall₂ (fun check number => check = .ok number) (checkItems index items) numbers ↔
      List.Forall₂ (Passes checkInteger) items numbers := by
  induction items generalizing index numbers with
  | nil => simp [checkItems]
  | cons item rest induction =>
      simp only [checkItems, List.forall₂_cons_left_iff, located_eq_ok_iff, induction, Passes]

theorem check_cells_eq_ok_iff {value : Value} {cells : { cells : List Bool // cells ≠ [] }} :
    checkCells value = .ok cells ↔ ∃ items numbers, value = .list items ∧
      List.Forall₂ (Passes checkInteger) items numbers ∧ checkGrid numbers = .ok cells := by
  constructor
  · intro passed
    match value with
    | .scalar _ => cases passed
    | .mapping _ => cases passed
    | .list items =>
        rw [checkCells] at passed
        split at passed
        · next numbers listed =>
            exact ⟨items, numbers, rfl, check_items_passes.mp (all_eq_ok_iff.mp listed), passed⟩
        · cases passed
  · rintro ⟨items, numbers, rfl, listed, passed⟩
    rw [checkCells, all_eq_ok_iff.mpr (check_items_passes.mpr listed)]
    exact passed

theorem check_row_count_eq_ok_iff {value : Value} {count : { count : Nat // 0 < count }} :
    checkRowCount value = .ok count ↔
      ∃ number, Passes checkInteger value number ∧ 1 ≤ number ∧ (count.val : Int) = number := by
  rw [checkRowCount]
  constructor
  · intro passed
    split at passed
    · cases passed
    · next number read =>
        split at passed
        · next positive =>
            cases passed
            exact ⟨number, read, by omega, Int.toNat_of_nonneg (by omega)⟩
        · cases passed
  · rintro ⟨number, read, positive, same⟩
    rw [Passes] at read
    have enough : 0 < number.toNat := by omega
    simp only [read, dif_pos enough, Except.ok.injEq]
    apply Subtype.ext
    change number.toNat = count.val
    omega

theorem assemble_layout_eq_ok_iff {name : LooseText} {cells : { cells : List Bool // cells ≠ [] }}
    {rowCount : { count : Nat // 0 < count }} {layout : Layout} :
    assembleLayout name cells rowCount = .ok layout ↔ rowCount.val ∣ cells.val.length ∧
      layout.name = name ∧ layout.cells = cells.val ∧ layout.rowCount = rowCount.val := by
  rw [assembleLayout, Nat.dvd_iff_mod_eq_zero]
  constructor
  · intro passed
    split at passed
    · next even =>
        cases passed
        exact ⟨even, rfl, rfl, rfl⟩
    · cases passed
  · rintro ⟨even, named, filled, counted⟩
    rw [dif_pos even]
    cases layout
    cases named
    cases filled
    cases counted
    rfl

theorem check_cells_entry_eq_ok_iff {entries : Entries} {cells : { cells : List Bool // cells ≠ [] }} :
    checkCellsEntry entries = .ok cells ↔ ∃ items numbers,
      Value.field? entries "bindings" = some (.list items) ∧
      List.Forall₂ (Passes checkInteger) items numbers ∧ checkGrid numbers = .ok cells := by
  rw [checkCellsEntry]
  cases Value.field? entries "bindings" with
  | none => simp [Checked.refuse, Checked.located]
  | some value => simp only [located_eq_ok_iff, check_cells_eq_ok_iff, Option.some.injEq]

theorem row_count_entry_iff {entries : Entries} {count : { count : Nat // 0 < count }} :
    optional entries "row_count" ⟨1, Nat.one_pos⟩ checkRowCount = .ok count ↔
      ∃ number, Field entries "row_count" 1 (Passes checkInteger) number ∧
        1 ≤ number ∧ (count.val : Int) = number := by
  refine optional_eq_ok_iff.trans (field_iff (fun _ _ => check_row_count_eq_ok_iff) fun count => ?_)
  rw [Subtype.ext_iff]
  change count.val = 1 ↔ _
  omega

theorem check_layout_eq_ok_iff {value : Value} {layout : Layout} :
    checkLayout value = .ok layout ↔
      ∃ draft, ReadsLayout value draft ∧ draft.Usable ∧ draft.Describes draft.name layout := by
  constructor
  · intro passed
    match value with
    | .scalar _ => cases passed
    | .list _ => cases passed
    | .mapping entries =>
        simp only [checkLayout] at passed
        split at passed
        · next name cells rowCount combined =>
            simp only [both_eq_ok_iff] at combined
            obtain ⟨named, filled, counted⟩ := combined
            obtain ⟨items, numbers, found, listed, grid⟩ := check_cells_entry_eq_ok_iff.mp filled
            obtain ⟨number, counted, positive, same⟩ := row_count_entry_iff.mp counted
            obtain ⟨filled, binary, keys⟩ := check_grid_eq_ok_iff.mp grid
            obtain ⟨even, sameName, sameCells, sameCount⟩ := assemble_layout_eq_ok_iff.mp passed
            have whole : number ∣ numbers.length := by
              rw [← same, Int.natCast_dvd_natCast]
              simpa [keys] using even
            exact ⟨⟨name, numbers, number⟩,
              ⟨optional_eq_ok_iff.mp named, ⟨items, found, listed⟩, counted⟩,
              ⟨filled, binary, positive, whole⟩, ⟨sameName, sameCells.trans keys, sameCount ▸ same⟩⟩
        · cases passed
  · rintro ⟨draft, reads, usable, describes⟩
    match value, reads with
    | .mapping entries, ⟨named, ⟨items, found, listed⟩, counted⟩ =>
        have grid : checkGrid draft.cells = .ok ⟨layout.cells, layout.cells_nonempty⟩ :=
          check_grid_eq_ok_iff.mpr ⟨usable.filled, usable.binary, describes.cells⟩
        have combined : Checked.both (optional entries "name" defaultName checkText)
            (Checked.both (checkCellsEntry entries)
              (optional entries "row_count" ⟨1, Nat.one_pos⟩ checkRowCount)) =
            .ok (draft.name, ⟨layout.cells, layout.cells_nonempty⟩,
              ⟨layout.rowCount, layout.rowCount_pos⟩) := by
          simp only [both_eq_ok_iff]
          exact ⟨optional_eq_ok_iff.mpr named,
            check_cells_entry_eq_ok_iff.mpr ⟨items, _, found, listed, grid⟩,
            row_count_entry_iff.mpr ⟨_, counted, usable.rows, describes.rowCount⟩⟩
        simp only [checkLayout, combined]
        exact assemble_layout_eq_ok_iff.mpr
          ⟨Nat.dvd_of_mod_eq_zero layout.rows_even, describes.name, rfl, rfl⟩

/-- A usable draft describes a layout. -/
theorem LayoutDraft.Usable.exists_layout {draft : LayoutDraft} (usable : draft.Usable)
    (name : LooseText) : ∃ layout, draft.Describes name layout := by
  obtain ⟨rows, same⟩ := Int.eq_ofNat_of_zero_le (Int.le_trans Int.one_nonneg usable.rows)
  have positive := usable.rows
  have even := usable.even
  rw [same] at even
  refine ⟨⟨name, draft.cells.map fun cell => decide (cell = 1), rows, ?_, ?_, ?_⟩, rfl, rfl, same.symm⟩
  · simpa using usable.filled
  · omega
  · rw [List.length_map]
    exact Nat.mod_eq_zero_of_dvd (Int.natCast_dvd_natCast.mp even)

/-! ### Settings -/

theorem check_named_layout_eq_ok_iff {entry : Scalar × Value} {custom : LooseText × Layout} :
    checkNamedLayout entry = .ok custom ↔ ∃ named, ReadsNamed entry named ∧ named.2.Usable ∧
      NamesLayout named custom := by
  rw [checkNamedLayout]
  constructor
  · intro passed
    split at passed
    · next name layout combined =>
        obtain ⟨named, found⟩ := both_eq_ok_iff.mp combined
        obtain ⟨draft, reads, usable, describes⟩ :=
          check_layout_eq_ok_iff.mp (located_eq_ok_iff.mp found)
        cases passed
        exact ⟨(name, draft), ⟨named, reads⟩, usable, rfl, rfl, describes.cells, describes.rowCount⟩
    · cases passed
  · rintro ⟨⟨name, draft⟩, ⟨named, reads⟩, usable, sameName, describes⟩
    obtain ⟨_, layout⟩ := custom
    cases sameName
    have found : checkLayout entry.2 = .ok (layout.rename draft.name) :=
      check_layout_eq_ok_iff.mpr ⟨draft, reads, usable, rfl, describes.cells, describes.rowCount⟩
    simp only [both_eq_ok_iff.mpr ⟨named, located_eq_ok_iff.mpr found⟩, Except.ok.injEq, Prod.mk.injEq,
      true_and]
    obtain ⟨own, cells, rowCount, _, _, _⟩ := layout
    have same : own = name := describes.name
    rw [same]
    rfl

theorem check_layouts_eq_ok_iff {value : Value} {customs : List (LooseText × Layout)} :
    checkLayouts value = .ok customs ↔ ∃ drafts, ReadsLayouts value drafts ∧
      (∀ named ∈ drafts, named.2.Usable) ∧ List.Forall₂ NamesLayout drafts customs := by
  match value with
  | .scalar _ => exact ⟨nofun, fun ⟨_, reads, _⟩ => reads.elim⟩
  | .list _ => exact ⟨nofun, fun ⟨_, reads, _⟩ => reads.elim⟩
  | .mapping entries =>
      simp only [checkLayouts, all_eq_ok_iff, List.forall₂_map_left_iff, check_named_layout_eq_ok_iff,
        ReadsLayouts]
      constructor
      · intro passed
        induction passed with
        | nil => exact ⟨[], .nil, by simp, .nil⟩
        | cons here _ induction =>
            obtain ⟨named, reads, usable, names⟩ := here
            obtain ⟨drafts, others, sound, described⟩ := induction
            exact ⟨named :: drafts, .cons reads others, List.forall_mem_cons.mpr ⟨usable, sound⟩,
              .cons names described⟩
      · rintro ⟨drafts, reads, usable, described⟩
        induction reads generalizing customs with
        | nil =>
            cases described
            exact .nil
        | cons here _ induction =>
            obtain ⟨first, rest⟩ := List.forall_mem_cons.mp usable
            cases described with
            | cons names others => exact .cons ⟨_, here, first, names⟩ (induction rest others)

theorem is_indent_unit_iff {text : String} :
    isIndentUnit text = true ↔ text ≠ "" ∧ ∀ c ∈ text.toList, c = ' ' ∨ c = '\t' := by
  simp [isIndentUnit]

theorem of_text?_eq_some_iff {text : String} {unit : IndentUnit} :
    IndentUnit.ofText? text = some unit ↔ isIndentUnit text = true ∧ unit.val = text := by
  rw [IndentUnit.ofText?]
  constructor
  · intro found
    split at found
    · next blank =>
        cases found
        exact ⟨blank, rfl⟩
    · cases found
  · rintro ⟨blank, same⟩
    rw [dif_pos blank]
    exact congrArg some (Subtype.ext same.symm)

theorem check_indent_unit_eq_ok_iff {value : Value} {unit : IndentUnit} :
    checkIndentUnit value = .ok unit ↔
      ∃ text, ReadsUnit value text ∧ isIndentUnit text = true ∧ unit.val = text := by
  rw [checkIndentUnit]
  constructor
  · intro passed
    split at passed
    · cases passed
    · next loose read =>
        split at passed
        · next found fits =>
            cases passed
            obtain ⟨text, spelled, ofText⟩ := Option.bind_eq_some_iff.mp fits
            obtain ⟨blank, same⟩ := of_text?_eq_some_iff.mp ofText
            rw [LooseText.text?_eq_some_iff.mp spelled] at read
            exact ⟨text, read, blank, same⟩
        · cases passed
  · rintro ⟨text, read, blank, same⟩
    have spelled : (text : LooseText).text?.bind IndentUnit.ofText? = some unit := by
      rw [LooseText.text?_eq_some_iff.mpr rfl]
      exact of_text?_eq_some_iff.mpr ⟨blank, same⟩
    rw [ReadsUnit, Passes] at read
    simp only [read, spelled]

theorem key_issue?_eq_none_iff {key : Scalar} :
    keyIssue? key = none ↔ ∃ name ∈ settingsKeys, key = .text name := by
  cases key <;> simp [keyIssue?]

theorem clear_of_mem_settings_keys {key : LooseText} (member : key ∈ settingsKeys) :
    ¬ isGarbled (.text key) = true := by
  revert key
  decide

theorem check_extra_keys_eq_ok_iff {entries : Entries} :
    checkExtraKeys entries = .ok () ↔ ∀ entry ∈ entries, ∃ key ∈ settingsKeys, entry.1 = .text key := by
  have none : (entries.filterMap fun entry => keyIssue? entry.1) = [] ↔
      ∀ entry ∈ entries, ∃ key ∈ settingsKeys, entry.1 = .text key := by
    simp only [List.filterMap_eq_nil_iff, key_issue?_eq_none_iff]
  rw [checkExtraKeys, ← none]
  cases entries.filterMap fun entry => keyIssue? entry.1 <;> simp

theorem find?_isSome_iff {customs : List (LooseText × Layout)} {name : LooseText} :
    (Layout.find? customs name).isSome = true ↔
      name ∈ Layout.builtin.map Prod.fst ∨ name ∈ customs.map Prod.fst := by
  simp only [Layout.find?, Option.isSome_or, Bool.or_eq_true, List.lookup_isSome_iff, beq_iff_eq,
    List.mem_map]
  rw [or_comm]
  simp only [eq_comm]

theorem identifiers_eq {drafts : List (LooseText × LayoutDraft)} {customs : List (LooseText × Layout)}
    (described : List.Forall₂ NamesLayout drafts customs) :
    drafts.map Prod.fst = customs.map Prod.fst := by
  induction described with
  | nil => rfl
  | cons names _ induction => rw [List.map_cons, List.map_cons, induction, names.1]

theorem assemble_settings_eq_ok_iff {layout : LooseText} {unit : IndentUnit} {warnUnhandled : Bool}
    {customs : List (LooseText × Layout)} {settings : Settings} :
    assembleSettings layout unit warnUnhandled customs = .ok settings ↔
      settings.layout = layout ∧ settings.indentUnit = unit.val ∧
      settings.warnUnhandled = warnUnhandled ∧ settings.layouts = customs := by
  rw [assembleSettings]
  constructor
  · intro passed
    split at passed
    · cases passed
      exact ⟨rfl, rfl, rfl, rfl⟩
    · cases passed
  · rintro ⟨rfl, sameUnit, rfl, rfl⟩
    rw [dif_pos settings.layout_known]
    simp only [← sameUnit]

theorem indent_unit_entry_iff {entries : Entries} {unit : IndentUnit} :
    optional entries "indent_unit" ⟨"  ", rfl⟩ checkIndentUnit = .ok unit ↔
      ∃ text, Field entries "indent_unit" "  " ReadsUnit text ∧
        isIndentUnit text = true ∧ unit.val = text := by
  refine optional_eq_ok_iff.trans (field_iff (fun _ _ => check_indent_unit_eq_ok_iff) fun unit => ?_)
  constructor
  · rintro rfl
    exact ⟨rfl, rfl⟩
  · rintro ⟨_, same⟩
    exact Subtype.ext same

theorem layouts_entry_iff {entries : Entries} {customs : List (LooseText × Layout)} :
    optional entries "layouts" [] checkLayouts = .ok customs ↔
      ∃ drafts, Field entries "layouts" [] ReadsLayouts drafts ∧
        (∀ named ∈ drafts, named.2.Usable) ∧ List.Forall₂ NamesLayout drafts customs := by
  refine optional_eq_ok_iff.trans (field_iff (fun _ _ => check_layouts_eq_ok_iff) fun customs => ?_)
  simp

theorem check_settings_eq_ok_iff {value : Value} {settings : Settings} :
    checkSettings value = .ok settings ↔
      ∃ draft, ReadsSettings value draft ∧ draft.Usable ∧ draft.Describes settings := by
  constructor
  · intro passed
    match value with
    | .scalar _ => cases passed
    | .list _ => cases passed
    | .mapping entries =>
        simp only [checkSettings] at passed
        split at passed
        · cases passed
        · split at passed
          · next layout unit warnUnhandled customs combined =>
              simp only [both_eq_ok_iff] at combined
              obtain ⟨⟨named, indented, warns, stocked⟩, known⟩ := combined
              obtain ⟨text, read, blank, same⟩ := indent_unit_entry_iff.mp indented
              obtain ⟨drafts, listed, usable, described⟩ := layouts_entry_iff.mp stocked
              obtain ⟨rfl, sameUnit, rfl, rfl⟩ := assemble_settings_eq_ok_iff.mp passed
              have active := find?_isSome_iff.mp settings.layout_known
              obtain ⟨filled, blanks⟩ := is_indent_unit_iff.mp blank
              exact ⟨⟨settings.layout, text, settings.warnUnhandled, drafts⟩,
                ⟨check_extra_keys_eq_ok_iff.mp known, optional_eq_ok_iff.mp named, read,
                  optional_eq_ok_iff.mp warns, listed⟩,
                ⟨filled, blanks, usable, identifiers_eq described ▸ active⟩,
                ⟨rfl, sameUnit.trans same, rfl, described⟩⟩
          · cases passed
  · rintro ⟨draft, reads, usable, describes⟩
    match value, reads with
    | .mapping entries, ⟨known, named, read, warns, listed⟩ =>
        have clear : (entries.any fun entry => isGarbled entry.1) = false := by
          rw [List.any_eq_false]
          intro entry member
          obtain ⟨key, listed, same⟩ := known entry member
          rw [same]
          exact clear_of_mem_settings_keys listed
        have unit := is_indent_unit_iff.mpr ⟨usable.filled, usable.blank⟩
        have combined : Checked.both
            (Checked.both (optional entries "layout" Layout.adv360.name checkText)
              (Checked.both (optional entries "indent_unit" ⟨"  ", rfl⟩ checkIndentUnit)
                (Checked.both (optional entries "warn_on_unhandled_tokens" false checkTruth)
                  (optional entries "layouts" [] checkLayouts)))) (checkExtraKeys entries) =
            .ok ((settings.layout, ⟨settings.indentUnit, settings.indentUnit_blank⟩,
              settings.warnUnhandled, settings.layouts), ()) := by
          refine both_eq_ok_iff.mpr ⟨both_eq_ok_iff.mpr ⟨?_, both_eq_ok_iff.mpr ⟨?_,
            both_eq_ok_iff.mpr ⟨?_, ?_⟩⟩⟩, check_extra_keys_eq_ok_iff.mpr known⟩
          · exact optional_eq_ok_iff.mpr (describes.layout ▸ named)
          · exact indent_unit_entry_iff.mpr ⟨_, read, unit, describes.indentUnit⟩
          · exact optional_eq_ok_iff.mpr (describes.warnUnhandled ▸ warns)
          · exact layouts_entry_iff.mpr ⟨_, listed, usable.layouts, describes.layouts⟩
        simp only [checkSettings, clear, combined]
        exact assemble_settings_eq_ok_iff.mpr ⟨rfl, rfl, rfl, rfl⟩

theorem exists_customs {drafts : List (LooseText × LayoutDraft)}
    (usable : ∀ named ∈ drafts, named.2.Usable) :
    ∃ customs, List.Forall₂ NamesLayout drafts customs := by
  induction drafts with
  | nil => exact ⟨[], .nil⟩
  | cons named rest induction =>
      obtain ⟨here, later⟩ := List.forall_mem_cons.mp usable
      obtain ⟨layout, describes⟩ := here.exists_layout named.1
      obtain ⟨customs, described⟩ := induction later
      exact ⟨(named.1, layout) :: customs, .cons ⟨rfl, describes⟩ described⟩

theorem SettingsDraft.Usable.exists_settings {draft : SettingsDraft} (usable : draft.Usable) :
    ∃ settings, draft.Describes settings := by
  obtain ⟨customs, described⟩ := exists_customs usable.layouts
  have known : (Layout.find? customs draft.layout).isSome = true :=
    find?_isSome_iff.mpr (identifiers_eq described ▸ usable.known)
  have unit := is_indent_unit_iff.mpr ⟨usable.filled, usable.blank⟩
  exact ⟨⟨draft.layout, draft.indentUnit, draft.warnUnhandled, customs, known, unit⟩,
    rfl, rfl, rfl, described⟩

/-! ### What accepted settings can be used for -/

/-- What printing relies on. -/
structure Sound (settings : Settings) : Prop where
  filled : settings.indentUnit ≠ ""
  blank : ∀ c ∈ settings.indentUnit.toList, c = ' ' ∨ c = '\t'
  layouts : ∀ custom ∈ settings.layouts, custom.2.name = custom.1 ∧ custom.2.cells ≠ [] ∧
    1 ≤ custom.2.rowCount ∧ 1 ≤ custom.2.rowSize ∧
    custom.2.rowCount * custom.2.rowSize = custom.2.cells.length
  -- A builtin layout is active only where no custom layout has the identifier.
  active : (settings.layout, settings.activeLayout) ∈ settings.layouts ∨
    settings.layout ∉ settings.layouts.map Prod.fst ∧
      (settings.layout, settings.activeLayout) ∈ Layout.builtin
  named : settings.activeLayout.name = settings.layout

theorem active_cases (settings : Settings) :
    (settings.layout, settings.activeLayout) ∈ settings.layouts ∨
      settings.layout ∉ settings.layouts.map Prod.fst ∧
        (settings.layout, settings.activeLayout) ∈ Layout.builtin := by
  have found : Layout.find? settings.layouts settings.layout = some settings.activeLayout :=
    (Option.some_get settings.layout_known).symm
  rw [Layout.find?, Option.or_eq_some_iff] at found
  rcases found with custom | ⟨absent, builtin⟩
  · exact .inl (mem_of_lookup_eq_some custom)
  · refine .inr ⟨?_, mem_of_lookup_eq_some builtin⟩
    intro member
    obtain ⟨entry, inside, same⟩ := List.mem_map.mp member
    have other := List.lookup_eq_none_iff.mp absent entry inside
    simp [same] at other

theorem mem_builtin_name {entry : LooseText × Layout} (member : entry ∈ Layout.builtin) :
    entry.2.name = entry.1 := by
  simp only [Layout.builtin, List.mem_cons, List.not_mem_nil, or_false] at member
  rcases member with rfl | rfl <;> rfl

theorem NamesLayout.name_of_mem {drafts : List (LooseText × LayoutDraft)}
    {customs : List (LooseText × Layout)} (described : List.Forall₂ NamesLayout drafts customs)
    {custom : LooseText × Layout} (member : custom ∈ customs) : custom.2.name = custom.1 := by
  induction described with
  | nil => cases member
  | cons names _ induction =>
      rcases List.mem_cons.mp member with rfl | later
      · rw [names.1, names.2.name]
      · exact induction later

theorem SettingsDraft.Describes.sound {draft : SettingsDraft} {settings : Settings}
    (describes : draft.Describes settings) : Sound settings where
  filled := (is_indent_unit_iff.mp settings.indentUnit_blank).1
  blank := (is_indent_unit_iff.mp settings.indentUnit_blank).2
  layouts custom member := ⟨NamesLayout.name_of_mem describes.layouts member,
    custom.2.cells_nonempty, custom.2.rowCount_pos, Table.row_size_pos custom.2,
    Table.row_count_mul_row_size custom.2⟩
  active := active_cases settings
  named := by
    rcases active_cases settings with custom | ⟨_, builtin⟩
    · exact NamesLayout.name_of_mem describes.layouts custom
    · exact mem_builtin_name builtin

theorem LayoutDraft.Describes.key_count {draft : LayoutDraft} {name : LooseText} {layout : Layout}
    (describes : draft.Describes name layout) : layout.keyCount = draft.cells.count 1 := by
  rw [Layout.keyCount, describes.cells, List.count, List.countP_map]
  apply List.countP_congr
  intro cell _
  simp

theorem of_value_eq_ok_iff {source : String} {value : Value} {settings : Settings} :
    Settings.ofValue source value = .ok settings ↔ checkSettings value = .ok settings := by
  rw [Settings.ofValue]
  cases checkSettings value <;> simp

/-- **Accepted settings are usable, and usable settings are accepted.** A value is
refused with a report, or it reads as a usable draft and gives the settings that the
draft describes, with which printing can begin. Conversely every value that reads as a
usable draft is accepted. -/
theorem of_value_usable (source : String) (value : Value) :
    ((∃ report, Settings.ofValue source value = .error (source ++ ": " ++ report)) ∨
      ∃ settings draft, Settings.ofValue source value = .ok settings ∧ Sound settings ∧
        ReadsSettings value draft ∧ draft.Usable ∧ draft.Describes settings ∧
        List.Forall₂ (fun named custom => custom.2.keyCount = named.2.cells.count 1)
          draft.layouts settings.layouts) ∧
    ∀ draft, ReadsSettings value draft → draft.Usable →
      ∃ settings, Settings.ofValue source value = .ok settings ∧ draft.Describes settings := by
  constructor
  · cases checked : checkSettings value with
    | error issues => exact .inl ⟨_, by rw [Settings.ofValue, checked]⟩
    | ok settings =>
        obtain ⟨draft, reads, usable, describes⟩ := check_settings_eq_ok_iff.mp checked
        exact .inr ⟨settings, draft, of_value_eq_ok_iff.mpr checked, describes.sound, reads, usable,
          describes, describes.layouts.imp fun _ _ names => names.2.key_count⟩
  · intro draft reads usable
    obtain ⟨settings, describes⟩ := usable.exists_settings
    exact ⟨settings, of_value_eq_ok_iff.mpr (check_settings_eq_ok_iff.mpr
      ⟨draft, reads, usable, describes⟩), describes⟩

/-- A custom layout that takes the place of a builtin one, written with numbers, texts
and truth values. -/
def customValue : Value :=
  .mapping [
    (.text "layouts", .mapping [
      (.text "corne", .mapping [
        (.text "name", .scalar (.text "other")), (.text "pitch", .scalar .null),
        (.text "bindings", .list [.scalar (.integer 1), .scalar (.text " 0_0 "),
          .scalar (.boolean true), .scalar (.text "+1.0")]),
        (.text "row_count", .scalar (.text "2"))])]),
    (.text "warn_on_unhandled_tokens", .scalar (.text "Yes")),
    (.text "layout", .scalar (.text "corne"))]

def customDraft : SettingsDraft where
  layout := "corne"
  indentUnit := "  "
  warnUnhandled := true
  layouts := [("corne", ⟨"other", [1, 0, 1, 1], 2⟩)]

theorem of_value_usable_custom :
    ReadsSettings customValue customDraft ∧ customDraft.Usable ∧
      ∃ settings, Settings.ofValue "<config>" customValue = .ok settings ∧
        customDraft.Describes settings := by
  have reads : ReadsSettings customValue customDraft := by
    refine ⟨by decide, rfl, rfl, rfl, .cons ⟨rfl, rfl, ⟨_, rfl, ?_⟩, rfl⟩ .nil⟩
    exact .cons rfl (.cons rfl (.cons rfl (.cons rfl .nil)))
  have usable : customDraft.Usable := by
    have spaces : customDraft.indentUnit.toList = [' ', ' '] := rfl
    refine ⟨by decide, by simp [spaces], ?_, by decide⟩
    intro named member
    rw [List.mem_singleton.mp member]
    exact ⟨by decide, by decide, by decide, by decide⟩
  exact ⟨reads, usable, (of_value_usable "<config>" customValue).2 customDraft reads usable⟩

end DevicetreeFormat.Validation
