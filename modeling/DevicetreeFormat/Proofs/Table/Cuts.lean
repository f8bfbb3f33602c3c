import DevicetreeFormat.Proofs.Table
import Mathlib.Data.List.TakeWhile

/-!
# Cuts of words into bindings

A binding runs from the word that starts it up to the next one that starts a
binding. So words fall into bindings in one way only, whatever loop finds it, and
the bindings of two cell lists in a row are those of the first and then those of
the second, if the second begins with a binding.
-/

namespace DevicetreeFormat.Table

set_option autoImplicit false

/-- Whether a word belongs to the binding before it. -/
def continues (word : String) : Bool :=
  !startsBinding word

/-- A group of words with one binding at most: only the first word may start one. -/
def IsGroup : List String → Prop
  | [] => False
  | _ :: rest => ∀ word ∈ rest, continues word = true

/-- A group that starts with the word that starts its binding. -/
def Begins (group : List String) : Prop :=
  ∃ word ∈ group.head?, startsBinding word = true

/-- A cut of words into bindings. Only the first group may begin in any way. -/
def IsCut (groups : List (List String)) : Prop :=
  (∀ group ∈ groups, IsGroup group) ∧ ∀ group ∈ groups.tail, Begins group

instance : DecidablePred IsGroup
  | [] => inferInstanceAs (Decidable False)
  | _ :: rest => inferInstanceAs (Decidable (∀ word ∈ rest, continues word = true))

instance : DecidablePred Begins := fun _ =>
  inferInstanceAs (Decidable (∃ word ∈ _, _))

instance : DecidablePred IsCut := fun _ =>
  inferInstanceAs (Decidable (_ ∧ _))

theorem group_tokens_open (word : String) (group tokens : List String) :
    groupTokens (word :: group) tokens =
      ((word :: group).reverse ++ tokens.takeWhile continues) ::
        groupTokens [] (tokens.dropWhile continues) := by
  induction tokens generalizing word group with
  | nil => simp [groupTokens]
  | cons token rest induction =>
      by_cases starts : startsBinding token = true
      · simp [groupTokens, continues, starts]
      · rw [groupTokens, if_neg starts, induction]
        simp [continues, starts]

/-- The first group runs up to the next word that starts a binding. -/
theorem group_tokens_cons (token : String) (rest : List String) :
    groupTokens [] (token :: rest) =
      (token :: rest.takeWhile continues) ::
        groupTokens [] (rest.dropWhile continues) := by
  rw [groupTokens, group_tokens_open]
  rfl

/-- Every group begins if the words do. -/
theorem begins_of_is_cut {groups : List (List String)} (cut : IsCut groups)
    (first : ∀ word ∈ groups.flatten.head?, startsBinding word = true) :
    ∀ group ∈ groups, Begins group := by
  intro group member
  cases groups with
  | nil => cases member
  | cons head groups =>
      rcases List.mem_cons.mp member with same | later
      · have isGroup := cut.1 head (by simp)
        rw [same]
        cases head with
        | nil => exact isGroup.elim
        | cons word rest => exact ⟨word, rfl, first word rfl⟩
      · exact cut.2 group later

theorem group_tokens_is_cut (tokens : List String) : IsCut (groupTokens [] tokens) := by
  induction length : tokens.length using Nat.strongRecOn generalizing tokens with
  | ind count induction =>
      cases tokens with
      | nil => exact ⟨by simp [groupTokens], by simp [groupTokens]⟩
      | cons token rest =>
          have shorter : (rest.dropWhile continues).length < count := by
            have suffix := (List.dropWhile_suffix (l := rest) continues).length_le
            rw [List.length_cons] at length
            omega
          have later := induction _ shorter _ rfl
          have begins : ∀ group ∈ groupTokens [] (rest.dropWhile continues), Begins group := by
            apply begins_of_is_cut later
            intro word head
            have stopped := List.head?_dropWhile_not continues rest
            rw [group_tokens_whole] at head
            rw [Option.mem_def.mp head] at stopped
            simpa [continues] using stopped
          rw [group_tokens_cons]
          refine ⟨?_, begins⟩
          intro group member
          rcases List.mem_cons.mp member with rfl | among
          · intro word inside
            exact List.mem_takeWhile_imp inside
          · exact later.1 group among

/-- Words fall into the groups of a cut again. -/
theorem group_tokens_of_is_cut {groups : List (List String)} (cut : IsCut groups) :
    groupTokens [] groups.flatten = groups := by
  induction groups with
  | nil => rfl
  | cons group groups induction =>
      have later : IsCut groups :=
        ⟨fun other member => cut.1 other (by simp [member]),
          fun other member => cut.2 other (List.mem_of_mem_tail member)⟩
      have first := cut.1 group (by simp)
      cases group with
      | nil => exact first.elim
      | cons word rest =>
          -- the words after the group are none, or the next group begins a binding
          have outside : ∀ token ∈ groups.flatten.head?, ¬ continues token = true := by
            intro token head
            cases groups with
            | nil => simp at head
            | cons next groups =>
                obtain ⟨start, starts, binding⟩ := cut.2 next (by simp)
                cases next with
                | nil => cases starts
                | cons start' others =>
                    cases starts
                    cases head
                    simp [continues, binding]
          have taken : (rest ++ groups.flatten).takeWhile continues = rest := by
            rw [List.takeWhile_append_of_pos first]
            cases shape : groups.flatten with
            | nil => simp
            | cons token others =>
                rw [List.takeWhile_cons_of_neg (outside token (by simp [shape])), List.append_nil]
          have dropped : (rest ++ groups.flatten).dropWhile continues =
              groups.flatten := by
            rw [List.dropWhile_append_of_pos first]
            cases shape : groups.flatten with
            | nil => simp
            | cons token others => rw [List.dropWhile_cons_of_neg (outside token (by simp [shape]))]
          rw [List.flatten_cons, List.cons_append, group_tokens_cons, taken, dropped, induction later]

theorem is_cut_take {groups : List (List String)} (cut : IsCut groups) (count : Nat) :
    IsCut (groups.take count) := by
  refine ⟨fun group member => cut.1 group (List.mem_of_mem_take member), fun group member => ?_⟩
  cases groups with
  | nil => simp at member
  | cons first groups =>
      cases count with
      | zero => cases member
      | succ count => exact cut.2 group (List.mem_of_mem_take member)

theorem is_cut_append {first second : List (List String)} (left : IsCut first) (right : IsCut second)
    (begins : ∀ group ∈ second, Begins group) : IsCut (first ++ second) := by
  constructor
  · intro group member
    rcases List.mem_append.mp member with early | late
    · exact left.1 group early
    · exact right.1 group late
  · intro group member
    cases first with
    | nil => exact right.2 group member
    | cons head rest =>
        rcases List.mem_append.mp member with early | late
        · exact left.2 group early
        · exact begins group late

/-- A word that starts a binding ends the groups before it. -/
theorem group_tokens_append (first : List String) {second : List String}
    (starts : ∀ word ∈ second.head?, startsBinding word = true) :
    groupTokens [] (first ++ second) = groupTokens [] first ++ groupTokens [] second := by
  have begins : ∀ group ∈ groupTokens [] second, Begins group := by
    apply begins_of_is_cut (group_tokens_is_cut second)
    rwa [group_tokens_whole]
  have cut := is_cut_append (group_tokens_is_cut first) (group_tokens_is_cut second) begins
  have again := group_tokens_of_is_cut cut
  rwa [List.flatten_append, group_tokens_whole, group_tokens_whole] at again

/-! ### The words of cells -/

/-- The word of a cell, if it has one: brackets, comments and blank cells have none. -/
def wordOf? (cell : Cell) : Option String :=
  if cell.isAngle || cell.isComment || cell.token = "" then none else some cell.token

theorem binding_tokens_append (first second : List Cell) :
    bindingTokens (first ++ second) = bindingTokens first ++ bindingTokens second := by
  simp [bindingTokens]

theorem binding_tokens_eq (cells : List Cell) : bindingTokens cells = cells.filterMap wordOf? := by
  induction cells with
  | nil => rfl
  | cons cell rest induction =>
      have word : bindingTokens [cell] = (wordOf? cell).toList := by
        by_cases outside : (!cell.isAngle && !cell.isComment) = true <;>
          by_cases empty : cell.token = "" <;> simp_all [bindingTokens, wordOf?]
      have split : bindingTokens (cell :: rest) = bindingTokens [cell] ++ bindingTokens rest :=
        binding_tokens_append [cell] rest
      rw [split, word, induction, List.filterMap_cons]
      cases wordOf? cell <;> rfl

/-- A cut of the words of cells into consecutive groups, one for each binding. -/
structure Segments (cells : List Cell) (groups : List (List String)) : Prop where
  words : groups.flatten = cells.filterMap wordOf?
  cut : IsCut groups

instance (cells : List Cell) : DecidablePred (Segments cells) := fun groups =>
  decidable_of_iff (groups.flatten = cells.filterMap wordOf? ∧ IsCut groups)
    ⟨fun both => ⟨both.1, both.2⟩, fun segments => ⟨segments.words, segments.cut⟩⟩

theorem group_tokens_segments (cells : List Cell) :
    Segments cells (groupTokens [] (bindingTokens cells)) := by
  refine ⟨?_, group_tokens_is_cut _⟩
  rw [group_tokens_whole, binding_tokens_eq]

theorem segments_unique {cells : List Cell} {groups : List (List String)}
    (segments : Segments cells groups) : groups = groupTokens [] (bindingTokens cells) := by
  rw [binding_tokens_eq, ← segments.words, group_tokens_of_is_cut segments.cut]

/-- **The bindings of cells are the only cut of their words.** Cells that begin with
a binding add their own bindings to those of the cells before them. -/
theorem collect_bindings_unique (cells : List Cell) :
    (∃! groups, Segments cells groups) ∧
    (∀ groups, Segments cells groups → collectBindings cells = groups.map " ".intercalate) ∧
    ∀ later : List Cell, (∀ word ∈ (later.filterMap wordOf?).head?, startsBinding word = true) →
      collectBindings (cells ++ later) = collectBindings cells ++ collectBindings later := by
  refine ⟨⟨_, group_tokens_segments cells, fun groups => segments_unique⟩, ?_, ?_⟩
  · intro groups segments
    rw [segments_unique segments, collectBindings]
  · intro later starts
    rw [← binding_tokens_eq] at starts
    rw [collectBindings, binding_tokens_append, group_tokens_append _ starts, List.map_append]
    rfl

/-- A word without a reference, a comment that mentions one, and an empty cell. -/
def looseCells : List Cell :=
  [⟨.leftAngle, "<"⟩, ⟨.integerLiteral, "1"⟩, ⟨.comment, "// &kp"⟩, ⟨.reference, " &mt "⟩,
   ⟨.identifier, ""⟩, ⟨.identifier, "LSHIFT"⟩, ⟨.comment, "/* A */"⟩, ⟨.identifier, "A"⟩]

def referenceCells : List Cell :=
  [⟨.comment, "// next"⟩, ⟨.reference, "&kp"⟩, ⟨.identifier, "B"⟩, ⟨.reference, "&trans"⟩, ⟨.rightAngle, ">"⟩]

theorem collect_bindings_unique_loose :
    Segments looseCells [["1"], ["&mt", "LSHIFT", "A"]] ∧
      collectBindings looseCells = ["1", "&mt LSHIFT A"] ∧
      (∀ word ∈ (referenceCells.filterMap wordOf?).head?, startsBinding word = true) ∧
      collectBindings (looseCells ++ referenceCells) =
        collectBindings looseCells ++ collectBindings referenceCells := by
  have segments : Segments looseCells [["1"], ["&mt", "LSHIFT", "A"]] := by decide +kernel
  have starts : ∀ word ∈ (referenceCells.filterMap wordOf?).head?, startsBinding word = true := by
    decide +kernel
  obtain ⟨_, grouped, appended⟩ := collect_bindings_unique looseCells
  exact ⟨segments, grouped _ segments, starts, appended referenceCells starts⟩

end DevicetreeFormat.Table
