import DevicetreeFormat.Proofs.Lines
import DevicetreeFormat.Proofs.Sequence
import DevicetreeFormat.Proofs.Tidy.Items

/-!
# Documents are printed tidily

The items of a document are printed one behind the other. The first of them finds
nothing before it, each later one finds the end of a line, and the last one ends its
last line and adds no blank line. What is known of the breaks in the text then gives
its lines.
-/

namespace DevicetreeFormat

set_option autoImplicit false

open Text

/-! ### Lines -/

namespace Text

/-- A line with a break behind it ends in ink if it is not empty. -/
theorem line_ends {text line : List Char} (trimmed : Trimmed (text ++ ['\n']))
    (member : line ∈ text.splitOn '\n') : line = [] ∨ EndsIn IsInk line := by
  obtain ⟨before, after, split⟩ := List.append_of_mem member
  have shape : text ++ ['\n'] = (before.flatMap (fun line => line ++ ['\n']) ++ line) ++
      '\n' :: after.flatMap fun line => line ++ ['\n'] := by
    rw [← flatMap_splitOn, split]
    simp
  have behind := trimmed _ _ shape
  rcases List.eq_nil_or_concat line with empty | ⟨front, c, rfl⟩
  · exact .inl empty
  · rw [List.concat_eq_append, ← List.append_assoc, ends_in_concat_iff] at behind
    rw [List.concat_eq_append, ends_in_concat_iff]
    refine .inr (behind.resolve_left ?_)
    rintro rfl
    exact unbroken_of_mem_splitOn member (by simp)

end Text

namespace Printer

/-- A text that is empty or begins with ink and ends with one line feed, whose lines have
no blanks at their ends, and which has no two blank lines in a row outside of the given
tables. -/
structure Tidy (tables : List String) (text : String) : Prop where
  begins : text = "" ∨ ∃ first rest, splitLineFeeds text = first :: rest ∧ ink first ≠ []
  ends : text = "" ∨ ∃ front c, c ≠ '\n' ∧ text.toList = front ++ [c, '\n']
  stripped : ∀ line ∈ splitLineFeeds text, ∀ c, line.toList.getLast? = some c → isBlank c = false
  woven : Woven tables text.toList

theorem tidy_empty : Tidy [] "" := by
  refine ⟨.inl rfl, .inl rfl, ?_, .plain calm_nil⟩
  intro line member c last
  simp [splitLineFeeds, List.splitOn] at member
  simp [member] at last

theorem tidy_of_clean {tables : List String} {text : String} (clean : Clean tables text.toList)
    (ends : ∃ front c, c ≠ '\n' ∧ text.toList = front ++ [c, '\n']) : Tidy tables text := by
  have trimmed : Trimmed (text.toList ++ ['\n']) := by
    obtain ⟨front, c, _, shape⟩ := ends
    exact breaks_behind_break clean.trimmed ⟨front ++ [c], '\n', by simp [shape], .inl rfl⟩
  refine ⟨.inr ?_, .inr ends, ?_, clean.woven⟩
  · obtain ⟨first, rest, split⟩ :=
      List.exists_cons_of_ne_nil (List.splitOnP_ne_nil (· == '\n') text.toList)
    refine ⟨String.ofList first, rest.map String.ofList, congrArg (List.map String.ofList) split, ?_⟩
    have whole := flatMap_splitOn text.toList
    rw [List.splitOn, split] at whole
    -- a break at the beginning would have nothing before it
    have filled : first ≠ [] := by
      rintro rfl
      exact not_ends_in_nil (trimmed [] (rest.flatMap fun line => line ++ ['\n']) (by simp [← whole]))
    have member : first ∈ text.toList.splitOn '\n' := by simp [List.splitOn, split]
    obtain ⟨front, c, rfl, inked⟩ := (line_ends trimmed member).resolve_left filled
    have shown : isBlank c = false := inked
    have present : c ∈ ink (String.ofList (front ++ [c])) := by
      rw [ink, String.toList_ofList, List.mem_filter]
      simp [shown]
    exact List.ne_nil_of_mem present
  · intro line member c last
    obtain ⟨characters, inside, rfl⟩ := List.mem_map.mp member
    rw [String.toList_ofList] at last
    obtain ⟨front, rfl⟩ := List.getLast?_eq_some_iff.mp last
    rcases line_ends trimmed inside with empty | inked
    · simp at empty
    · exact ends_in_concat_iff.mp inked

/-! ### Documents -/

/-- The first item finds nothing before it. -/
theorem document_takes (settings : Settings) (kind : Kind) {first : Tree} {rest : List Tree}
    (shaped : ∀ item ∈ first :: rest, item.isItem = true ∧ item.Everywhere Tree.Shaped) :
    Takes (· = [])
      (AfterBreak ((first :: rest).flatMap (Tree.tables settings.activeLayout (rootContext settings))))
      ((parts settings kind {} none (first :: rest)).flatMap fun item =>
        item.print (rootContext settings)) := by
  obtain ⟨isItem, everywhere⟩ := shaped first (by simp)
  rw [Tree.is_item_iff] at isItem
  have unit : isIndentUnit (rootContext settings).indentUnit = true := settings.indentUnit_blank
  have begun := (tree_tidies settings everywhere).item isItem.2
    (childPlace kind {} none (neighbour? rest)) unit rfl []
  have nothing (before : Option Kind) (done : List String) :
      Takes (AfterBreak done) (AfterBreak done)
        ((parts settings kind {} before []).flatMap fun item => item.print (rootContext settings)) :=
    takes_nil _
  have areItems (item : Tree) (member : item ∈ rest) : item.isItem = true :=
    (shaped item (by simp [member])).1
  have tidies (item : Tree) (member : item ∈ rest) : Tidies settings item :=
    tree_tidies settings (shaped item (by simp [member])).2
  have others := items_take settings unit kind {} rfl areItems tidies nothing (some first.kind)
    ([] ++ first.tables settings.activeLayout (rootContext settings))
  rw [List.append_nil, List.nil_append] at others
  rw [parts, List.flatMap_cons, List.flatMap_cons]
  refine takes_append (begun.narrow ?_) others
  rintro text rfl
  exact ⟨⟨.plain calm_nil, breaks_behind_unbroken (by simp)⟩, by simp [childPlace]⟩

/-- The last item has nothing after it. -/
theorem document_ends_line (settings : Settings) (kind : Kind) {items : List Tree} (filled : items ≠ [])
    (shaped : ∀ item ∈ items, item.isItem = true ∧ item.Everywhere Tree.Shaped) :
    EndsLine ((parts settings kind {} none items).flatMap fun item => item.print (rootContext settings)) := by
  obtain ⟨front, last, rfl⟩ := (List.eq_nil_or_concat items).resolve_left filled
  rw [List.concat_eq_append] at shaped ⊢
  obtain ⟨isItem, everywhere⟩ := shaped last (by simp)
  rw [Tree.is_item_iff] at isItem
  obtain ⟨earlier, before, split, _⟩ := exists_parts_concat settings kind {} none front last
  rw [split, List.flatMap_append, List.flatMap_singleton]
  exact ends_line_append _ (item_ends_line settings everywhere isItem.2 _ _ rfl (by simp [childPlace]))

/-- **Documents are printed tidily.** A document of items that follow the grammar is
printed, at any nesting, and its text is empty only if it has no items. Otherwise its
first line has ink and the text ends with one line feed. No line ends in blanks, and
outside of the binding tables there are no two blank lines in a row. -/
theorem format_tree_tidy (settings : Settings) (root : Tree)
    (shaped : ∀ item ∈ root.children, item.isItem = true ∧ item.Everywhere Tree.Shaped) :
    ∃ text, (formatTree settings root).outcome = .ok text ∧ (text = "" ↔ root.children = []) ∧
      Tidy (root.children.flatMap (Tree.tables settings.activeLayout (rootContext settings))) text := by
  have complete : Complete (documentCommands settings root) := by
    apply document_complete
    intro item member
    exact Tree.spreads.mono (fun _ => Tree.filled_of_shaped) (shaped item member).2
  refine ⟨_, format_tree_of_complete complete, ?_⟩
  rw [documentCommands, ← rootContext]
  cases items : root.children with
  | nil => exact ⟨iff_of_true rfl rfl, tidy_empty⟩
  | cons first rest =>
      rw [items] at shaped
      have written := (document_takes settings root.kind shaped).take {} rfl
      have ends := document_ends_line settings root.kind (by simp) shaped {}
      refine ⟨iff_of_false ?_ (by simp), tidy_of_clean written.toClean ends⟩
      intro empty
      obtain ⟨front, c, _, shape⟩ := ends
      rw [Output.written, empty] at shape
      simp at shape

/-- A labelled keymap in a conditional. Its layer binds one key, so the table has blank
rows. -/
def layersSample : Tree :=
  .spanning .document
    [.spanning .ifdefDirective
      [.leaf .unknown "#ifdef", .leaf .identifier "LAYERS",
       .spanning .labeledItem
        [.leaf .identifier "keys", .mark .colon,
         .spanning .node
          [.leaf .identifier "keymap", .mark .leftBrace, .leaf .comment "//layers",
           .spanning .node
            [.leaf .identifier "base", .mark .leftBrace,
             .spanning .property
              [.leaf .identifier "bindings", .mark .equals,
               .spanning .integerCells
                [.mark .leftAngle, .leaf .reference "&kp", .leaf .identifier "A", .mark .rightAngle],
               .leaf .comment "// one key", .mark .semicolon],
             .mark .rightBrace, .mark .semicolon],
           .mark .rightBrace, .mark .semicolon]],
       .branch "#endif" "#endif" false 0 0 []]]

theorem format_tree_tidy_layers :
    (∀ item ∈ layersSample.children, item.isItem = true ∧ item.Everywhere Tree.Shaped) ∧
      ∃ text, (formatTree sampleSettings layersSample).outcome = .ok text ∧
        (text = "" ↔ layersSample.children = []) ∧
        Tidy (layersSample.children.flatMap
          (Tree.tables sampleSettings.activeLayout (rootContext sampleSettings))) text := by
  have shaped : ∀ item ∈ layersSample.children, item.isItem = true ∧ item.Everywhere Tree.Shaped := by
    decide +kernel
  exact ⟨shaped, format_tree_tidy sampleSettings layersSample shaped⟩

end Printer

end DevicetreeFormat
