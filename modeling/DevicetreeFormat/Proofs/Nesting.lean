import DevicetreeFormat.Proofs.Sequence

/-!
# Nesting is indentation

The body of a node is printed as the document of its items, one level further
in. The items are printed one after the other in both, with the same blank lines
between them; a comment at the start is left out, because in a node it has a
blank line before it and in a document it has none.
-/

namespace DevicetreeFormat

set_option autoImplicit false

open Text

/-- A node with the given name and items. -/
def Tree.block (name : String) (items : List Tree) : Tree :=
  .spanning .node (.leaf .identifier name :: .mark .leftBrace ::
    (items ++ [.mark .rightBrace, .mark .semicolon]))

theorem Text.indent_lines_append (margin : String) {first : String}
    (fresh : endsFresh true first.toList = true) (second : String) :
    indentLines margin (first ++ second) = indentLines margin first ++ indentLines margin second := by
  rw [← String.toList_inj]
  simp only [indentLines, String.toList_append, String.toList_ofList, shift_from_append, fresh]

/-- Texts of whole lines are indented one by one. -/
theorem Tree.indent_lines_weave (margin : String) (print : Tree → String) {items : List Tree}
    (lines : ∀ item ∈ items, endsFresh true (print item).toList = true) :
    indentLines margin (weave print items) =
      weave (fun item => indentLines margin (print item)) items := by
  induction items with
  | nil => rfl
  | cons item rest induction =>
      have here := lines item (by simp)
      have later := induction fun other member => lines other (by simp [member])
      cases rest with
      | nil => rfl
      | cons next others =>
          rw [weave, weave, ← later]
          by_cases blank : item.parted next = true
          · have fresh : endsFresh true (print item ++ "\n").toList = true := by
              rw [String.toList_append]
              exact ends_fresh_concat true _ '\n'
            have line : indentLines margin "\n" = "\n" := by
              rw [← String.toList_inj, indentLines, String.toList_ofList]
              rfl
            rw [if_pos blank, indent_lines_append margin fresh, indent_lines_append margin here, line]
          · rw [if_neg blank, String.append_empty, String.append_empty, indent_lines_append margin here]

theorem block_filled (name : String) {items : List Tree}
    (filled : ∀ item ∈ items, item.Everywhere Tree.Filled) : (Tree.block name items).Everywhere Tree.Filled := by
  have token : ∀ {tree : Tree}, tree.children = [] →
      (tree.kind.isDirective || tree.kind.isBranch || tree.kind = .fileInclude) = false →
      tree.Everywhere Tree.Filled := by
    intro tree childless undemanding
    rw [Tree.everywhere_iff, childless]
    refine ⟨?_, by simp⟩
    intro needy
    rw [undemanding] at needy
    cases needy
  rw [Tree.everywhere_iff]
  constructor
  · intro _
    exact List.cons_ne_nil _ _
  · intro child member
    simp only [Tree.block, Tree.spanning_children, List.mem_cons, List.mem_append, List.not_mem_nil,
      or_false] at member
    rcases member with rfl | rfl | item | rfl | rfl
    · exact token rfl (by rw [Tree.leaf_kind]; rfl)
    · exact token rfl (by rw [Tree.mark_kind]; rfl)
    · exact filled child item
    · exact token rfl (by rw [Tree.mark_kind]; rfl)
    · exact token rfl (by rw [Tree.mark_kind]; rfl)

namespace Printer

theorem deeper_offset (settings : Settings) :
    Offset settings.indentUnit.toList (rootContext settings) (rootContext settings).deeper := by
  refine ⟨Int.le_refl 0, settings.indentUnit_blank, 1, rfl, ?_⟩
  simp [rootContext, times]

theorem block_commands (settings : Settings) {name : String} (other : strip name ≠ "keymap")
    (items : List Tree) :
    documentCommands settings (.spanning .document [.block name items]) =
      writes ["", strip name, " \x7b\n"] ++
        (parts settings .node {} (some .leftBrace) (items ++ [.mark .rightBrace, .mark .semicolon])).flatMap
          fun child => child.print (rootContext settings).deeper := by
  have node : (Tree.block name items).kind = .node := Tree.spanning_kind _ _
  have token : (Tree.leaf .identifier name).token = strip name := rfl
  have flat : (rootContext settings).indentation = "" := rfl
  have called : nameAmong (Tree.block name items).children = strip name := by
    rw [Tree.block, Tree.spanning_children, nameAmong, Tree.leaf_kind, token]
    simp
  have body : bodyContext (inner settings {} (Tree.block name items)) (rootContext settings) =
      (rootContext settings).deeper := by
    rw [bodyContext, inner, name_of_parts, called, if_neg other]
  rw [document_commands_spanning, parts, parts, List.flatMap_singleton, print_node _ _ _ node, printNode,
    inner_place settings (by rw [node]; rfl) _ {}, body, beginItem, childPlace, flat, inner, node,
    Tree.block, Tree.spanning_children, parts, parts, nodeChildren, nodeChildren]
  simp [print_left_brace, writes, Cell.token]
  rfl

theorem written_closing (settings : Settings) (last : Option Kind) (output : Output) :
    (output.after ((parts settings .node {} last [.mark .rightBrace, .mark .semicolon]).flatMap
      fun child => child.print (rootContext settings).deeper)).written =
        output.written ++ "\x7d;\n".toList := by
  have flat : (rootContext settings).deeper.shallower.indentation = "" := rfl
  rw [parts, parts, parts, List.flatMap_cons, List.flatMap_singleton,
    print_right_brace _ _ _ (Tree.mark_kind _), print_semicolon _ _ _ (Tree.mark_kind _), flat]
  simp [writes, Output.step]

/-- The first item of a node, which is no comment. -/
theorem print_opening (settings : Settings) {tree : Tree} (shaped : tree.Everywhere Tree.Shaped)
    (item : tree.isItem = true) (other : tree.kind ≠ .comment) (after : Option Neighbour)
    (context : Context) :
    (part settings (childPlace .node {} (some .leftBrace) after) tree).print context =
      (part settings {} tree).print context ++
        trail (childPlace .node {} (some .leftBrace) after) tree := by
  rw [Tree.is_item_iff] at item
  rw [print_split settings shaped item.2 (childPlace .node {} (some .leftBrace) after) rfl]
  simp [lead, other]

/-- The body of a node is its items one level further in. -/
theorem written_body (settings : Settings) {items : List Tree}
    (shaped : ∀ item ∈ items, item.isItem = true ∧ item.Everywhere Tree.Shaped)
    (first : items.head?.map Tree.kind ≠ some .comment) (output : Output) :
    (output.after ((parts settings .node {} (some .leftBrace)
      (items ++ [.mark .rightBrace, .mark .semicolon])).flatMap
        fun child => child.print (rootContext settings).deeper)).written =
      output.written ++ (Tree.weave (fun item => indentLines settings.indentUnit (alone settings item))
        items).toList ++ "\x7d;\n".toList := by
  cases items with
  | nil =>
      rw [List.nil_append, written_closing, Tree.weave, String.toList_empty, List.append_nil]
  | cons item rest =>
      obtain ⟨isItem, everywhere⟩ := shaped item (by simp)
      have other : item.kind ≠ .comment := by simpa using first
      have plain : Kind.node.isWrapper = false := rfl
      -- the closing brace is unnamed, so no item asks for a blank line before it
      have quiet : ∀ before tree, trail (childPlace .node {} before
          (neighbour? [.mark .rightBrace, .mark .semicolon])) tree = [] := by
        intro before tree
        have mark : neighbour? [.mark .rightBrace, .mark .semicolon] =
            some ⟨.rightBrace, false, .rightBrace⟩ := rfl
        simp [trail, endRun, beforeNode, childPlace, mark, plain]
      obtain ⟨later, last, written, same⟩ := items_run settings (deeper_offset settings) plain {} quiet
        shaped (some .leftBrace) output
      rw [List.cons_append, parts, List.flatMap_cons, print_opening settings everywhere isItem other, same,
        written_closing, written]

/-- **Nesting is indentation.** A node whose items do not begin with a comment is
printed as its name, an opening brace, the document of its items with one indent
unit before every line that is not empty, and a closing brace. -/
theorem format_tree_nested (settings : Settings) (name : String) (items : List Tree)
    (shaped : ∀ item ∈ items, item.isItem = true ∧ item.Everywhere Tree.Shaped)
    (first : items.head?.map Tree.kind ≠ some .comment) (other : strip name ≠ "keymap") :
    ∃ text, (formatTree settings (.spanning .document items)).outcome = .ok text ∧
      (formatTree settings (.spanning .document [.block name items])).outcome =
        .ok (strip name ++ " \x7b\n" ++ indentLines settings.indentUnit text ++ "\x7d;\n") := by
  refine ⟨Tree.weave (alone settings) items, format_tree_items shaped, ?_⟩
  have complete : Complete (documentCommands settings (.spanning .document [.block name items])) := by
    apply document_complete
    intro node member
    rw [Tree.spanning_children, List.mem_singleton] at member
    rw [member]
    exact block_filled name fun item inside =>
      Tree.spreads.mono (fun _ => Tree.filled_of_shaped) (shaped item inside).2
  have lines : ∀ item ∈ items, endsFresh true (alone settings item).toList = true := by
    intro item member
    obtain ⟨front, c, _, line⟩ := (alone_ends settings (shaped item member).2 (shaped item member).1).2
    rw [line, List.append_cons]
    exact ends_fresh_concat true _ '\n'
  rw [format_tree_of_complete complete, block_commands settings other, Output.after_append]
  apply congrArg Except.ok
  rw [← String.toList_inj, Tree.indent_lines_weave _ _ lines]
  refine (written_body settings shaped first _).trans ?_
  simp [writes, Output.step]

/-- An include, a label before a node with a line comment in a property, and a
conditional. -/
def bodySample : List Tree :=
  [.spanning .fileInclude [.leaf .unknown "/include/", .leaf .stringLiteral "\"a.dtsi\""],
   .spanning .labeledItem
    [.leaf .identifier "l", .mark .colon,
     .block "deep"
      [.spanning .property
        [.leaf .identifier "p", .mark .equals, .leaf .comment "//one", .spanning .byteString
          [.mark .leftBracket, .leaf .unknown "0A0B", .mark .rightBracket], .mark .semicolon],
       .block "deeper" []]],
   .spanning .ifdefDirective
    [.leaf .unknown "#ifdef", .leaf .identifier "X", .leaf .comment "/* c */",
     .branch "#endif" "#endif" false 0 0 []]]

theorem format_tree_nested_sample :
    (∀ item ∈ bodySample, item.isItem = true ∧ item.Everywhere Tree.Shaped) ∧
      bodySample.head?.map Tree.kind ≠ some .comment ∧ strip " soc" ≠ "keymap" ∧
      ∃ text, (formatTree sampleSettings (.spanning .document bodySample)).outcome = .ok text ∧
        (formatTree sampleSettings (.spanning .document [.block " soc" bodySample])).outcome =
          .ok (strip " soc" ++ " \x7b\n" ++ indentLines sampleSettings.indentUnit text ++ "\x7d;\n") := by
  have shaped : ∀ item ∈ bodySample, item.isItem = true ∧ item.Everywhere Tree.Shaped := by
    decide +kernel
  have first : bodySample.head?.map Tree.kind ≠ some .comment := by decide +kernel
  have other : strip " soc" ≠ "keymap" := by decide +kernel
  exact ⟨shaped, first, other, format_tree_nested sampleSettings " soc" bodySample shaped first other⟩

end Printer

end DevicetreeFormat
