import DevicetreeFormat.Proofs.Comments.Items
import DevicetreeFormat.Proofs.Labels.Surroundings

/-!
# Labels

A label in front of an item changes nothing but the line on which the item begins,
where the label and a colon are inserted behind the indentation and behind other
labels and keywords. What is printed before and after the item, how far it is
indented, whether its cell lists form tables and which messages there are does not
depend on its labels.
-/

namespace DevicetreeFormat

set_option autoImplicit false

open Text

/-- A label and its colon, and what the source says of the labelled item. -/
structure Label where
  text : String
  start : Nat
  stop : Nat
  name : Tree
  colon : Tree
  name_kind : name.kind = .identifier
  colon_kind : colon.kind = .colon

/-- The item with a label in front of it. -/
def Label.on (label : Label) (item : Tree) : Tree :=
  .branch "labeled_item" label.text true label.start label.stop [label.name, label.colon, item]

namespace Printer

open DevicetreeFormat.Frame

theorem label_kind (label : Label) (item : Tree) : (label.on item).kind = .labeledItem :=
  Kind.labeledItem.of_name_grammar_name

theorem label_inner_kind (label : Label) (item : Tree) : (label.on item).innerKind = item.innerKind := by
  have wrapper : (Kind.ofName "labeled_item").isWrapper = true := by
    have kind : Kind.ofName "labeled_item" = .labeledItem := Kind.labeledItem.of_name_grammar_name
    rw [kind]
    rfl
  rw [Label.on, Tree.innerKind, if_pos wrapper]
  rfl

/-- The nodes around an item do not see its label. -/
theorem label_seen (label : Label) {given item : Tree} (alike : (seen given).Alike (seen item))
    (named : given.named = true) (wrappable : given.kind.isWrappable = true) :
    (seen given).Alike (seen (label.on item)) := by
  have kind : (seen (label.on item)).kind = .labeledItem := label_kind label item
  refine ⟨named, alike.inner.trans (label_inner_kind label item).symm, .inr ⟨wrappable, ?_⟩⟩
  rw [kind]
  rfl

/-! ### The line of a labelled item -/

/-- The children of a node see of its surroundings only what follows its wrappers. -/
theorem parts_follower (settings : Settings) (kind : Kind) {place other : Place}
    (follower : place.follower = other.follower) (before : Option Kind) (trees : List Tree) :
    parts settings kind place before trees = parts settings kind other before trees := by
  induction trees generalizing before with
  | nil => rfl
  | cons tree rest induction => rw [parts, parts, induction, childPlace, childPlace, follower]

/-- An item begins its line unless a wrapper has begun it, and is the same otherwise. -/
theorem print_begun (settings : Settings) {item : Tree} (wrappable : item.kind.isWrappable = true)
    (place joined : Place) (wrapped : joined.wrapped = true)
    (follower : place.follower = joined.follower) (context : Context) :
    (part settings place item).print context =
      beginItem place context ++ (part settings joined item).print context := by
  have begun : beginItem joined context = [] := by rw [beginItem, if_pos wrapped]
  have children : inner settings place item = inner settings joined item :=
    parts_follower settings item.kind follower none item.children
  obtain node | property | wrapper := Kind.is_wrappable_iff.mp wrappable
  · rw [print_node _ _ _ node, print_node _ _ _ node, children, printNode, printNode, begun, List.nil_append]
  · rw [print_property _ _ _ property, print_property _ _ _ property, children, printProperty, printProperty,
      begun, List.nil_append, beforeNode, beforeNode, follower]
    simp only [List.append_assoc]
  · rw [print_wrapper _ _ _ wrapper, print_wrapper _ _ _ wrapper, children, printWrapper, printWrapper,
      begun, List.nil_append]

/-- The place of an item behind a label. -/
def behindLabel (place : Place) : Place :=
  childPlace .labeledItem place (some .colon) none

theorem print_label (settings : Settings) (label : Label) {item : Tree}
    (wrappable : item.kind.isWrappable = true) (place : Place) (context : Context) :
    (part settings place (label.on item)).print context =
      beginItem place context ++ [.write label.name.token, .write ": "] ++
        (part settings (behindLabel place) item).print context := by
  have kind := label_kind label item
  have wrapper : (label.on item).kind.isWrapper = true := by rw [kind]; rfl
  have children : inner settings place (label.on item) =
      [part settings (childPlace .labeledItem place none (some (seen label.colon))) label.name,
        part settings (childPlace .labeledItem place (some label.name.kind) (some (seen item))) label.colon,
        part settings (childPlace .labeledItem place (some label.colon.kind) none) item] := by
    rw [inner, kind]
    rfl
  have name : ∀ before, wrapperChild context
      (part settings (childPlace .labeledItem place before (some (seen label.colon))) label.name) =
        [.write label.name.token] := by
    intro before
    simp [wrapperChild, label.name_kind, Kind.isWrapper, Part.beforeColon, childPlace, seen,
      label.colon_kind, part_token]
  have colon : ∀ spot, wrapperChild context (part settings spot label.colon) = [.write ": "] := by
    intro spot
    rw [wrapperChild, part_kind, if_pos label.colon_kind]
  rw [print_wrapper _ _ _ wrapper, printWrapper, children, List.flatMap_cons, List.flatMap_cons,
    List.flatMap_singleton, name, colon, wrapper_child_item settings context wrappable, label.colon_kind,
    behindLabel, List.append_assoc]
  rfl

/-- On the line of a wrapper an item begins with its first token. -/
theorem item_leads (settings : Settings) {item : Tree} (shaped : item.Shaped)
    (wrappable : item.kind.isWrappable = true) (place : Place) (wrapped : place.wrapped = true)
    (context : Context) :
    ∃ first rest, item.children = first :: rest ∧ Leads first ((part settings place item).print context) := by
  have begun : beginItem place context = [] := by rw [beginItem, if_pos wrapped]
  obtain node | property | wrapper := Kind.is_wrappable_iff.mp wrappable
  · have form := shaped.node node
    obtain ⟨first, rest, children⟩ := List.exists_cons_of_ne_nil (Tree.ne_nil_of_form rfl form)
    rw [children] at form
    exact ⟨first, rest, children, print_node_leads settings place context children begun node form⟩
  · obtain ⟨leading, form⟩ := shaped.property property
    obtain ⟨first, rest, children⟩ := List.exists_cons_of_ne_nil (Tree.ne_nil_of_form rfl form)
    rw [children] at form leading
    have code : first.kind ≠ .comment := by simpa using leading
    exact ⟨first, rest, children, print_property_leads settings place context children begun property code form⟩
  · obtain ⟨long, form⟩ := shaped.wrapper wrapper
    obtain ⟨first, rest, children⟩ := List.exists_cons_of_ne_nil (Tree.ne_nil_of_form rfl form)
    rw [children] at long form
    exact ⟨first, rest, children, print_wrapper_leads settings place context children begun wrapper long form⟩

/-! ### Messages -/

def Command.message? : Command → Option String
  | .report message => some message
  | _ => none

theorem after_messages (commands : List Command) (output : Output) :
    (output.after commands).messages = (commands.filterMap Command.message?).reverse ++ output.messages := by
  induction commands generalizing output with
  | nil => rfl
  | cons command rest induction =>
      have step : (output.step command).messages = (command.message?.toList ++ output.messages) := by
        cases command with
        | write text => rfl
        | report message => rfl
        | fail fault => rfl
        | separate =>
            rw [Output.step, Output.separate]
            split <;> rfl
        | space =>
            rw [Output.step, Output.space]
            split <;> rfl
      rw [Output.after_cons, induction, step]
      cases message : command.message? <;> simp [message]

theorem format_tree_reports {settings : Settings} {root : Tree}
    (complete : Complete (documentCommands settings root)) :
    (formatTree settings root).reports = (documentCommands settings root).filterMap Command.message? := by
  have messages := after_messages (documentCommands settings root) {}
  rw [formatTree, Output.run_of_complete complete]
  simp [Output.reports, messages]

/-! ### Commands with a label among them -/

/-- What the label adds to the commands of its item. -/
def labelWrites (name : String) : List Command :=
  [.write name, .write ": "]

/-- Behind a text with ink commands add the same whatever was written before it. -/
theorem after_ink {text : String} (ink : InkFirst text.toList) (later : List Command) :
    ∃ added : List Char, ∀ output : Output,
      (output.after (.write text :: later)).written = output.written ++ text.toList ++ added := by
  obtain ⟨gap, c, tail, _, inked, shape⟩ := ink
  obtain ⟨added, adds⟩ := after_behind later tail
  refine ⟨added, fun output => ?_⟩
  have behind : (output.write text).written = (output.written ++ gap) ++ c :: tail := by
    rw [Output.written_write, shape, List.append_assoc]
  rw [Output.after_cons, Output.step, adds _ _ c inked behind, Output.written_write]

theorem written_label_writes (output : Output) (name : String) :
    (output.after (labelWrites name)).written = output.written ++ name.toList ++ ": ".toList := by
  simp [labelWrites, Output.step]

theorem messages_label_writes (name : String) : (labelWrites name).filterMap Command.message? = [] := rfl

theorem complete_label_writes {front own : List Command} (complete : Complete (front ++ own)) (name : String) :
    Complete (front ++ labelWrites name ++ own) := by
  intro command member
  rw [List.mem_append, List.mem_append] at member
  rcases member with (before | label) | after
  · exact complete command (List.mem_append_left _ before)
  · exact complete_writes [name, ": "] command label
  · exact complete command (List.mem_append_right _ after)

theorem outcome_of_written {settings : Settings} {root : Tree}
    (complete : Complete (documentCommands settings root)) {text : String}
    (written : (({} : Output).after (documentCommands settings root)).written = text.toList) :
    (formatTree settings root).outcome = .ok text := by
  rw [format_tree_of_complete complete]
  exact congrArg Except.ok (String.toList_inj.mp written)

/-! ### Documents -/

theorem enclose_everywhere {rule : Tree → Prop} {path : List Frame} {item : Tree}
    (holds : (enclose path item).Everywhere rule) : item.Everywhere rule := by
  induction path with
  | nil => exact holds
  | cons frame path induction =>
      apply induction
      have below := (Tree.everywhere_iff.mp holds).2
      exact below _ (by rw [enclose, fill_children]; simp)

/-- The commands of a document with an item in it, and with a label in front of the item. -/
theorem commands_label (settings : Settings) (root : Frame) {path : List Frame}
    (hosted : hosts false path = true) {given : Tree} (named : given.named = true)
    (wrappable : given.kind.isWrappable = true) :
    ∃ front place context back, ∀ item, (seen given).Alike (seen item) →
      documentCommands settings (enclose (root :: path) item) =
          front ++ ((part settings (behindLabel place) item).print context ++ back) ∧
        ∀ label : Label, documentCommands settings (enclose (root :: path) (label.on item)) =
          front ++ labelWrites label.name.token ++
            ((part settings (behindLabel place) item).print context ++ back) := by
  obtain ⟨front, place, context, back, shape⟩ := document_surrounded settings wrappable named root hosted
  refine ⟨front ++ beginItem place context, place, context, back, fun item alike => ?_⟩
  have wrapped := seen_wrappable alike wrappable
  have begun := print_begun settings wrapped place (behindLabel place) rfl rfl context
  refine ⟨(shape item alike).trans ?_, fun label => ?_⟩
  · rw [begun]
    simp only [List.append_assoc]
  · apply (shape (label.on item) (label_seen label alike named wrappable)).trans
    rw [print_label settings label wrapped place context]
    simp only [labelWrites, List.append_assoc]

/-- **Labels are inserted and change nothing else.** An item may stand anywhere: at the
top, in the body of a node, in a branch or behind other wrappers. `front` is what
is printed before items of one inner kind in that place, and `back` begins with the
item's first word. A label in front of the item is printed between the two, and the
messages stay the same. -/
theorem format_tree_label_inserted (settings : Settings) (root : Frame) (path : List Frame) (kind : Kind)
    (hosted : hosts false path = true) :
    ∃ front : String, ∀ item : Tree, item.named = true → item.kind.isWrappable = true →
      item.innerKind = kind →
      (∀ child ∈ (enclose (root :: path) item).children, child.Everywhere Tree.Shaped) →
      ∃ back : String,
        (∀ first ∈ item.children.head?, first.kind.isSymbol = false → first.token.toList <+: back.toList) ∧
        (formatTree settings (enclose (root :: path) item)).outcome = .ok (front ++ back) ∧
        ∀ label : Label,
          (formatTree settings (enclose (root :: path) (label.on item))).outcome =
            .ok (front ++ label.name.token ++ ": " ++ back) ∧
          (formatTree settings (enclose (root :: path) (label.on item))).reports =
            (formatTree settings (enclose (root :: path) item)).reports := by
  by_cases possible : ∃ given : Tree, given.named = true ∧ given.kind.isWrappable = true ∧ given.innerKind = kind
  · obtain ⟨given, named, wrappable, inner⟩ := possible
    obtain ⟨front, place, context, rest, shape⟩ := commands_label settings root hosted named wrappable
    refine ⟨(({} : Output).after front).text, ?_⟩
    intro item itemNamed itemWrappable itemInner shaped
    have alike : (seen given).Alike (seen item) :=
      ⟨named.trans itemNamed.symm, inner.trans itemInner.symm, .inr ⟨wrappable, itemWrappable⟩⟩
    have inside : (enclose path item).Everywhere Tree.Shaped :=
      shaped _ (by rw [enclose, fill_children]; simp)
    have complete : Complete (documentCommands settings (enclose (root :: path) item)) := by
      apply document_complete
      intro child member
      exact Tree.spreads.mono (fun _ => Tree.filled_of_shaped) (shaped child member)
    obtain ⟨plain, labelled⟩ := shape item alike
    obtain ⟨first, others, children, leads⟩ := item_leads settings
      (Tree.spreads.self (enclose_everywhere inside)) itemWrappable (behindLabel place) rfl context
    obtain ⟨text, later, own, ink, word⟩ := leads.append rest
    -- behind its first text the item does not see whether a label came before it
    obtain ⟨added, adds⟩ := after_ink ink later
    refine ⟨String.ofList (text.toList ++ added), ?_, ?_, fun label => ?_⟩
    · intro head member symbol
      rw [children, List.head?_cons, Option.mem_some_iff] at member
      subst member
      rw [String.toList_ofList]
      exact (word symbol).trans (List.prefix_append _ _)
    · apply outcome_of_written complete
      rw [plain, own, Output.after_append, adds, String.toList_append, String.toList_ofList, List.append_assoc]
      rfl
    · have labelComplete : Complete (documentCommands settings (enclose (root :: path) (label.on item))) := by
        rw [plain] at complete
        rw [labelled label]
        exact complete_label_writes complete _
      constructor
      · apply outcome_of_written labelComplete
        rw [labelled label, own, Output.after_append, adds, Output.after_append, written_label_writes]
        simp only [String.toList_append, String.toList_ofList, List.append_assoc]
        rfl
      · rw [format_tree_reports complete, format_tree_reports labelComplete, plain, labelled label]
        simp only [List.filterMap_append, messages_label_writes, List.append_nil]
  · refine ⟨"", fun item named wrappable inner => ?_⟩
    exact absurd ⟨item, named, wrappable, inner⟩ possible

/-- A keyword before an item in a keymap, in a conditional. -/
def keywordPath : List Frame :=
  [⟨"preproc_ifdef", "", true, 0, 0, [.leaf .unknown "#ifdef", .leaf .identifier "KEYS"],
    [.branch "#endif" "#endif" false 0 0 []]⟩,
   ⟨"node", "", true, 0, 0, [.leaf .identifier "keymap", .mark .leftBrace], [.mark .rightBrace, .mark .semicolon]⟩,
   ⟨"omit_if_no_ref", "", true, 0, 0, [.leaf .unknown "/omit-if-no-ref/"], []⟩]

def bindingsItem : Tree :=
  .spanning .property
    [.leaf .identifier "bindings", .mark .equals,
     .spanning .integerCells [.mark .leftAngle, .leaf .reference "&a", .leaf .reference "&b", .mark .rightAngle],
     .mark .semicolon]

def layerLabel : Label where
  text := ""
  start := 0
  stop := 0
  name := .leaf .identifier " layer "
  colon := .mark .colon
  name_kind := Tree.leaf_kind _ _
  colon_kind := Tree.mark_kind _

/-- A document with a declaration before the item and a comment after it. -/
def declaredRoot : Frame :=
  ⟨"document", "", true, 0, 0, [.spanning .fileVersion [.leaf .unknown "/dts-v1/", .mark .semicolon]],
    [.leaf .comment "// end"]⟩

theorem format_tree_label_inserted_sample :
    hosts false keywordPath = true ∧ bindingsItem.named = true ∧ bindingsItem.kind.isWrappable = true ∧
      bindingsItem.innerKind = .property ∧
      (∀ child ∈ (enclose (declaredRoot :: keywordPath) bindingsItem).children, child.Everywhere Tree.Shaped) ∧
      ∃ front back : String,
        "bindings".toList <+: back.toList ∧
        (formatTree padSettings (enclose (declaredRoot :: keywordPath) bindingsItem)).outcome = .ok (front ++ back) ∧
        (formatTree padSettings (enclose (declaredRoot :: keywordPath) (layerLabel.on bindingsItem))).outcome =
          .ok (front ++ "layer" ++ ": " ++ back) := by
  have hosted : hosts false keywordPath = true := by decide +kernel
  have named : bindingsItem.named = true := rfl
  have wrappable : bindingsItem.kind.isWrappable = true := by decide +kernel
  have inner : bindingsItem.innerKind = .property := by decide +kernel
  have shaped : ∀ child ∈ (enclose (declaredRoot :: keywordPath) bindingsItem).children,
      child.Everywhere Tree.Shaped := by decide +kernel
  have token : layerLabel.name.token = "layer" := by decide +kernel
  obtain ⟨front, each⟩ := format_tree_label_inserted padSettings declaredRoot keywordPath .property hosted
  obtain ⟨back, begins, plain, labels⟩ := each bindingsItem named wrappable inner shaped
  have first : "bindings".toList <+: back.toList := begins (.leaf .identifier "bindings") rfl (by decide +kernel)
  have labelled := (labels layerLabel).1
  rw [token] at labelled
  exact ⟨hosted, named, wrappable, inner, shaped, front, back, first, plain, labelled⟩

end Printer

end DevicetreeFormat
