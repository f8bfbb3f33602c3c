import DevicetreeFormat.Proofs.Comments.Bodies
import DevicetreeFormat.Proofs.Sequence

/-!
# The fate of comments in documents

A line comment does not always keep its line to itself. In the tokens of a
declaration or a statement, behind a label, in the header of a node and among the
operands of a directive, what follows the comment is printed on its line and is
then read as part of it. Everywhere else a line break follows the comment, or its
node is not read.
-/

namespace DevicetreeFormat

set_option autoImplicit false

open Text

/-- What becomes of a comment in the texts of a family of documents, one for each
comment: the comment is found at one place in all of them, or in none. -/
def Fate.Describes : Fate → (LineComment → Except Printer.Fault String) → Prop
  | .ended, print =>
      ∃ form, Shown form ∧ ∃ front back, ∀ note,
        print note = .ok (front ++ form note.text ++ "\n" ++ back)
  | .joined, print =>
      ∃ front, ∀ note, ∃ rest, InkFirst rest.toList ∧ print note = .ok (front ++ strip note.text ++ rest)
  | .unread, print => ∃ text, ∀ note, print note = .ok text

namespace Printer

open DevicetreeFormat.Frame

theorem describes_of_keeps {fate : Fate} {family : LineComment → List Command} (keeps : Keeps fate family)
    (given : LineComment) : fate.Describes fun note => .ok (({} : Output).after (family note)).text := by
  cases keeps with
  | ended shown each =>
      obtain ⟨front, back, written⟩ := each {}
      refine ⟨_, shown, String.ofList front, String.ofList back, fun note => congrArg Except.ok ?_⟩
      rw [← String.toList_inj]
      refine (written note).trans ?_
      simp
  | joined each =>
      obtain ⟨front, each⟩ := each {}
      refine ⟨String.ofList front, fun note => ?_⟩
      obtain ⟨rest, ink, written⟩ := each note
      refine ⟨String.ofList rest, by rwa [String.toList_ofList], congrArg Except.ok ?_⟩
      rw [← String.toList_inj]
      refine written.trans ?_
      simp
  | unread same =>
      refine ⟨(({} : Output).after (family given)).text, fun note => ?_⟩
      simp only [same note given]

theorem plug_filled {path : List Frame} {given : LineComment}
    (filled : (plug path given).Everywhere Tree.Filled) (note : LineComment) :
    (plug path note).Everywhere Tree.Filled := by
  induction path with
  | nil => exact filled
  | cons frame path induction =>
      obtain ⟨_, children⟩ := Tree.everywhere_iff.mp filled
      have below := induction (children _ (by simp [plug]))
      rw [Tree.everywhere_iff]
      constructor
      · intro _
        simp [plug]
      · intro child member
        rw [plug, fill_children, List.mem_append, List.mem_cons] at member
        rcases member with before | rfl | after
        · exact children child (by simp [plug, before])
        · exact below
        · exact children child (by simp [plug, after])

theorem document_keeps (settings : Settings) {root : Frame} {path : List Frame} {given : LineComment}
    (commented : (plug path given).Everywhere Tree.Commented) :
    Keeps (fate false path) fun note => documentCommands settings (plug (root :: path) note) := by
  obtain ⟨front, last, _, split⟩ := parts_plug settings path root.kind {} none root.before root.after given
  have shape : ∀ note, documentCommands settings (plug (root :: path) note) =
      (front.flatMap fun item => item.print (rootContext settings)) ++
        ((part settings (childPlace root.kind {} last (neighbour? root.after)) (plug path note)).print
          (rootContext settings) ++
        (parts settings root.kind {} (some (topKind path)) root.after).flatMap fun item =>
          item.print (rootContext settings)) := by
    intro note
    have commands : documentCommands settings (plug (root :: path) note) =
        (parts settings root.kind {} none (root.before ++ plug path note :: root.after)).flatMap
          fun item => item.print (rootContext settings) := rfl
    rw [commands, split, List.flatMap_append, List.flatMap_cons]
  apply keeps_congr shape
  exact keeps_last _ (keeps_first _ ((path_keeps settings commented).1 _ _))

/-- **Which line comments swallow what follows them.** For a document with comments
between any two children of any node, the fate of each line comment is the one
read off its path, and the printed text shows it: the comment is followed by a
line break, or by ink on its line, or the text does not depend on it. -/
theorem format_tree_comment_fate (settings : Settings) (root : Frame) (path : List Frame)
    (given : LineComment) (document : root.kind = .document)
    (commented : ∀ item ∈ (plug (root :: path) given).children, item.Everywhere Tree.Commented) :
    (fate false (root :: path)).Describes fun note =>
      (formatTree settings (plug (root :: path) note)).outcome := by
  have below := commented (plug path given) (by simp [plug])
  -- another comment in the gap leaves every node with the children it needs
  have complete : ∀ note, Complete (documentCommands settings (plug (root :: path) note)) := by
    intro note
    apply document_complete
    have filled : ∀ item : Tree, item.Everywhere Tree.Commented → item.Everywhere Tree.Filled :=
      fun _ => Tree.spreads.mono fun _ => Tree.filled_of_commented
    intro item member
    rw [plug, fill_children, List.mem_append, List.mem_cons] at member
    rcases member with before | rfl | after
    · exact filled item (commented item (by simp [plug, before]))
    · exact plug_filled (filled _ below) note
    · exact filled item (commented item (by simp [plug, after]))
  have printed : (fun note => (formatTree settings (plug (root :: path) note)).outcome) =
      fun note => .ok (({} : Output).after (documentCommands settings (plug (root :: path) note))).text :=
    funext fun note => format_tree_of_complete (complete note)
  have fated : fate false (root :: path) = fate false path := by simp only [fate, document]
  rw [printed, fated]
  exact describes_of_keeps (document_keeps settings below) given

/-- A comment behind the keyword of a statement in a node. -/
def pathSample : List Frame :=
  [⟨"node", "", true, 0, 0, [.leaf .identifier "n", .mark .leftBrace], [.mark .rightBrace, .mark .semicolon]⟩,
   ⟨"delete_node", "", true, 0, 0, [.leaf .unknown "/delete-node/"],
    [.leaf .reference "&foo", .mark .semicolon]⟩]

/-- A document with a comment before the node. -/
def rootSample : Frame :=
  ⟨"document", "", true, 0, 0, [.leaf .comment "/* top */"], []⟩

def noteSample : LineComment where
  text := "//note"
  start := 0
  stop := 0
  slashes := by decide +kernel
  line := by decide +kernel

theorem format_tree_comment_fate_sample :
    rootSample.kind = .document ∧
      (∀ item ∈ (plug (rootSample :: pathSample) noteSample).children, item.Everywhere Tree.Commented) ∧
      fate false (rootSample :: pathSample) = .joined ∧
      (fate false (rootSample :: pathSample)).Describes fun note =>
        (formatTree sampleSettings (plug (rootSample :: pathSample) note)).outcome := by
  have document : rootSample.kind = .document := by decide +kernel
  have commented : ∀ item ∈ (plug (rootSample :: pathSample) noteSample).children,
      item.Everywhere Tree.Commented := by decide +kernel
  have joined : fate false (rootSample :: pathSample) = .joined := by decide +kernel
  exact ⟨document, commented, joined,
    format_tree_comment_fate sampleSettings rootSample pathSample noteSample document commented⟩

/-- The node to delete is printed behind the comment, on its line. -/
theorem format_tree_swallows_reference :
    (formatTree sampleSettings (plug (rootSample :: pathSample) noteSample)).outcome =
      .ok "/* top */\nn \x7b\n\t/delete-node/ //note &foo;\n\x7d;\n" := by
  decide +kernel

end Printer

end DevicetreeFormat
