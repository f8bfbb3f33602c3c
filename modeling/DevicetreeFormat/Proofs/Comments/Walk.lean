import DevicetreeFormat.Proofs.Comments.Lines

/-!
# The walk around a comment

What a node hands to its rule when a line comment stands somewhere below it: its
other children in their places, which do not depend on the comment, and the child
above the comment. A node takes its name from a token, so no comment makes a node
a keymap or a property a list of bindings.

The second half draws from the grammar what stands after a comment: in headers of
nodes and behind labels there is always something left to print on the line.
-/

namespace DevicetreeFormat

set_option autoImplicit false

open Text

@[simp] theorem Tree.cell_token (tree : Tree) : tree.cell.token = tree.token := rfl

namespace Printer

open DevicetreeFormat.Frame

section

variable (settings : Settings) (path : List Frame)

theorem neighbour_plug (note other : LineComment) (rest : List Tree) :
    neighbour? (plug path note :: rest) = neighbour? (plug path other :: rest) := by
  rw [neighbour?, neighbour?, plug_kind, plug_kind, plug_named path note other,
    plug_inner_kind path note other]

/-- The children around a comment in their places. -/
theorem parts_plug (kind : Kind) (parent : Place) (earlier : Option Kind) (before after : List Tree)
    (given : LineComment) :
    ∃ front last, front.map Part.toCell = before.map Tree.cell ∧ ∀ note,
      parts settings kind parent earlier (before ++ plug path note :: after) =
        front ++ part settings (childPlace kind parent last (neighbour? after)) (plug path note) ::
          parts settings kind parent (some (topKind path)) after := by
  induction before generalizing earlier with
  | nil =>
      refine ⟨[], earlier, rfl, fun note => ?_⟩
      rw [List.nil_append, parts, plug_kind]
      rfl
  | cons tree rest induction =>
      obtain ⟨front, last, cells, split⟩ := induction (some tree.kind)
      -- a place shows of the next child only what no comment below it changes
      have next : ∀ note, neighbour? (rest ++ plug path note :: after) =
          neighbour? (rest ++ plug path given :: after) := by
        intro note
        cases rest with
        | nil => exact neighbour_plug path note given after
        | cons second others => rfl
      refine ⟨part settings (childPlace kind parent earlier (neighbour? (rest ++ plug path given :: after)))
        tree :: front, last, by rw [List.map_cons, List.map_cons, cells, part_cell], fun note => ?_⟩
      rw [List.cons_append, parts, next, split]
      rfl

theorem inner_plug (frame : Frame) (place : Place) (given : LineComment) :
    ∃ front last, front.map Part.toCell = frame.before.map Tree.cell ∧ ∀ note,
      inner settings place (plug (frame :: path) note) =
        front ++ part settings (childPlace frame.kind place last (neighbour? frame.after)) (plug path note) ::
          parts settings frame.kind place (some (topKind path)) frame.after :=
  parts_plug settings path frame.kind place none frame.before frame.after given

theorem cells_plug (frame : Frame) (note : LineComment) :
    (plug (frame :: path) note).children.map Tree.cell =
      frame.before.map Tree.cell ++ (plug path note).cell :: frame.after.map Tree.cell := by
  rw [plug, fill_children, List.map_append, List.map_cons]

end

/-! ### Names -/

/-- Whether a node or property takes its name from a later token. -/
def passesName (kind : Kind) (rest : List Tree) : Bool :=
  kind = .colon || kind = .leftBrace || kind = .equals || kind = .semicolon ||
    (rest.head?.map Tree.kind) = some .colon

theorem name_among_cons (tree : Tree) (rest : List Tree) :
    nameAmong (tree :: rest) = if passesName tree.kind rest then nameAmong rest else tree.token := by
  rw [nameAmong, passesName]
  split <;> simp_all

theorem name_among_plug (path : List Frame) (before after : List Tree) {key : String}
    (other : isLineComment key = false) (note given : LineComment) :
    nameAmong (before ++ plug path note :: after) = key ↔
      nameAmong (before ++ plug path given :: after) = key := by
  induction before with
  | nil =>
      rw [List.nil_append, List.nil_append, name_among_cons, name_among_cons, plug_kind, plug_kind]
      split
      · rfl
      · -- the comment itself would be the name, and no key is a comment
        cases path with
        | nil => exact iff_of_false (note.strip_ne other) (given.strip_ne other)
        | cons frame path => rfl
  | cons tree rest induction =>
      have next : passesName tree.kind (rest ++ plug path note :: after) =
          passesName tree.kind (rest ++ plug path given :: after) := by
        cases rest <;> simp [passesName]
      rw [List.cons_append, List.cons_append, name_among_cons, name_among_cons, next]
      split
      · exact induction
      · rfl

theorem body_context_plug (settings : Settings) (frame : Frame) (path : List Frame) (place : Place)
    (context : Context) (note given : LineComment) :
    bodyContext (inner settings place (plug (frame :: path) note)) context =
      bodyContext (inner settings place (plug (frame :: path) given)) context := by
  rw [bodyContext, bodyContext, inner, inner, name_of_parts, name_of_parts]
  exact if_congr (name_among_plug path frame.before frame.after rfl note given) rfl rfl

theorem value_context_plug (settings : Settings) (frame : Frame) (path : List Frame) (place : Place)
    (context : Context) (note given : LineComment) :
    valueContext (inner settings place (plug (frame :: path) note)) context =
      valueContext (inner settings place (plug (frame :: path) given)) context := by
  rw [valueContext, valueContext, inner, inner, name_of_parts, name_of_parts]
  exact if_congr (name_among_plug path frame.before frame.after rfl note given) rfl rfl

end Printer

/-! ### What the grammar puts after a comment -/

namespace Tree

theorem is_code_of_kind {tree : Tree} (code : tree.kind ≠ .comment) : tree.isCode = true := by
  simpa [isCode] using code

theorem ne_nil_of_form {form : List Tree → Bool} (none : form [] = false) {trees : List Tree}
    (holds : form trees = true) : trees ≠ [] := by
  rintro rfl
  rw [none] at holds
  cases holds

/-- No node begins with a comment. -/
theorem exists_first {tree : Tree} (commented : tree.Commented) (filled : tree.plain.children ≠ []) :
    ∃ first rest, tree.children = first :: rest ∧ first.kind ≠ .comment ∧
      tree.plain.children = first :: rest.filter isCode := by
  rw [plain_children] at filled ⊢
  have some_child : tree.children ≠ [] := fun nothing => filled (by rw [nothing, List.filter_nil])
  obtain ⟨first, rest, shape⟩ := List.exists_cons_of_ne_nil some_child
  have leading := commented.leading
  rw [shape] at leading
  have code : first.kind ≠ .comment := by simpa using leading
  exact ⟨first, rest, shape, code, by rw [shape, List.filter_cons_of_pos (is_code_of_kind code)]⟩

theorem is_node_form_token {front rest : List Tree} {tree : Tree}
    (form : isNodeForm (front ++ tree :: rest) = true) (header : ∀ token ∈ front, token.kind ≠ .leftBrace)
    (other : tree.kind ≠ .leftBrace) : OneLine tree.text := by
  induction front with
  | nil =>
      rw [List.nil_append, isNodeForm, if_neg other, Bool.and_eq_true, decide_eq_true_eq] at form
      exact form.1
  | cons first later induction =>
      rw [List.cons_append, isNodeForm, if_neg (header first (by simp)), Bool.and_eq_true] at form
      exact induction form.2 fun token member => header token (by simp [member])

theorem is_wrapper_form_child {front rest : List Tree} {tree : Tree}
    (form : isWrapperForm (front ++ tree :: rest) = true) :
    if rest.isEmpty then tree.kind.isWrappable = true
    else tree.kind.isWrappable = false ∧ OneLine tree.text := by
  induction front with
  | nil =>
      rw [List.nil_append, isWrapperForm] at form
      split at form
      · next last => rwa [if_pos last]
      · next more =>
          rw [Bool.and_eq_true, Bool.and_eq_true, decide_eq_true_eq, Bool.not_eq_true'] at form
          rw [if_neg more]
          exact form.1
  | cons first later induction =>
      rw [List.cons_append, isWrapperForm, if_neg (by simp), Bool.and_eq_true] at form
      exact induction form.2

theorem is_property_form_unended {front rest : List Tree} {seenEquals : Bool}
    (form : isPropertyForm seenEquals (front ++ rest) = true) (more : rest ≠ []) :
    ∀ tree ∈ front, tree.kind ≠ .semicolon := by
  induction front generalizing seenEquals with
  | nil => intro tree member; cases member
  | cons first later induction =>
      have step : first.kind ≠ .semicolon ∧ ∃ seen, isPropertyForm seen (later ++ rest) = true := by
        rw [List.cons_append] at form
        by_cases ending : first.kind = .semicolon
        · rw [is_property_form_end ending] at form
          simp [more] at form
        · by_cases comment : first.kind = .comment
          · rw [is_property_form_comment comment] at form
            exact ⟨ending, _, form⟩
          · rw [is_property_form_child ending comment, Bool.and_eq_true] at form
            exact ⟨ending, _, form.2⟩
      obtain ⟨other, seen, further⟩ := step
      intro tree member
      rcases List.mem_cons.mp member with rfl | inside
      · exact other
      · exact induction further tree inside

end Tree

namespace Frame

variable {frame : Frame} {tree : Tree} (commented : (frame.fill tree).Commented)

theorem plain_fill : (frame.fill tree).plain.children =
    frame.before.filter Tree.isCode ++ (tree :: frame.after).filter Tree.isCode := by
  rw [Tree.plain_children, fill_children, List.filter_append]

theorem plain_fill_comment (comment : tree.kind = .comment) : (frame.fill tree).plain.children =
    frame.before.filter Tree.isCode ++ frame.after.filter Tree.isCode := by
  rw [plain_fill, List.filter_cons_of_neg (by simp [Tree.isCode, comment])]

include commented

theorem code_behind (plain : frame.kind.isBranch = false) :
    (tree :: frame.after).filter Tree.isCode ≠ [] := by
  have trailing := commented.trailing plain
  obtain ⟨front, last, shape⟩ := List.eq_nil_or_concat (tree :: frame.after) |>.resolve_left (by simp)
  rw [List.concat_eq_append] at shape
  rw [fill_children, shape, ← List.append_assoc, List.getLast?_concat] at trailing
  apply List.ne_nil_of_mem (a := last)
  rw [List.mem_filter, shape]
  exact ⟨by simp, Tree.is_code_of_kind (by simpa using trailing)⟩

section

variable (comment : tree.kind = .comment)

include comment

theorem code_after (plain : frame.kind.isBranch = false) : frame.after.filter Tree.isCode ≠ [] := by
  have behind := code_behind commented plain
  rwa [List.filter_cons_of_neg (by simp [Tree.isCode, comment])] at behind

theorem before_ne_nil : frame.before ≠ [] := by
  intro nothing
  have leading := commented.leading
  rw [fill_children, nothing] at leading
  simp [comment] at leading

theorem token_after_header (header : frame.kind.isHeader = true) :
    ∃ token ∈ frame.after, OneLine token.text := by
  have plain : frame.kind.isBranch = false := by
    cases known : frame.kind <;> rw [known] at header <;> cases header <;> rfl
  obtain ⟨token, rest, shape⟩ := List.exists_cons_of_ne_nil (code_after commented comment plain)
  have member : token ∈ frame.after.filter Tree.isCode := by rw [shape]; simp
  have lines := (commented.shaped.header (by simp [header])).2
  refine ⟨token, (List.mem_filter.mp member).1, lines token ?_⟩
  rw [plain_fill_comment comment]
  exact List.mem_append_right _ member

theorem unended_statement (statement : frame.kind.isStatement = true) :
    ∀ token ∈ frame.before, token.kind ≠ .semicolon := by
  have plain : frame.kind.isBranch = false := by
    cases known : frame.kind <;> rw [known] at statement <;> cases statement <;> rfl
  have after := code_after commented comment plain
  obtain ⟨_, once, _⟩ := commented.shaped.statement (by rwa [Tree.plain_kind])
  have inside := once.2
  rw [plain_fill_comment comment, List.map_append,
    List.dropLast_append_of_ne_nil (by simpa using after), List.mem_append, not_or] at inside
  intro token member semicolon
  apply inside.1
  rw [List.mem_map]
  refine ⟨token, List.mem_filter.mpr ⟨member, Tree.is_code_of_kind ?_⟩, semicolon⟩
  rw [semicolon]
  decide

theorem exists_next (plain : frame.kind.isBranch = false) : ∃ next rest, frame.after = next :: rest := by
  apply List.exists_cons_of_ne_nil
  intro nothing
  exact code_after commented comment plain (by rw [nothing]; rfl)

/-- Before its opening brace a node has tokens. -/
theorem token_after_node (node : frame.kind = .node) (header : ∀ token ∈ frame.before, token.kind ≠ .leftBrace)
    {next : Tree} {rest : List Tree} (after : frame.after = next :: rest) (line : next.Commented)
    (other : next.kind ≠ .leftBrace) : OneLine next.text := by
  by_cases also : next.kind = .comment
  · exact Tree.commented_line line also
  · have form := commented.shaped.node (by rwa [Tree.plain_kind])
    rw [plain_fill_comment comment, after,
      List.filter_cons_of_pos (Tree.is_code_of_kind also)] at form
    apply Tree.is_node_form_token form _ other
    intro token member
    exact header token (List.mem_filter.mp member).1

/-- In a wrapper a comment has a token or the wrapped item after it. -/
theorem child_after_wrapper (wrapper : frame.kind.isWrapper = true) {next : Tree} {rest : List Tree}
    (after : frame.after = next :: rest) (line : next.Commented) :
    next.kind.isWrappable = true ∨ OneLine next.text := by
  by_cases also : next.kind = .comment
  · exact .inr (Tree.commented_line line also)
  · have form := (commented.shaped.wrapper (by rwa [Tree.plain_kind])).2
    rw [plain_fill_comment comment, after,
      List.filter_cons_of_pos (Tree.is_code_of_kind also)] at form
    have child := Tree.is_wrapper_form_child form
    split at child
    · exact .inl child
    · exact .inr child.2

end

theorem unended_property (property : frame.kind = .property) :
    ∀ token ∈ frame.before, token.kind ≠ .semicolon := by
  have behind := code_behind commented (by rw [property]; rfl)
  have form := (commented.shaped.property (by rwa [Tree.plain_kind])).2
  rw [plain_fill] at form
  intro token member semicolon
  refine Tree.is_property_form_unended form behind token ?_ semicolon
  refine List.mem_filter.mpr ⟨member, Tree.is_code_of_kind ?_⟩
  rw [semicolon]
  decide

end Frame

end DevicetreeFormat
