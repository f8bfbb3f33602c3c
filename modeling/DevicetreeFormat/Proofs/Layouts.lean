import DevicetreeFormat.Proofs.Similar

/-!
# What the layout reaches

The active layout is read in one place, the binding tables of a keymap, and the
switch for messages about unknown nodes adds messages only. So a document without
binding tables has the same text under all settings that indent alike, and every
document has the same text under layouts with the same grid.

The two runs are compared command by command, messages left aside.
-/

namespace DevicetreeFormat.Printer

set_option autoImplicit false

def Command.isReport : Command → Bool
  | .report _ => true
  | _ => false

def silent (commands : List Command) : List Command :=
  commands.filter fun command => !command.isReport

/-- Commands that do the same to the text. -/
def SameEffect (left right : List Command) : Prop :=
  silent left = silent right

theorem silent_cons {command : Command} (text : command.isReport = false) (rest : List Command) :
    silent (command :: rest) = command :: silent rest := by
  rw [silent, List.filter_cons_of_pos (by rw [text]; rfl)]
  rfl

theorem agreement_same_effect : Agreement SameEffect := by
  refine ⟨fun _ => rfl, ?_⟩
  intro left right laterLeft laterRight first second
  rw [SameEffect, silent, silent, List.filter_append, List.filter_append]
  exact congrArg₂ (· ++ ·) first second

/-! ### Runs without messages -/

theorem separate_fragments {first second : Output} (same : first.fragments = second.fragments) :
    first.separate.fragments = second.separate.fragments := by
  obtain ⟨fragments, messages⟩ := first
  obtain ⟨written, others⟩ := second
  cases same
  rw [Output.separate, Output.separate, apply_ite Output.fragments, apply_ite Output.fragments]
  rfl

theorem space_fragments {first second : Output} (same : first.fragments = second.fragments) :
    first.space.fragments = second.space.fragments := by
  obtain ⟨fragments, messages⟩ := first
  obtain ⟨written, others⟩ := second
  cases same
  rw [Output.space, Output.space, apply_ite Output.fragments, apply_ite Output.fragments]
  rfl

/-- Messages change neither what is written nor whether the run fails. -/
theorem run_silent (commands : List Command) (first second : Output)
    (same : first.fragments = second.fragments) :
    (first.run commands).1.fragments = (second.run (silent commands)).1.fragments ∧
      (first.run commands).2 = (second.run (silent commands)).2 := by
  induction commands generalizing first second with
  | nil => exact ⟨same, rfl⟩
  | cons command rest induction =>
      cases command with
      | write text =>
          rw [silent_cons rfl, Output.run, Output.run]
          exact induction _ _ (congrArg (text :: ·) same)
      | separate =>
          rw [silent_cons rfl, Output.run, Output.run]
          exact induction _ _ (separate_fragments same)
      | space =>
          rw [silent_cons rfl, Output.run, Output.run]
          exact induction _ _ (space_fragments same)
      | report message => exact induction (first.report message) second same
      | fail fault => exact ⟨same, rfl⟩

theorem outcome_of_same_effect {near far : Settings} {root : Tree}
    (same : SameEffect (documentCommands near root) (documentCommands far root)) :
    (formatTree near root).outcome = (formatTree far root).outcome := by
  obtain ⟨nearText, nearFault⟩ := run_silent (documentCommands near root) {} {} rfl
  obtain ⟨farText, farFault⟩ := run_silent (documentCommands far root) {} {} rfl
  rw [← same] at farText farFault
  have fragments := nearText.trans farText.symm
  have faults := nearFault.trans farFault.symm
  rw [formatTree, formatTree]
  generalize Output.run {} (documentCommands near root) = ran at fragments faults ⊢
  generalize Output.run {} (documentCommands far root) = other at fragments faults ⊢
  obtain ⟨output, stopped⟩ := ran
  obtain ⟨otherOutput, otherStopped⟩ := other
  have stops : stopped = otherStopped := faults
  rw [← stops]
  cases stopped with
  | none => exact congrArg (fun written => Except.ok (String.join (List.reverse written))) fragments
  | some fault => rfl

/-! ### Binding tables -/

theorem render_of_grid {layout other : Layout} (grid : layout.cells = other.cells)
    (rows : layout.rowCount = other.rowCount) (cells : List Cell) (context : Context) :
    Table.render cells layout context = Table.render cells other context := by
  rw [Table.render, Table.render, Layout.rowSize, Layout.rowSize, grid, rows]

/-- Layouts give a cell list the same text, up to messages, if they give it the same table. -/
theorem print_cells_same_effect {layout other : Layout} {cells : List Cell} {context : Context}
    (same : Table.render cells layout context = Table.render cells other context) :
    SameEffect (printCells layout cells context) (printCells other cells context) := by
  have messages : ∀ message : Option String, silent (message.toList.map .report) = [] := by
    intro message
    cases message <;> rfl
  rw [printCells, printCells, same]
  split
  · rw [SameEffect, silent, silent, List.filter_append, List.filter_append]
    exact congrArg₂ (· ++ ·) ((messages _).trans (messages _).symm) rfl
  · rfl

theorem comparable_same_effect (near far : Settings) {condition : List Cell → Prop}
    (tables : ∀ cells context, condition cells →
      Table.render cells near.activeLayout context = Table.render cells far.activeLayout context) :
    Comparable SameEffect condition near far := by
  refine ⟨agreement_same_effect, ?_, ?_⟩
  · intro cells context held
    exact print_cells_same_effect (tables cells context held)
  · intro message
    cases near.warnUnhandled <;> cases far.warnUnhandled <;> rfl

/-! ### Documents -/

/-- Settings that indent alike give a document the same outcome if they give its
binding tables the same text. -/
theorem outcome_of_tables {near far : Settings} {root : Tree} {condition : List Cell → Prop}
    (units : near.indentUnit = far.indentUnit)
    (tables : ∀ cells context, condition cells →
      Table.render cells near.activeLayout context = Table.render cells far.activeLayout context)
    (lists : Tree.TableListsIn condition false false root.children) :
    (formatTree near root).outcome = (formatTree far root).outcome := by
  have comparable := comparable_same_effect near far tables
  have similar := parts_similar comparable root.kind (Place.alike_refl {}) none none rfl root.children lists
  apply outcome_of_same_effect
  rw [documentCommands, documentCommands, units]
  apply print_agree similar comparable.agreement
  exact ⟨fun on => absurd on Bool.false_ne_true, fun on => absurd on Bool.false_ne_true⟩

/-- The layout reaches the text through binding tables only: two settings that indent
alike give the same text, or the same fault, to a document none of whose cell lists
lies in a node `keymap` and in a property `bindings`, and to every document if the
grids of their layouts are equal. -/
theorem outcome_layout_independent (near far : Settings) (root : Tree)
    (units : near.indentUnit = far.indentUnit)
    (unseen : Tree.TableListsIn (fun _ => False) false false root.children ∨
      near.activeLayout.cells = far.activeLayout.cells ∧
        near.activeLayout.rowCount = far.activeLayout.rowCount) :
    (formatTree near root).outcome = (formatTree far root).outcome := by
  rcases unseen with tableless | ⟨grid, rows⟩
  · exact outcome_of_tables units (fun _ _ impossible => impossible.elim) tableless
  · have anything : Tree.TableListsIn (fun _ => True) false false root.children :=
      table_lists_in_of_forall (fun _ => trivial) _ _ _
    exact outcome_of_tables units (fun cells context _ => render_of_grid grid rows cells context) anything

/-- A keymap whose table lies in another property, and bindings outside the keymap
behind a node of unknown kind. -/
def tablelessSample : Tree :=
  .spanning .document
    [.spanning .node
      [.leaf .identifier "keymap", .mark .leftBrace,
       .spanning .property
        [.leaf .identifier "combos", .mark .equals,
         .spanning .integerCells [.mark .leftAngle, .leaf .integerLiteral "1", .mark .rightAngle],
         .mark .semicolon],
       .mark .rightBrace, .mark .semicolon],
     .spanning .unknown [.leaf .identifier "odd"],
     .spanning .property
      [.leaf .identifier "bindings", .mark .equals,
       .spanning .integerCells [.mark .leftAngle, .leaf .reference "&a", .mark .rightAngle],
       .mark .semicolon]]

/-- A table with more bindings than the small grids below have keys. -/
def tableSample : Tree :=
  .spanning .document
    [.spanning .node
      [.leaf .identifier "keymap", .mark .leftBrace,
       .spanning .property
        [.leaf .identifier "bindings", .mark .equals,
         .spanning .integerCells
          [.mark .leftAngle, .leaf .reference "&a", .leaf .reference "&b", .leaf .reference "&c",
           .mark .rightAngle],
         .mark .semicolon],
       .mark .rightBrace, .mark .semicolon]]

def gridSettings (name : String) (warnUnhandled : Bool) (cells : List Bool) (filled : cells ≠ []) :
    Settings where
  layout := name
  indentUnit := " "
  warnUnhandled
  layouts := [(name,
    { name, cells, rowCount := 1, cells_nonempty := filled, rowCount_pos := Nat.one_pos, rows_even := Nat.mod_one _ })]
  layout_known := by simp [Layout.find?]
  indentUnit_blank := rfl

theorem outcome_layout_independent_samples :
    (Tree.TableListsIn (fun _ => False) false false tablelessSample.children ∧
      (formatTree (gridSettings "pair" true [true, true] (by simp)) tablelessSample).outcome =
        (formatTree (gridSettings "gap" false [false] (by simp)) tablelessSample).outcome) ∧
    (¬ Tree.TableListsIn (fun _ => False) false false tableSample.children ∧
      (formatTree (gridSettings "left" true [true, true] (by simp)) tableSample).outcome =
        (formatTree (gridSettings "right" false [true, true] (by simp)) tableSample).outcome) := by
  have tableless : Tree.TableListsIn (fun _ => False) false false tablelessSample.children := by
    decide +kernel
  have table : ¬ Tree.TableListsIn (fun _ => False) false false tableSample.children := by
    decide +kernel
  refine ⟨⟨tableless, ?_⟩, table, ?_⟩
  · exact outcome_layout_independent _ _ tablelessSample rfl (.inl tableless)
  · exact outcome_layout_independent _ _ tableSample rfl (.inr ⟨rfl, rfl⟩)

end DevicetreeFormat.Printer
