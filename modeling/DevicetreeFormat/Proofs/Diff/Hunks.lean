import DevicetreeFormat.Diff.Hunk
import DevicetreeFormat.Proofs.Diff.Edits

/-!
# Hunks lead from the old lines to the new ones

What lies between two hunks are lines that stay, so the hunks alone tell what changes.
`Leads` says this along the list of hunks, with the places at which they begin. Cutting
edits into groups and shortening the runs at both ends only moves lines that stay from
the hunks to what lies between them.
-/

namespace DevicetreeFormat.Diff

set_option autoImplicit false

/-- The hunks lead from old lines to new ones, where so many old and new lines come
before these. Lines that stay lie before each hunk and behind the last one: at least
`gap` before the first hunk, and at least one before every other. -/
inductive Leads : Nat → Nat → Nat → List Hunk → List String → List String → Prop
  | done (gap oldBefore newBefore : Nat) (lines : List String) :
      Leads gap oldBefore newBefore [] lines lines
  | hunk {gap oldBefore newBefore : Nat} {rest : List Hunk} {old new : List String}
      (hunk : Hunk) (stay : List String) (far : gap ≤ stay.length)
      (oldPlace : hunk.old = oldBefore + stay.length)
      (newPlace : hunk.new = newBefore + stay.length)
      (later : Leads 1 (hunk.old + hunk.oldLength) (hunk.new + hunk.newLength) rest old new) :
      Leads gap oldBefore newBefore (hunk :: rest) (stay ++ (oldLines hunk.edits ++ old))
        (stay ++ (newLines hunk.edits ++ new))

namespace Leads

variable {gap oldBefore newBefore : Nat} {found : List Hunk} {old new : List String}

theorem behind {stay : List String}
    (leads : Leads gap (oldBefore + stay.length) (newBefore + stay.length) found old new) :
    Leads (stay.length + gap) oldBefore newBefore found (stay ++ old) (stay ++ new) := by
  cases leads with
  | done => exact .done _ _ _ _
  | hunk next more far oldPlace newPlace later =>
      rw [← List.append_assoc stay, ← List.append_assoc stay]
      refine .hunk next (stay ++ more) ?_ ?_ ?_ later
      · rw [List.length_append]
        omega
      · rw [List.length_append, oldPlace, Nat.add_assoc]
      · rw [List.length_append, newPlace, Nat.add_assoc]

theorem closer {less : Nat} (leads : Leads gap oldBefore newBefore found old new)
    (smaller : less ≤ gap) : Leads less oldBefore newBefore found old new := by
  cases leads with
  | done => exact .done _ _ _ _
  | hunk next stay far oldPlace newPlace later =>
      exact .hunk next stay (Nat.le_trans smaller far) oldPlace newPlace later

theorem append (leads : Leads gap oldBefore newBefore found old new) (lines : List String) :
    Leads gap oldBefore newBefore found (old ++ lines) (new ++ lines) := by
  induction leads with
  | done => exact .done _ _ _ _
  | hunk next stay far oldPlace newPlace later induction =>
      simp only [List.append_assoc]
      exact .hunk next stay far oldPlace newPlace induction

/-- A hunk at the place that has been reached. -/
theorem here (edits : List Edit)
    (later : Leads 1 (oldBefore + (oldLines edits).length) (newBefore + (newLines edits).length)
      found old new) :
    Leads 0 oldBefore newBefore (⟨oldBefore, newBefore, edits⟩ :: found) (oldLines edits ++ old)
      (newLines edits ++ new) :=
  hunk ⟨oldBefore, newBefore, edits⟩ [] (Nat.le_refl 0) rfl rfl later

end Leads

/-! ### Segments -/

theorem segments_append (old new : Nat) (first second : List Edit) :
    segments old new (first ++ second) = segments old new first ++
      segments (old + (oldLines first).length) (new + (newLines first).length) second := by
  induction first generalizing old new with
  | nil => rfl
  | cons edit rest induction => simp [segments, induction, Nat.add_assoc]

theorem map_edit_segments (old new : Nat) (edits : List Edit) :
    (segments old new edits).map Segment.edit = edits := by
  induction edits generalizing old new with
  | nil => rfl
  | cons edit rest induction => simp [segments, induction]

theorem hunk_of_group_segments (old new : Nat) {edits : List Edit} (filled : edits ≠ []) :
    hunkOfGroup (segments old new edits) = some ⟨old, new, edits⟩ := by
  obtain ⟨edit, rest, rfl⟩ := List.exists_cons_of_ne_nil filled
  have texts := map_edit_segments old new (edit :: rest)
  rw [segments] at texts ⊢
  rw [hunkOfGroup, texts]

/-- Shortening the first run that stays leaves segments behind the lines that it drops. -/
theorem trim_first_segments (old new : Nat) (edits : List Edit) :
    ∃ stay shown, trimFirst (segments old new edits) =
        segments (old + stay.length) (new + stay.length) shown ∧
      oldLines edits = stay ++ oldLines shown ∧ newLines edits = stay ++ newLines shown := by
  cases edits with
  | nil => exact ⟨[], [], rfl, rfl, rfl⟩
  | cons edit rest =>
      cases edit with
      | change before after => exact ⟨[], .change before after :: rest, rfl, rfl, rfl⟩
      | keep lines =>
          refine ⟨lines.take (lines.length - contextSize),
            .keep (lines.drop (lines.length - contextSize)) :: rest, ?_, ?_, ?_⟩
          · have short : (lines.take (lines.length - contextSize)).length =
                lines.length - contextSize := List.length_take_of_le (Nat.sub_le _ _)
            have cut : lines.length - contextSize + (lines.drop (lines.length - contextSize)).length =
                lines.length := by
              rw [List.length_drop]
              omega
            simp only [segments, trimFirst, Segment.takeTail, Edit.old, Edit.new, short, Nat.add_assoc,
              cut]
          · simp [Edit.old, ← List.append_assoc]
          · simp [Edit.new, ← List.append_assoc]

/-- Shortening the last run that stays leaves segments before the lines that it drops. -/
theorem trim_last_segments (old new : Nat) (edits : List Edit) :
    ∃ shown stay, trimLast (segments old new edits) = segments old new shown ∧
      oldLines edits = oldLines shown ++ stay ∧ newLines edits = newLines shown ++ stay := by
  induction edits generalizing old new with
  | nil => exact ⟨[], [], rfl, rfl, rfl⟩
  | cons edit rest induction =>
      cases rest with
      | nil =>
          cases edit with
          | change before after => exact ⟨[.change before after], [], rfl, by simp, by simp⟩
          | keep lines =>
              refine ⟨[.keep (lines.take contextSize)], lines.drop contextSize, rfl, ?_, ?_⟩
              · simp [Edit.old]
              · simp [Edit.new]
      | cons next later =>
          obtain ⟨shown, stay, trimmed, oldSplit, newSplit⟩ :=
            induction (old + edit.old.length) (new + edit.new.length)
          refine ⟨edit :: shown, stay, ?_, ?_, ?_⟩
          · change _ = Segment.mk old new edit :: segments _ _ shown
            rw [← trimmed]
            rfl
          · rw [old_lines_cons, oldSplit, old_lines_cons, List.append_assoc]
          · rw [new_lines_cons, newSplit, new_lines_cons, List.append_assoc]

/-! ### Groups -/

theorem close_group_leads (old new : Nat) (group : List Edit) :
    Leads 0 old new ((closeGroup (segments old new group)).filterMap hunkOfGroup)
      (oldLines group) (newLines group) := by
  have whole : ∀ edits : List Edit, edits ≠ [] →
      Leads 0 old new ([segments old new edits].filterMap hunkOfGroup) (oldLines edits)
        (newLines edits) := by
    intro edits filled
    have alone := Leads.here edits (Leads.done 1 (old + (oldLines edits).length)
      (new + (newLines edits).length) [])
    rw [List.append_nil, List.append_nil] at alone
    rw [List.filterMap_cons_some (hunk_of_group_segments old new filled)]
    exact alone
  match group with
  | [] => exact .done _ _ _ _
  | [.keep lines] =>
      have same : oldLines [.keep lines] = newLines [.keep lines] := rfl
      rw [same]
      exact .done _ _ _ _
  | [.change before after] => exact whole [.change before after] (by simp)
  | first :: second :: rest => exact whole (first :: second :: rest) (by simp)

theorem exists_of_is_wide {old new : Nat} {edit : Edit}
    (wide : (Segment.mk old new edit).isWide = true) :
    ∃ lines, edit = .keep lines ∧ 2 * contextSize < lines.length := by
  cases edit with
  | change before after => simp [Segment.isWide, Segment.isKept] at wide
  | keep lines => exact ⟨lines, rfl, of_decide_eq_true wide⟩

/-- The parts of a wide run: what ends a hunk, what is not shown, and what begins the
next hunk. -/
theorem wide_parts {lines : List String} (wide : 2 * contextSize < lines.length) :
    ∃ lead between trail, lines = lead ++ (between ++ trail) ∧ between ≠ [] ∧
      lines.take contextSize = lead ∧
      lines.length - contextSize = lead.length + between.length := by
  refine ⟨lines.take contextSize,
    (lines.drop contextSize).take (lines.length - contextSize - contextSize),
    lines.drop (lines.length - contextSize), ?_, ?_, rfl, ?_⟩
  · have split := List.take_append_drop (lines.length - contextSize - contextSize)
      (lines.drop contextSize)
    rw [List.drop_drop, show contextSize + (lines.length - contextSize - contextSize) =
      lines.length - contextSize by omega] at split
    rw [split, List.take_append_drop]
  · rw [← List.length_pos_iff, List.length_take, List.length_drop]
    omega
  · rw [List.length_take, List.length_take, List.length_drop]
    omega

/-- A hunk that ends with the beginning of a run, and further hunks from the end of that
run on. -/
theorem wide_leads {old new : Nat} {group rest : List Edit} {lead between trail : List String}
    {found : List Hunk} (filled : between ≠ [])
    (opened : Leads 0 (old + (oldLines group).length + (lead.length + between.length))
      (new + (newLines group).length + (lead.length + between.length)) found
      (trail ++ oldLines rest) (trail ++ newLines rest)) :
    Leads 0 old new (⟨old, new, group ++ [.keep lead]⟩ :: found)
      (oldLines (group ++ .keep (lead ++ (between ++ trail)) :: rest))
      (newLines (group ++ .keep (lead ++ (between ++ trail)) :: rest)) := by
  have oldPlace : old + (oldLines group).length + (lead.length + between.length) =
      old + (oldLines (group ++ [.keep lead])).length + between.length := by
    simp [Edit.old, Nat.add_assoc]
  have newPlace : new + (newLines group).length + (lead.length + between.length) =
      new + (newLines (group ++ [.keep lead])).length + between.length := by
    simp [Edit.new, Nat.add_assoc]
  rw [oldPlace, newPlace] at opened
  have later := opened.behind.closer (List.length_pos_iff.mpr filled)
  have oldWhole : oldLines (group ++ .keep (lead ++ (between ++ trail)) :: rest) =
      oldLines (group ++ [.keep lead]) ++ (between ++ (trail ++ oldLines rest)) := by
    simp [Edit.old]
  have newWhole : newLines (group ++ .keep (lead ++ (between ++ trail)) :: rest) =
      newLines (group ++ [.keep lead]) ++ (between ++ (trail ++ newLines rest)) := by
    simp [Edit.new]
  rw [oldWhole, newWhole]
  exact later.here (group ++ [.keep lead])

/-- The open group and what follows it make hunks that lead along. The induction is on
what follows; a wide run closes the group and opens the next one with its last lines. -/
theorem groups_lead (old new : Nat) (group edits : List Edit) :
    Leads 0 old new
      ((groups (segments old new group) (segments (old + (oldLines group).length)
        (new + (newLines group).length) edits)).filterMap hunkOfGroup)
      (oldLines (group ++ edits)) (newLines (group ++ edits)) := by
  induction edits generalizing old new group with
  | nil =>
      rw [List.append_nil]
      exact close_group_leads old new group
  | cons edit rest induction =>
      rw [segments, groups]
      split
      · next wide =>
          obtain ⟨lines, rfl, long⟩ := exists_of_is_wide wide
          obtain ⟨lead, between, trail, parts, filled, taken, place⟩ := wide_parts long
          have opened := induction (old + (oldLines group).length + (lead.length + between.length))
            (new + (newLines group).length + (lead.length + between.length)) [.keep trail]
          have shown : segments old new group ++ [Segment.mk (old + (oldLines group).length)
              (new + (newLines group).length) (.keep lead)] =
              segments old new (group ++ [.keep lead]) :=
            (segments_append old new group [.keep lead]).symm
          simp only [Segment.takeLead, Segment.takeTail, taken, place]
          rw [shown, List.filterMap_cons_some (hunk_of_group_segments old new (by simp)), parts]
          apply wide_leads filled
          simpa [segments, Edit.old, Edit.new, Nat.add_assoc] using opened
      · have joined := induction old new (group ++ [edit])
        rw [segments_append] at joined
        simpa [segments, Nat.add_assoc] using joined

/-- The hunks of edits lead from their old lines to their new ones. -/
theorem hunks_lead (edits : List Edit) :
    Leads 0 0 0 (hunks edits) (oldLines edits) (newLines edits) := by
  obtain ⟨stay, begun, first, oldFront, newFront⟩ := trim_first_segments 0 0 edits
  obtain ⟨shown, last, ends, oldBack, newBack⟩ :=
    trim_last_segments (0 + stay.length) (0 + stay.length) begun
  have inside := groups_lead (0 + stay.length) (0 + stay.length) [] shown
  rw [hunks, first, ends, oldFront, newFront, oldBack, newBack]
  exact (inside.append last).behind.closer (Nat.zero_le _)

end DevicetreeFormat.Diff
