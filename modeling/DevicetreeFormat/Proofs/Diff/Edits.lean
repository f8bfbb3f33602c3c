import DevicetreeFormat.Diff.Edit

/-!
# Edits stand for all lines

An edit stands for some old lines and for some new ones. The edits of two texts, taken
in order, stand for all lines of both. This does not depend on how good the search for
common runs is: a run is measured on the lines themselves, from a place that the search
names, and where no run is found the lines are exchanged.
-/

namespace DevicetreeFormat.Diff

set_option autoImplicit false

/-- The old lines that edits stand for. -/
def oldLines (edits : List Edit) : List String :=
  edits.flatMap Edit.old

/-- The new lines that edits stand for. -/
def newLines (edits : List Edit) : List String :=
  edits.flatMap Edit.new

section

variable (edit : Edit) (first second : List Edit)

@[simp] theorem old_lines_nil : oldLines [] = [] := rfl

@[simp] theorem new_lines_nil : newLines [] = [] := rfl

@[simp] theorem old_lines_cons : oldLines (edit :: first) = edit.old ++ oldLines first :=
  List.flatMap_cons

@[simp] theorem new_lines_cons : newLines (edit :: first) = edit.new ++ newLines first :=
  List.flatMap_cons

@[simp] theorem old_lines_append : oldLines (first ++ second) = oldLines first ++ oldLines second :=
  List.flatMap_append

@[simp] theorem new_lines_append : newLines (first ++ second) = newLines first ++ newLines second :=
  List.flatMap_append

end

/-! ### Where a run is looked for -/

theorem last_mem_of_mem_next_runs {runs : List Run} {places : List Nat} {run : Run}
    (member : run ∈ nextRuns runs places) : run.last ∈ places := by
  induction places generalizing runs with
  | nil => cases member
  | cons place places induction =>
      rcases List.mem_cons.mp member with rfl | later
      · exact List.mem_cons_self
      · exact List.mem_cons_of_mem _ (induction later)

/-- A run begins among the first `rows` old lines, or behind them, and before the new
line `stop`, or at it. -/
structure Match.Within (rows stop : Nat) (common : Match) : Prop where
  old : common.old ≤ rows
  new : common.new ≤ stop

theorem better_match_within {row stop : Nat} {runs : List Run} {best : Match}
    (inside : ∀ run ∈ runs, run.last < stop) (within : best.Within (row + 1) stop) :
    (betterMatch row runs best).Within (row + 1) stop := by
  induction runs generalizing best with
  | nil => exact within
  | cons run rest induction =>
      apply induction fun other member => inside other (List.mem_cons_of_mem _ member)
      have bound := inside run List.mem_cons_self
      split
      · constructor
        · exact Nat.sub_le _ _
        · change run.last + 1 - run.size ≤ stop
          omega
      · exact within

theorem search_rows_within {start stop row : Nat} {old : List OldLine} {runs : List Run}
    {best : Match} (within : best.Within row stop) :
    (searchRows start stop row old runs best).Within (row + old.length) stop := by
  induction old generalizing row runs best with
  | nil => exact within
  | cons line rest induction =>
      have inside : ∀ run ∈ nextRuns runs ((line.places.dropWhile (· < start)).takeWhile (· < stop)),
          run.last < stop := by
        intro run member
        have place := List.all_eq_true.mp List.all_takeWhile _ (last_mem_of_mem_next_runs member)
        simpa using place
      have later : best.Within (row + 1) stop := ⟨Nat.le_succ_of_le within.old, within.new⟩
      rw [List.length_cons, Nat.add_comm rest.length, ← Nat.add_assoc]
      exact induction (better_match_within inside later)

/-! ### Common runs -/

theorem common_lead_le_old (old : List OldLine) (new : List String) :
    commonLead old new ≤ old.length := by
  fun_induction commonLead old new with
  | case1 line old new induction => simpa using induction
  | case2 => exact Nat.zero_le _
  | case3 => exact Nat.zero_le _

theorem common_lead_le_new (old : List OldLine) (new : List String) :
    commonLead old new ≤ new.length := by
  fun_induction commonLead old new with
  | case1 line old new induction => simpa using induction
  | case2 => exact Nat.zero_le _
  | case3 => exact Nat.zero_le _

theorem take_common_lead (old : List OldLine) (new : List String) :
    (old.take (commonLead old new)).map OldLine.text = new.take (commonLead old new) := by
  fun_induction commonLead old new with
  | case1 line old new induction =>
      rw [List.take_succ_cons, List.take_succ_cons, List.map_cons, induction]
  | case2 => rfl
  | case3 => rfl

/-- The last `size` items before `place`, read backwards. -/
theorem take_reverse_take {Item : Type} (items : List Item) {place size : Nat}
    (enough : size ≤ place) (inside : place ≤ items.length) :
    (items.take place).reverse.take size = ((items.drop (place - size)).take size).reverse := by
  rw [List.take_reverse, List.length_take_of_le inside, List.drop_take, Nat.sub_sub_self enough]

/-- From a place in both texts the lines agree as far back and as far forth as they were
compared. -/
theorem agree_around {old : List OldLine} {new : List String} {row place back forth : Nat}
    (oldInside : row ≤ old.length) (newInside : place ≤ new.length)
    (backward : commonLead (old.take row).reverse (new.take place).reverse = back)
    (forward : commonLead (old.drop row) (new.drop place) = forth) :
    ((old.drop (row - back)).take (back + forth)).map OldLine.text =
      (new.drop (place - back)).take (back + forth) := by
  have oldBack : back ≤ row := by
    have bound := common_lead_le_old (old.take row).reverse (new.take place).reverse
    rwa [backward, List.length_reverse, List.length_take_of_le oldInside] at bound
  have newBack : back ≤ place := by
    have bound := common_lead_le_new (old.take row).reverse (new.take place).reverse
    rwa [backward, List.length_reverse, List.length_take_of_le newInside] at bound
  have before : ((old.drop (row - back)).take back).map OldLine.text =
      (new.drop (place - back)).take back := by
    have agree := take_common_lead (old.take row).reverse (new.take place).reverse
    rw [backward, take_reverse_take old oldBack oldInside,
      take_reverse_take new newBack newInside, List.map_reverse, List.reverse_inj] at agree
    exact agree
  have behind : ((old.drop row).take forth).map OldLine.text = (new.drop place).take forth := by
    have agree := take_common_lead (old.drop row) (new.drop place)
    rwa [forward] at agree
  rw [List.take_add, List.take_add, List.drop_drop, List.drop_drop, Nat.sub_add_cancel oldBack,
    Nat.sub_add_cancel newBack, List.map_append, before, behind]

theorem longest_match_agrees (start : Nat) (old : List OldLine) (new : List String) :
    ((old.drop (longestMatch start old new).old).take (longestMatch start old new).size).map
        OldLine.text =
      (new.drop (longestMatch start old new).new).take (longestMatch start old new).size := by
  have begins : Match.Within 0 (start + new.length) ⟨0, start, 0⟩ :=
    ⟨Nat.le_refl _, Nat.le_add_right _ _⟩
  have within : (searchRows start (start + new.length) 0 old [] ⟨0, start, 0⟩).Within
      (0 + old.length) (start + new.length) := search_rows_within begins
  rw [Nat.zero_add] at within
  have newInside : (searchRows start (start + new.length) 0 old [] ⟨0, start, 0⟩).new - start ≤
      new.length := Nat.sub_le_iff_le_add'.mpr within.new
  exact agree_around within.old newInside rfl rfl

/-! ### Alignment -/

theorem align_old (steps start : Nat) (old : List OldLine) (new : List String) :
    oldLines (align steps start old new) = old.map OldLine.text := by
  induction steps generalizing start old new with
  | zero => simp [align, Edit.old]
  | succ steps induction =>
      rw [align]
      split
      · simp [Edit.old]
      · rw [old_lines_append, old_lines_cons, induction, induction, Edit.old,
          ← longest_match_agrees start old new, ← List.drop_drop, ← List.map_append, ← List.map_append,
          List.take_append_drop, List.take_append_drop]

theorem align_new (steps start : Nat) (old : List OldLine) (new : List String) :
    newLines (align steps start old new) = new := by
  induction steps generalizing start old new with
  | zero => simp [align, Edit.new]
  | succ steps induction =>
      rw [align]
      split
      · simp [Edit.new]
      · rw [new_lines_append, new_lines_cons, induction, induction, Edit.new, ← List.drop_drop,
          List.take_append_drop, List.take_append_drop]

/-- Tidying changes no view of the edits by which lines that stay are themselves and a
change of nothing is nothing. -/
theorem flatMap_tidy (view : Edit → List String) (kept : ∀ lines, view (.keep lines) = lines)
    (nothing : view (.change [] []) = []) (edits : List Edit) :
    (tidy edits).flatMap view = edits.flatMap view := by
  fun_induction tidy edits with
  | case1 => rfl
  | case2 rest induction => rw [List.flatMap_cons, nothing, induction, List.nil_append]
  | case3 lines rest more others shape induction =>
      rw [shape, List.flatMap_cons, kept] at induction
      rw [List.flatMap_cons, List.flatMap_cons, ← induction, kept, kept, List.append_assoc]
  | case4 lines rest _ induction => rw [List.flatMap_cons, List.flatMap_cons, induction]
  | case5 edit rest _ _ induction => rw [List.flatMap_cons, List.flatMap_cons, induction]

theorem old_lines_edits (old new : List String) : oldLines (edits old new) = old := by
  have tidied := flatMap_tidy Edit.old (fun _ => rfl) rfl
    (align (old.length + 1) 0 (old.map (locate (frequentLines new) new)) new)
  have texts : (old.map (locate (frequentLines new) new)).map OldLine.text = old := by
    rw [List.map_map]
    exact List.map_id old
  exact tidied.trans ((align_old _ _ _ _).trans texts)

theorem new_lines_edits (old new : List String) : newLines (edits old new) = new := by
  have tidied := flatMap_tidy Edit.new (fun _ => rfl) rfl
    (align (old.length + 1) 0 (old.map (locate (frequentLines new) new)) new)
  exact tidied.trans (align_new _ _ _ _)

end DevicetreeFormat.Diff
