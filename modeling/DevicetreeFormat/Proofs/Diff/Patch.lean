import DevicetreeFormat.Delivery
import DevicetreeFormat.Proofs.Diff.Hunks
import DevicetreeFormat.Proofs.Diff.Report

/-!
# The report of a check is a patch

The hunks that are read in the report of a check are applied to the lines of the source,
each at the place that its heading states. Applying is strict: a hunk whose ranges do not
have the lengths of its lines, which lies behind the place that was reached, or whose old
lines are not there, is refused. No hunk of a report is refused, and the result are the
lines of the formatted text.
-/

namespace DevicetreeFormat.Diff

set_option autoImplicit false

namespace StatedHunk

/-- A hunk that ends on both sides before the other begins, with lines between them. -/
structure Precedes (first second : StatedHunk) : Prop where
  old : first.old.stop < second.old.before
  new : first.new.stop < second.new.before

/-- Whether a hunk can be applied to lines that so many old and new lines come before. -/
structure Fits (oldBefore newBefore : Nat) (lines : List String) (hunk : StatedHunk) : Prop where
  ahead : oldBefore ≤ hunk.old.before
  inside : hunk.old.before - oldBefore ≤ lines.length
  level : hunk.new.before = newBefore + (hunk.old.before - oldBefore)
  oldLength : hunk.old.length = hunk.oldLines.length
  newLength : hunk.new.length = hunk.newLines.length
  there : (lines.drop (hunk.old.before - oldBefore)).take hunk.old.length = hunk.oldLines

instance (oldBefore newBefore : Nat) (lines : List String) (hunk : StatedHunk) :
    Decidable (Fits oldBefore newBefore lines hunk) :=
  decidable_of_iff (oldBefore ≤ hunk.old.before ∧ hunk.old.before - oldBefore ≤ lines.length ∧
      hunk.new.before = newBefore + (hunk.old.before - oldBefore) ∧
      hunk.old.length = hunk.oldLines.length ∧ hunk.new.length = hunk.newLines.length ∧
      (lines.drop (hunk.old.before - oldBefore)).take hunk.old.length = hunk.oldLines)
    ⟨fun ⟨ahead, inside, level, oldLength, newLength, there⟩ =>
      ⟨ahead, inside, level, oldLength, newLength, there⟩,
      fun fits => ⟨fits.ahead, fits.inside, fits.level, fits.oldLength, fits.newLength, fits.there⟩⟩

end StatedHunk

/-- Applies hunks, in their order, to lines that so many old and new lines come before.
What lies between the hunks stays. -/
def applyHunks : Nat → Nat → List StatedHunk → List String → Option (List String)
  | _, _, [], lines => some lines
  | oldBefore, newBefore, hunk :: rest, lines =>
      let distance := hunk.old.before - oldBefore
      if hunk.Fits oldBefore newBefore lines then do
        let later ← applyHunks hunk.old.stop hunk.new.stop rest
          (lines.drop (distance + hunk.old.length))
        return lines.take distance ++ (hunk.newLines ++ later)
      else none

namespace Leads

variable {gap oldBefore newBefore : Nat} {found : List Hunk} {old new : List String}

theorem applies (leads : Leads gap oldBefore newBefore found old new) :
    applyHunks oldBefore newBefore (found.map Hunk.stated) old = some new := by
  induction leads with
  | done => rfl
  | @hunk gap oldBefore newBefore rest old new hunk stay far oldPlace newPlace later induction =>
      -- the stated place is the end of the lines that stay, so those are what is skipped
      have distance : hunk.stated.old.before - oldBefore = stay.length := by
        change hunk.old - oldBefore = stay.length
        omega
      have oldLength : hunk.stated.old.length = (oldLines hunk.edits).length := rfl
      have fits : hunk.stated.Fits oldBefore newBefore (stay ++ (oldLines hunk.edits ++ old)) := by
        constructor
        · change oldBefore ≤ hunk.old
          omega
        · rw [distance, List.length_append]
          omega
        · rw [distance]
          exact newPlace
        · rw [stated_old_lines, oldLength]
        · rw [stated_new_lines]
          rfl
        · rw [distance, List.drop_left, oldLength, List.take_left, stated_old_lines]
      have behind : (stay ++ (oldLines hunk.edits ++ old)).drop
          (stay.length + (oldLines hunk.edits).length) = old := by
        rw [← List.drop_drop, List.drop_left, List.drop_left]
      have reached : applyHunks hunk.stated.old.stop hunk.stated.new.stop (rest.map Hunk.stated) old =
          some new := induction
      rw [List.map_cons, applyHunks, distance, if_pos fits, oldLength, behind, List.take_left,
        stated_new_lines, reached]
      rfl

theorem ahead (leads : Leads gap oldBefore newBefore found old new) :
    ∀ hunk ∈ found, oldBefore + gap ≤ hunk.old ∧ newBefore + gap ≤ hunk.new := by
  induction leads with
  | done => simp
  | hunk hunk stay far oldPlace newPlace later induction =>
      intro other member
      rcases List.mem_cons.mp member with rfl | behind
      · omega
      · have further := induction other behind
        omega

theorem precedes (leads : Leads gap oldBefore newBefore found old new) :
    (found.map Hunk.stated).Pairwise StatedHunk.Precedes := by
  induction leads with
  | done => exact .nil
  | hunk hunk stay far oldPlace newPlace later induction =>
      refine .cons ?_ induction
      intro other member
      obtain ⟨next, present, rfl⟩ := List.mem_map.mp member
      obtain ⟨oldAhead, newAhead⟩ := later.ahead next present
      exact ⟨oldAhead, newAhead⟩

theorem lines_mem (leads : Leads gap oldBefore newBefore found old new) :
    ∀ hunk ∈ found, (∀ line ∈ oldLines hunk.edits, line ∈ old) ∧
      ∀ line ∈ newLines hunk.edits, line ∈ new := by
  induction leads with
  | done => simp
  | hunk hunk stay far oldPlace newPlace later induction =>
      intro other member
      rcases List.mem_cons.mp member with rfl | behind
      · simp +contextual
      · obtain ⟨oldInside, newInside⟩ := induction other behind
        exact ⟨fun line listed => by simp [oldInside line listed],
          fun line listed => by simp [newInside line listed]⟩

end Leads

/-! ### The text of a report -/

theorem close_line_append (text : String) : closeLine (text ++ "\n") = text ++ "\n" := by
  have ended : Text.endsWith "\n" (text ++ "\n") = true := by
    rw [Text.endsWith, List.isSuffixOf_iff_suffix, String.toList_append]
    exact List.suffix_append _ _
  rw [closeLine, if_pos ended]

theorem map_close_line {lines : List String} (each : ∀ line ∈ lines, Text.IsLine line) :
    lines.map closeLine = lines := by
  have same : ∀ line ∈ lines, closeLine line = line := by
    intro line member
    obtain ⟨body, rfl, _⟩ := each line member
    exact close_line_append body
  rw [List.map_congr_left same, List.map_id']

theorem report_of_hunks {old new : List String} (changed : hunks (edits old new) ≠ [])
    (oldName newName : String) :
    report oldName newName old new = ("--- " ++ oldName ++ "\n") :: ("+++ " ++ newName ++ "\n") ::
      (hunks (edits old new)).flatMap Hunk.lines := by
  unfold report
  split
  · next nothing => exact absurd nothing changed
  · rfl

theorem hunks_edits_lead (old new : List String) : Leads 0 0 0 (hunks (edits old new)) old new := by
  have leads := hunks_lead (edits old new)
  rwa [old_lines_edits, new_lines_edits] at leads

theorem hunks_edits_ne_nil {old new : List String} (different : old ≠ new) :
    hunks (edits old new) ≠ [] := by
  intro nothing
  have leads := hunks_edits_lead old new
  rw [nothing] at leads
  cases leads
  exact different rfl

end DevicetreeFormat.Diff

namespace DevicetreeFormat.Delivery

set_option autoImplicit false

open Diff

theorem check_report_eq {result : Result} {found : List Hunk}
    (shown : hunks (edits (Text.linesWithEnds result.source)
      (Text.linesWithEnds result.formatted)) = found)
    (changed : found ≠ []) (full : ∀ line ∈ found.flatMap Hunk.lines, Text.IsLine line) :
    checkReport result = result.displayName ++ "\n" ++
      ("--- " ++ result.displayName ++ " (original)\n" ++
        ("+++ " ++ result.displayName ++ " (formatted)\n" ++
          String.join (found.flatMap Hunk.lines))) := by
  have first : "--- " ++ (result.displayName ++ " (original)") ++ "\n" =
      "--- " ++ result.displayName ++ " (original)\n" := by
    rw [← String.toList_inj]
    simp
  have second : "+++ " ++ (result.displayName ++ " (formatted)") ++ "\n" =
      "+++ " ++ result.displayName ++ " (formatted)\n" := by
    rw [← String.toList_inj]
    simp
  rw [checkReport, report_of_hunks (by rw [shown]; exact changed), shown, List.map_cons,
    List.map_cons, close_line_append, close_line_append, map_close_line full, String.join_cons,
    String.join_cons, first, second]

/-- A check of a text that is formatted prints nothing. A check of any other text fails
and prints its name and a report. The hunks that are read in the report lie in order and
apart from each other, and applied to the lines of the source they give the lines of the
formatted text. -/
theorem deliver_check_patch (files : FileSystem) (result : Result)
    (source : Text.IsLined result.source) (formatted : Text.IsLined result.formatted) :
    (result.source = result.formatted →
        Delivery.check.deliver files result = ⟨files, "", .ok false⟩) ∧
      (result.source ≠ result.formatted → ∃ body found,
        Delivery.check.deliver files result =
            ⟨files, result.displayName ++ "\n" ++
              ("--- " ++ result.displayName ++ " (original)\n" ++
                ("+++ " ++ result.displayName ++ " (formatted)\n" ++ body)), .ok true⟩ ∧
          readHunks body = some found ∧ found ≠ [] ∧ found.Pairwise StatedHunk.Precedes ∧
          applyHunks 0 0 found (Text.feedLines result.source) =
            some (Text.feedLines result.formatted)) := by
  constructor
  · intro same
    simp [deliver, Result.isChanged, same]
  · intro different
    have linesDiffer : Text.feedLines result.source ≠ Text.feedLines result.formatted := by
      intro same
      apply different
      rw [← Text.join_feed_lines source, same, Text.join_feed_lines formatted]
    have leads := hunks_edits_lead (Text.feedLines result.source) (Text.feedLines result.formatted)
    have changed := hunks_edits_ne_nil linesDiffer
    generalize shown : hunks (edits (Text.feedLines result.source)
      (Text.feedLines result.formatted)) = found at leads changed
    -- hunks hold lines of the two texts only, so each line of the report is one line of its text
    have full : ∀ line ∈ found.flatMap Hunk.lines, Text.IsLine line := by
      intro line member
      obtain ⟨hunk, present, inside⟩ := List.mem_flatMap.mp member
      obtain ⟨old, new⟩ := leads.lines_mem hunk present
      exact is_line_of_mem_lines
        (fun line listed => Text.is_line_of_mem_feed_lines source (old line listed))
        (fun line listed => Text.is_line_of_mem_feed_lines formatted (new line listed)) line inside
    rw [← Text.lines_with_ends_eq_feed_lines source,
      ← Text.lines_with_ends_eq_feed_lines formatted] at shown
    refine ⟨String.join (found.flatMap Hunk.lines), found.map Hunk.stated, ?_,
      read_hunks_lines full, by simpa using changed, leads.precedes, leads.applies⟩
    simp [deliver, Result.isChanged, different, check_report_eq shown changed full]

/-- A text from standard input in which one line is indented. -/
def indentedResult : Result :=
  ⟨none, "/dts-v1/;\n /plugin/;\n", "/dts-v1/;\n/plugin/;\n"⟩

theorem deliver_check_patch_indented :
    indentedResult.source ≠ indentedResult.formatted ∧ ∃ body found,
      Delivery.check.deliver ⟨[], []⟩ indentedResult =
          ⟨⟨[], []⟩, "<stdin>" ++ "\n" ++ ("--- " ++ "<stdin>" ++ " (original)\n" ++
            ("+++ " ++ "<stdin>" ++ " (formatted)\n" ++ body)), .ok true⟩ ∧
        readHunks body = some found ∧ found ≠ [] ∧ found.Pairwise StatedHunk.Precedes ∧
        applyHunks 0 0 found ["/dts-v1/;\n", " /plugin/;\n"] =
          some ["/dts-v1/;\n", "/plugin/;\n"] := by
  have different : indentedResult.source ≠ indentedResult.formatted := by decide
  have source : Text.IsLined indentedResult.source :=
    ⟨by decide, by simp [indentedResult, Text.endsLine]⟩
  have formatted : Text.IsLined indentedResult.formatted :=
    ⟨by decide, by simp [indentedResult, Text.endsLine]⟩
  exact ⟨different, (deliver_check_patch ⟨[], []⟩ indentedResult source formatted).2 different⟩

end DevicetreeFormat.Delivery
