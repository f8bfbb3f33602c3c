import DevicetreeFormat.Diff.Edit
import DevicetreeFormat.Text.Blank

/-!
# Hunks

A report of edits shows the changes with a few lines around them. Changes that
lie close together share a hunk, and a hunk says where it begins and how many
lines it covers on both sides.
-/

namespace DevicetreeFormat.Diff

set_option autoImplicit false

/-- An edit with the number of lines before it on both sides. -/
structure Segment where
  old : Nat
  new : Nat
  edit : Edit

def contextSize : Nat := 3

def segments : Nat → Nat → List Edit → List Segment
  | _, _, [] => []
  | old, new, edit :: rest =>
      ⟨old, new, edit⟩ :: segments (old + edit.old.length) (new + edit.new.length) rest

namespace Segment

def takeLead (count : Nat) (segment : Segment) : Segment :=
  match segment.edit with
  | .keep lines => { segment with edit := .keep (lines.take count) }
  | .change _ _ => segment

def takeTail (count : Nat) (segment : Segment) : Segment :=
  match segment.edit with
  | .keep lines =>
      let dropped := lines.length - count
      ⟨segment.old + dropped, segment.new + dropped, .keep (lines.drop dropped)⟩
  | .change _ _ => segment

def isKept (segment : Segment) : Bool :=
  match segment.edit with
  | .keep _ => true
  | .change _ _ => false

/-- Whether a run that stays is too long to stand inside a hunk. -/
def isWide (segment : Segment) : Bool :=
  segment.isKept && 2 * contextSize < segment.edit.old.length

end Segment

def trimFirst : List Segment → List Segment
  | [] => []
  | first :: rest => first.takeTail contextSize :: rest

def trimLast : List Segment → List Segment
  | [] => []
  | [last] => [last.takeLead contextSize]
  | first :: rest => first :: trimLast rest

/-- A group without changes is not shown. -/
def closeGroup (group : List Segment) : List (List Segment) :=
  match group with
  | [] => []
  | [only] => if only.isKept then [] else [group]
  | _ => [group]

/-- Cuts segments into groups at the wide runs that stay; `group` is the open
group. -/
def groups (group : List Segment) : List Segment → List (List Segment)
  | [] => closeGroup group
  | segment :: rest =>
      if segment.isWide then
        (group ++ [segment.takeLead contextSize]) :: groups [segment.takeTail contextSize] rest
      else groups (group ++ [segment]) rest

structure Hunk where
  old : Nat
  new : Nat
  edits : List Edit

def hunkOfGroup (group : List Segment) : Option Hunk :=
  match group with
  | [] => none
  | first :: _ => some ⟨first.old, first.new, group.map Segment.edit⟩

def hunks (edits : List Edit) : List Hunk :=
  (groups [] (trimLast (trimFirst (segments 0 0 edits)))).filterMap hunkOfGroup

/-- A range of lines by its first line and length. An empty range names the
line before it, and a single line has no length. -/
def rangeText (before length : Nat) : String :=
  let first := before + 1
  if length = 1 then s!"{first}"
  else if length = 0 then s!"{before},0"
  else s!"{first},{length}"

def Edit.reportLines : Edit → List String
  | keep lines => lines.map (" " ++ ·)
  | change old new => old.map ("-" ++ ·) ++ new.map ("+" ++ ·)

namespace Hunk

def oldLength (hunk : Hunk) : Nat :=
  (hunk.edits.flatMap Edit.old).length

def newLength (hunk : Hunk) : Nat :=
  (hunk.edits.flatMap Edit.new).length

def heading (hunk : Hunk) : String :=
  let old := rangeText hunk.old hunk.oldLength
  let new := rangeText hunk.new hunk.newLength
  s!"@@ -{old} +{new} @@\n"

def lines (hunk : Hunk) : List String :=
  hunk.heading :: hunk.edits.flatMap Edit.reportLines

end Hunk

def report (oldName newName : String) (old new : List String) : List String :=
  match hunks (edits old new) with
  | [] => []
  | found => ("--- " ++ oldName ++ "\n") :: ("+++ " ++ newName ++ "\n") :: found.flatMap Hunk.lines

def closeLine (line : String) : String :=
  if Text.endsWith "\n" line then line else line ++ "\n"

end DevicetreeFormat.Diff
