import DevicetreeFormat.Main
import DevicetreeFormat.Text.Digit
import DevicetreeFormat.Text.Pattern
import DevicetreeFormat.Proofs.Blank
import DevicetreeFormat.Proofs.Table
import DevicetreeFormat.Proofs.Run
import DevicetreeFormat.Proofs.Coherent
import DevicetreeFormat.Proofs.Spelling.Document
import DevicetreeFormat.Proofs.Grammar
import DevicetreeFormat.Proofs.Shift.Margin
import DevicetreeFormat.Proofs.Shift.Runs
import DevicetreeFormat.Proofs.Shift.Values
import DevicetreeFormat.Proofs.Rules
import DevicetreeFormat.Proofs.Shift.Items
import DevicetreeFormat.Proofs.Completion
import DevicetreeFormat.Proofs.Sequence
import DevicetreeFormat.Proofs.Nesting
import DevicetreeFormat.Proofs.Comments.Position
import DevicetreeFormat.Proofs.Comments.Runs
import DevicetreeFormat.Proofs.Comments.Lines
import DevicetreeFormat.Proofs.Comments.Walk
import DevicetreeFormat.Proofs.Comments.Items
import DevicetreeFormat.Proofs.Comments.Bodies
import DevicetreeFormat.Proofs.Comments.Document
import DevicetreeFormat.Proofs.Table.Conservation
import DevicetreeFormat.Proofs.Table.FixedPoint
import DevicetreeFormat.Proofs.Table.Columns
import DevicetreeFormat.Proofs.Files
import DevicetreeFormat.Proofs.Palette
import DevicetreeFormat.Proofs.Newlines
import DevicetreeFormat.Proofs.Slices
import DevicetreeFormat.Proofs.Faults
import DevicetreeFormat.Proofs.Acceptance
import DevicetreeFormat.Proofs.Session.Loading
import DevicetreeFormat.Proofs.Session.Steps
import DevicetreeFormat.Proofs.Session.Agreement
import DevicetreeFormat.Proofs.Session.Isolation
import DevicetreeFormat.Proofs.Similar
import DevicetreeFormat.Proofs.Layouts
import DevicetreeFormat.Proofs.Labels.Surroundings
import DevicetreeFormat.Proofs.Comments.Kept
import DevicetreeFormat.Proofs.Labels.Insertion
import DevicetreeFormat.Proofs.Comments.Lost
import DevicetreeFormat.Proofs.Session.Refusal
import DevicetreeFormat.Proofs.Session.Course
import DevicetreeFormat.Proofs.Tidy.Document
import DevicetreeFormat.Proofs.Values
import DevicetreeFormat.Proofs.Directives.Runs
import DevicetreeFormat.Proofs.NormalForms
import DevicetreeFormat.Proofs.Fragments
import DevicetreeFormat.Proofs.Sources
import DevicetreeFormat.Proofs.Lines
import DevicetreeFormat.Proofs.Diff.Edits
import DevicetreeFormat.Proofs.Diff.Hunks
import DevicetreeFormat.Proofs.Diff.Report
import DevicetreeFormat.Proofs.Diff.Patch
