import DevicetreeFormat.Cell
import DevicetreeFormat.Context
import DevicetreeFormat.Layout.Basic

/-!
# Binding tables

A bindings property of a keymap is printed as a table in the shape of the
keyboard: one binding per key, blank cells for gaps, and every column padded to
its widest cell. The steps are separate functions: group the cells into
bindings, place the bindings on the grid, measure the columns, write the rows.
Measuring and writing can fail on a grid that no layout produces.
-/

namespace DevicetreeFormat.Table

set_option autoImplicit false

def columnGap : Nat := 3

inductive Fault
  | emptyColumn
  | shortRow
deriving DecidableEq

/-- The words that bindings are made of: no brackets, comments or empty texts. -/
def bindingTokens (cells : List Cell) : List String :=
  (cells.filter fun cell => !cell.isAngle && !cell.isComment).map Cell.token
    |>.filter fun token => !token.isEmpty

def startsBinding (token : String) : Bool :=
  Text.beginsWith "&" token

/-- Cuts words into groups, each but the first starting where a binding
starts; `group` holds the words of the open group, newest first. -/
def groupTokens : List String → List String → List (List String)
  | [], [] => []
  | group, [] => [group.reverse]
  | [], token :: rest => groupTokens [token] rest
  | word :: group, token :: rest =>
      if startsBinding token then (word :: group).reverse :: groupTokens [token] rest
      else groupTokens (token :: word :: group) rest

def collectBindings (cells : List Cell) : List String :=
  (groupTokens [] (bindingTokens cells)).map " ".intercalate

/-- Fills the grid: a key takes the next binding, or stays blank when there is
none; a gap takes nothing. The second result is what found no key. -/
def placeBindings : List Bool → List String → List String × List String
  | [], remaining => ([], remaining)
  | false :: cells, remaining =>
      let (grid, dropped) := placeBindings cells remaining
      ("" :: grid, dropped)
  | true :: cells, [] =>
      let (grid, dropped) := placeBindings cells []
      ("" :: grid, dropped)
  | true :: cells, binding :: remaining =>
      let (grid, dropped) := placeBindings cells remaining
      (binding :: grid, dropped)

/-- Cuts a list into pieces of the given size; the last may be shorter. There
are no pieces of size zero. -/
def pieces {α : Type} (size : Nat) (items : List α) : List (List α) :=
  if size = 0 then []
  else if items.isEmpty then []
  else items.take size :: pieces size (items.drop size)
termination_by items.length
decreasing_by
  rename_i sized filled
  cases items with
  | nil => simp at filled
  | cons item rest =>
      simp only [List.length_drop, List.length_cons]
      omega

def column (grid : List String) (rowSize index : Nat) : List String :=
  (pieces rowSize grid).filterMap fun row => row[index]?

def columnWidth (cells : List String) : Except Fault Nat :=
  match (cells.map fun cell => cell.toList.length).max? with
  | some width => .ok width
  | none => .error .emptyColumn

/-- The widest cell of every column. A grid with fewer cells than columns has an
empty one. -/
def columnWidths (grid : List String) (rowSize : Nat) : Except Fault (List Nat) :=
  if grid.length < rowSize then .error .emptyColumn
  else (List.range rowSize).mapM fun index => columnWidth (column grid rowSize index)

/-- Pads each cell to its column and the gap after it. A width below zero takes
away from the gap. -/
def padCells : List String → List Int → Except Fault (List String)
  | [], _ => .ok []
  | _ :: _, [] => .error .shortRow
  | cell :: cells, width :: widths => do
      let padded ← padCells cells widths
      return Text.padRight (width + columnGap).toNat cell :: padded

def formatRow (row : List String) (widths : List Int) (indentation : String) :
    Except Fault String := do
  let padded ← padCells row.dropLast widths
  match row.getLast? with
  | none => .error .shortRow
  | some last => return Text.stripBack (indentation ++ String.join padded ++ last)

def dropMessage (layout : Layout) (dropped : List String) : String :=
  let count := dropped.length
  let keys := layout.keyCount
  let name := layout.name.escaped
  let listed := " ".intercalate dropped
  s!"{count} binding(s) exceed the {keys} keys of layout '{name}' and were not printed: {listed}"

def report? (cells : List Cell) (layout : Layout) : Option String :=
  let dropped := (placeBindings layout.cells (collectBindings cells)).2
  if dropped.isEmpty then none else some (dropMessage layout dropped)

def commentLines (cells : List Cell) (context : Context) : List String :=
  (cells.filter Cell.isComment).map fun cell => context.indentation ++ normalComment cell.text

def rowLines (grid : List String) (rowSize : Nat) (context : Context) :
    Except Fault (List String) := do
  let widths ← columnWidths grid rowSize
  (pieces rowSize grid).mapM fun row => formatRow row (widths.map Int.ofNat) context.indentation

/-- The table of a cell list, from its opening to its closing bracket. Rows
stand at the depth of the context and the closing bracket one level out. -/
def render (cells : List Cell) (layout : Layout) (context : Context) : Except Fault String := do
  let grid := (placeBindings layout.cells (collectBindings cells)).1
  let rows ← rowLines grid layout.rowSize context
  return "\n".intercalate
    ("<" :: commentLines cells context ++ rows ++ [context.shallower.indentation ++ ">"])

def rowSizeFault? (row : List String) (widths : List Int) : Option Text.SizeFault :=
  (widths.take (row.length - 1)).findSome? fun width => Text.sizeFault? (width + columnGap)

end DevicetreeFormat.Table
