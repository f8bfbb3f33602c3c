import DevicetreeFormat.Text.Loose

/-!
# Keyboard layouts

A layout is the grid of a physical keyboard in row-major order. Each cell is a
key, which takes one binding, or a gap, which stays blank. All rows have the
same length, so the number of rows divides the number of cells; a layout that
violates this cannot be built.
-/

namespace DevicetreeFormat

set_option autoImplicit false

/-- The key and gap grid of a keyboard; `true` is a key. -/
structure Layout where
  name : LooseText
  cells : List Bool
  rowCount : Nat
  cells_nonempty : cells ≠ [] := by decide
  rowCount_pos : 0 < rowCount := by decide
  rows_even : cells.length % rowCount = 0 := by decide

namespace Layout

def rowSize (layout : Layout) : Nat :=
  layout.cells.length / layout.rowCount

def keyCount (layout : Layout) : Nat :=
  layout.cells.count true

def rename (layout : Layout) (name : LooseText) : Layout :=
  { layout with name }

def keys (count : Nat) : List Bool :=
  List.replicate count true

def gaps (count : Nat) : List Bool :=
  List.replicate count false

def adv360 : Layout where
  name := "adv360"
  rowCount := 5
  cells :=
    keys 7 ++ gaps 4 ++ keys 7 ++
    keys 7 ++ gaps 4 ++ keys 7 ++
    keys 18 ++
    keys 6 ++ gaps 2 ++ keys 2 ++ gaps 2 ++ keys 6 ++
    keys 5 ++ gaps 1 ++ keys 6 ++ gaps 1 ++ keys 5

def corne : Layout where
  name := "corne"
  rowCount := 4
  cells :=
    keys 12 ++
    keys 12 ++
    keys 12 ++
    gaps 3 ++ keys 6 ++ gaps 3

def builtin : List (LooseText × Layout) :=
  [(adv360.name, adv360), (corne.name, corne)]

/-- The layout with the identifier `name`. A custom layout hides a builtin one. -/
def find? (custom : List (LooseText × Layout)) (name : LooseText) : Option Layout :=
  (custom.lookup name).or (builtin.lookup name)

def sortedNames (names : List LooseText) : List LooseText :=
  (names.mergeSort LooseText.ordered).eraseDups

def available (custom : List (LooseText × Layout)) : List LooseText :=
  sortedNames (builtin.map Prod.fst ++ custom.map Prod.fst)

def unknownMessage (custom : List (LooseText × Layout)) (name : LooseText) : String :=
  let shown := name.shown
  let choices := ", ".intercalate ((available custom).map LooseText.shown)
  s!"unknown layout '{shown}' (available: {choices})"

end Layout

end DevicetreeFormat
