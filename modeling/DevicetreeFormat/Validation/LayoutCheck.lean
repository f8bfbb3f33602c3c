import DevicetreeFormat.Layout.Basic
import DevicetreeFormat.Validation.Scalar

/-!
# Checking layouts

A layout is read from a mapping with a grid of zeros and ones, and optionally a
name and a number of rows. Unknown keys are ignored.
-/

namespace DevicetreeFormat.Validation

set_option autoImplicit false

def sortedIntegers (numbers : List Int) : List Int :=
  (numbers.mergeSort fun a b => decide (a ≤ b)).eraseDups

def integerList (numbers : List Int) : String :=
  "[" ++ ", ".intercalate (numbers.map toString) ++ "]"

def unshowable : Nat := Nat.pow 10 longestInteger

def unshowableMessage : String :=
  s!"Exceeds the limit ({longestInteger} digits) for integer string conversion; " ++
    "use sys.set_int_max_str_digits() to increase the limit"

def rejectNumbers (numbers : List Int) (message : String) : Complaint :=
  .rejected (if numbers.any fun number => unshowable ≤ number.natAbs then unshowableMessage
    else message)

def keyOfCell (cell : Int) : Option Bool :=
  if cell = 1 then some true else if cell = 0 then some false else none

def checkGrid (numbers : List Int) : Checked { cells : List Bool // cells ≠ [] } :=
  if numbers.isEmpty then Checked.refuse (.rejected "layout grid is empty")
  else
    let invalid := numbers.filter fun cell => (keyOfCell cell).isNone
    let cells := numbers.filterMap keyOfCell
    if filled : cells ≠ [] ∧ invalid = [] then .ok ⟨cells, filled.1⟩
    else
      let listed := integerList (sortedIntegers invalid)
      Checked.refuse (rejectNumbers invalid s!"layout cells must be 0 or 1, got {listed}")

def checkItems : Nat → List Value → List (Checked Int)
  | _, [] => []
  | index, item :: rest =>
      (checkInteger item).located (toString index) :: checkItems (index + 1) rest

def checkCells : Value → Checked { cells : List Bool // cells ≠ [] }
  | .list items =>
      match Checked.all (checkItems 0 items) with
      | .ok numbers => checkGrid numbers
      | .error issues => .error issues
  | _ => Checked.refuse .notTuple

def checkRowCount (value : Value) : Checked { count : Nat // 0 < count } :=
  match checkInteger value with
  | .error issues => .error issues
  | .ok number =>
      if positive : 0 < number.toNat then .ok ⟨number.toNat, positive⟩
      else Checked.refuse .belowOne

def checkCellsEntry (entries : Entries) : Checked { cells : List Bool // cells ≠ [] } :=
  match Value.field? entries "bindings" with
  | none => (Checked.refuse .required).located "bindings"
  | some value => (checkCells value).located "bindings"

def unevenMessage (name : LooseText) (cellCount rowCount : Nat) : String :=
  let shown := name.shown
  s!"layout '{shown}' has {cellCount} cells, which is not divisible by {rowCount} rows"

def assembleLayout (name : LooseText) (cells : { cells : List Bool // cells ≠ [] })
    (rowCount : { count : Nat // 0 < count }) : Checked Layout :=
  if even : cells.val.length % rowCount.val = 0 then
    .ok { name, cells := cells.val, rowCount := rowCount.val, cells_nonempty := cells.property,
          rowCount_pos := rowCount.property, rows_even := even }
  else
    Checked.refuse
      (rejectNumbers [rowCount.val] (unevenMessage name cells.val.length rowCount.val))

def defaultName : LooseText := "custom"

def checkLayout : Value → Checked Layout
  | .mapping entries =>
      let name := optional entries "name" defaultName checkText
      let cells := checkCellsEntry entries
      let rowCount := optional entries "row_count" ⟨1, Nat.one_pos⟩ checkRowCount
      match Checked.both name (Checked.both cells rowCount) with
      | .ok (name, cells, rowCount) => assembleLayout name cells rowCount
      | .error issues => .error issues
  | _ => Checked.refuse (.notModel "KeyboardLayout")

end DevicetreeFormat.Validation
