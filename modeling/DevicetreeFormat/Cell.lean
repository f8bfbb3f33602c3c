import DevicetreeFormat.Tree

/-!
# Cells

Much of the printing looks at a node as a flat cell, a kind and a text, and not
at what lies below it. Comments and directive keywords have a normal form that
depends on the text alone.
-/

namespace DevicetreeFormat

set_option autoImplicit false

/-- A node seen without its children. -/
structure Cell where
  kind : Kind
  text : String

namespace Cell

def token (cell : Cell) : String :=
  Text.strip cell.text

def isAngle (cell : Cell) : Bool :=
  cell.kind = .leftAngle || cell.kind = .rightAngle

def isComment (cell : Cell) : Bool :=
  cell.kind = .comment

end Cell

def Tree.cell (tree : Tree) : Cell :=
  ⟨tree.kind, tree.text⟩

def isLineComment (text : String) : Bool :=
  Text.beginsWith "//" text

/-- A line comment has one space after its slashes; a comment between other
marks keeps its text. -/
def normalComment (text : String) : String :=
  let stripped := Text.strip text
  if isLineComment stripped then
    let body := Text.strip (String.ofList (stripped.toList.drop 2))
    if body.isEmpty then "//" else "// " ++ body
  else stripped

/-- A directive keyword has no blanks after its hash. -/
def directiveKeyword (text : String) : String :=
  match (Text.strip text).toList with
  | '#' :: rest => String.ofList ('#' :: Text.dropFront Text.isBlank rest)
  | other => String.ofList other

end DevicetreeFormat
