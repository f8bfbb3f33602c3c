import DevicetreeFormat.Printer.Part

/-!
# Property values

Cell lists and byte strings. A cell list outside a binding table has one space
between its cells, none next to the inside of a parenthesis, and a new line
after a line comment. A byte string is a sequence of digits, written in pairs
and broken into lines of sixteen pairs when it is long.
-/

namespace DevicetreeFormat.Printer

set_option autoImplicit false

inductive Gap
  | none
  | space
  | line
deriving DecidableEq

def Gap.text (context : Context) : Gap → String
  | .none => ""
  | .space => " "
  | .line => "\n" ++ context.deeper.indentation

def cellToken (cell : Cell) : String :=
  if cell.isComment then normalComment cell.text else cell.token

/-- A space is left out before a closing and after an opening parenthesis. -/
def gapBefore (text token : String) : Gap → Gap
  | .space => if token = ")" || Text.endsWith "(" text then .none else .space
  | gap => gap

def writeCells (context : Context) : String → Gap → List String → String
  | text, .line, [] => text ++ "\n" ++ context.indentation
  | text, _, [] => text
  | text, gap, token :: rest =>
      writeCells context (text ++ (gapBefore text token gap).text context ++ token)
        (if isLineComment token then .line else .space) rest

def plainCells (cells : List Cell) (context : Context) : String :=
  writeCells context "<" .none ((cells.filter fun cell => !cell.isAngle).map cellToken) ++ ">"

def printCells (layout : Layout) (cells : List Cell) (context : Context) : List Command :=
  if context.alignsBindings then
    (Table.report? cells layout).toList.map .report ++
      match Table.render cells layout context with
      | .ok table => [.write table]
      | .error fault => [.fail (.table fault)]
  else [.write (plainCells cells context)]

def pairsPerLine : Nat := 16

/-- The digits of a byte string: what its children hold between the brackets,
or, if it has none, what its own text holds. -/
def byteDigits (text : String) (cells : List Cell) : List Char :=
  let inner := cells.filter fun cell =>
    cell.kind ≠ .leftBracket && cell.kind ≠ .rightBracket && cell.kind ≠ .comment
  let content :=
    if inner.isEmpty then ((Text.strip text).toList.drop 1).dropLast
    else inner.flatMap fun cell => cell.token.toList
  content.filter fun c => !Text.isBlank c

def renderBytes (digits : List Char) (context : Context) : String :=
  let pairs := (Table.pieces 2 digits).map String.ofList
  if pairs.length ≤ pairsPerLine then "[" ++ " ".intercalate pairs ++ "]"
  else
    let lines := (Table.pieces pairsPerLine pairs).map fun line =>
      context.deeper.indentation ++ " ".intercalate line
    "\n".intercalate ("[" :: lines ++ [context.indentation ++ "]"])

def printBytes (text : String) (cells : List Cell) (context : Context) : List Command :=
  [.write (renderBytes (byteDigits text cells) context)]

end DevicetreeFormat.Printer
