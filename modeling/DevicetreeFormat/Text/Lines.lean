/-!
# Lines

Two ways of seeing lines in a text. Reading a file turns every line ending into
a single line feed. Comparing two texts cuts each at every character that ends
a line anywhere, and keeps the ending with its line, so that joining the lines
gives the text back.
-/

namespace DevicetreeFormat.Text

set_option autoImplicit false

/-- A carriage return, alone or before a line feed, becomes one line feed. -/
def lineFeeds : List Char → List Char
  | [] => []
  | '\r' :: '\n' :: rest => '\n' :: lineFeeds rest
  | c :: rest => (if c = '\r' then '\n' else c) :: lineFeeds rest

def normalizeNewlines (text : String) : String :=
  String.ofList (lineFeeds text.toList)

def endsLine (c : Char) : Bool :=
  let code := c.toNat
  (0x0A ≤ code && code ≤ 0x0D) || (0x1C ≤ code && code ≤ 0x1E) || code == 0x85 ||
    code == 0x2028 || code == 0x2029

/-- Cuts `characters` after each line ending; `line` holds the characters of
the open line, newest first. -/
def cutLines : List Char → List Char → List (List Char)
  | [], [] => []
  | line, [] => [line.reverse]
  | line, '\r' :: '\n' :: rest => ('\n' :: '\r' :: line).reverse :: cutLines [] rest
  | line, c :: rest =>
      if endsLine c then (c :: line).reverse :: cutLines [] rest
      else cutLines (c :: line) rest

def linesWithEnds (text : String) : List String :=
  (cutLines [] text.toList).map String.ofList

def splitLineFeeds (text : String) : List String :=
  (text.toList.splitOn '\n').map String.ofList

end DevicetreeFormat.Text
