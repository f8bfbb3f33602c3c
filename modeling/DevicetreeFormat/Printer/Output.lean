import DevicetreeFormat.Table

/-!
# Output

Printing a tree gives a list of commands, and this module runs them. All but
two commands write fixed text. The exceptions look at what was written before:
`separate` avoids a second blank line and `space` a second blank. The output is
kept as fragments, and the decisions read only its last characters.
-/

namespace DevicetreeFormat.Printer

set_option autoImplicit false

inductive Fault
  | childlessDirective
  | childlessInclude
  | table (fault : Table.Fault)
deriving DecidableEq

inductive Command
  | write (text : String)
  | separate
  | space
  | report (message : String)
  | fail (fault : Fault)
deriving DecidableEq

/-- What has been written, newest first, and the messages for the reader,
newest first. -/
structure Output where
  fragments : List String := []
  messages : List String := []

namespace Output

/-- Joins fragments, newest first, in front of `tail` until it has `size`
characters. -/
def gatherTail (size : Nat) : List String → String → String
  | [], tail => tail
  | fragment :: older, tail =>
      let longer := fragment ++ tail
      if size ≤ longer.toList.length then longer else gatherTail size older longer

def tail (output : Output) (size : Nat) : String :=
  Text.lastCharacters size (gatherTail size output.fragments "")

def text (output : Output) : String :=
  String.join output.fragments.reverse

def reports (output : Output) : List String :=
  output.messages.reverse

def write (output : Output) (text : String) : Output :=
  { output with fragments := text :: output.fragments }

/-- Ends the line before a blank line, unless nothing was written or a blank
line is there. -/
def separate (output : Output) : Output :=
  if !output.fragments.isEmpty && output.tail 2 != "\n\n" then output.write "\n" else output

def isBlankText (text : String) : Bool :=
  !text.isEmpty && text.toList.all Text.isBlank

def space (output : Output) : Output :=
  if isBlankText (output.tail 1) then output else output.write " "

def report (output : Output) (message : String) : Output :=
  { output with messages := message :: output.messages }

/-- Runs commands up to the first that fails. What was written and reported
before a failure stays. -/
def run : Output → List Command → Output × Option Fault
  | output, [] => (output, none)
  | output, .write text :: rest => run (output.write text) rest
  | output, .separate :: rest => run output.separate rest
  | output, .space :: rest => run output.space rest
  | output, .report message :: rest => run (output.report message) rest
  | output, .fail fault :: _ => (output, some fault)

end Output

def writes (texts : List String) : List Command :=
  texts.map .write

end DevicetreeFormat.Printer
