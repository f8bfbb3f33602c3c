import DevicetreeFormat.Printer.Output

/-!
# Parts

How a node is printed depends on its neighbours. A `Place` is what a node sees
of its surroundings, and a `Part` is a node in its place, with the commands
that print it. The rules of the printer are written for lists of parts, so none
of them has to walk the tree itself.
-/

namespace DevicetreeFormat.Printer

set_option autoImplicit false

/-- What a node sees of the node after it. `inner` is the kind of the item
inside all wrappers. -/
structure Neighbour where
  kind : Kind
  named : Bool
  inner : Kind

structure Place where
  /-- The kind of the node before it under the same parent. -/
  before : Option Kind := none
  /-- The node after it under the same parent. -/
  after : Option Neighbour := none
  /-- Whether a wrapper has already begun its line. -/
  wrapped : Bool := false
  /-- The node after the outermost wrapper that began its line. -/
  follower : Option Neighbour := none

/-- A node in its place, with the commands that print it. A node that opens a
branch of a conditional is printed by `printBranch`. -/
structure Part extends Cell where
  named : Bool
  after : Option Neighbour
  print : Context → List Command
  printBranch : Context → List Command

namespace Part

def beforeColon (part : Part) : Bool :=
  match part.after with
  | some next => next.kind = .colon
  | none => false

/-- The name of a node or property: its first token that is neither
punctuation nor a label. -/
def nameOf : List Part → String
  | [] => ""
  | part :: rest =>
      match part.kind with
      | .colon | .leftBrace | .equals | .semicolon => nameOf rest
      | _ => if part.beforeColon then nameOf rest else part.token

end Part

/-- The indentation of an item, unless a wrapper has already begun its line. -/
def beginItem (place : Place) (context : Context) : List Command :=
  if place.wrapped then [] else [.write context.indentation]

def endRun (place : Place) (similar : Kind → Bool) : List Command :=
  match place.after with
  | some next => if next.named && !similar next.kind then [.write "\n"] else []
  | none => []

end DevicetreeFormat.Printer
