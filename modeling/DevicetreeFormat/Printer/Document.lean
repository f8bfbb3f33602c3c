import DevicetreeFormat.Printer.Items
import DevicetreeFormat.Printer.Lines
import DevicetreeFormat.Printer.Values
import DevicetreeFormat.RawTree
import DevicetreeFormat.Settings.Basic

/-!
# Documents

Which rule prints which kind of node, and the walk over the tree that gives
every node its place. The walk is the only recursion on trees in the printer.
-/

namespace DevicetreeFormat.Printer

set_option autoImplicit false

def printNodeOfKind (settings : Settings) (place : Place) (kind : Kind) (name text : String)
    (parts : List Part) (context : Context) : List Command :=
  let cells := parts.map Part.toCell
  match kind with
  | .comment => printComment place text context
  | .fileVersion | .plugin => printHeader place cells context
  | .fileInclude => printInclude place parts context
  | .memoryReservation | .deleteNode | .deleteProperty => printStatement cells context
  | .omitIfNoRef | .labeledItem => printWrapper place parts context
  | .includeDirective | .defineDirective | .functionDirective | .callDirective =>
      printDirective place kind cells context
  | .ifDirective | .ifdefDirective => printConditional place kind parts context
  | .node => printNode place parts context
  | .property => printProperty place parts context
  | .integerCells => printCells settings.activeLayout cells context
  | .byteString => printBytes text cells context
  | .rightBrace => writes [context.shallower.indentation, "\x7d"]
  | .leftBrace => [.write " \x7b\n"]
  | .semicolon => [.write ";\n"]
  | .comma => [.write ", "]
  | .equals => [.write " = "]
  | .colon => [.write ": "]
  | .identifier | .reference | .path | .unitAddress | .stringLiteral | .systemLibString
  | .integerLiteral | .charLiteral | .callExpression | .parenthesizedExpression
  | .binaryExpression | .unaryExpression | .conditionalExpression | .directiveParameters
  | .directiveArgument | .ampersand | .atSign | .pathOpen | .leftAngle | .rightAngle
  | .leftBracket | .rightBracket => [.write (Text.strip text)]
  | .document | .elseBranch | .elifBranch | .elifdefBranch | .unknown =>
      printUnhandled settings.warnUnhandled name (Text.strip text) parts context

def neighbour? : List Tree → Option Neighbour
  | [] => none
  | tree :: _ => some ⟨tree.kind, tree.named, tree.innerKind⟩

/-- The place of a child. It continues its wrapper's line if something stands
before it in the wrapper. -/
def childPlace (parentKind : Kind) (parent : Place) (before : Option Kind)
    (after : Option Neighbour) : Place :=
  let wrapped := parentKind.isWrapper && before.isSome
  { before, after, wrapped, follower := if wrapped then parent.follower else after }

mutual

def part (settings : Settings) (place : Place) : Tree → Part
  | .branch name text named _ _ children =>
      let kind := Kind.ofName name
      let inner := parts settings kind place none children
      { kind, text, named, after := place.after,
        print := printNodeOfKind settings place kind name text inner,
        printBranch := Printer.printBranch kind inner }

/-- The children of a node in their places, `before` being the kind of the
child before them. -/
def parts (settings : Settings) (parentKind : Kind) (parent : Place) (before : Option Kind) :
    List Tree → List Part
  | [] => []
  | tree :: rest =>
      part settings (childPlace parentKind parent before (neighbour? rest)) tree ::
        parts settings parentKind parent (some tree.kind) rest

end

def documentCommands (settings : Settings) (root : Tree) : List Command :=
  let context : Context := { indentUnit := settings.indentUnit }
  (parts settings root.kind {} none root.children).flatMap fun item => item.print context

/-- The text of a document, or why it has none, and the messages for the
reader. -/
structure Printed where
  outcome : Except Fault String
  reports : List String

def formatTree (settings : Settings) (root : Tree) : Printed :=
  match Output.run {} (documentCommands settings root) with
  | (output, none) => ⟨.ok output.text, output.reports⟩
  | (output, some fault) => ⟨.error fault, output.reports⟩

end DevicetreeFormat.Printer

namespace DevicetreeFormat

inductive FormatFault
  | source (fault : SourceFault)
  | printing (fault : Printer.Fault)
deriving DecidableEq

structure Formatted where
  outcome : Except FormatFault String
  reports : List String

def formatSource (settings : Settings) (source : String) (raw : RawTree) : Formatted :=
  match raw.toTree source with
  | .error fault => ⟨.error (.source fault), []⟩
  | .ok root =>
      let printed := Printer.formatTree settings root
      ⟨printed.outcome.mapError .printing, printed.reports⟩

end DevicetreeFormat
