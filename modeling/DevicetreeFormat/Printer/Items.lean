import DevicetreeFormat.Printer.Part

/-!
# Items with a body

Labels and keywords before an item, nodes, properties, conditionals, and the
fallback for nodes the printer does not know. Their children are printed by the
parts' own commands, at the depth chosen here.
-/

namespace DevicetreeFormat.Printer

set_option autoImplicit false

/-- One child of a wrapper. The wrapped item prints itself on the same line. -/
def wrapperChild (context : Context) (part : Part) : List Command :=
  if part.kind = .colon then [.write ": "]
  else if part.kind = .node || part.kind = .property || part.kind.isWrapper then
    part.print context
  else [.write (if part.beforeColon then part.token else part.token ++ " ")]

def printWrapper (place : Place) (parts : List Part) (context : Context) : List Command :=
  beginItem place context ++ parts.flatMap (wrapperChild context)

/-- The children of a node from its opening brace on, or the tokens before it. -/
def nodeChildren (context : Context) : List Part → List Command
  | [] => []
  | part :: rest =>
      if part.kind = .leftBrace then (part :: rest).flatMap fun child => child.print context
      else
        .write (if part.kind = .colon then ": " else part.token) :: nodeChildren context rest

/-- The context of a node's body; a node named `keymap` is a keymap. -/
def bodyContext (parts : List Part) (context : Context) : Context :=
  if Part.nameOf parts = "keymap" then context.deeper.inKeymap else context.deeper

def printNode (place : Place) (parts : List Part) (context : Context) : List Command :=
  beginItem place context ++ nodeChildren (bodyContext parts context) parts

/-- A comment inside a property stays on the property's line. A line comment
ends it, and the property goes on one level further in. -/
def inlineComment (part : Part) (context : Context) : List Command :=
  let text := normalComment part.text
  .space ::
    if isLineComment text then writes [text, "\n", context.deeper.indentation]
    else
      .write text ::
        match part.after with
        | none => []
        | some next =>
            if next.kind = .comma || next.kind = .semicolon || next.kind = .equals then []
            else [.write " "]

/-- The children of a property up to its semicolon. Values are printed in
`inner`, comments in `outer`; `seenEquals` says that the values have begun. -/
def propertyChildren (outer inner : Context) : Bool → List Part → List Command
  | _, [] => []
  | seenEquals, part :: rest =>
      match part.kind with
      | .semicolon => []
      | .comment => inlineComment part outer ++ propertyChildren outer inner seenEquals rest
      | .equals => part.print inner ++ propertyChildren outer inner true rest
      | .comma | .colon => part.print inner ++ propertyChildren outer inner seenEquals rest
      | _ =>
          (if seenEquals then part.print inner else [.write part.token]) ++
            propertyChildren outer inner seenEquals rest

/-- The context of a property's values; those of `bindings` may form a table. -/
def valueContext (parts : List Part) (context : Context) : Context :=
  if Part.nameOf parts = "bindings" then context.deeper.inBindings else context

def beforeNode (place : Place) : List Command :=
  match place.follower with
  | some next => if next.inner = .node then [.write "\n"] else []
  | none => []

/-- A property, closed by a semicolon whether or not it has one. -/
def printProperty (place : Place) (parts : List Part) (context : Context) : List Command :=
  beginItem place context ++ propertyChildren context (valueContext parts context) false parts ++
    [.write ";\n"] ++ beforeNode place

/-- One item of a branch. The closing keyword is written by the conditional. -/
def branchChild (context : Context) (part : Part) : List Command :=
  if part.kind.isBranch then part.printBranch context
  else if !part.named && directiveKeyword part.text = "#endif" then []
  else part.print context

/-- The condition of a branch and its items. The last branch has no condition. -/
def splitCondition (kind : Kind) : List Part → Option Part × List Part
  | [] => (none, [])
  | first :: rest => if kind = .elseBranch then (none, first :: rest) else (some first, rest)

def branchLine (keyword : String) : Option Part → List String
  | none => [keyword]
  | some condition => [keyword, " ", condition.token]

def printBranch (kind : Kind) (parts : List Part) (context : Context) : List Command :=
  match parts with
  | [] => [.fail .childlessDirective]
  | head :: body =>
      let (condition, items) := splitCondition kind body
      writes (context.indentation :: branchLine (directiveKeyword head.text) condition ++ ["\n"]) ++
        items.flatMap (branchChild context)

def printConditional (place : Place) (kind : Kind) (parts : List Part) (context : Context) :
    List Command :=
  printBranch kind parts context ++ writes [context.indentation, "#endif\n"] ++
    endRun place Kind.isDirective

def unhandledMessage (name token : String) (childCount : Nat) : String :=
  let noun := if childCount = 1 then "child" else "children"
  s!"unhandled type '{name}' ({childCount} {noun}): {token}"

/-- A node of unknown kind: its token, or its children with all but the first
one level further in. -/
def printUnhandled (warn : Bool) (name token : String) (parts : List Part) (context : Context) :
    List Command :=
  (if warn then [.report (unhandledMessage name token parts.length)] else []) ++
    match parts with
    | [] => [.write token]
    | first :: rest =>
        first.print context ++ rest.flatMap fun part => part.print context.deeper

end DevicetreeFormat.Printer
