import DevicetreeFormat.Text.Blank
import DevicetreeFormat.Text.Size

/-!
# Contexts

What surrounds a node while it is printed: how deep it lies, and whether it is
part of a keymap and of a bindings property. A context is a value; going deeper
gives a new one and leaves the old one as it was.
-/

namespace DevicetreeFormat

set_option autoImplicit false

/-- Depth and keymap state of a subtree. A depth below zero indents nothing. -/
structure Context where
  indentUnit : String
  depth : Int := 0
  keymap : Bool := false
  bindings : Bool := false

namespace Context

def atDepth (context : Context) (depth : Int) : Context :=
  { context with depth }

def deeperBy (levels : Int) (context : Context) : Context :=
  { context with depth := context.depth + levels }

/-- The context some levels further out, but not outside the document. -/
def shallowerBy (levels : Int) (context : Context) : Context :=
  { context with depth := max (context.depth - levels) 0 }

def deeper (context : Context) : Context :=
  context.deeperBy 1

def shallower (context : Context) : Context :=
  context.shallowerBy 1

def inKeymap (context : Context) : Context :=
  { context with keymap := true }

def inBindings (context : Context) : Context :=
  { context with bindings := true }

/-- Cell lists are binding tables inside a bindings property of a keymap. -/
def alignsBindings (context : Context) : Bool :=
  context.keymap && context.bindings

def indentation (context : Context) : String :=
  Text.times context.depth.toNat context.indentUnit

/-- The text at the start of a line, if it is not too long to be written. -/
def writableIndentation (context : Context) : Except Text.SizeFault String :=
  match Text.repetitionFault? context.depth context.indentUnit.toList.length with
  | some fault => .error fault
  | none => .ok context.indentation

end Context

end DevicetreeFormat
