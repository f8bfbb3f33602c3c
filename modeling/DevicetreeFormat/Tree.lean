import DevicetreeFormat.Kind
import DevicetreeFormat.Text.Blank

/-!
# Syntax trees

A syntax tree keeps, for each node, the grammar's name for it, the source text
it covers, whether the grammar names it, and the byte range of that text. The
text of a node is data of its own and is not computed from the children.
-/

namespace DevicetreeFormat

set_option autoImplicit false

inductive Tree
  | branch (name text : String) (named : Bool) (start stop : Nat) (children : List Tree)

namespace Tree

def name : Tree → String
  | branch name _ _ _ _ _ => name

def text : Tree → String
  | branch _ text _ _ _ _ => text

def named : Tree → Bool
  | branch _ _ named _ _ _ => named

def start : Tree → Nat
  | branch _ _ _ start _ _ => start

def stop : Tree → Nat
  | branch _ _ _ _ stop _ => stop

def children : Tree → List Tree
  | branch _ _ _ _ _ children => children

def kind (tree : Tree) : Kind :=
  Kind.ofName tree.name

def token (tree : Tree) : String :=
  Text.strip tree.text

mutual

/-- The kind of the item inside all wrappers: a wrapper's last child is the
item it wraps. -/
def innerKind : Tree → Kind
  | branch name _ _ _ _ children =>
      if (Kind.ofName name).isWrapper then lastInnerKind (Kind.ofName name) children
      else Kind.ofName name

def lastInnerKind (otherwise : Kind) : List Tree → Kind
  | [] => otherwise
  | tree :: rest => lastInnerKind tree.innerKind rest

end

end Tree

end DevicetreeFormat
