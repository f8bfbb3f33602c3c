import DevicetreeFormat.Tree

/-!
# Trees from the grammar

A raw tree is what a parser returns for a source text: names, byte ranges and
four marks per node. A raw tree that carries an error is refused at the place
of its first fault. Otherwise each node gets the text of its range, and the
unnamed nodes that cover nothing but blanks are left out, because the ends of
directive lines are tokens of their own.
-/

namespace DevicetreeFormat

set_option autoImplicit false

/-- What a parser says about a node. The marks are independent of each other:
`faulty` says that an error lies at or below the node. -/
structure Marks where
  named : Bool
  error : Bool
  missing : Bool
  faulty : Bool

inductive RawTree
  | branch (name : String) (marks : Marks) (start stop : Nat) (children : List RawTree)

/-- Why a raw tree gives no syntax tree. Lines and columns count from one, and
columns count bytes. -/
inductive SourceFault
  | unexpected (line column : Nat)
  | missing (name : String) (line column : Nat)
  | undecodable
deriving DecidableEq

namespace RawTree

def name : RawTree → String
  | branch name _ _ _ _ => name

def marks : RawTree → Marks
  | branch _ marks _ _ _ => marks

def start : RawTree → Nat
  | branch _ _ start _ _ => start

def stop : RawTree → Nat
  | branch _ _ _ stop _ => stop

def children : RawTree → List RawTree
  | branch _ _ _ _ children => children

mutual

/-- The first node, parents before children, that is an error or is missing.
Only children marked as faulty or missing are searched. -/
def firstFault : RawTree → Option RawTree
  | branch name marks start stop children =>
      if marks.error || marks.missing then some (branch name marks start stop children)
      else firstFaultIn children

def firstFaultIn : List RawTree → Option RawTree
  | [] => none
  | tree :: rest =>
      if tree.marks.faulty || tree.marks.missing then
        match tree.firstFault with
        | some found => some found
        | none => firstFaultIn rest
      else firstFaultIn rest

end

def slice (source : ByteArray) (start stop : Nat) : ByteArray :=
  source.extract start stop

def isBlankSlice (bytes : ByteArray) : Bool :=
  bytes.data.toList.all Text.isBlankByte

def isSpacing (source : ByteArray) (tree : RawTree) : Bool :=
  !tree.marks.named && isBlankSlice (slice source tree.start tree.stop)

mutual

/-- The syntax tree over `source`, or nothing if a range cuts a character. -/
def attach (source : ByteArray) : RawTree → Option Tree
  | branch name marks start stop children => do
      let attached ← attachAll source children
      let text ← String.fromUTF8? (slice source start stop)
      return .branch name text marks.named start stop attached

def attachAll (source : ByteArray) : List RawTree → Option (List Tree)
  | [] => some []
  | tree :: rest =>
      if isSpacing source tree then attachAll source rest
      else do
        let first ← attach source tree
        let others ← attachAll source rest
        return first :: others

end

def position (source : ByteArray) (offset : Nat) : Nat × Nat :=
  let before := (slice source 0 offset).data.toList
  (before.count 0x0A + 1, (before.reverse.takeWhile (· != 0x0A)).length + 1)

def fault (source : ByteArray) (tree : RawTree) : SourceFault :=
  let (line, column) := position source tree.start
  if tree.marks.missing then .missing tree.name line column else .unexpected line column

/-- The syntax tree of a source text. A root marked as faulty is refused, at
the root itself if no node below it is at fault. -/
def toTree (source : String) (root : RawTree) : Except SourceFault Tree :=
  if root.marks.faulty then
    .error (fault source.toUTF8 (root.firstFault.getD root))
  else
    match attach source.toUTF8 root with
    | some tree => .ok tree
    | none => .error .undecodable

end RawTree

namespace SourceFault

def message : SourceFault → String
  | unexpected line column => s!"syntax error at line {line}, column {column}"
  | missing name line column => s!"missing '{name}' at line {line}, column {column}"
  | undecodable => "the text of a node is not valid UTF-8"

end SourceFault

end DevicetreeFormat
