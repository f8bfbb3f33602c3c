import DevicetreeFormat.Validation.Value
import DevicetreeFormat.Yaml.Node
import DevicetreeFormat.Yaml.Plain

/-!
# Documents of the settings format

The value that a text describes. The format is the part of YAML 1.1 with block
and flow collections and scalars; a text holds at most one document. Anchors,
tags, directives, block scalars and explicit keys are refused. Keys are scalars
of any type. A mapping can merge others, whose entries come before its own.
Faults of the text come before faults of values.
-/

namespace DevicetreeFormat.Yaml

set_option autoImplicit false

namespace Node

def isMerge : Node → Bool
  | scalar (.plain text) => text = mergeSpelling
  | _ => false

/-- The scalar that a node is as a key. Collections cannot be keys. -/
def key : Node → Except Fault Scalar
  | scalar (.plain text) =>
      if text = defaultSpelling then .ok (.text text) else plainScalar text
  | scalar (.quoted text) => .ok (.text text)
  | _ => .error .malformed

end Node

def Written.value : Written → Except Fault Scalar
  | plain text => plainScalar text
  | quoted text => .ok (.text text)

/-! ## Readings -/

/-- A fault by the number of collections between it and the place from which it
is seen. Collections are read level by level, so of several faults the one with
the fewest counts, and among equals the first. -/
structure DeepFault where
  depth : Nat
  fault : Fault

abbrev Reading (α : Type) := Except DeepFault α

namespace Reading

variable {α β : Type}

def shallow : Except Fault α → Reading α
  | .ok value => .ok value
  | .error fault => .error ⟨0, fault⟩

def deepen : Reading α → Reading α
  | .ok value => .ok value
  | .error ⟨depth, fault⟩ => .error ⟨depth + 1, fault⟩

def both : Reading α → Reading β → Reading (α × β)
  | .ok left, .ok right => .ok (left, right)
  | .ok _, .error fault => .error fault
  | .error fault, .ok _ => .error fault
  | .error left, .error right => .error (if right.depth < left.depth then right else left)

def all : List (Reading α) → Reading (List α)
  | [] => .ok []
  | first :: rest => (both first (all rest)).map fun (value, values) => value :: values

end Reading

/-! ## Values -/

abbrev EntryReading := Except Fault Scalar × Reading Value

def mappingReading (entries : List EntryReading) : Reading Value :=
  (Reading.all (entries.map fun entry => Reading.both (Reading.shallow entry.1) entry.2)).map fun found =>
    .mapping (Value.override [] found)

mutual

def Node.value : Node → Reading Value
  | .scalar written => Reading.shallow (written.value.map .scalar)
  | .sequence items => Reading.deepen ((Reading.all (itemValues items)).map .list)
  | .mapping entries =>
      match entryReadings entries with
      | .ok (merged, own) => Reading.deepen (mappingReading (merged ++ own))
      | .error fault => .error ⟨1, fault⟩

/-- The entries that a node adds when it is merged: those of a mapping or of a
list of mappings. Of equal keys in a list the first mapping's counts, so it
comes last. -/
def Node.added : Node → Except Fault (List EntryReading)
  | .mapping entries => do
      let (merged, own) ← entryReadings entries
      return merged ++ own
  | .sequence items => addedItems items
  | .scalar _ => .error .malformed

def itemValues : List Node → List (Reading Value)
  | [] => []
  | item :: rest => item.value :: itemValues rest

def addedItems : List Node → Except Fault (List EntryReading)
  | [] => .ok []
  | .mapping entries :: rest => do
      let (merged, own) ← entryReadings entries
      let others ← addedItems rest
      return others ++ (merged ++ own)
  | _ :: _ => .error .malformed

/-- The readings of the entries that are merged into a mapping, and of its own.
A merge that is none is a fault of the mapping as a whole. -/
def entryReadings : List (Node × Node) → Except Fault (List EntryReading × List EntryReading)
  | [] => .ok ([], [])
  | (key, item) :: rest => do
      let (merged, own) ← entryReadings rest
      if key.isMerge then
        let added ← item.added
        return (added ++ merged, own)
      else return (merged, (key.key, item.value) :: own)

end

def parse (source : Source) : Except Fault Value := do
  let node ← Node.ofTokens (.ofSource source)
  match node.value with
  | .ok value => return value
  | .error deep => .error deep.fault

def load (content : ByteArray) : Except Fault Value :=
  parse (.ofBytes content)

end DevicetreeFormat.Yaml
