import DevicetreeFormat.Yaml.Token

/-!
# Nodes

The tree of collections and scalars that tokens describe, before any scalar is
given a meaning. The readers take a number of steps that bounds their work; the
number of tokens is enough. They gather items and entries newest first.
-/

namespace DevicetreeFormat.Yaml

set_option autoImplicit false

/-- A scalar or a collection. Keys are nodes too. -/
inductive Node
  | scalar (written : Written)
  | sequence (items : List Node)
  | mapping (entries : List (Node × Node))

def Node.absent : Node := .scalar (.plain "")

/-- Whether the next token is one of those given. A text that is over counts
as none of them. -/
def nextIs (tokens : List Token) (choices : List Token) : Bool :=
  match tokens with
  | [] => false
  | token :: _ => choices.contains token

/-- The fault of tokens that do not go on as they have to. If there are no more,
it is the fault that `ending` names. -/
def unexpected (ending : Fault) : List Token → Fault
  | [] => ending
  | _ => .malformed

def blockValueEnds : List Token := [.key, .value, .blockEnd]

variable (ending : Fault)

mutual

/-- Reads a node. A block may stand where `block` says so, and a sequence
without indentation of its own where `loose` says so. -/
def readNode (block loose : Bool) : Nat → List Token → Except Fault (Node × List Token)
  | 0, tokens => .error (unexpected ending tokens)
  | steps + 1, tokens =>
      match tokens, block, loose with
      | .scalar written :: rest, _, _ => .ok (.scalar written, rest)
      | .flowSequenceStart :: rest, _, _ => readFlowItems true steps rest []
      | .flowMappingStart :: rest, _, _ => readFlowEntries true steps rest []
      | .blockSequenceStart :: rest, true, _ => readItems steps rest []
      | .blockMappingStart :: rest, true, _ => readEntries steps rest []
      | .blockEntry :: _, _, true => readLooseItems steps tokens []
      | _, _, _ => .error (unexpected ending tokens)

def readItems : Nat → List Token → List Node → Except Fault (Node × List Token)
  | steps + 1, .blockEntry :: rest, items =>
      if nextIs rest [.blockEntry, .blockEnd] then readItems steps rest (.absent :: items)
      else do
        let (item, rest) ← readNode true false steps rest
        readItems steps rest (item :: items)
  | _, .blockEnd :: rest, items => .ok (.sequence items.reverse, rest)
  | _, tokens, _ => .error (unexpected ending tokens)

/-- Reads the entries of a sequence that is indented like the mapping around
it. -/
def readLooseItems : Nat → List Token → List Node → Except Fault (Node × List Token)
  | steps + 1, .blockEntry :: rest, items =>
      if nextIs rest (.blockEntry :: blockValueEnds) then
        readLooseItems steps rest (.absent :: items)
      else do
        let (item, rest) ← readNode true false steps rest
        readLooseItems steps rest (item :: items)
  | _, tokens, items => .ok (.sequence items.reverse, tokens)

def readEntries : Nat → List Token → List (Node × Node) → Except Fault (Node × List Token)
  | steps + 1, .key :: rest, entries => do
      let (key, rest) ← readNode true true steps rest
      match rest with
      | .value :: rest =>
          if nextIs rest blockValueEnds then readEntries steps rest ((key, .absent) :: entries)
          else do
            let (value, rest) ← readNode true true steps rest
            readEntries steps rest ((key, value) :: entries)
      | _ => readEntries steps rest ((key, .absent) :: entries)
  | _, .blockEnd :: rest, entries => .ok (.mapping entries.reverse, rest)
  | _, tokens, _ => .error (unexpected ending tokens)

/-- Reads the items of a flow sequence; `first` says that no comma is due. An
item may be a single pair. -/
def readFlowItems (first : Bool) :
    Nat → List Token → List Node → Except Fault (Node × List Token)
  | 0, tokens, _ => .error (unexpected ending tokens)
  | steps + 1, tokens, items =>
      match first, tokens with
      | _, .flowSequenceEnd :: rest => .ok (.sequence items.reverse, rest)
      | false, .flowEntry :: rest =>
          if nextIs rest [.flowSequenceEnd] then readFlowItems true steps rest items
          else readFlowItem steps rest items
      | true, tokens => readFlowItem steps tokens items
      | _, _ => .error (unexpected ending tokens)

def readFlowItem : Nat → List Token → List Node → Except Fault (Node × List Token)
  | 0, tokens, _ => .error (unexpected ending tokens)
  | steps + 1, .key :: rest, items => do
      let (entry, rest) ← readFlowPair [.flowEntry, .flowSequenceEnd] steps rest
      readFlowItems false steps rest (.mapping [entry] :: items)
  | steps + 1, tokens, items => do
      let (item, rest) ← readNode false false steps tokens
      readFlowItems false steps rest (item :: items)

/-- Reads the entries of a flow mapping. A key without a value has none. -/
def readFlowEntries (first : Bool) :
    Nat → List Token → List (Node × Node) → Except Fault (Node × List Token)
  | 0, tokens, _ => .error (unexpected ending tokens)
  | steps + 1, tokens, entries =>
      match first, tokens with
      | _, .flowMappingEnd :: rest => .ok (.mapping entries.reverse, rest)
      | false, .flowEntry :: rest =>
          if nextIs rest [.flowMappingEnd] then readFlowEntries true steps rest entries
          else readFlowEntry steps rest entries
      | true, tokens => readFlowEntry steps tokens entries
      | _, _ => .error (unexpected ending tokens)

def readFlowEntry : Nat → List Token → List (Node × Node) → Except Fault (Node × List Token)
  | 0, tokens, _ => .error (unexpected ending tokens)
  | steps + 1, .key :: rest, entries => do
      let (entry, rest) ← readFlowPair [.flowEntry, .flowMappingEnd] steps rest
      readFlowEntries false steps rest (entry :: entries)
  | steps + 1, tokens, entries => do
      let (key, rest) ← readNode false false steps tokens
      readFlowEntries false steps rest ((key, .absent) :: entries)

def readFlowPair (ends : List Token) :
    Nat → List Token → Except Fault ((Node × Node) × List Token)
  | 0, tokens => .error (unexpected ending tokens)
  | steps + 1, tokens => do
      let (key, rest) ← readNode false false steps tokens
      match rest with
      | .value :: rest =>
          if nextIs rest ends then return ((key, .absent), rest)
          else do
            let (value, rest) ← readNode false false steps rest
            return ((key, value), rest)
      | _ => return ((key, .absent), rest)

end

def readContent (tokens : List Token) : Except Fault (Node × List Token) :=
  match tokens with
  | [] | .documentStart :: _ | .documentEnd :: _ => .ok (.absent, tokens)
  | _ => readNode ending true false (2 * tokens.length + 2) tokens

/-- The node of the only document of a text. The empty text is an empty
document. Nothing but the end of the document may follow it. -/
def Node.ofTokens (stream : TokenStream) : Except Fault Node := do
  let ending := stream.fault.getD .malformed
  let (node, rest) ←
    match stream.tokens with
    | [] => .ok (.absent, [])
    | .documentStart :: rest => readContent ending rest
    | tokens => readNode ending true false (2 * tokens.length + 2) tokens
  if !rest.all (· == .documentEnd) then .error .malformed
  else
    match stream.fault with
    | some fault => .error fault
    | none => return node

end DevicetreeFormat.Yaml
