import DevicetreeFormat.Text.Lines
import DevicetreeFormat.Yaml.Fault

/-!
# Sources

The characters of a settings file on their way to the reader. Bytes are decoded
piece by piece and characters arrive block by block, so a fault far ahead is met
only by a reader that comes so far. A block arrives whole or not at all.
-/

namespace DevicetreeFormat.Yaml

set_option autoImplicit false

/-- The characters that arrive, and the fault that cuts them off, if one does. -/
structure Source where
  characters : List Char
  cut : Option Fault := none

def isAllowed (c : Char) : Bool :=
  let code := c.toNat
  code == 0x09 || code == 0x0A || code == 0x0D || (0x20 ≤ code && code ≤ 0x7E) || code == 0x85 ||
    (0xA0 ≤ code && code ≤ 0xD7FF) || (0xE000 ≤ code && code ≤ 0xFFFD) || 0x10000 ≤ code

def pieceSize : Nat := 8192

/-- The characters that arrive at once. The first time it is two blocks. -/
def blockSize : Nat := 4096

def wholeBlocks (count : Nat) : Nat :=
  if count < 2 * blockSize then 0 else count / blockSize * blockSize

def sequenceLength (lead : UInt8) : Nat :=
  if lead < 0x80 then 1 else if lead < 0xE0 then 2 else if lead < 0xF0 then 3 else 4

/-- The characters before the first bytes that encode none. The number of bytes
is enough steps. -/
def decodedFront : Nat → List UInt8 → List Char
  | 0, _ => []
  | _, [] => []
  | steps + 1, lead :: rest =>
      let length := sequenceLength lead
      match (String.fromUTF8? ⟨((lead :: rest).take length).toArray⟩).map String.toList with
      | some [c] => c :: decodedFront steps ((lead :: rest).drop length)
      | _ => []

def within (limit : Nat) : List Char → List Char
  | [] => []
  | c :: rest => if c.utf8Size ≤ limit then c :: within (limit - c.utf8Size) rest else []

def encodedLength (characters : List Char) : Nat :=
  characters.foldl (fun length c => length + c.utf8Size) 0

/-- The characters of the pieces before the one that cannot be decoded. A
carriage return at the end waits for what follows it. -/
def soundPieces (content : ByteArray) : List Char :=
  let front := decodedFront content.size content.data.toList
  let sound := within (encodedLength front / pieceSize * pieceSize) front
  if sound.getLast? == some '\r' then sound.dropLast else sound

namespace Source

/-- The characters that arrive in sound blocks, with every line ending as a line
feed. -/
def ofBytes (content : ByteArray) : Source :=
  let (text, cut) : List Char × Option Fault :=
    match String.fromUTF8? content with
    | some text => (Text.lineFeeds text.toList, none)
    | none =>
        let text := Text.lineFeeds (soundPieces content)
        (text.take (wholeBlocks text.length), some .undecodable)
  match text.findIdx? fun c => !isAllowed c with
  | some index => ⟨text.take (wholeBlocks index), some .malformed⟩
  | none => ⟨text, cut⟩

end Source

end DevicetreeFormat.Yaml
