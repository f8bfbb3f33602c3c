/-!
# Blank characters

The characters that separate words of a source text, and the operations that
ignore them at the ends of a text or everywhere. Every operation is a function
on the list of characters, carried to `String` at the edge. Two smaller classes
are kept apart because other readers of text use them: the blanks of a byte
sequence and the blanks around a written number.
-/

namespace DevicetreeFormat.Text

set_option autoImplicit false

/-- A blank is a character with the Unicode property of white space, or one of
the four information separators U+001C to U+001F. -/
def isBlank (c : Char) : Bool :=
  let code := c.toNat
  (0x09 ≤ code && code ≤ 0x0D) || (0x1C ≤ code && code ≤ 0x20) || code == 0x85 || code == 0xA0 ||
    code == 0x1680 || (0x2000 ≤ code && code ≤ 0x200A) || code == 0x2028 || code == 0x2029 ||
    code == 0x202F || code == 0x205F || code == 0x3000

/-- The blanks that may surround a written number: the information separators
do not count. -/
def isNumberBlank (c : Char) : Bool :=
  isBlank c && !(0x1C ≤ c.toNat && c.toNat ≤ 0x1F)

/-- A byte that stands for a blank by itself: a tab, a line or page break, or a
space. -/
def isBlankByte (byte : UInt8) : Bool :=
  (0x09 ≤ byte && byte ≤ 0x0D) || byte == 0x20

def dropFront (inClass : Char → Bool) (characters : List Char) : List Char :=
  characters.dropWhile inClass

def dropBack (inClass : Char → Bool) (characters : List Char) : List Char :=
  (characters.reverse.dropWhile inClass).reverse

def dropEnds (inClass : Char → Bool) (characters : List Char) : List Char :=
  dropBack inClass (dropFront inClass characters)

def strip (text : String) : String :=
  String.ofList (dropEnds isBlank text.toList)

def stripBack (text : String) : String :=
  String.ofList (dropBack isBlank text.toList)

def withoutBlanks (text : String) : String :=
  String.ofList (text.toList.filter fun c => !isBlank c)

def beginsWith (lead text : String) : Bool :=
  lead.toList.isPrefixOf text.toList

def endsWith (close text : String) : Bool :=
  close.toList.isSuffixOf text.toList

/-- The last `size` characters of the text, or all of it if it is shorter. -/
def lastCharacters (size : Nat) (text : String) : String :=
  String.ofList (text.toList.drop (text.toList.length - size))

def padRight (width : Nat) (text : String) : String :=
  text ++ String.ofList (List.replicate (width - text.toList.length) ' ')

def times (count : Nat) (text : String) : String :=
  String.join (List.replicate count text)

end DevicetreeFormat.Text
