/-!
# Loose texts

A quoted scalar can hold any code point, also half of a surrogate pair, which is
no character. Texts with halves are compared, sorted and shown in messages like
all others, but there is no way to print them.
-/

namespace DevicetreeFormat

set_option autoImplicit false

/-- A code point. A half of a surrogate pair is given by its distance from the
first one. -/
inductive Code
  | character (c : Char)
  | half (offset : Fin 2048)
deriving DecidableEq

namespace Code

def firstHalf : Nat := 0xD800

def number : Code → Nat
  | character c => c.toNat
  | half offset => firstHalf + offset

/-- The code with one replacement for each byte of a half. -/
def shown : Code → List Char
  | character c => [c]
  | half _ => ['\ufffd', '\ufffd', '\ufffd']

def escaped : Code → List Char
  | character c => [c]
  | half offset => '\\' :: 'u' :: Nat.toDigits 16 (firstHalf + offset)

end Code

structure LooseText where
  codes : List Code
deriving DecidableEq

namespace LooseText

def ofString (text : String) : LooseText :=
  ⟨text.toList.map .character⟩

instance : Coe String LooseText := ⟨ofString⟩

def isEmpty (loose : LooseText) : Bool :=
  loose.codes.isEmpty

def charactersOf : List Code → Option (List Char)
  | [] => some []
  | .character c :: rest => (charactersOf rest).map (c :: ·)
  | .half _ :: _ => none

def text? (loose : LooseText) : Option String :=
  (charactersOf loose.codes).map String.ofList

/-- The text as a report about settings shows it. -/
def shown (loose : LooseText) : String :=
  String.ofList (loose.codes.flatMap Code.shown)

/-- The text as a complaint shows it, with every half as an escape. -/
def escaped (loose : LooseText) : String :=
  String.ofList (loose.codes.flatMap Code.escaped)

def numbersOrdered : List Nat → List Nat → Bool
  | [], _ => true
  | _ :: _, [] => false
  | first :: rest, other :: others =>
      if first = other then numbersOrdered rest others else first < other

def ordered (left right : LooseText) : Bool :=
  numbersOrdered (left.codes.map Code.number) (right.codes.map Code.number)

end LooseText

end DevicetreeFormat
