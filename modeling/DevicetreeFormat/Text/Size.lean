/-!
# Sizes

Lengths and counts are measured by signed words of 64 bits, and a text has to
fit into memory. Requests for larger texts are faults and not attempts.
-/

namespace DevicetreeFormat.Text

set_option autoImplicit false

/-- Why a text cannot be made: a count needs more than 64 bits, or there is no
room for so many characters. -/
inductive SizeFault
  | unmeasurable
  | unholdable
deriving DecidableEq

def countLimit : Int := 9223372036854775808

def roomLimit : Int := 4294967296

/-- What stands against a text of so many characters. A length below zero is
that of an empty text. -/
def sizeFault? (length : Int) : Option SizeFault :=
  if length < -countLimit || countLimit ≤ length then some .unmeasurable
  else if roomLimit < length then some .unholdable
  else none

def repetitionFault? (count : Int) (size : Nat) : Option SizeFault :=
  match sizeFault? count with
  | some .unmeasurable => some .unmeasurable
  | _ => if 0 < count then sizeFault? (count * size) else none

end DevicetreeFormat.Text
