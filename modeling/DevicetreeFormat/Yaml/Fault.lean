/-!
# Faults of the settings format

What can be wrong with a text of the settings format. Of several faults the one
counts that is met first, so every reader keeps to an order.
-/

namespace DevicetreeFormat.Yaml

set_option autoImplicit false

/-- Why a text describes no value: it breaks the rules of the format, a scalar
has the form of a number, a date or a character code and yet no value, a number
is beyond all measure on the way, or the bytes are no text. -/
inductive Fault
  | malformed
  | valueless
  | immeasurable
  | undecodable
deriving DecidableEq

end DevicetreeFormat.Yaml
