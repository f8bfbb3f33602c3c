import DevicetreeFormat.Scalar.Double
import DevicetreeFormat.Scalar.Moment
import DevicetreeFormat.Text.Loose

/-!
# Scalars

The single values that data is made of. Scalars are also the keys of mappings,
where a truth value, an integer and a number count as the same key if they are
equal as numbers.
-/

namespace DevicetreeFormat

set_option autoImplicit false

inductive Scalar
  | null
  | boolean (value : Bool)
  | integer (value : Int)
  | number (value : Double)
  | text (value : LooseText)
  | date (value : Date)
  | moment (value : Moment)
deriving DecidableEq

namespace Scalar

def asInteger : Scalar → Option Int
  | boolean value => some (if value then 1 else 0)
  | integer value => some value
  | number value => value.integer?
  | _ => none

def sameKey (left right : Scalar) : Bool :=
  match left.asInteger, right.asInteger with
  | some whole, some other => whole = other
  | none, none =>
      match left, right with
      | moment value, moment other => value.same other
      | _, _ => left = right
  | _, _ => false

def isEmpty : Scalar → Bool
  | null => true
  | boolean value => !value
  | integer value => value = 0
  | number value => value.isZero
  | text value => value.isEmpty
  | date _ => false
  | moment _ => false

/-- A key as a part of a location. Truth values are shown as numbers. -/
def shown : Scalar → String
  | null => "None"
  | boolean value => if value then "1" else "0"
  | integer value => toString value
  | number value => value.text
  | text value => value.shown
  | date value => value.text
  | moment value => value.text

end Scalar

end DevicetreeFormat
