/-!
# Issues

What a check has to say about unchecked data: complaints, each at a place in
the data. A check that finds several faults reports all of them, so results are
combined by collecting the issues of both sides.
-/

namespace DevicetreeFormat

set_option autoImplicit false

inductive Complaint
  | notText
  | garbledText
  | notTruthWord
  | notTruthValue
  | notInteger
  | notIntegerText
  | fractional
  | oversized
  | notFinite
  | belowOne
  | notTuple
  | required
  | notDictionary
  | notModel (model : String)
  | extraKey
  | invalidKey
  | rejected (reason : String)
deriving DecidableEq

namespace Complaint

def message : Complaint → String
  | notText => "Input should be a valid string"
  | garbledText =>
      "Input should be a valid string, unable to parse raw data as a unicode string"
  | notTruthWord => "Input should be a valid boolean, unable to interpret input"
  | notTruthValue => "Input should be a valid boolean"
  | notInteger => "Input should be a valid integer"
  | notIntegerText => "Input should be a valid integer, unable to parse string as an integer"
  | fractional => "Input should be a valid integer, got a number with a fractional part"
  | oversized => "Unable to parse input string as an integer, exceeded maximum size"
  | notFinite => "Input should be a finite number"
  | belowOne => "Input should be greater than or equal to 1"
  | notTuple => "Input should be a valid tuple"
  | required => "Field required"
  | notDictionary => "Input should be a valid dictionary"
  | notModel model => "Input should be a valid dictionary or instance of " ++ model
  | extraKey => "Extra inputs are not permitted"
  | invalidKey => "Keys should be strings"
  | rejected reason => "Value error, " ++ reason

def tag : Complaint → String
  | notText => "string_type"
  | garbledText => "string_unicode"
  | notTruthWord => "bool_parsing"
  | notTruthValue => "bool_type"
  | notInteger => "int_type"
  | notIntegerText => "int_parsing"
  | fractional => "int_from_float"
  | oversized => "int_parsing_size"
  | notFinite => "finite_number"
  | belowOne => "greater_than_equal"
  | notTuple => "tuple_type"
  | required => "missing"
  | notDictionary => "dict_type"
  | notModel _ => "model_type"
  | extraKey => "extra_forbidden"
  | invalidKey => "invalid_key"
  | rejected _ => "value_error"

end Complaint

/-- A complaint at a place, given by the keys and indices that lead to it. -/
structure Issue where
  location : List String
  complaint : Complaint
deriving DecidableEq

/-- The result of a check: a value, or all issues in order. -/
abbrev Checked (α : Type) := Except (List Issue) α

namespace Issue

def under (key : String) (issue : Issue) : Issue :=
  { issue with location := key :: issue.location }

/-- A part of a location. A key that holds a dot is set off, because dots
divide the parts. -/
def locationPart (part : String) : String :=
  if part.toList.contains '.' then "`" ++ part ++ "`" else part

def lines (issue : Issue) : List String :=
  let complaint := "  " ++ issue.complaint.message ++ " [type=" ++ issue.complaint.tag ++ "]"
  if issue.location.isEmpty then [complaint]
  else [".".intercalate (issue.location.map locationPart), complaint]

def report (model : String) (issues : List Issue) : String :=
  let count := issues.length
  let noun := if count = 1 then "error" else "errors"
  "\n".intercalate (s!"{count} validation {noun} for {model}" :: issues.flatMap lines)

end Issue

namespace Checked

variable {α β : Type}

def refuse (complaint : Complaint) : Checked α :=
  .error [⟨[], complaint⟩]

def ofResult : Except Complaint α → Checked α
  | .ok value => .ok value
  | .error complaint => refuse complaint

def located (key : String) : Checked α → Checked α
  | .ok value => .ok value
  | .error issues => .error (issues.map (Issue.under key))

def both : Checked α → Checked β → Checked (α × β)
  | .ok left, .ok right => .ok (left, right)
  | .ok _, .error issues => .error issues
  | .error issues, .ok _ => .error issues
  | .error left, .error right => .error (left ++ right)

def all : List (Checked α) → Checked (List α)
  | [] => .ok []
  | first :: rest =>
      match both first (all rest) with
      | .ok (value, values) => .ok (value :: values)
      | .error issues => .error issues

end Checked

end DevicetreeFormat
