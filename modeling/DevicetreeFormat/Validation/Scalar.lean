import DevicetreeFormat.Text.Blank
import DevicetreeFormat.Validation.Issue
import DevicetreeFormat.Validation.Value

/-!
# Checks of single values

Which values count as a text, a truth value or an integer. The checks are
lenient: a word or a number may stand for a truth value, and a whole number or
a written one for an integer.
-/

namespace DevicetreeFormat.Validation

set_option autoImplicit false

def checkText : Value → Checked LooseText
  | .scalar (.text value) => .ok value
  | _ => Checked.refuse .notText

/-- The check of a text by what it spells. Halves of surrogate pairs spell nothing. -/
def checkSpelled {α : Type} (check : String → Checked α) (text : LooseText) : Checked α :=
  match text.text? with
  | some spelled => check spelled
  | none => Checked.refuse .garbledText

/-! ## Truth values -/

def lowerCase (text : String) : String :=
  String.ofList (text.toList.map Char.toLower)

def yesWords : List String := ["1", "t", "true", "y", "yes", "on"]

def noWords : List String := ["0", "f", "false", "n", "no", "off"]

def wordLimit : Int := 9223372036854775808

def truthOfInteger (value : Int) : Checked Bool :=
  if value = 1 then .ok true
  else if value = 0 then .ok false
  else Checked.refuse .notTruthWord

def truthOfWord (word : String) : Checked Bool :=
  if yesWords.contains (lowerCase word) then .ok true
  else if noWords.contains (lowerCase word) then .ok false
  else Checked.refuse .notTruthWord

/-- A truth value, a yes or no word, or the numbers one and zero. Other integers
of 64 bits are understood as numbers, and refused; whatever is larger or not
whole is no truth value at all. -/
def checkTruth : Value → Checked Bool
  | .scalar (.boolean value) => .ok value
  | .scalar (.integer value) =>
      if -wordLimit ≤ value && value < wordLimit then truthOfInteger value
      else Checked.refuse .notTruthValue
  | .scalar (.number number) =>
      match number.integer? with
      | some value =>
          if -wordLimit < value && value < wordLimit then truthOfInteger value
          else Checked.refuse .notTruthValue
      | none => Checked.refuse .notTruthValue
  | .scalar (.text value) => checkSpelled truthOfWord value
  | _ => Checked.refuse .notTruthValue

/-! ## Integers -/

def longestInteger : Nat := 4300

def isLeadingDigit (c : Char) : Bool :=
  c.isDigit && c != '0'

def digitsNumber (digits : List Char) : Nat :=
  digits.foldl (fun number c => number * 10 + (c.toNat - '0'.toNat)) 0

/-- The number that is written by digits alone. A zero in front is a number of
its own. Too many digits are noticed before anything after them. -/
def plainNatural (characters : List Char) : Except Complaint Nat :=
  let digits := characters.takeWhile Char.isDigit
  match digits with
  | [] => .error .notIntegerText
  | first :: _ =>
      if first = '0' then
        if characters = ['0'] then .ok 0 else .error .notIntegerText
      else if longestInteger < digits.length then .error .oversized
      else if digits.length = characters.length then .ok (digitsNumber digits)
      else .error .notIntegerText

def plainInteger : List Char → Except Complaint Int
  | '-' :: digits => (plainNatural digits).map fun number => -(number : Int)
  | digits => (plainNatural digits).map Int.ofNat

/-- The rest of a number after zeros and underscores, of which `last` is the
newest. A zero before a point or at the end stays. -/
def afterZeros (last : Char) : List Char → Option (List Char)
  | [] => some [last]
  | c :: rest =>
      if c = '0' || c = '_' then afterZeros c rest
      else if c = '.' then some (last :: c :: rest)
      else if isLeadingDigit c || c = '-' then some (c :: rest)
      else none

def dropLeadingZeros : List Char → Option (List Char)
  | [] => none
  | c :: rest =>
      if c = '0' then afterZeros c rest
      else if isLeadingDigit c || c = '-' then some (c :: rest)
      else none

def dropZeroFraction (characters : List Char) : List Char :=
  match characters.dropWhile (· != '.') with
  | _ :: first :: fraction =>
      if (first :: fraction).all (· == '0') then characters.takeWhile (· != '.') else characters
  | _ => characters

/-- Whether every underscore stands alone between other characters; `before`
says that the character before may be followed by one. -/
def underscoresDivide (before : Bool) : List Char → Bool
  | [] => before
  | c :: rest => if c = '_' then before && underscoresDivide false rest else underscoresDivide true rest

def dropUnderscores (characters : List Char) : Option (List Char) :=
  if underscoresDivide false characters then some (characters.filter (· != '_')) else none

/-- The minus of a number, if there is one, and what follows the sign. A plus
has no minus after it. -/
def splitSign : List Char → Option (List Char × List Char)
  | '+' :: '-' :: _ => none
  | '+' :: body => some ([], body)
  | '-' :: body => some (['-'], body)
  | body => some ([], body)

/-- The plain form of an integer: without blanks around it, a plus, leading
zeros, a fraction of zeros, and underscores. -/
def plainForm (characters : List Char) : Option (List Char) := do
  let (sign, body) ← splitSign (Text.dropEnds Text.isNumberBlank characters)
  let number ← dropLeadingZeros body
  let digits ← dropUnderscores (dropZeroFraction number)
  return sign ++ digits

/-- The integer that a text writes. Only a text that begins with too many digits
as it stands is called oversized. -/
def readInteger (text : String) : Except Complaint Int :=
  match plainInteger text.toList with
  | .error .notIntegerText =>
      match (plainForm text.toList).map plainInteger with
      | some (.ok value) => .ok value
      | _ => .error .notIntegerText
  | result => result

/-- The integer that a number is. Numbers that are whole have to be shorter than
64 bits. -/
def integerOfNumber : Double → Except Complaint Int
  | .finite negative mantissa exponent =>
      match (Double.finite negative mantissa exponent).integer? with
      | some value =>
          if -wordLimit < value && value < wordLimit then .ok value else .error .oversized
      | none => .error .fractional
  | _ => .error .notFinite

def checkInteger : Value → Checked Int
  | .scalar (.integer value) => .ok value
  | .scalar (.boolean value) => .ok (if value then 1 else 0)
  | .scalar (.number number) => Checked.ofResult (integerOfNumber number)
  | .scalar (.text value) => checkSpelled (fun text => Checked.ofResult (readInteger text)) value
  | _ => Checked.refuse .notInteger

/-! ## Entries -/

def optional {α : Type} (entries : Entries) (key : String) (default : α)
    (check : Value → Checked α) : Checked α :=
  match Value.field? entries key with
  | none => .ok default
  | some value => (check value).located key

end DevicetreeFormat.Validation
