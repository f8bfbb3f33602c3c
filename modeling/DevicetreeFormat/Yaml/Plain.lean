import DevicetreeFormat.Scalar.Basic
import DevicetreeFormat.Text.Pattern
import DevicetreeFormat.Yaml.Fault

/-!
# Plain scalars

The meaning of a scalar that is not quoted. Its form decides whether it is
nothing, a truth value, a number, a date or a text. Numbers may be written in
several bases, with underscores between digits, and in sixties with colons. A
form can promise a value that does not exist, such as a thirteenth month.
-/

namespace DevicetreeFormat.Yaml

set_option autoImplicit false

open Text (Pattern)

/-! ## Forms -/

def trueSpellings : List String :=
  ["yes", "Yes", "YES", "true", "True", "TRUE", "on", "On", "ON"]

def falseSpellings : List String :=
  ["no", "No", "NO", "false", "False", "FALSE", "off", "Off", "OFF"]

def nullSpellings : List String :=
  ["", "~", "null", "Null", "NULL"]

def mergeSpelling : String := "<<"

/-- The scalar that is a text as a key and has no meaning elsewhere. -/
def defaultSpelling : String := "="

def digit : Pattern := .one Char.isDigit

def leadingDigit : Pattern := .oneOf "123456789"

def moreDigits : Pattern := .many (.oneOf "0123456789_")

def sign : Pattern := .optional (.oneOf "+-")

def sixtieth : Pattern := .sequence [.exactly ":", .optional (.oneOf "012345"), digit]

def integerForm : Pattern :=
  .choice
    [.sequence [sign, .exactly "0b", .several (.oneOf "01_")],
     .sequence [sign, .exactly "0", .several (.oneOf "01234567_")],
     .sequence [sign, .exactly "0"],
     .sequence [sign, leadingDigit, moreDigits],
     .sequence [sign, .exactly "0x", .several (.oneOf "0123456789abcdefABCDEF_")],
     .sequence [sign, leadingDigit, moreDigits, .several sixtieth]]

/-- The exponent of a number or none. Its sign cannot be left out. -/
def exponent : Pattern :=
  .optional (.sequence [.oneOf "eE", .oneOf "+-", .several digit])

def numberForm : Pattern :=
  .choice
    [.sequence [sign, digit, moreDigits, .exactly ".", moreDigits, exponent],
     .sequence [.exactly ".", digit, moreDigits, exponent],
     .sequence [sign, digit, moreDigits, .several sixtieth, .exactly ".", moreDigits],
     .sequence [sign, .anyOf [".inf", ".Inf", ".INF"]],
     .anyOf [".nan", ".NaN", ".NAN"]]

def oneOrTwoDigits : Pattern := .sequence [digit, .optional digit]

def dateForm : Pattern :=
  .sequence [digit, digit, digit, digit, .exactly "-", digit, digit, .exactly "-", digit, digit]

def momentForm : Pattern :=
  .sequence
    [digit, digit, digit, digit, .exactly "-", oneOrTwoDigits, .exactly "-", oneOrTwoDigits,
     .either (.oneOf "Tt") (.several (.oneOf " \t")),
     oneOrTwoDigits, .exactly ":", digit, digit, .exactly ":", digit, digit,
     .optional (.sequence [.exactly ".", .many digit]),
     .optional (.sequence
       [.many (.oneOf " \t"),
        .either (.exactly "Z")
          (.sequence [.oneOf "+-", oneOrTwoDigits,
            .optional (.sequence [.exactly ":", digit, digit])])])]

/-! ## Numbers -/

def digitValue (c : Char) : Nat :=
  if c.isDigit then c.toNat - '0'.toNat else c.toLower.toNat - 'a'.toNat + 10

def digitsValue (base : Nat) (digits : List Char) : Nat :=
  digits.foldl (fun number c => number * base + digitValue c) 0

def longestDecimal : Nat := 4300

def decimalValue (digits : List Char) : Except Fault Nat :=
  if longestDecimal < digits.length then .error .valueless else .ok (digitsValue 10 digits)

/-- The number that digits write in a base. There has to be a digit. -/
def basedValue (base : Nat) (digits : List Char) : Except Fault Nat :=
  if digits.isEmpty then .error .valueless else .ok (digitsValue base digits)

/-- The number whose places in sixties are given, the highest first. -/
def sixtiesValue (places : List Nat) : Nat :=
  places.foldl (fun number place => number * 60 + place) 0

def naturalValue (characters : List Char) : Except Fault Nat :=
  match characters with
  | ['0'] => .ok 0
  | '0' :: 'b' :: digits => basedValue 2 digits
  | '0' :: 'x' :: digits => basedValue 16 digits
  | '0' :: digits => .ok (digitsValue 8 digits)
  | _ => do
      let places ← (characters.splitOn ':').mapM decimalValue
      return sixtiesValue places

/-- The characters of a number without its underscores, and its sign apart. -/
def signed (characters : List Char) : Bool × List Char :=
  match characters.filter (· != '_') with
  | '-' :: rest => (true, rest)
  | '+' :: rest => (false, rest)
  | rest => (false, rest)

def integerValue (characters : List Char) : Except Fault Int :=
  let (negative, body) := signed characters
  (naturalValue body).map fun number => if negative then -(number : Int) else number

def exponentValue : List Char → Int
  | _ :: '-' :: digits => -(digitsValue 10 digits : Int)
  | _ :: _ :: digits => digitsValue 10 digits
  | _ => 0

def pointedValue (characters : List Char) : Double :=
  let whole := characters.takeWhile Char.isDigit
  let pointed := (characters.dropWhile Char.isDigit).drop 1
  let fraction := pointed.takeWhile Char.isDigit
  let scale := exponentValue (pointed.dropWhile Char.isDigit)
  .ofDecimal false (digitsValue 10 (whole ++ fraction)) (scale - fraction.length)

/-- The number whose places in sixties are given, the lowest first. `unit` is
the weight of the first one; every weight has to be a finite number. -/
def sixtiesSum (unit : Nat) (total : Double) : List Double → Except Fault Double
  | [] => .ok total
  | place :: rest =>
      match Double.ofRatio false unit 1 with
      | .infinite _ => .error .immeasurable
      | weight => sixtiesSum (unit * 60) (total.plus (place.times weight)) rest

def numberSize (body : List Char) : Except Fault Double :=
  match body with
  | '.' :: c :: _ =>
      if c == 'i' || c == 'I' then .ok (.infinite false)
      else if c == 'n' || c == 'N' then .ok .undefined
      else .ok (pointedValue body)
  | _ =>
      match body.splitOn ':' with
      | [_] => .ok (pointedValue body)
      | places => sixtiesSum 1 (.finite false 0 0) (places.reverse.map pointedValue)

def numberValue (characters : List Char) : Except Fault Double :=
  let (negative, body) := signed characters
  (numberSize body).map fun size => if negative then size.negate else size

/-! ## Dates -/

def takeNumber (characters : List Char) : Nat × List Char :=
  (digitsValue 10 (characters.takeWhile Char.isDigit), characters.dropWhile Char.isDigit)

def nextNumber (characters : List Char) : Nat × List Char :=
  takeNumber (characters.drop 1)

def takeDate (characters : List Char) : Date × List Char :=
  let (year, rest) := takeNumber characters
  let (month, rest) := nextNumber rest
  let (day, rest) := nextNumber rest
  (⟨year, month, day⟩, rest)

/-- The microseconds of a fraction, of which six digits count. -/
def microseconds (digits : List Char) : Nat :=
  digitsValue 10 ((digits ++ List.replicate 6 '0').take 6)

def offsetValue (characters : List Char) : Option Int :=
  match characters.dropWhile fun c => c == ' ' || c == '\t' with
  | [] => none
  | mark :: rest =>
      let (hours, rest) := takeNumber rest
      let (minutes, _) := nextNumber rest
      let size : Int := (hours * 60 + minutes : Nat)
      some (if mark == '-' then -size else size)

def momentValue (characters : List Char) : Moment :=
  let (date, rest) := takeDate characters
  let (hour, rest) := takeNumber (rest.dropWhile fun c => !c.isDigit)
  let (minute, rest) := nextNumber rest
  let (second, rest) := nextNumber rest
  let fraction :=
    match rest with
    | '.' :: digits => digits.takeWhile Char.isDigit
    | _ => []
  let zone := rest.dropWhile fun c => c == '.' || c.isDigit
  ⟨date, hour, minute, second, microseconds fraction, offsetValue zone⟩

/-! ## Values -/

def dateScalar (characters : List Char) : Except Fault Scalar :=
  let date := (takeDate characters).1
  if date.isValid then .ok (.date date) else .error .valueless

def momentScalar (characters : List Char) : Except Fault Scalar :=
  let moment := momentValue characters
  if moment.isValid then .ok (.moment moment) else .error .valueless

/-- The value of a plain scalar. The two scalars that have a meaning only as
keys are malformed. -/
def plainScalar (text : String) : Except Fault Scalar :=
  let characters := text.toList
  if trueSpellings.contains text then .ok (.boolean true)
  else if falseSpellings.contains text then .ok (.boolean false)
  else if numberForm.accepts characters then (numberValue characters).map .number
  else if integerForm.accepts characters then (integerValue characters).map .integer
  else if text = mergeSpelling || text = defaultSpelling then .error .malformed
  else if nullSpellings.contains text then .ok .null
  else if dateForm.accepts characters then dateScalar characters
  else if momentForm.accepts characters then momentScalar characters
  else .ok (.text text)

end DevicetreeFormat.Yaml
