/-!
# Double precision

Binary numbers with 53 digits, held exactly: a finite number is a mantissa
times a power of two. Every result is the exact one, rounded to the nearest
number, and of two equally near ones to the one with an even mantissa. Numbers
beyond the largest one are infinite. A number is written with the fewest decimal
digits that read back as the same number.
-/

namespace DevicetreeFormat

set_option autoImplicit false

/-- A number of double precision. A finite one is `mantissa` times the power of
two with `exponent`, below zero if it is `negative`. -/
inductive Double
  | finite (negative : Bool) (mantissa : Nat) (exponent : Int)
  | infinite (negative : Bool)
  | undefined
deriving DecidableEq

namespace Double

/-- The quotient rounded to the nearest integer, a half to the even one. -/
def roundQuotient (numerator denominator : Nat) : Nat :=
  let quotient := numerator / denominator
  let rest := numerator % denominator
  if 2 * rest < denominator then quotient
  else if denominator < 2 * rest then quotient + 1
  else quotient + quotient % 2

def power (base : Nat) (exponent : Int) : Nat :=
  Nat.pow base exponent.toNat

def leastExponent : Int := -1074

def mantissaLimit : Nat := Nat.pow 2 53

/-- The exponent at which a quotient has a mantissa of 53 digits, or the least
exponent if that is larger. -/
def exponentOf (numerator denominator : Nat) : Int :=
  let estimate : Int := (Nat.log2 numerator : Int) - (Nat.log2 denominator : Int) - 53
  let exponent := if estimate < leastExponent then leastExponent else estimate
  if mantissaLimit ≤ numerator * power 2 (-exponent) / (denominator * power 2 exponent) then
    exponent + 1
  else exponent

/-- A finite number from a mantissa that may have reached the limit. -/
def normal (negative : Bool) (mantissa : Nat) (exponent : Int) : Double :=
  if mantissa = 0 then finite negative 0 0
  else if mantissa = mantissaLimit then finite negative (mantissaLimit / 2) (exponent + 1)
  else finite negative mantissa exponent

def ofRatio (negative : Bool) (numerator denominator : Nat) : Double :=
  if numerator = 0 then finite negative 0 0
  else
    let exponent := exponentOf numerator denominator
    let mantissa :=
      roundQuotient (numerator * power 2 (-exponent)) (denominator * power 2 exponent)
    if Nat.pow 2 1024 ≤ mantissa * power 2 exponent then infinite negative
    else normal negative mantissa exponent

def digitCount (number : Nat) : Nat :=
  (Nat.toDigits 10 number).length

/-- The number nearest to `digits` times the power of ten with exponent `scale`.
Where the size decides alone, nothing is computed. -/
def ofDecimal (negative : Bool) (digits : Nat) (scale : Int) : Double :=
  let size := (digitCount digits : Int) + scale
  if digits = 0 then finite negative 0 0
  else if 310 < size then infinite negative
  else if size < -330 then finite negative 0 0
  else ofRatio negative (digits * power 10 scale) (power 10 (-scale))

def ratio (mantissa : Nat) (exponent : Int) : Nat × Nat :=
  (mantissa * power 2 exponent, power 2 (-exponent))

/-- The sum of two numbers of which none is below zero. -/
def plus : Double → Double → Double
  | finite _ mantissa exponent, finite _ otherMantissa otherExponent =>
      let (numerator, denominator) := ratio mantissa exponent
      let (otherNumerator, otherDenominator) := ratio otherMantissa otherExponent
      ofRatio false (numerator * otherDenominator + otherNumerator * denominator)
        (denominator * otherDenominator)
  | _, _ => infinite false

/-- The product of two numbers of which none is below zero. It is infinite if one
of them is. -/
def times : Double → Double → Double
  | finite _ mantissa exponent, finite _ otherMantissa otherExponent =>
      let (numerator, denominator) := ratio mantissa exponent
      let (otherNumerator, otherDenominator) := ratio otherMantissa otherExponent
      ofRatio false (numerator * otherNumerator) (denominator * otherDenominator)
  | _, _ => infinite false

def negate : Double → Double
  | finite negative mantissa exponent => finite (!negative) mantissa exponent
  | infinite negative => infinite (!negative)
  | undefined => undefined

def isZero : Double → Bool
  | finite _ mantissa _ => mantissa = 0
  | _ => false

def integer? : Double → Option Int
  | finite negative mantissa exponent =>
      let (numerator, denominator) := ratio mantissa exponent
      if numerator % denominator = 0 then
        let size : Int := (numerator / denominator : Nat)
        some (if negative then -size else size)
      else none
  | _ => none

/-! ## Writing -/

/-- The place of the decimal point before the first digit of a quotient: the
quotient lies below the power of ten with this exponent, but not below the one
before. -/
def pointPlace (numerator denominator : Nat) : Int :=
  if denominator ≤ numerator then digitCount (numerator / denominator)
  else
    let zeros := (List.range 400).find? fun count =>
      decide (denominator ≤ numerator * Nat.pow 10 count)
    1 - (zeros.getD 0 : Int)

/-- The nearest number of `count` digits that reads back as the quotient, if
there is one. -/
def closestDigits (numerator denominator : Nat) (place : Int) (count : Nat) : Option Nat :=
  let scale := (count : Int) - place
  let top := numerator * power 10 scale
  let bottom := denominator * power 10 (-scale)
  let low := top / bottom
  let readsBack (digits : Nat) : Bool :=
    ofRatio false (digits * power 10 (-scale)) (power 10 scale) = ofRatio false numerator denominator
  let nearest := roundQuotient top bottom
  if readsBack nearest then some nearest
  else if readsBack low then some low
  else if readsBack (low + 1) then some (low + 1)
  else none

def shortest (numerator denominator : Nat) : List Char × Int :=
  let place := pointPlace numerator denominator
  let found := (List.range 17).findSome? fun count =>
    closestDigits numerator denominator place (count + 1) |>.map fun digits => (digits, count + 1)
  match found with
  | some (digits, count) =>
      let characters := Nat.toDigits 10 digits
      let carried := (characters.length : Int) - count
      ((characters.reverse.dropWhile (· == '0')).reverse, place + carried)
  | none => (Nat.toDigits 10 (numerator / denominator), place)

def exponentText (exponent : Int) : String :=
  let digits := Nat.toDigits 10 exponent.natAbs
  let padded := if digits.length < 2 then '0' :: digits else digits
  String.ofList ((if exponent < 0 then '-' else '+') :: padded)

/-- Digits with the point at a place. From the seventeenth place on, and after
more than three zeros, an exponent is written instead. -/
def layOut (digits : List Char) (place : Int) : String :=
  if place ≤ -4 || 16 < place then
    let lead := digits.take 1
    let rest := digits.drop 1
    let fraction := if rest.isEmpty then [] else '.' :: rest
    String.ofList (lead ++ fraction) ++ "e" ++ exponentText (place - 1)
  else if place ≤ 0 then
    String.ofList ("0.".toList ++ List.replicate (-place).toNat '0' ++ digits)
  else
    let whole := digits.take place.toNat
    let fraction := digits.drop place.toNat
    String.ofList (whole ++ List.replicate (place.toNat - digits.length) '0' ++ ['.'] ++
      (if fraction.isEmpty then ['0'] else fraction))

def text : Double → String
  | finite negative mantissa exponent =>
      let sign := if negative then "-" else ""
      if mantissa = 0 then sign ++ "0.0"
      else
        let (numerator, denominator) := ratio mantissa exponent
        let (digits, place) := shortest numerator denominator
        sign ++ layOut digits place
  | infinite negative => if negative then "-inf" else "inf"
  | undefined => "nan"

end Double

end DevicetreeFormat
