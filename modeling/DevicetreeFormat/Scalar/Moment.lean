/-!
# Dates and moments

Days of the calendar, and moments of a day with or without an offset from
universal time. Only days that the calendar has can be told apart from others
here; nothing is computed beyond the order of days.
-/

namespace DevicetreeFormat

set_option autoImplicit false

structure Date where
  year : Nat
  month : Nat
  day : Nat
deriving DecidableEq

namespace Date

def isLeapYear (year : Nat) : Bool :=
  year % 4 = 0 && (year % 100 ≠ 0 || year % 400 = 0)

def daysOfMonth (year month : Nat) : Nat :=
  if month = 2 then (if isLeapYear year then 29 else 28)
  else if [4, 6, 9, 11].contains month then 30
  else 31

def isValid (date : Date) : Bool :=
  1 ≤ date.year && date.year ≤ 9999 && 1 ≤ date.month && date.month ≤ 12 && 1 ≤ date.day &&
    date.day ≤ daysOfMonth date.year date.month

/-- The number of a day, counted from the first day of the first year. -/
def number (date : Date) : Nat :=
  let years := date.year - 1
  let before := (List.range (date.month - 1)).foldl
    (fun days month => days + daysOfMonth date.year (month + 1)) 0
  years * 365 + years / 4 - years / 100 + years / 400 + before + date.day

def parts (date : Date) : List Nat :=
  [date.year, date.month, date.day]

def text (date : Date) : String :=
  "datetime.date(" ++ ", ".intercalate (date.parts.map toString) ++ ")"

end Date

/-- A moment of a day. The offset is in minutes and tells how far the clock is
ahead of universal time. -/
structure Moment where
  date : Date
  hour : Nat
  minute : Nat
  second : Nat
  microsecond : Nat
  offset : Option Int
deriving DecidableEq

namespace Moment

def minutesOfDay : Nat := 1440

def isValid (moment : Moment) : Bool :=
  moment.date.isValid && moment.hour < 24 && moment.minute < 60 && moment.second < 60 &&
    match moment.offset with
    | some offset => offset.natAbs < minutesOfDay
    | none => true

def minutes (moment : Moment) (offset : Int) : Int :=
  (moment.date.number * minutesOfDay + moment.hour * 60 + moment.minute : Nat) - offset

/-- Whether two moments are the same. Moments with offsets are compared in
universal time, and only with one another. -/
def same (left right : Moment) : Bool :=
  match left.offset, right.offset with
  | some offset, some other =>
      left.minutes offset = right.minutes other && left.second = right.second &&
        left.microsecond = right.microsecond
  | _, _ => left = right

def offsetText (offset : Int) : String :=
  if offset = 0 then "datetime.timezone.utc"
  else
    let days := if offset < 0 then "days=-1, " else ""
    let seconds := ((if offset < 0 then offset + minutesOfDay else offset) * 60).toNat
    "datetime.timezone(datetime.timedelta(" ++ days ++ "seconds=" ++ toString seconds ++ "))"

/-- The moment as it is shown. Seconds and their fractions are left out when
they are zero. -/
def text (moment : Moment) : String :=
  let fine :=
    if moment.microsecond ≠ 0 then [moment.second, moment.microsecond]
    else if moment.second ≠ 0 then [moment.second]
    else []
  let numbers := moment.date.parts ++ [moment.hour, moment.minute] ++ fine
  let zone :=
    match moment.offset with
    | some offset => ["tzinfo=" ++ offsetText offset]
    | none => []
  "datetime.datetime(" ++ ", ".intercalate (numbers.map toString ++ zone) ++ ")"

end Moment

end DevicetreeFormat
