/-!
# Dates and times of day

A moment is written as a date, a time of day, or both, and then possibly with its distance
from universal time. What is written may name a moment that does not exist, such as the
thirtieth of February.
-/

namespace EvmAtlas

/-- A date as it is written. -/
structure CalendarDate where
  year : Nat
  month : Nat
  day : Nat
  deriving DecidableEq, Repr

/-- A time of day as it is written, without the fraction of its second. -/
structure TimeOfDay where
  hour : Nat
  minute : Nat
  second : Nat
  deriving DecidableEq, Repr

/-- How far a time is from universal time, on either side, with the text that says so. -/
structure TimeOffset where
  text : String
  hour : Nat
  minute : Nat
  deriving DecidableEq, Repr

/-- A date, a time of day, or both. -/
structure Moment where
  date : Option CalendarDate := none
  time : Option TimeOfDay := none
  offset : Option TimeOffset := none
  deriving DecidableEq, Repr

/-- Whether a year of the Gregorian calendar has a leap day. -/
def isLeapYear (year : Nat) : Bool :=
  year % 4 == 0 && (year % 100 != 0 || year % 400 == 0)

/-- How many days a month of a year has. -/
def daysInMonth (year month : Nat) : Nat :=
  match month with
  | 2 => if isLeapYear year then 29 else 28
  | 4 | 6 | 9 | 11 => 30
  | _ => 31

/-- A part of a moment that may be out of range. -/
inductive MomentPart where
  | month | day | hour | minute | second
  deriving DecidableEq, Repr

/-- The name of a part of a moment. -/
def MomentPart.name : MomentPart → String
  | .month => "month"
  | .day => "day"
  | .hour => "hour"
  | .minute => "minute"
  | .second => "second"

/-- Why no moment is written. -/
inductive MomentProblem where
  | outOfRange (part : MomentPart)
  /-- The text after a date and a time of day is not used. -/
  | extraText (text : String)
  deriving DecidableEq, Repr

/-- The month, if the year has none of that number. -/
def CalendarDate.wrongMonth (date : CalendarDate) : List MomentPart :=
  if 1 ≤ date.month ∧ date.month ≤ 12 then [] else [.month]

/-- The day, if the month has none of that number. -/
def CalendarDate.wrongDay (date : CalendarDate) : List MomentPart :=
  if 1 ≤ date.day ∧ date.day ≤ daysInMonth date.year date.month then [] else [.day]

/-- The parts of a time of day that are out of range. There are no leap seconds. -/
def TimeOfDay.wrongParts (time : TimeOfDay) : List MomentPart :=
  (if time.hour < 24 then [] else [.hour])
    ++ (if time.minute < 60 then [] else [.minute])
    ++ (if time.second < 60 then [] else [.second])

/-- Whether a distance from universal time is in range. A full day and a full hour are
accepted. -/
def TimeOffset.isInRange (offset : TimeOffset) : Bool :=
  offset.hour ≤ 24 && offset.minute ≤ 60

/-- The parts of a moment that are out of range, its distance from universal time apart, in
the order in which they are reported. The day comes last, because it depends on the year
and the month. -/
def Moment.wrongParts (moment : Moment) : List MomentPart :=
  moment.date.elim [] CalendarDate.wrongMonth
    ++ moment.time.elim [] TimeOfDay.wrongParts
    ++ moment.date.elim [] CalendarDate.wrongDay

/-- Why no moment is written, if so. What does not exist with its distance from universal
time is looked at without it, and then that distance is one text too many, which is noticed
before a wrong day is. -/
def Moment.problem? (moment : Moment) : Option MomentProblem :=
  match moment.offset with
  | none => moment.wrongParts.head?.map .outOfRange
  | some offset =>
      match moment.wrongParts with
      | [] => if offset.isInRange then none else some (.extraText offset.text)
      | .day :: _ => some (.extraText offset.text)
      | part :: _ => some (.outOfRange part)

end EvmAtlas
