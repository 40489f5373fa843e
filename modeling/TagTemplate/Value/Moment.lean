import TagTemplate.Text.Quoted

/-! Dates, with or without a time of day, which may name its zone. -/
namespace TagTemplate

/-- A zone of time: how many seconds its clocks are ahead of those on the meridian, and its name. -/
structure Zone where
  ahead : Int
  name : String
  deriving DecidableEq, Repr

structure TimeOfDay where
  hour : Nat
  minute : Nat
  second : Nat
  microsecond : Nat
  zone : Option Zone
  deriving DecidableEq, Repr

structure Moment where
  year : Nat
  month : Nat
  day : Nat
  time : Option TimeOfDay
  deriving DecidableEq, Repr

namespace Zone

/-- How messages show a length of time: days and, within a day, seconds. -/
def durationShown (seconds : Int) : String :=
  let days := seconds.fdiv 86400
  let rest := seconds.fmod 86400
  let parts := (if days = 0 then [] else [s!"days={days}"]) ++
    (if rest = 0 then [] else [s!"seconds={rest}"])
  "datetime.timedelta(" ++ (if parts.isEmpty then "0" else ", ".intercalate parts) ++ ")"

def shown (z : Zone) : String :=
  "datetime.timezone(" ++ durationShown z.ahead ++ ", " ++ Text.quoted z.name ++ ")"

def problem? (z : Zone) : Option String :=
  if z.ahead.natAbs < 86400 then none
  else some ("offset must be a timedelta strictly between -timedelta(hours=24) and " ++
    "timedelta(hours=24), not " ++ durationShown z.ahead ++ ".")

end Zone

namespace Moment

def kind (m : Moment) : String :=
  if m.time.isSome then "datetime" else "date"

def timeParts (t : TimeOfDay) : List Nat :=
  if t.microsecond ≠ 0 then [t.hour, t.minute, t.second, t.microsecond]
  else if t.second ≠ 0 then [t.hour, t.minute, t.second]
  else [t.hour, t.minute]

def zone? (m : Moment) : Option Zone := m.time.bind (·.zone)

def shown (m : Moment) : String :=
  let parts := [m.year, m.month, m.day] ++ (m.time.map timeParts).getD []
  let zone := m.zone?.toList.map fun z => "tzinfo=" ++ z.shown
  "datetime." ++ m.kind ++ "(" ++ ", ".intercalate (parts.map toString ++ zone) ++ ")"

def isLeap (year : Nat) : Bool :=
  year % 4 == 0 && (year % 100 != 0 || year % 400 == 0)

def daysInMonth (year month : Nat) : Nat :=
  if month = 2 then (if isLeap year then 29 else 28)
  else if [4, 6, 9, 11].contains month then 30 else 31

def calendarProblem? (m : Moment) : Option String :=
  if m.year < 1 || 9999 < m.year then some s!"year {m.year} is out of range"
  else if m.month < 1 || 12 < m.month then some "month must be in 1..12"
  else if m.day < 1 || daysInMonth m.year m.month < m.day then
    some "day is out of range for month"
  else
    match m.time with
    | none => none
    | some t =>
      if 23 < t.hour then some "hour must be in 0..23"
      else if 59 < t.minute then some "minute must be in 0..59"
      else if 59 < t.second then some "second must be in 0..59"
      else none

def problem? (m : Moment) : Option String :=
  (m.zone?.bind Zone.problem?).or m.calendarProblem?

def dayNumber (year month day : Nat) : Nat :=
  let before := year - 1
  let months := ((List.range (month - 1)).map fun m => daysInMonth year (m + 1)).foldl (· + ·) 0
  before * 365 + before / 4 - before / 100 + before / 400 + months + (day - 1)

def monthAndDay (year : Nat) : (months : Nat) → (days : Nat) → Nat × Nat
  | 0, days => (12, days + 1)
  | left + 1, days =>
    let month := 12 - left
    if days < daysInMonth year month ∨ left = 0 then (month, days + 1)
    else monthAndDay year left (days - daysInMonth year month)

def ofDayNumber (days : Nat) : Nat × Nat × Nat :=
  let guess := days / 366 + 1
  let year := ((List.range (days / 365 + 2 - guess)).map (· + guess)).foldl
    (fun found y => if dayNumber y 1 1 ≤ days then y else found) guess
  let (month, day) := monthAndDay year 12 (days - dayNumber year 1 1)
  (year, month, day)

def addSeconds? (m : Moment) (seconds : Int) : Option Moment :=
  match m.time with
  | none => some m
  | some t =>
    let second := t.hour * 3600 + t.minute * 60 + t.second
    let total : Int := dayNumber m.year m.month m.day * 86400 + second + seconds
    if total < 0 then none
    else
      let (year, month, day) := ofDayNumber (total.toNat / 86400)
      let rest := total.toNat % 86400
      if 9999 < year then none
      else
        let time := ⟨rest / 3600, rest / 60 % 60, rest % 60, t.microsecond, t.zone⟩
        some ⟨year, month, day, some time⟩

/-- Microseconds from the beginning of the calendar on the meridian. -/
def instant (m : Moment) : Int :=
  let days : Int := dayNumber m.year m.month m.day
  match m.time with
  | none => days * 86400000000
  | some t =>
    let ahead := (t.zone.map (·.ahead)).getD 0
    (days * 86400 + t.hour * 3600 + t.minute * 60 + t.second - ahead) * 1000000 + t.microsecond

/-- Whether two moments can be compared: both are days, or both are times with a zone or both
without one. -/
def isComparable (a b : Moment) : Bool :=
  a.time.map (·.zone.isSome) == b.time.map (·.zone.isSome)

def same (a b : Moment) : Bool :=
  a.isComparable b && a.instant == b.instant

end Moment
end TagTemplate
