/-!
Instants of civil time in UTC, to the nanosecond. Days are counted from 1 January 1970, years from 1
March, so that a leap day ends its year.
-/

namespace Statechart

structure Date where
  year : Int
  month : Nat
  day : Nat
  deriving DecidableEq

namespace Date

def eraDays : Int := 146097

/-- Days from 1 March of year 0 to 1 January 1970. -/
def epochOffset : Int := 719468

def toDays (d : Date) : Int :=
  let year := if d.month ≤ 2 then d.year - 1 else d.year
  let era := year / 400
  let yearOfEra := year % 400
  let month : Int := if d.month ≤ 2 then d.month + 9 else d.month - 3
  let dayOfYear := (153 * month + 2) / 5 + d.day - 1
  era * eraDays + (yearOfEra * 365 + yearOfEra / 4 - yearOfEra / 100 + dayOfYear) - epochOffset

def ofDays (days : Int) : Date :=
  let shifted := days + epochOffset
  let era := shifted / eraDays
  let dayOfEra := shifted % eraDays
  let yearOfEra := (dayOfEra - dayOfEra / 1460 + dayOfEra / 36524 - dayOfEra / 146096) / 365
  let dayOfYear := dayOfEra - (365 * yearOfEra + yearOfEra / 4 - yearOfEra / 100)
  let month := (5 * dayOfYear + 2) / 153
  let day := dayOfYear - (153 * month + 2) / 5 + 1
  let year := era * 400 + yearOfEra
  if month < 10 then { year, month := (month + 3).toNat, day := day.toNat }
  else { year := year + 1, month := (month - 9).toNat, day := day.toNat }

def firstYear : Int := -262143
def lastYear : Int := 262142

def isReal (d : Date) : Bool :=
  firstYear ≤ d.year && d.year ≤ lastYear && ofDays d.toDays == d

end Date

structure Timestamp where
  /-- Whole seconds since 1970 began, leap seconds left out. -/
  seconds : Int
  /-- Nanoseconds into the second; a thousand million or more within a leap second after it. -/
  nanos : Nat := 0
  deriving DecidableEq

namespace Timestamp

def secondsPerDay : Int := 86400
def nanosPerSecond : Nat := 1000000000

def ofMillis (ms : Int) : Timestamp where
  seconds := ms / 1000
  nanos := (ms % 1000).toNat * 1000000

def ofMicros (us : Nat) : Timestamp where
  seconds := (us / 1000000 : Nat)
  nanos := us % 1000000 * 1000

def date (t : Timestamp) : Date := Date.ofDays (t.seconds / secondsPerDay)

def secondOfDay (t : Timestamp) : Nat := (t.seconds % secondsPerDay).toNat

def isLeap (t : Timestamp) : Bool := nanosPerSecond ≤ t.nanos

def inRange (t : Timestamp) : Bool :=
  let days := t.seconds / secondsPerDay
  Date.toDays ⟨Date.firstYear, 1, 1⟩ ≤ days && days ≤ Date.toDays ⟨Date.lastYear, 12, 31⟩

/-- Nanoseconds from one instant to another. A leap second between two times of day counts for the
one that comes later in the day. -/
def nanosBetween (first last : Timestamp) : Int :=
  let extra : Int :=
    if first.secondOfDay < last.secondOfDay then (if first.isLeap then 1 else 0)
    else if last.secondOfDay < first.secondOfDay then (if last.isLeap then -1 else 0)
    else 0
  (last.seconds - first.seconds + extra) * nanosPerSecond + (last.nanos - first.nanos)

end Timestamp
end Statechart
