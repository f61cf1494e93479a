import Statechart.Timestamp
import Statechart.Text.Blank
/-!
Timestamps as text, in the profile of ISO 8601 that the Internet uses. Writing always gives UTC with
`Z` and only as much fraction as there is. Reading takes any offset from UTC, and is lenient about
blanks between the parts, the case of the letters and the number of digits.
-/

namespace Statechart.Timestamp
open Statechart.Text

def padded (width n : Nat) : List Char :=
  let digits := Nat.toDigits 10 n
  List.replicate (width - digits.length) '0' ++ digits

/-- A year of four digits stands by itself; any other has a sign. -/
def yearText (year : Int) : List Char :=
  if 0 ≤ year ∧ year ≤ 9999 then padded 4 year.toNat
  else (if year < 0 then '-' else '+') :: padded 4 year.natAbs

/-- Nothing, or a point and three, six or nine digits. -/
def fractionText (nanos : Nat) : List Char :=
  if nanos = 0 then []
  else if nanos % 1000000 = 0 then '.' :: padded 3 (nanos / 1000000)
  else if nanos % 1000 = 0 then '.' :: padded 6 (nanos / 1000)
  else '.' :: padded 9 nanos

/-- A leap second is written as second 60 of its minute. -/
def write (t : Timestamp) : List Char :=
  let d := t.date
  let s := t.secondOfDay
  let second := s % 60 + if t.isLeap then 1 else 0
  yearText d.year ++ '-' :: padded 2 d.month ++ '-' :: padded 2 d.day ++ 'T' ::
    padded 2 (s / 3600) ++ ':' :: padded 2 (s / 60 % 60) ++ ':' :: padded 2 second ++
    fractionText (t.nanos % nanosPerSecond) ++ ['Z']

/-- At least one digit and at most `most`, as a number, with what follows them. -/
def readDigits (most : Nat) (cs : List Char) : Option (Nat × List Char) :=
  match (cs.take most).takeWhile Char.isDigit with
  | [] => none
  | digits => some (Nat.ofDigitChars 10 digits 0, cs.drop digits.length)

def readChar (c : Char) : List Char → Option (List Char)
  | first :: rest => if first = c then some rest else none
  | [] => none

/-- A number of one or two digits within bounds, blanks before it. -/
def readPart (least most : Nat) (cs : List Char) : Option (Nat × List Char) :=
  match readDigits 2 (skipBlanks cs) with
  | some (n, rest) => if least ≤ n ∧ n ≤ most then some (n, rest) else none
  | none => none

/-- A year has up to four digits, or a sign and any number of them. -/
def readYear (cs : List Char) : Option (Int × List Char) :=
  match skipBlanks cs with
  | '-' :: rest => (readDigits rest.length rest).map fun (n, rest) => (-(n : Int), rest)
  | '+' :: rest => (readDigits rest.length rest).map fun (n, rest) => ((n : Int), rest)
  | rest => (readDigits 4 rest).map fun (n, rest) => ((n : Int), rest)

/-- Digits after the ninth of a fraction are read over. -/
def readFraction : List Char → Option (Nat × List Char)
  | '.' :: rest =>
    match (rest.take 9).takeWhile Char.isDigit with
    | [] => none
    | digits =>
      some (Nat.ofDigitChars 10 digits 0 * Nat.pow 10 (9 - digits.length),
        (rest.drop digits.length).dropWhile Char.isDigit)
  | rest => some (0, rest)

def readTwo : List Char → Option (Nat × List Char)
  | a :: b :: rest =>
    if a.isDigit && b.isDigit then some (Nat.ofDigitChars 10 [a, b] 0, rest) else none
  | _ => none

/-- Hours and minutes east of UTC, in seconds. A colon or blanks may stand between them. -/
def readHoursMinutes (cs : List Char) : Option (Nat × List Char) := do
  let (hours, cs) ← readTwo cs
  let (minutes, cs) ← readTwo (cs.dropWhile fun c => c == ':' || isBlank c)
  if minutes < 60 ∧ hours < 24 then some (hours * 3600 + minutes * 60, cs) else none

/-- The offset from UTC in seconds: `Z`, `UTC`, or a sign with hours and minutes. -/
def readOffset : List Char → Option (Int × List Char)
  | 'Z' :: rest | 'z' :: rest => some (0, rest)
  | '+' :: rest => (readHoursMinutes rest).map fun (n, rest) => ((n : Int), rest)
  | '-' :: rest | '−' :: rest => (readHoursMinutes rest).map fun (n, rest) => (-(n : Int), rest)
  | u :: t :: c :: rest =>
    if u.toUpper = 'U' ∧ t.toUpper = 'T' ∧ c.toUpper = 'C' then some (0, rest) else none
  | _ => none

def readSeparator : List Char → Option (List Char)
  | 'T' :: rest | 't' :: rest | ' ' :: rest => some rest
  | _ => none

/-- A date, a time and an offset, and nothing after them. The date must be real, and so must the
instant once it is moved to UTC. -/
def read (cs : List Char) : Option Timestamp := do
  let (year, cs) ← readYear cs
  let cs ← readChar '-' (skipBlanks cs)
  let (month, cs) ← readPart 1 12 cs
  let cs ← readChar '-' (skipBlanks cs)
  let (day, cs) ← readPart 1 31 cs
  let cs ← readSeparator cs
  let (hour, cs) ← readPart 0 23 cs
  let cs ← readChar ':' (skipBlanks cs)
  let (minute, cs) ← readPart 0 59 cs
  let cs ← readChar ':' (skipBlanks cs)
  let (second, cs) ← readPart 0 60 cs
  let (fraction, cs) ← readFraction cs
  let (offset, cs) ← readOffset (skipBlanks cs)
  if skipBlanks cs ≠ [] then none
  else
    let date : Date := { year, month, day }
    let t : Timestamp := {
      seconds := date.toDays * secondsPerDay +
        (hour * 3600 + minute * 60 + min second 59 : Nat) - offset
      nanos := fraction + if second = 60 then nanosPerSecond else 0 }
    if date.isReal && t.inRange then some t else none

end Statechart.Timestamp
