import Statechart.Json.Problem
/-!
Numbers in JSON text. A number without fraction and exponent that fits into 64 bits is an integer,
minus zero excepted; any other is a decimal, and is refused if its magnitude is beyond what double
precision can hold.
-/

namespace Statechart.Json

structure NumberParts where
  negative : Bool
  whole : List Char
  fraction : List Char := []
  exponentNegative : Bool := false
  exponent : List Char := []
  /-- A fraction or an exponent is there. -/
  isDecimal : Bool := false
  deriving DecidableEq

inductive BreakOff
  | atEnd
  | before
  deriving DecidableEq

def BreakOff.here (cs : List Char) : BreakOff := if cs.isEmpty then .atEnd else .before

/-- The digits at the front of a text, of which there must be one. -/
def scanDigits (cs : List Char) : Except BreakOff (List Char × List Char) :=
  match cs.takeWhile Char.isDigit with
  | [] => .error (.here cs)
  | digits => .ok (digits, cs.dropWhile Char.isDigit)

/-- Digits that do not begin with a zero unless it stands alone. -/
def scanWhole (cs : List Char) : Except BreakOff (List Char × List Char) :=
  match scanDigits cs with
  | .ok ('0' :: _ :: _, _) => .error .before
  | scanned => scanned

def scanExponent (parts : NumberParts) : List Char → Except BreakOff (NumberParts × List Char)
  | 'e' :: rest | 'E' :: rest =>
    let (negative, rest) :=
      match rest with
      | '-' :: rest => (true, rest)
      | '+' :: rest => (false, rest)
      | rest => (false, rest)
    match scanDigits rest with
    | .error b => .error b
    | .ok (digits, rest) =>
      .ok ({ parts with exponentNegative := negative, exponent := digits, isDecimal := true }, rest)
  | rest => .ok (parts, rest)

def scanFraction (parts : NumberParts) : List Char → Except BreakOff (NumberParts × List Char)
  | '.' :: rest =>
    match scanDigits rest with
    | .error b => .error b
    | .ok (digits, rest) => scanExponent { parts with fraction := digits, isDecimal := true } rest
  | rest => scanExponent parts rest

def scanNumber (cs : List Char) : Except BreakOff (NumberParts × List Char) :=
  let (negative, cs) :=
    match cs with
    | '-' :: rest => (true, rest)
    | cs => (false, cs)
  match scanWhole cs with
  | .error b => .error b
  | .ok (whole, rest) => scanFraction { negative, whole } rest

def digitsValue (digits : List Char) : Nat := Nat.ofDigitChars 10 digits 0

/-- Takes digits into a number for as long as it stays below 2^64; gives the number and the digits
that were left out. -/
def gather : Nat → List Char → Nat × List Char
  | n, [] => (n, [])
  | n, c :: rest =>
    let next := n * 10 + (c.toNat - 48)
    if next < UInt64.size then gather next rest else (n, c :: rest)

/-- The nearest number with at most 53 significant binary digits; a tie goes to the even one. -/
def nearestDouble (n : Nat) : Nat :=
  let unit := Nat.pow 2 (n.log2 - 52)
  let q := n / unit
  let r := n % unit
  (if unit < 2 * r ∨ (2 * r = unit ∧ q % 2 = 1) then q + 1 else q) * unit

/-- Numbers from here on are rounded to infinity in double precision. -/
def doubleLimit : Nat := Nat.pow 2 1024 - Nat.pow 2 970

/-- The number is beyond double precision, judged by its leading digits, of which there are as many
as 64 bits hold, and the power of ten that goes with them. -/
def isTooLarge (p : NumberParts) : Bool :=
  let (whole, leftOut) := gather 0 p.whole
  let (significand, unread) := gather whole p.fraction
  let shift : Int := leftOut.length - (p.fraction.length - unread.length : Nat)
  let exponent := digitsValue p.exponent
  let power := if p.exponentNegative then shift - exponent else shift + exponent
  significand ≠ 0 && 0 ≤ power &&
    (308 < power ||
      doubleLimit ≤ nearestDouble significand * nearestDouble (Nat.pow 10 power.toNat))

inductive Number
  | integer (n : Int)
  | decimal
  deriving DecidableEq

/-- The integer that the parts stand for, if they do. -/
def NumberParts.integer? (p : NumberParts) : Option Int :=
  if p.isDecimal then none
  else
    let n := digitsValue p.whole
    if p.negative then if 0 < n ∧ Int64.minValue.toInt ≤ -(n : Int) then some (-n) else none
    else if n < UInt64.size then some n else none

def readNumber (cs : List Char) : Except Problem (Number × List Char) :=
  match scanNumber cs with
  | .error .atEnd => .error .truncated
  | .error .before => .error .malformed
  | .ok (parts, rest) =>
    match parts.integer? with
    | some n => .ok (.integer n, rest)
    | none => if isTooLarge parts then .error .malformed else .ok (.decimal, rest)

/-- Passes over a number; one that breaks off is never put down to the end of the text. -/
def skipNumber (cs : List Char) : Except Problem (List Char) :=
  match scanNumber cs with
  | .error _ => .error .malformed
  | .ok (_, rest) => .ok rest

end Statechart.Json
