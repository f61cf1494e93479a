import Statechart.Json.Problem
/-!
Strings in JSON text, from behind the opening quote. Reading a string asks more than passing over
it: a string that is read must not hold half of a surrogate pair.
-/

namespace Statechart.Json

def hexValue? (c : Char) : Option Nat :=
  if '0' ≤ c ∧ c ≤ '9' then some (c.toNat - 48)
  else if 'a' ≤ c ∧ c ≤ 'f' then some (c.toNat - 87)
  else if 'A' ≤ c ∧ c ≤ 'F' then some (c.toNat - 55)
  else none

def isLeading (n : Nat) : Bool := 0xD800 ≤ n && n ≤ 0xDBFF
def isTrailing (n : Nat) : Bool := 0xDC00 ≤ n && n ≤ 0xDFFF

def joinSurrogates (leading trailing : Nat) : Char :=
  Char.ofNat ((leading - 0xD800) * 0x400 + (trailing - 0xDC00) + 0x10000)

/-- What a character means behind a backslash, `u` apart. -/
def unescape? (c : Char) : Option Char :=
  if c = '"' ∨ c = '\\' ∨ c = '/' then some c
  else if c = 'b' then some (Char.ofNat 0x08)
  else if c = 'f' then some (Char.ofNat 0x0C)
  else if c = 'n' then some '\n'
  else if c = 'r' then some '\r'
  else if c = 't' then some '\t'
  else none

/-- Whether the four bytes of a `\u` escape can still follow, whatever they are. -/
def hasFourBytes (cs : List Char) : Bool := 4 ≤ (cs.take 4).foldl (fun n c => n + c.utf8Size) 0

inductive TextPoint
  | plain
  | escaped
  /-- Within a `\u` escape, with the digits to come, the value so far, and the leading surrogate to
  be completed if there is one. -/
  | hex (digits value : Nat) (leading : Option Nat)
  | leading (n : Nat)
  | leadingEscaped (n : Nat)

/-- What the last digit of a `\u` escape leads to: a character, a wait for the rest of a pair, or a
problem. -/
inductive Escaped
  | char (c : Char)
  | leading (n : Nat)
  | bad

def completeHex (n : Nat) : Option Nat → Escaped
  | none => if isTrailing n then .bad else if isLeading n then .leading n else .char (Char.ofNat n)
  | some l => if isTrailing n then .char (joinSurrogates l n) else .bad

/-- The content of a string, and the text behind its closing quote. -/
def readText : TextPoint → List Char → Except Problem (List Char × List Char)
  | _, [] => .error .truncated
  | .plain, c :: rest =>
    if c = '"' then .ok ([], rest)
    else if c = '\\' then readText .escaped rest
    else if c.toNat < 0x20 then .error .malformed
    else
      match readText .plain rest with
      | .ok (s, rest) => .ok (c :: s, rest)
      | .error p => .error p
  | .escaped, c :: rest =>
    if c = 'u' then
      if hasFourBytes rest then readText (.hex 4 0 none) rest else .error .truncated
    else
      match unescape? c with
      | none => .error .malformed
      | some d =>
        match readText .plain rest with
        | .ok (s, rest) => .ok (d :: s, rest)
        | .error p => .error p
  | .hex digits value leading, c :: rest =>
    match hexValue? c with
    | none => .error .malformed
    | some v =>
      let value := value * 16 + v
      if digits ≤ 1 then
        match completeHex value leading with
        | .bad => .error .malformed
        | .leading n => readText (.leading n) rest
        | .char d =>
          match readText .plain rest with
          | .ok (s, rest) => .ok (d :: s, rest)
          | .error p => .error p
      else readText (.hex (digits - 1) value leading) rest
  | .leading n, c :: rest =>
    if c = '\\' then readText (.leadingEscaped n) rest else .error .malformed
  | .leadingEscaped n, c :: rest =>
    if c = 'u' then
      if hasFourBytes rest then readText (.hex 4 0 (some n)) rest else .error .truncated
    else .error .malformed

inductive SkipPoint
  | plain
  | escaped
  | hex (digits : Nat)

/-- The text behind the closing quote of a string that nobody wants to know. -/
def skipText : SkipPoint → List Char → Except Problem (List Char)
  | _, [] => .error .truncated
  | .plain, c :: rest =>
    if c = '"' then .ok rest
    else if c = '\\' then skipText .escaped rest
    else if c.toNat < 0x20 then .error .malformed
    else skipText .plain rest
  | .escaped, c :: rest =>
    if c = 'u' then if hasFourBytes rest then skipText (.hex 4) rest else .error .truncated
    else if (unescape? c).isSome then skipText .plain rest
    else .error .malformed
  | .hex digits, c :: rest =>
    if (hexValue? c).isNone then .error .malformed
    else skipText (if digits ≤ 1 then .plain else .hex (digits - 1)) rest

end Statechart.Json
