import Statechart.Json.Value
import Statechart.Json.Text
import Statechart.Json.Number
/-!
Readers take a value of some type off the front of a JSON text. They read the text as a stream: they
look at what comes next, compare it with what is asked for, and stop at the first problem.
-/

namespace Statechart.Json

/-- Gives the value and the text behind it, or the first problem. -/
abbrev Reader (α : Type) := List Char → Except Problem (α × List Char)

def isSpace (c : Char) : Bool := c == ' ' || c == '\n' || c == '\t' || c == '\r'

def skipSpace (cs : List Char) : List Char := cs.dropWhile isSpace

def readWord : List Char → List Char → Except Problem (List Char)
  | [], cs => .ok cs
  | _ :: _, [] => .error .truncated
  | w :: word, c :: rest => if c = w then readWord word rest else .error .malformed

/-- Why a value that begins like this is not the one asked for. Simple values are read to their end
first, for they may not be JSON at all. -/
def mismatch : List Char → Problem
  | [] => .truncated
  | c :: rest =>
    if c = '[' ∨ c = '{' then .mismatched
    else if c = '"' then
      match readText .plain rest with
      | .ok _ => .mismatched
      | .error p => p
    else if c = '-' ∨ c.isDigit then
      match readNumber (c :: rest) with
      | .ok _ => .mismatched
      | .error p => p
    else
      let word :=
        if c = 'n' then some ['u', 'l', 'l']
        else if c = 't' then some ['r', 'u', 'e']
        else if c = 'f' then some ['a', 'l', 's', 'e']
        else none
      match word with
      | none => .malformed
      | some word =>
        match readWord word rest with
        | .ok _ => .mismatched
        | .error p => p

namespace Reader
variable {α β : Type}

def map (f : α → β) (p : Reader α) : Reader β := fun cs =>
  match p cs with
  | .ok (a, rest) => .ok (f a, rest)
  | .error e => .error e

/-- A value that must pass a test besides. -/
def filterMap (f : α → Option β) (p : Reader α) : Reader β := fun cs =>
  match p cs with
  | .ok (a, rest) =>
    match f a with
    | some b => .ok (b, rest)
    | none => .error .mismatched
  | .error e => .error e

def text : Reader String := fun cs =>
  match skipSpace cs with
  | '"' :: rest =>
    match readText .plain rest with
    | .ok (s, rest) => .ok (String.ofList s, rest)
    | .error p => .error p
  | other => .error (mismatch other)

def integer (least most : Int) : Reader Int := fun cs =>
  match skipSpace cs with
  | [] => .error .truncated
  | c :: rest =>
    if c = '-' ∨ c.isDigit then
      match readNumber (c :: rest) with
      | .ok (.integer n, rest) =>
        if least ≤ n ∧ n ≤ most then .ok (n, rest) else .error .mismatched
      | .ok (.decimal, _) => .error .mismatched
      | .error p => .error p
    else .error (mismatch (c :: rest))

def int64 : Reader Int64 := map Int64.ofInt (integer Int64.minValue.toInt Int64.maxValue.toInt)

def uint64 : Reader UInt64 :=
  map (fun n => UInt64.ofNat n.toNat) (integer 0 (UInt64.size - 1 : Nat))

def millis : Reader Nat := map (fun n => n.toNat * 1000) (integer 0 (UInt64.size - 1 : Nat))

def optional (p : Reader α) : Reader (Option α) := fun cs =>
  match skipSpace cs with
  | 'n' :: rest =>
    match readWord ['u', 'l', 'l'] rest with
    | .ok rest => .ok (none, rest)
    | .error e => .error e
  | other => map some p other

def colon (cs : List Char) : Except Problem (List Char) :=
  match skipSpace cs with
  | [] => .error .truncated
  | c :: rest => if c = ':' then .ok rest else .error .malformed

/-- A key of an object, which nothing but a text can be. -/
def key (p : Reader α) : Reader α := fun cs =>
  match skipSpace cs with
  | [] => .error .truncated
  | '"' :: rest => p ('"' :: rest)
  | _ => .error .malformed

/-- One of some names, either by itself or as the only key of an object, over `null`. Nothing else
can begin such a value, not even what is JSON. -/
def oneOf (names : List (String × α)) : Reader α := fun cs =>
  let named : Reader α := filterMap (fun name => List.lookup name names) text
  match skipSpace cs with
  | [] => .error .truncated
  | '"' :: rest => named ('"' :: rest)
  | '{' :: rest =>
    match key named rest with
    | .error e => .error e
    | .ok (a, rest) =>
      match colon rest with
      | .error e => .error e
      | .ok rest =>
        match skipSpace rest with
        | 'n' :: rest =>
          match readWord ['u', 'l', 'l'] rest with
          | .error e => .error e
          | .ok rest =>
            match skipSpace rest with
            | [] => .error .truncated
            | c :: rest => if c = '}' then .ok (a, rest) else .error .malformed
        | other => .error (mismatch other)
  | _ => .error .malformed

/-- Goes on to the next item of an array; none at its closing bracket. -/
def nextItem (first : Bool) (cs : List Char) : Except Problem (Option (List Char)) :=
  match skipSpace cs with
  | [] => .error .truncated
  | c :: rest =>
    if c = ']' then .ok none
    else if first then .ok (some (c :: rest))
    else if c = ',' then
      match skipSpace rest with
      | [] => .error .truncated
      | d :: rest => if d = ']' then .error .malformed else .ok (some (d :: rest))
    else .error .malformed

def closeArray (cs : List Char) : Except Problem (List Char) :=
  match skipSpace cs with
  | [] => .error .truncated
  | c :: rest => if c = ']' then .ok rest else .error .malformed

/-- Goes on to the next key of an object, behind its opening quote; none at the closing brace. -/
def nextKey (first : Bool) (cs : List Char) : Except Problem (Option (List Char)) :=
  match skipSpace cs with
  | [] => .error .truncated
  | c :: rest =>
    if c = '}' then .ok none
    else if first then if c = '"' then .ok (some rest) else .error .malformed
    else if c = ',' then
      match skipSpace rest with
      | [] => .error .truncated
      | d :: rest => if d = '"' then .ok (some rest) else .error .malformed
    else .error .malformed

def closeObject (cs : List Char) : Except Problem (List Char) :=
  match skipSpace cs with
  | [] => .error .truncated
  | c :: rest => if c = '}' then .ok rest else .error .malformed

/-- The items of an array, up to its closing bracket. Each takes a character at least, so that the
length of the text bounds their number. -/
def items (p : Reader α) : (bound : Nat) → (first : Bool) → Reader (List α)
  | 0, _, _ => .error .truncated
  | bound + 1, first, cs =>
    match nextItem first cs with
    | .error e => .error e
    | .ok none => .ok ([], cs)
    | .ok (some item) =>
      match p item with
      | .error e => .error e
      | .ok (a, rest) =>
        match items p bound false rest with
        | .error e => .error e
        | .ok (as, rest) => .ok (a :: as, rest)

def arrayBody (p : Reader α) : Reader (List α) := fun cs =>
  match items p (cs.length + 1) true cs with
  | .error e => .error e
  | .ok (as, rest) => (closeArray rest).map fun rest => (as, rest)

def list (p : Reader α) : Reader (List α) := fun cs =>
  match skipSpace cs with
  | '[' :: rest => arrayBody p rest
  | other => .error (mismatch other)

/-- The members of an object, up to its closing brace. -/
def members (p : Reader α) : (bound : Nat) → (first : Bool) → Reader (List (String × α))
  | 0, _, _ => .error .truncated
  | bound + 1, first, cs =>
    match nextKey first cs with
    | .error e => .error e
    | .ok none => .ok ([], cs)
    | .ok (some rest) =>
      match readText .plain rest with
      | .error e => .error e
      | .ok (key, rest) =>
        match colon rest with
        | .error e => .error e
        | .ok rest =>
          match p rest with
          | .error e => .error e
          | .ok (a, rest) =>
            match members p bound false rest with
            | .error e => .error e
            | .ok (more, rest) => .ok ((String.ofList key, a) :: more, rest)

def objectBody (p : Reader α) : Reader (List (String × α)) := fun cs =>
  match members p (cs.length + 1) true cs with
  | .error e => .error e
  | .ok (ms, rest) => (closeObject rest).map fun rest => (ms, rest)

/-- Of members with the same key only the last one counts. -/
def lastWins : List (String × α) → List (String × α)
  | [] => []
  | (key, a) :: rest => if rest.any (·.1 == key) then lastWins rest else (key, a) :: lastWins rest

/-- Any JSON value, with at most `depth` containers within one another. -/
def any : (depth : Nat) → Reader Json
  | depth, cs =>
    match skipSpace cs with
    | [] => .error .truncated
    | 'n' :: rest => (readWord ['u', 'l', 'l'] rest).map fun rest => (.null, rest)
    | 't' :: rest => (readWord ['r', 'u', 'e'] rest).map fun rest => (.bool true, rest)
    | 'f' :: rest => (readWord ['a', 'l', 's', 'e'] rest).map fun rest => (.bool false, rest)
    | '"' :: rest => (readText .plain rest).map fun (s, rest) => (.text (String.ofList s), rest)
    | '[' :: rest =>
      match depth with
      | 0 => .error .malformed
      | depth + 1 => map .array (arrayBody (any depth)) rest
    | '{' :: rest =>
      match depth with
      | 0 => .error .malformed
      | depth + 1 => map (fun ms => .object (lastWins ms)) (objectBody (any depth)) rest
    | c :: rest =>
      if c = '-' ∨ c.isDigit then
        match readNumber (c :: rest) with
        | .error p => .error p
        | .ok (.integer n, after) => .ok (.integer n, after)
        | .ok (.decimal, after) =>
          .ok (.decimal ((c :: rest).take ((c :: rest).length - after.length)), after)
      else .error .malformed

/-- How many containers may stand within one another in a text. -/
def depthLimit : Nat := 127

/-- Reads a whole text, with nothing but space behind the value. -/
def run (p : Reader α) (cs : List Char) : Except Problem α :=
  match p cs with
  | .error e => .error e
  | .ok (a, rest) => if (skipSpace rest).isEmpty then .ok a else .error .malformed

end Reader
end Statechart.Json
