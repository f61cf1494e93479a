import Statechart.Json.Reader
/-!
Passing over a value that nobody asked for. It must be JSON, to any depth, but strings may hold half
of a surrogate pair and numbers may be of any size.
-/

namespace Statechart.Json

inductive Bracket
  | array
  | object
  deriving DecidableEq

def Bracket.closing : Bracket → Char
  | .array => ']'
  | .object => '}'

def skipScalar : List Char → Except Problem (List Char)
  | [] => .error .truncated
  | c :: rest =>
    if c = '"' then skipText .plain rest
    else if c = '-' ∨ c.isDigit then skipNumber (c :: rest)
    else if c = 'n' then readWord ['u', 'l', 'l'] rest
    else if c = 't' then readWord ['r', 'u', 'e'] rest
    else if c = 'f' then readWord ['a', 'l', 's', 'e'] rest
    else .error .malformed

def skipKey (cs : List Char) : Except Problem (List Char) :=
  match skipSpace cs with
  | [] => .error .truncated
  | c :: rest =>
    if c = '"' then (skipText .plain rest).bind Reader.colon else .error .malformed

inductive Awaited
  | value
  /-- A first item, or the closing bracket. -/
  | opened
  /-- A comma, or the closing bracket. -/
  | closed
  deriving DecidableEq

/-- Passes over what is left of the open containers. Each step takes a character or is followed by
one that does, so twice the length of the text bounds their number. -/
def skipOpen : (bound : Nat) → Awaited → List Bracket → List Char → Except Problem (List Char)
  | 0, _, _, _ => .error .truncated
  | _ + 1, .closed, [], cs => .ok cs
  | _ + 1, .opened, [], cs => .ok cs
  | bound + 1, .value, stack, cs =>
    match skipSpace cs with
    | '[' :: rest => skipOpen bound .opened (.array :: stack) rest
    | '{' :: rest => skipOpen bound .opened (.object :: stack) rest
    | other =>
      match skipScalar other with
      | .error p => .error p
      | .ok rest => skipOpen bound .closed stack rest
  | bound + 1, awaited, b :: stack, cs =>
    match skipSpace cs with
    | [] => .error .truncated
    | c :: rest =>
      if c = b.closing then skipOpen bound .closed stack rest
      else if awaited = .closed ∧ c ≠ ',' then .error .malformed
      else
        let item := if awaited = .closed then rest else c :: rest
        match b with
        | .array => skipOpen bound .value (b :: stack) item
        | .object =>
          match skipKey item with
          | .error p => .error p
          | .ok rest => skipOpen bound .value (b :: stack) rest

def skip (cs : List Char) : Except Problem (List Char) :=
  skipOpen (2 * cs.length + 2) .value [] cs

end Statechart.Json
