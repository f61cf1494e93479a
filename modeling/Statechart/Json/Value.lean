/-!
JSON values and how they are written: without any space, with the short escapes where there are
some, and with every character outside the control range as itself.
-/

namespace Statechart

inductive Json
  | null
  | bool (b : Bool)
  | integer (n : Int)
  /-- A number that is no integer of 64 bits, as it stands in the text. -/
  | decimal (lexeme : List Char)
  | text (s : String)
  | array (items : List Json)
  | object (members : List (String × Json))

namespace Json

def hexDigit (n : Nat) : Char := if n < 10 then Char.ofNat (48 + n) else Char.ofNat (87 + n)

/-- A character as it stands between quotes. -/
def escape (c : Char) : List Char :=
  if c = '"' then ['\\', '"']
  else if c = '\\' then ['\\', '\\']
  else if 0x20 ≤ c.toNat then [c]
  else if c.toNat = 0x08 then ['\\', 'b']
  else if c.toNat = 0x09 then ['\\', 't']
  else if c.toNat = 0x0A then ['\\', 'n']
  else if c.toNat = 0x0C then ['\\', 'f']
  else if c.toNat = 0x0D then ['\\', 'r']
  else ['\\', 'u', '0', '0', hexDigit (c.toNat / 16), hexDigit (c.toNat % 16)]

def writeText (s : List Char) : List Char := '"' :: (s.flatMap escape ++ ['"'])

def writeInteger (n : Int) : List Char :=
  if n < 0 then '-' :: Nat.toDigits 10 n.natAbs else Nat.toDigits 10 n.natAbs

mutual

def write : Json → List Char
  | .null => ['n', 'u', 'l', 'l']
  | .bool true => ['t', 'r', 'u', 'e']
  | .bool false => ['f', 'a', 'l', 's', 'e']
  | .integer n => writeInteger n
  | .decimal lexeme => lexeme
  | .text s => writeText s.toList
  | .array items => '[' :: (writeItems items ++ [']'])
  | .object members => '{' :: (writeMembers members ++ ['}'])

def writeItems : List Json → List Char
  | [] => []
  | [j] => write j
  | j :: k :: rest => write j ++ ',' :: writeItems (k :: rest)

def writeMembers : List (String × Json) → List Char
  | [] => []
  | [(key, j)] => writeText key.toList ++ ':' :: write j
  | (key, j) :: m :: rest =>
    writeText key.toList ++ ':' :: (write j ++ ',' :: writeMembers (m :: rest))

end

def texts (names : List String) : Json := .array (names.map .text)

def natural (n : Nat) : Json := .integer n

def optionalText : Option String → Json
  | none => .null
  | some s => .text s

/-! What a value is, if it is of the kind asked for. -/

def text? : Json → Option String
  | .text s => some s
  | _ => none

def bool? : Json → Option Bool
  | .bool b => some b
  | _ => none

def integer? (least most : Int) : Json → Option Int
  | .integer n => if least ≤ n ∧ n ≤ most then some n else none
  | _ => none

def int64? (j : Json) : Option Int64 :=
  (j.integer? Int64.minValue.toInt Int64.maxValue.toInt).map Int64.ofInt

def natural? (j : Json) : Option Nat := (j.integer? 0 (UInt64.size - 1 : Nat)).map Int.toNat

def items? : Json → Option (List Json)
  | .array items => some items
  | _ => none

def members? : Json → Option (List (String × Json))
  | .object members => some members
  | _ => none

def member? (j : Json) (key : String) : Option Json :=
  match j with
  | .object members => members.lookup key
  | _ => none

end Json
end Statechart
