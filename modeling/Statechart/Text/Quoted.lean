import Statechart.Text.Hidden
/-!
Strings in quotes, as diagnostics show them: on one line, and with every character that could not be
told by looking at it as the number of its code point.
-/

namespace Statechart.Text

def hexText (n : Nat) : String := String.ofList (Nat.toDigits 16 n)

def shown (c : Char) : String :=
  if c = '"' then "\\\""
  else if c = '\\' then "\\\\"
  else if c = '\t' then "\\t"
  else if c = '\r' then "\\r"
  else if c = '\n' then "\\n"
  else if c.toNat = 0 then "\\0"
  else if isHidden c then "\\u\x7b" ++ hexText c.toNat ++ "\x7d"
  else c.toString

def quoted (s : String) : String := "\"" ++ String.join (s.toList.map shown) ++ "\""

end Statechart.Text
