/-!
White space as Unicode counts it: twenty-five characters, in ten runs.
-/

namespace Statechart.Text

/-- The runs of white space, each by its first and last code point. -/
def blankRuns : List (Nat × Nat) :=
  [(0x09, 0x0D), (0x20, 0x20), (0x85, 0x85), (0xA0, 0xA0), (0x1680, 0x1680), (0x2000, 0x200A),
   (0x2028, 0x2029), (0x202F, 0x202F), (0x205F, 0x205F), (0x3000, 0x3000)]

def isBlank (c : Char) : Bool := blankRuns.any fun run => run.1 ≤ c.toNat && c.toNat ≤ run.2

def skipBlanks (cs : List Char) : List Char := cs.dropWhile isBlank

end Statechart.Text
