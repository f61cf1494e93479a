/-!
Why a text could not be read. Of several problems the one that comes first in the text is reported.
-/

namespace Statechart.Json

inductive Problem
  | malformed
  | truncated
  /-- The text is JSON up to this point, but not what was asked for. -/
  | mismatched
  deriving DecidableEq

end Statechart.Json
