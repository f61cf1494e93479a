import Statechart.Table
import Statechart.Rule
import Statechart.Error
/-!
Rules by the state they start from and the event that sets them off (`TransitionManager`). Rules
under one key keep the order in which they were registered, so that the first one that fits wins.
-/

namespace Statechart

structure RuleIndex where
  buckets : Table (String × String) (List Rule) := {}
  isSealed : Bool := false

namespace RuleIndex

/-- The rules from exactly this state on exactly this event, in order of registration. -/
def find (index : RuleIndex) (state event : String) : List Rule :=
  (index.buckets.find? (state, event)).getD []

/-- Files a rule at the end of one bucket. -/
def file (buckets : Table (String × String) (List Rule)) (key : String × String) (r : Rule) :
    Table (String × String) (List Rule) :=
  buckets.put key ((buckets.find? key).getD [] ++ [r])

/-- Files a rule under each event that sets it off. -/
def add (index : RuleIndex) (r : Rule) : Except Error RuleIndex :=
  if index.isSealed then .error .registrationClosed
  else .ok { index with
    buckets := r.triggers.foldl (fun buckets event => file buckets (r.source, event) r)
      index.buckets }

theorem add_cases {index index' : RuleIndex} {r : Rule} (added : index.add r = .ok index') :
    index.isSealed = false ∧ index' = { index with
      buckets := r.triggers.foldl (fun buckets event => file buckets (r.source, event) r)
        index.buckets } := by
  unfold add at added
  split at added
  · cases added
  · next unsealed =>
    cases added
    exact ⟨Bool.eq_false_iff.mpr unsealed, rfl⟩

def keyCount (index : RuleIndex) : Nat := index.buckets.size

def clear (index : RuleIndex) : RuleIndex := { index with buckets := {} }

def close (index : RuleIndex) : RuleIndex := { index with isSealed := true }

def reopen (index : RuleIndex) : RuleIndex := { index with isSealed := false }

theorem find_file (buckets : Table (String × String) (List Rule)) (key other : String × String)
    (r : Rule) : ((file buckets key r).find? other).getD [] =
      (buckets.find? other).getD [] ++ if other = key then [r] else [] := by
  by_cases same : other = key <;> simp [file, Table.find_put, same]

end RuleIndex
end Statechart
