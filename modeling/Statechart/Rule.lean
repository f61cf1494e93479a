import Statechart.Event
/-!
Transition rules: from one state to another, on certain events, under certain conditions.
-/

namespace Statechart

structure Rule where
  source : String
  target : String
  events : List String := []
  conditions : List Condition := []
  connective : Connective := .and
  deriving DecidableEq

namespace Rule

def onEvent (source target event : String) : Rule := { source, target, events := [event] }

/-- A rule that follows a condition, whatever changes. -/
def whenCondition (source target : String) (condition : Condition) : Rule :=
  { source, target, conditions := [condition] }

def distinct : List String → List String → List String
  | seen, [] => seen
  | seen, name :: rest => if name ∈ seen then distinct seen rest else distinct (seen ++ [name]) rest

/-- The events that set the rule off: its non-empty names, each once, or the internal event when it
names none. -/
def triggers (r : Rule) : List String :=
  match distinct [] (r.events.filter (· != "")) with
  | [] => [internalEvent]
  | names => names

theorem mem_distinct (seen names : List String) (name : String) :
    name ∈ distinct seen names ↔ name ∈ seen ∨ name ∈ names := by
  induction names generalizing seen with
  | nil => simp [distinct]
  | cons first rest ih =>
    by_cases known : first ∈ seen
    · rw [distinct, if_pos known, ih]
      constructor
      · rintro (h | h) <;> simp [h]
      · rintro (h | h)
        · exact .inl h
        · rcases List.mem_cons.mp h with rfl | h
          · exact .inl known
          · exact .inr h
    · rw [distinct, if_neg known, ih]
      simp [or_assoc]

theorem nodup_distinct (seen names : List String) (unique : seen.Nodup) :
    (distinct seen names).Nodup := by
  induction names generalizing seen with
  | nil => exact unique
  | cons first rest ih =>
    by_cases known : first ∈ seen
    · rw [distinct, if_pos known]
      exact ih seen unique
    · rw [distinct, if_neg known]
      exact ih _ (List.nodup_append.mpr ⟨unique, by simp, by
        intro x hx y hy same
        simp only [List.mem_singleton] at hy
        exact known (by rw [← hy, ← same]; exact hx)⟩)

end Rule
end Statechart
