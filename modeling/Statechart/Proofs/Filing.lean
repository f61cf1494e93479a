import Statechart.Document
import Statechart.Proofs.Calls
import Statechart.Proofs.Resolution
/-!
The index of rules under any sequence of calls. To look up a state and an event is to go through the
rules that were added since the index was last cleared: those from the state that answer to the
event come out, in the order in which they were added. There are as many keys as there are pairs of
a state and an event for which a rule comes out. A rule may also come from a document, which sorts
out its events by itself; it is filed under the keys that the names in the document would give.
-/

namespace Statechart

/-! Names of events. -/

/-- A list of names picks out an event that it names, or the internal one where it names none. Empty
names do not count. -/
def Picks (names : List String) (event : String) : Prop :=
  event ≠ "" ∧ event ∈ names ∨ event = internalEvent ∧ ∀ name ∈ names, name = ""

instance (names : List String) (event : String) : Decidable (Picks names event) :=
  inferInstanceAs (Decidable (_ ∨ _))

def orInternal : List String → List String
  | [] => [internalEvent]
  | names => names

theorem mem_or_internal (names : List String) (event : String) :
    event ∈ orInternal names ↔ event ∈ names ∨ event = internalEvent ∧ names = [] := by
  cases names <;> simp [orInternal]

theorem picks_iff (names : List String) (event : String) : Picks names event ↔
    event ∈ names.filter (· != "") ∨ event = internalEvent ∧ names.filter (· != "") = [] := by
  simp [Picks, List.filter_eq_nil_iff, and_comm]

/-- Names that are sorted out pick out the same events when they are sorted out again. -/
theorem picks_or_internal (names : List String) (event : String) :
    Picks (orInternal (names.filter (· != ""))) event ↔ Picks names event := by
  have full : ∀ name ∈ orInternal (names.filter (· != "")), name ≠ "" := by
    intro name member
    rcases (mem_or_internal _ name).mp member with named | ⟨rfl, _⟩
    · simpa using (List.mem_filter.mp named).2
    · decide
  have nonempty : orInternal (names.filter (· != "")) ≠ [] := by
    cases names.filter (· != "") <;> simp [orInternal]
  have kept : (orInternal (names.filter (· != ""))).filter (· != "") =
      orInternal (names.filter (· != "")) :=
    List.filter_eq_self.mpr fun name member => by simpa using full name member
  rw [picks_iff, kept, picks_iff, mem_or_internal]
  simp [nonempty]

namespace Rule

/-- The rule is from this state, and its names pick out the event. -/
def AnswersTo (r : Rule) (state event : String) : Prop :=
  r.source = state ∧ Picks r.events event

instance (r : Rule) (state event : String) : Decidable (r.AnswersTo state event) :=
  inferInstanceAs (Decidable (_ ∧ _))

theorem mem_triggers (r : Rule) (event : String) : event ∈ r.triggers ↔ Picks r.events event := by
  have form : r.triggers = orInternal (distinct [] (r.events.filter (· != ""))) := by
    unfold triggers
    cases distinct [] (r.events.filter (· != "")) <;> rfl
  have each (name : String) := mem_distinct [] (r.events.filter (· != "")) name
  simp only [List.not_mem_nil, false_or] at each
  have empty : distinct [] (r.events.filter (· != "")) = [] ↔ r.events.filter (· != "") = [] := by
    simp only [List.eq_nil_iff_forall_not_mem, each]
  rw [form, mem_or_internal, each, empty, picks_iff]

theorem answers_to_iff (r : Rule) (state event : String) :
    r.AnswersTo state event ↔ r.source = state ∧ event ∈ r.triggers :=
  and_congr_right fun _ => (r.mem_triggers event).symm

end Rule

/-- The names of events in a document as they stand there. -/
def EventField.names : Option EventField → List String
  | none => []
  | some (.one name) => [name]
  | some (.many names) => names

theorem EventField.events_eq (field : Option EventField) :
    events field = orInternal ((names field).filter (· != "")) := by
  have sorted (names : List String) : (match names with
      | [] => [internalEvent]
      | found => found) = orInternal names := by
    cases names <;> rfl
  cases field with
  | none => rfl
  | some field => cases field <;> exact sorted _

/-- The rule of a document with the names of its events taken over as they stand. -/
def RuleDocument.plainRule (d : RuleDocument) : Rule :=
  { d.toRule with events := EventField.names d.event }

theorem RuleDocument.answers_alike (d : RuleDocument) (state event : String) :
    d.toRule.AnswersTo state event ↔ d.plainRule.AnswersTo state event := by
  refine and_congr_right fun _ => ?_
  rw [show d.toRule.events = _ from EventField.events_eq d.event]
  exact picks_or_internal _ event

/-! Buckets. -/

namespace Filed
variable {rules : List Rule} {buckets : Table (String × String) (List Rule)}
  (filed : Filed rules buckets)
include filed

/-- What holds of no buckets and is kept when a rule is filed in one of them. -/
theorem keeps {P : Table (String × String) (List Rule) → Prop} (nothing : P {})
    (file : ∀ buckets key r, P buckets → P (RuleIndex.file buckets key r)) : P buckets := by
  induction filed with
  | none => exact nothing
  | add _ added ih =>
    obtain ⟨_, rfl⟩ := RuleIndex.add_cases added
    exact List.foldlRecOn _ _ ih fun buckets holds event _ => file buckets _ _ holds

theorem nodup_keys : buckets.keys.Nodup :=
  filed.keeps List.nodup_nil fun buckets key _ => buckets.nodup_keys_put key _

/-- A bucket is put there with a rule in it. -/
theorem bucket_full (key : String × String) : buckets.find? key ≠ some [] := by
  refine filed.keeps (P := fun buckets => ∀ key, buckets.find? key ≠ some []) ?_ ?_ key
  · intro key found
    cases found
  · intro buckets key r full other
    rw [RuleIndex.file, Table.find_put]
    split
    · simp
    · exact full other

theorem mem_keys (key : String × String) :
    key ∈ buckets.keys ↔ (buckets.find? key).getD [] ≠ [] := by
  rw [← Table.contains_iff_mem_keys, Table.contains]
  have full := filed.bucket_full key
  cases found : buckets.find? key with
  | none => simp
  | some bucket =>
    rw [found] at full
    simpa using full

end Filed

namespace RuleIndex

/-- What can be done with an index that is not sealed. -/
inductive Call
  | add (r : Rule)
  | clear

def call (index : RuleIndex) : Call → Except Error RuleIndex
  | .add r => index.add r
  | .clear => .ok index.clear

def afterCalls (index : RuleIndex) (calls : List Call) : Except Error RuleIndex :=
  calls.foldlM call index

def logged (rules : List Rule) : Call → List Rule
  | .add r => rules ++ [r]
  | .clear => []

/-- The rules that are added from the last call on that clears the index. -/
def sinceClear (calls : List Call) : List Rule := calls.foldl logged []

theorem add_unsealed (index : RuleIndex) (r : Rule) (unsealed : index.isSealed = false) :
    ∃ index', index.add r = .ok index' ∧ index'.isSealed = false := by
  simp [add, unsealed]

theorem call_filed (c : Call) {index : RuleIndex} {rules : List Rule}
    (unsealed : index.isSealed = false) (filed : Filed rules index.buckets) :
    ∃ index', index.call c = .ok index' ∧ index'.isSealed = false ∧
      Filed (logged rules c) index'.buckets := by
  cases c with
  | add r =>
    obtain ⟨next, added, unsealed'⟩ := index.add_unsealed r unsealed
    exact ⟨next, added, unsealed', .add filed added⟩
  | clear => exact ⟨_, rfl, unsealed, .none⟩

section Filed
variable {index index' : RuleIndex} {rules : List Rule} (filed : Filed rules index.buckets)
include filed

theorem find_answers (state event : String) :
    index.find state event = rules.filter fun r => decide (r.AnswersTo state event) := by
  rw [find, filed.find state event]
  simp only [Rule.answers_to_iff]

theorem find_added {r : Rule} (added : index.add r = .ok index') (state event : String) :
    index'.find state event =
      index.find state event ++ if r.AnswersTo state event then [r] else [] := by
  rw [find_answers filed, find_answers (filed.add added), List.filter_append]
  by_cases answers : r.AnswersTo state event <;> simp [answers]

/-- As many keys are in use as there are pairs for which rules are found, so two indexes that find
rules for the same pairs have as many. -/
theorem key_count_alike {rules' : List Rule} (filed' : Filed rules' index'.buckets)
    (alike : ∀ state event, index.find state event ≠ [] ↔ index'.find state event ≠ []) :
    index.keyCount = index'.keyCount := by
  -- Neither table has a key twice, so the same keys are as many keys.
  have same : index.buckets.keys.Perm index'.buckets.keys :=
    (List.perm_ext_iff_of_nodup filed.nodup_keys filed'.nodup_keys).mpr fun key =>
      ((filed.mem_keys key).trans (alike key.1 key.2)).trans (filed'.mem_keys key).symm
  simpa [keyCount, Table.size, Table.keys] using same.length_eq

end Filed

/-- Whatever rules are added to a new index, and however often it is cleared: nothing is refused,
and what is found for a state and an event are the rules added since it was last cleared that are
from the state and answer to the event, in this order, each as often as it was added. The keys in
use are the pairs for which rules are found. If another rule is added that comes from a document, it
is found behind these for the pairs for which the rule would be found that names the events as the
document does, and for no others. -/
theorem index_agrees_with_log (calls : List Call) :
    let rules := sinceClear calls
    ∃ (index : RuleIndex) (keys : List (String × String)),
      ({} : RuleIndex).afterCalls calls = .ok index ∧
      (∀ state event, index.find state event =
        rules.filter fun r => decide (r.AnswersTo state event)) ∧
      keys.Nodup ∧ (∀ state event, (state, event) ∈ keys ↔ index.find state event ≠ []) ∧
      index.keyCount = keys.length ∧
      ∀ d : RuleDocument, ∃ converted plain,
        index.add d.toRule = .ok converted ∧ index.add d.plainRule = .ok plain ∧
        converted.keyCount = plain.keyCount ∧
        ∀ state event,
          converted.find state event = index.find state event ++
            (if d.plainRule.AnswersTo state event then [d.toRule] else []) ∧
          plain.find state event = index.find state event ++
            (if d.plainRule.AnswersTo state event then [d.plainRule] else []) := by
  intro rules
  obtain ⟨index, done, unsealed, filed⟩ := @granted_keeps _ _ _ _ call logged
    (fun rules index => index.isSealed = false ∧ Filed rules index.buckets) calls
    (fun c _ _ _ holds => call_filed c holds.1 holds.2) [] {} ⟨rfl, .none⟩
  refine ⟨index, index.buckets.keys, done, find_answers filed, filed.nodup_keys,
    fun state event => filed.mem_keys (state, event), ?_, fun d => ?_⟩
  · simp [keyCount, Table.size, Table.keys]
  · obtain ⟨converted, added, _⟩ := index.add_unsealed d.toRule unsealed
    obtain ⟨plain, added', _⟩ := index.add_unsealed d.plainRule unsealed
    have found (state event : String) : converted.find state event = index.find state event ++
        if d.plainRule.AnswersTo state event then [d.toRule] else [] := by
      rw [find_added filed added, if_congr (d.answers_alike state event) rfl rfl]
    have found' := find_added filed added'
    refine ⟨converted, plain, added, added', ?_, fun state event =>
      ⟨found state event, found' state event⟩⟩
    -- Both indexes find something for the same pairs, so they have as many keys.
    refine key_count_alike (filed.add added) (filed.add added') fun state event => ?_
    rw [found, found']
    by_cases answers : d.plainRule.AnswersTo state event <;> simp [answers]

example : (({} : RuleIndex).afterCalls
    [.add (.onEvent "off" "off" "press"), .clear,
      .add { source := "off", target := "on", events := ["press", "", "touch", "press"] },
      .add { source := "off", target := "dim", events := [""] },
      .add (.onEvent "off" "dim" "press")]).toOption.map
        (fun index => ((index.find "off" "press").map (·.target), index.keyCount)) =
    some (["on", "dim"], 3) := by decide

end RuleIndex
end Statechart
