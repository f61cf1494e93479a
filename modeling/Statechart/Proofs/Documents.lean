import Statechart.Form.Document
import Statechart.Proofs.Transcription
/-!
Configuration documents as JSON text and back. A range is written as one pair or as a list of pairs,
an event as one name, as a list of names or as nothing, and the text does not say which. It need
not: no JSON fits two of the forms, not even an empty list or a list of two pairs. So every document
is read as it was written, in the same forms, and means the same.
-/

namespace Statechart
open Json

/-- Items of which each is read back are read back in a row. -/
theorem map_m_written {α : Type} {toJson : α → Json} {read : Json → Option α}
    (back : ∀ a, read (toJson a) = some a) (as : List α) :
    (as.map toJson).mapM read = some as := by
  induction as with
  | nil => rfl
  | cons a rest ih => simp [back, ih]

theorem int64_written (v : Int64) : (Json.integer v.toInt).int64? = some v := by
  have fits : Int64.minValue.toInt ≤ v.toInt ∧ v.toInt ≤ Int64.maxValue.toInt :=
    ⟨v.minValue_le_toInt, v.toInt_le⟩
  rw [int64?, integer?, if_pos fits, Option.map_some, Int64.ofInt_toInt]

namespace RangeField

theorem pair_written (p : Pair) : pair? (pairJson p) = some p := by
  simp [pair?, pairJson, int64_written]

/-- A pair of integers is no list of pairs. -/
theorem pairs_of_pair {j : Json} {p : Pair} (single : pair? j = some p) :
    j.items?.bind (·.mapM pair?) = none := by
  unfold pair? at single
  split at single
  · next a b =>
    obtain ⟨v, first, _⟩ := Option.bind_eq_some_iff.mp single
    cases a with
    | integer n => simp [items?, pair?]
    | null | bool | decimal | text | array | object => cases first
  · cases single

theorem of_json_to_json (r : RangeField) : ofJson r.toJson = some r := by
  cases r with
  | single p => simp [ofJson, toJson, pair_written]
  | several ps =>
    have back := map_m_written pair_written ps
    cases single : pair? (.array (ps.map pairJson)) with
    | none => simp [ofJson, toJson, single, back]
    | some p =>
      have clash := pairs_of_pair single
      rw [items?, Option.bind_some, back] at clash
      cases clash

theorem recovers_any_pair (depth : Nat) (p : Pair) :
    Recovers (Reader.any (depth + 1)) (pairJson p) (pairJson p) := by
  have number (v : Int64) : Recovers (Reader.any depth) (.integer v.toInt) (.integer v.toInt) := by
    refine recovers_any_integer depth v.minValue_le_toInt ?_
    exact Int.lt_of_le_of_lt v.toInt_le (by decide)
  refine recovers_any_array depth _ fun j member => ?_
  simp only [List.mem_cons, List.not_mem_nil, or_false] at member
  rcases member with rfl | rfl
  · exact number p.1
  · exact number p.2

theorem recovers_range (depth : Nat) (r : RangeField) :
    Recovers (Reader.filterMap ofJson (Reader.any (depth + 2))) r.toJson r := by
  suffices written : Recovers (Reader.any (depth + 2)) r.toJson r.toJson from
    written.filterMap r.of_json_to_json
  cases r with
  | single p => exact recovers_any_pair (depth + 1) p
  | several ps =>
    refine recovers_any_array (depth + 1) _ fun j member => ?_
    obtain ⟨p, _, rfl⟩ := List.mem_map.mp member
    exact recovers_any_pair depth p

end RangeField

namespace EventField

theorem of_json_names (names : List String) : ofJson (.texts names) = some (.many names) := by
  have each (name : String) : text? (.text name) = some name := rfl
  have back := map_m_written each names
  simp [ofJson, texts, back]

theorem recovers_event (e : Option EventField) : Recovers reader (toJson e) e := by
  cases e with
  | none => exact recovers_null _
  | some e =>
    cases e with
    | one name =>
      have plain := recovers_any_text (Reader.depthLimit - 1) name
      have named : Recovers (Reader.filterMap ofJson _) (.text name) (.one name) :=
        plain.filterMap rfl
      exact named.optional rfl rfl (by decide)
    | many names =>
      have listed :
          Recovers (Reader.any (Reader.depthLimit - 1)) (.texts names) (.texts names) := by
        refine recovers_any_array (Reader.depthLimit - 2) _ fun j member => ?_
        obtain ⟨name, _, rfl⟩ := List.mem_map.mp member
        exact recovers_any_text _ name
      exact (listed.filterMap (of_json_names names)).optional (by rw [texts, write]) rfl (by decide)

end EventField

theorem recovers_state_entry (s : StateEntry) : Recovers StateEntry.reader s.toJson s :=
  recovers_record
    (.of rfl rfl (recovers_text s.name) <| .of rfl rfl (recovers_text s.parent) <|
      .of rfl rfl (recovers_uint64 s.timeout) <| .done _) rfl

theorem recovers_state_document (d : StateDocument) : Recovers StateDocument.reader d.toJson d :=
  recovers_record
    (.of rfl rfl (recovers_list d.states fun s _ => recovers_state_entry s) <|
      .of rfl rfl (recovers_text d.initial) <| .done _) rfl

/-- An entry may stand within other containers, as long as there is room for its ranges. -/
theorem recovers_condition_entry {within depth : Nat}
    (room : Reader.depthLimit - within = depth + 2) (c : ConditionEntry) :
    Recovers (ConditionEntry.reader within) c.toJson c := by
  have range := RangeField.recovers_range depth c.range
  rw [← room] at range
  exact recovers_record
    (.of rfl rfl (recovers_text c.name) <| .of rfl rfl range <|
      .of rfl rfl (recovers_uint64 c.duration) <| .done _) rfl

theorem recovers_condition_entries (cs : List ConditionEntry) :
    Recovers (Reader.list (ConditionEntry.reader 3)) (.array (cs.map ConditionEntry.toJson)) cs :=
  recovers_list cs fun c _ => @recovers_condition_entry 3 122 rfl c

theorem recovers_trigger_document (t : TriggerDocument) :
    Recovers TriggerDocument.reader t.toJson t :=
  recovers_record
    (.of rfl rfl (recovers_text t.name) <| .of rfl rfl (recovers_mode t.mode) <|
      .of rfl rfl (recovers_connective t.connective) <|
      .of rfl rfl (recovers_condition_entries t.conditions) <| .done _) rfl

theorem recovers_rule_document (r : RuleDocument) : Recovers RuleDocument.reader r.toJson r :=
  recovers_record
    (.of rfl rfl (recovers_text r.source) <| .of rfl rfl (recovers_text r.target) <|
      .of rfl rfl (EventField.recovers_event r.event) <|
      .of rfl rfl (recovers_connective r.connective) <|
      .of rfl rfl (recovers_condition_entries r.conditions) <| .done _) rfl

/-- What is written for a value is read as the same value, and so as what the value means. -/
structure ReadsBack {α μ : Type} (p : Reader α) (toJson : α → Json) (meaning : α → μ) (a : α) :
    Prop where
  same : p.run (toJson a).write = .ok a
  means : (p.run (toJson a).write).map meaning = .ok (meaning a)

theorem Json.Recovers.reads_back {α μ : Type} {p : Reader α} {toJson : α → Json} {a : α}
    (recovers : Recovers p (toJson a) a) (meaning : α → μ) : ReadsBack p toJson meaning a where
  same := recovers.run
  means := by rw [recovers.run]; rfl

/-- Every document is read back from the JSON written for it, with its ranges and events in the
forms that they had, and means the same. No JSON can be taken both for a pair and for a list of
pairs, nor for a name and for a list of names. -/
theorem Configuration.documents_read_back :
    (∀ d, ReadsBack StateDocument.reader StateDocument.toJson
      (fun d => (d.states.map StateEntry.toState, d.initial)) d) ∧
    (∀ c, ReadsBack (ConditionEntry.reader 1) ConditionEntry.toJson ConditionEntry.toCondition c) ∧
    (∀ t, ReadsBack TriggerDocument.reader TriggerDocument.toJson TriggerDocument.toTrigger t) ∧
    (∀ r, ReadsBack RuleDocument.reader RuleDocument.toJson RuleDocument.toRule r) ∧
    (∀ j, RangeField.pair? j = none ∨ j.items?.bind (·.mapM RangeField.pair?) = none) ∧
    ∀ j : Json, j.text? = none ∨ j.items?.bind (·.mapM text?) = none := by
  refine ⟨fun d => ?_, fun c => ?_, fun t => ?_, fun r => ?_, fun j => ?_, fun j => ?_⟩
  · exact (recovers_state_document d).reads_back _
  · exact (@recovers_condition_entry 1 124 rfl c).reads_back _
  · exact (recovers_trigger_document t).reads_back _
  · exact (recovers_rule_document r).reads_back _
  · cases single : RangeField.pair? j with
    | none => exact .inl rfl
    | some p => exact .inr (RangeField.pairs_of_pair single)
  · cases j with
    | text s => exact .inr rfl
    | null | bool | integer | decimal | array | object => exact .inl rfl

end Statechart
