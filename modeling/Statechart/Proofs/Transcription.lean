import Statechart.Proofs.Recovery
import Statechart.Form.Definition
/-!
Machine definitions as JSON text and back. What is written for a definition is read as the same
definition, provided that its lengths of time can be written: the text gives them in milliseconds
of 64 bits. Whatever is read has such lengths of time only, so that it can be written and read again
without loss.
-/

namespace Statechart

open Json

/-- The length of time is a whole number of milliseconds, of 64 bits. -/
def Clock.IsWhole (span : Nat) : Prop := span % 1000 = 0 ∧ span / 1000 < UInt64.size

instance Clock.decidableIsWhole (span : Nat) : Decidable (Clock.IsWhole span) :=
  inferInstanceAs (Decidable (_ ∧ _))

theorem Clock.is_whole_zero : Clock.IsWhole 0 := ⟨rfl, by decide⟩

/-- So it is for all of these conditions. -/
def WholeIn (conditions : List Condition) : Prop := ∀ c ∈ conditions, Clock.IsWhole c.duration

instance decidableWholeIn (conditions : List Condition) : Decidable (WholeIn conditions) :=
  inferInstanceAs (Decidable (∀ c ∈ conditions, Clock.IsWhole c.duration))

theorem whole_in_nil : WholeIn [] := fun _ member => by cases member

theorem recovers_millis {span : Nat} (whole : Clock.IsWhole span) :
    Recovers Reader.millis (millisJson span) span := by
  have small : Clock.toMillis span < UInt64.size := Clock.to_millis_lt span
  have counted : Recovers (Reader.integer 0 (UInt64.size - 1 : Nat))
      (.integer (Clock.toMillis span)) (Clock.toMillis span) :=
    recovers_integer (by omega) (by omega) (by decide) (by decide)
  have recovers := counted.map fun n => n.toNat * 1000
  have back : (Clock.toMillis span : Int).toNat * 1000 = span :=
    Clock.of_millis_to_millis span whole.1 whole.2
  rwa [back] at recovers

theorem gives_millis : Gives Reader.millis Clock.IsWhole := by
  refine gives_map (gives_integer _ _) fun n ⟨low, high⟩ => ⟨by omega, ?_⟩
  have : n.toNat < UInt64.size := by
    have : (0 : Nat) < UInt64.size := by decide
    omega
  omega

theorem recovers_interval (i : Interval) : Recovers Interval.reader i.toJson i :=
  recovers_record
    (.of rfl rfl (recovers_int64 i.min) <| .of rfl rfl (recovers_int64 i.max) <| .done _) rfl

theorem recovers_connective (k : Connective) : Recovers Connective.reader k.toJson k := by
  cases k <;> exact recovers_one_of rfl

theorem recovers_mode (m : TriggerMode) : Recovers TriggerMode.reader m.toJson m := by
  cases m <;> exact recovers_one_of rfl

theorem recovers_texts (names : List String) :
    Recovers (Reader.list Reader.text) (.texts names) names :=
  recovers_list names fun name _ => recovers_text name

theorem recovers_condition {c : Condition} (whole : Clock.IsWhole c.duration) :
    Recovers Condition.reader c.toJson c :=
  recovers_record
    (.of rfl rfl (recovers_text c.name) <|
      .of rfl rfl (recovers_list c.intervals fun i _ => recovers_interval i) <|
      .of rfl rfl (recovers_millis whole) <| .done _) rfl

theorem recovers_conditions {cs : List Condition} (whole : WholeIn cs) :
    Recovers (Reader.list Condition.reader) (.array (cs.map Condition.toJson)) cs :=
  recovers_list cs fun c member => recovers_condition (whole c member)

/-- A parent and children that are not written are not read either. -/
theorem recovers_state {s : State} (whole : Clock.IsWhole s.timeout) :
    Recovers State.reader s.toJson s := by
  obtain ⟨name, parent, children, timeout⟩ := s
  have named : Fills State.fields {} [("name", .text name)] { name := some name } :=
    .of rfl rfl (recovers_text name) (.done _)
  have under : Fills State.fields { name := some name }
      (parent.map fun p => ("parent", .text p)).toList
      { name := some name, parent := parent.map some } := by
    cases parent with
    | none => exact .done _
    | some p => exact .of rfl rfl (recovers_optional_text p) (.done _)
  have nested : Fills State.fields { name := some name, parent := parent.map some }
      (if children.isEmpty then [] else [("children", .texts children)])
      { name := some name, parent := parent.map some,
        children := if children.isEmpty then none else some children } := by
    cases children with
    | nil => exact .done _
    | cons first rest => exact .of rfl rfl (recovers_texts (first :: rest)) (.done _)
  have timed (draft : State.Draft) (unset : draft.timeout = none) : Fills State.fields draft
      [("timeout", millisJson timeout)] { draft with timeout := some timeout } :=
    .of rfl unset (recovers_millis whole) (.done _)
  refine recovers_record (((named.append under).append nested).append (timed _ rfl)) ?_
  cases parent <;> cases children <;> rfl

theorem recovers_rule {r : Rule} (whole : WholeIn r.conditions) :
    Recovers Rule.reader r.toJson r :=
  recovers_record
    (.of rfl rfl (recovers_text r.source) <| .of rfl rfl (recovers_text r.target) <|
      .of rfl rfl (recovers_texts r.events) <| .of rfl rfl (recovers_conditions whole) <|
      .of rfl rfl (recovers_connective r.connective) <| .done _) rfl

theorem recovers_trigger {t : Trigger} (whole : WholeIn t.conditions) :
    Recovers Trigger.reader t.toJson t :=
  recovers_record
    (.of rfl rfl (recovers_text t.name) <| .of rfl rfl (recovers_mode t.mode) <|
      .of rfl rfl (recovers_conditions whole) <|
      .of rfl rfl (recovers_connective t.connective) <| .done _) rfl

namespace Definition

/-- All lengths of time in a definition can be written in milliseconds. -/
structure IsWhole (d : Definition) : Prop where
  timeouts : ∀ s ∈ d.states, Clock.IsWhole s.timeout
  durations : WholeIn d.conditions

theorem IsWhole.rule {d : Definition} (whole : d.IsWhole) {r : Rule} (member : r ∈ d.rules) :
    WholeIn r.conditions := fun c listed =>
  whole.durations c (List.mem_append_left _ (List.mem_flatMap.mpr ⟨r, member, listed⟩))

theorem IsWhole.trigger {d : Definition} (whole : d.IsWhole) {t : Trigger}
    (member : t ∈ d.triggers) : WholeIn t.conditions := fun c listed =>
  whole.durations c (List.mem_append_right _ (List.mem_flatMap.mpr ⟨t, member, listed⟩))

theorem recovers_definition {d : Definition} (whole : d.IsWhole) :
    Recovers reader d.toJson d :=
  recovers_record
    (.of rfl rfl (recovers_list d.states fun s member =>
        recovers_state (whole.timeouts s member)) <|
      .of rfl rfl (recovers_text d.initial) <|
      .of rfl rfl (recovers_list d.rules fun _ member => recovers_rule (whole.rule member)) <|
      .of rfl rfl (recovers_list d.triggers fun _ member =>
        recovers_trigger (whole.trigger member)) <| .done _) rfl

end Definition

theorem gives_condition : Gives Condition.reader fun c => Clock.IsWhole c.duration := by
  refine gives_record (I := fun d => SoFar Clock.IsWhole d.duration) ?_ .none ?_
  · intro f member d holds
    simp only [Condition.fields, List.mem_cons, List.not_mem_nil, or_false] at member
    rcases member with rfl | rfl | rfl
    · exact gives_other fun _ => holds
    · exact gives_other fun _ => holds
    · exact gives_field gives_millis fun _ => .some
  · intro d c holds made
    simp only [Condition.finish, Option.bind_eq_bind, Option.bind_eq_some_iff] at made
    obtain ⟨_, _, _, _, same⟩ := made
    cases same
    exact holds.default Clock.is_whole_zero

theorem gives_state : Gives State.reader fun s => Clock.IsWhole s.timeout := by
  refine gives_record (I := fun d => SoFar Clock.IsWhole d.timeout) ?_ .none ?_
  · intro f member d holds
    simp only [State.fields, List.mem_cons, List.not_mem_nil, or_false] at member
    rcases member with rfl | rfl | rfl | rfl
    · exact gives_other fun _ => holds
    · exact gives_other fun _ => holds
    · exact gives_other fun _ => holds
    · exact gives_field gives_millis fun _ => .some
  · intro d s holds made
    simp only [State.finish, Option.bind_eq_bind, Option.bind_eq_some_iff] at made
    obtain ⟨_, _, same⟩ := made
    cases same
    exact holds.default Clock.is_whole_zero

theorem gives_conditions : Gives (Reader.list Condition.reader) WholeIn :=
  gives_list gives_condition

theorem gives_rule : Gives Rule.reader fun r => WholeIn r.conditions := by
  refine gives_record (I := fun d => SoFar WholeIn d.conditions) ?_ .none ?_
  · intro f member d holds
    simp only [Rule.fields, List.mem_cons, List.not_mem_nil, or_false] at member
    rcases member with rfl | rfl | rfl | rfl | rfl
    · exact gives_other fun _ => holds
    · exact gives_other fun _ => holds
    · exact gives_other fun _ => holds
    · exact gives_field gives_conditions fun _ => .some
    · exact gives_other fun _ => holds
  · intro d r holds made
    simp only [Rule.finish, Option.bind_eq_bind, Option.bind_eq_some_iff] at made
    obtain ⟨_, _, _, _, same⟩ := made
    cases same
    exact holds.default whole_in_nil

theorem gives_trigger : Gives Trigger.reader fun t => WholeIn t.conditions := by
  refine gives_record (I := fun d => SoFar WholeIn d.conditions) ?_ .none ?_
  · intro f member d holds
    simp only [Trigger.fields, List.mem_cons, List.not_mem_nil, or_false] at member
    rcases member with rfl | rfl | rfl | rfl
    · exact gives_other fun _ => holds
    · exact gives_other fun _ => holds
    · exact gives_field gives_conditions fun _ => .some
    · exact gives_other fun _ => holds
  · intro d t holds made
    simp only [Trigger.finish, Option.bind_eq_bind, Option.bind_eq_some_iff] at made
    obtain ⟨_, _, same⟩ := made
    cases same
    exact holds.default whole_in_nil

namespace Definition

/-- The parts of a draft of a definition, as far as they have been read, have lengths of time that
can be written. -/
structure WholeSoFar (d : Draft) : Prop where
  states : SoFar (fun states => ∀ s ∈ states, Clock.IsWhole s.timeout) d.states
  rules : SoFar (fun rules => ∀ r ∈ rules, WholeIn r.conditions) d.rules
  triggers : SoFar (fun triggers => ∀ t ∈ triggers, WholeIn t.conditions) d.triggers

theorem gives_definition : Gives reader IsWhole := by
  refine gives_record (I := WholeSoFar) ?_ ⟨.none, .none, .none⟩ ?_
  · intro f member d holds
    simp only [fields, List.mem_cons, List.not_mem_nil, or_false] at member
    rcases member with rfl | rfl | rfl | rfl
    · exact gives_field (gives_list gives_state) fun _ whole => { holds with states := .some whole }
    · exact gives_other fun _ => { holds with }
    · exact gives_field (gives_list gives_rule) fun _ whole => { holds with rules := .some whole }
    · exact gives_field (gives_list gives_trigger) fun _ whole =>
        { holds with triggers := .some whole }
  · intro draft d holds made
    simp only [finish, Option.bind_eq_bind, Option.bind_eq_some_iff] at made
    obtain ⟨states, read, _, _, same⟩ := made
    cases same
    have rules := holds.rules.default (a := []) (by simp)
    have triggers := holds.triggers.default (a := []) (by simp)
    refine ⟨holds.states states read, fun c member => ?_⟩
    rcases List.mem_append.mp member with member | member
    · obtain ⟨r, listed, mentioned⟩ := List.mem_flatMap.mp member
      exact rules r listed c mentioned
    · obtain ⟨t, listed, mentioned⟩ := List.mem_flatMap.mp member
      exact triggers t listed c mentioned

/-- Reading a definition undoes writing it if its lengths of time can be written, and that is so for
every definition that has been read. -/
theorem reading_undoes_writing (d : Definition) :
    (d.IsWhole → ofText d.write = .ok d) ∧ ∀ cs, ofText cs = .ok d → ofText d.write = .ok d := by
  have back (whole : d.IsWhole) : ofText d.write = .ok d := (recovers_definition whole).run
  refine ⟨back, fun cs read => back ?_⟩
  unfold ofText Reader.run at read
  split at read
  · cases read
  next given =>
  split at read
  · cases read
    exact gives_definition _ _ _ given
  · cases read

/-- Names with escapes, an empty parent, the longest timeout and the ends of the range of values. -/
def quirky : Definition where
  states :=
    [{ name := "\"A\"\n", parent := some "", children := ["B", "é\t"],
       timeout := 18446744073709551615000 },
     { name := "\x01\\" }]
  initial := ""
  rules :=
    [{ source := "A", target := "", events := ["", "go"], connective := .or,
       conditions := [{ name := "x", duration := 5000,
                        intervals := [⟨Int64.minValue, Int64.maxValue⟩, ⟨1, -1⟩] }] }]
  triggers := [{ name := "warm", mode := .level }]

/-- A text with blanks, with records as arrays and with fields left out. -/
def loose : List Char := " [ [[\"A\",null,[],7]] , \"A\" ] ".toList

def plain : Definition where
  states := [{ name := "A", timeout := 7000 }]
  initial := "A"

theorem quirky_read_back :
    quirky.IsWhole ∧ ofText quirky.write = .ok quirky ∧
    ofText loose = .ok plain ∧ ofText plain.write = .ok plain := by
  have whole : quirky.IsWhole := by
    constructor
    · decide +kernel
    · decide +kernel
  have taken : ofText loose = .ok plain := by rfl
  exact ⟨whole, (reading_undoes_writing quirky).1 whole, taken,
    (reading_undoes_writing plain).2 loose taken⟩

end Definition
end Statechart
