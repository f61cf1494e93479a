import Statechart.Table
import Statechart.State
import Statechart.Error
import Statechart.Clock
/-!
The states of a machine at work (`StateManager`): the registered states with their lineages, which
of them is current, and the watchdog that speaks up when one stays current for too long. Parents are
registered first, so that a lineage is known once and for all.
-/

namespace Statechart

structure Node where
  state : State
  /-- The state itself, then its ancestors up to the root. -/
  lineage : List String
  deriving DecidableEq

structure Armed where
  state : String
  timeout : Nat
  deadline : Nat
  deriving DecidableEq

structure Hierarchy where
  nodes : Table String Node := {}
  current : Option String := none
  armed : Option Armed := none
  running : Bool := false
  /-- The watchdog is at its post. -/
  watching : Bool := false
  /-- The watchdog broke down. The next start brings another one. -/
  broken : Bool := false

namespace Hierarchy

/-- What listens to the watchdog has to be in place before it starts. -/
def admitListener (h : Hierarchy) : Except Error Unit :=
  if h.running then .error .registrationClosed else .ok ()

def adopt (parent : Node) (child : String) : Node :=
  { parent with state := { parent.state with children := parent.state.children ++ [child] } }

/-- Registers a state. An empty parent name means a root; children listed on the state do not count,
for they are collected as they register themselves. -/
def add (h : Hierarchy) (s : State) : Except Error Hierarchy :=
  if h.running then .error .registrationClosed
  else
    let state : State := { s with parent := s.namedParent, children := [] }
    if h.nodes.contains s.name then .error (.duplicateState s.name)
    else
      match s.namedParent with
      | none => .ok { h with nodes := h.nodes.put s.name ⟨state, [s.name]⟩ }
      | some parent =>
        match h.nodes.find? parent with
        | none => .error (.unknownParent s.name parent)
        | some node =>
          let adopted := h.nodes.put parent (adopt node s.name)
          .ok { h with nodes := adopted.put s.name ⟨state, s.name :: node.lineage⟩ }

/-- Arms the watchdog for a state, or disarms it if the state may stay for ever. A timeout whose end
the clock has no number for breaks the call down, with the watchdog as it was. -/
def arm (h : Hierarchy) (state : String) (timeout now : Nat) : Ending Hierarchy :=
  if timeout = 0 then .done { h with armed := none }
  else
    match Clock.after? now timeout with
    | none => .broken h
    | some deadline => .done { h with armed := some ⟨state, timeout, deadline⟩ }

/-- Makes a state the current one, and then arms the watchdog for it. -/
def enter (h : Hierarchy) (name : String) (now : Nat) : Ending Hierarchy :=
  match h.nodes.find? name with
  | none => .refused (.unknownState name)
  | some node => arm { h with current := some name } name node.state.timeout now

/-- The state and its ancestors up to the root; nothing for a state that is not registered. -/
def lineage (h : Hierarchy) (name : String) : List String :=
  match h.nodes.find? name with
  | none => []
  | some node => node.lineage

/-- A state that is not registered stands alone. -/
def lineageOrSelf (h : Hierarchy) (name : String) : List String :=
  match h.nodes.find? name with
  | none => [name]
  | some node => node.lineage

def path (h : Hierarchy) (source target : String) : Path :=
  Path.between (h.lineageOrSelf source) (h.lineageOrSelf target)

def state? (h : Hierarchy) (name : String) : Option State := (h.nodes.find? name).map (·.state)

def contains (h : Hierarchy) (name : String) : Bool := h.nodes.contains name

def names (h : Hierarchy) : List String := h.nodes.keys.mergeSort (· ≤ ·)

/-- The timeout of a state; an unknown one may stay for ever. -/
def allowance (h : Hierarchy) (name : String) : Nat := ((h.state? name).map (·.timeout)).getD 0

/-- Arms the watchdog anew for the current state. -/
def rearm (h : Hierarchy) (now : Nat) : Ending Hierarchy :=
  match h.current with
  | none => .done h
  | some name => h.arm name (h.allowance name) now

/-- Starts the watchdog, with the full timeout of the current state ahead. Where it cannot be armed
it does not come to its post. -/
def start (h : Hierarchy) (now : Nat) : Ending Hierarchy :=
  if h.running then .done h
  else (rearm { h with running := true } now).andThen fun h =>
    .done { h with watching := true, broken := false }

def stop (h : Hierarchy) : Hierarchy := { h with running := false, watching := false }

def isAlert (h : Hierarchy) : Bool := h.watching && !h.broken

def nextTime? (h : Hierarchy) : Option Nat :=
  if h.isAlert then h.armed.map (·.deadline) else none

/-- Lets the watchdog look at the clock. If the time of the armed state is up it names that state
and its timeout, and waits for one more period; it breaks down if the clock has no number for the
end of that. -/
def wake? (h : Hierarchy) (now : Nat) : Option (Option Armed × Hierarchy) :=
  match h.isAlert, h.armed with
  | true, some a =>
    if a.deadline ≤ now then
      match Clock.after? now a.timeout with
      | none => some (none, { h with broken := true })
      | some deadline => some (some a, { h with armed := some { a with deadline } })
    else none
  | _, _ => none

/-- All that adding a state can do. -/
inductive Added (h : Hierarchy) (s : State) : Hierarchy → Prop
  | root : h.running = false → h.nodes.contains s.name = false → s.namedParent = none →
    Added h s { h with
      nodes := h.nodes.put s.name ⟨{ s with parent := none, children := [] }, [s.name]⟩ }
  | below {parent : String} {node : Node} : h.running = false →
    h.nodes.contains s.name = false → s.namedParent = some parent →
    h.nodes.find? parent = some node →
    Added h s { h with
      nodes := (h.nodes.put parent (adopt node s.name)).put s.name
        ⟨{ s with parent := some parent, children := [] }, s.name :: node.lineage⟩ }

theorem add_cases {h h' : Hierarchy} {s : State} (added : h.add s = .ok h') : Added h s h' := by
  unfold add at added
  split at added
  · cases added
  next idle =>
  simp only at added
  split at added
  · cases added
  next new =>
  rw [Bool.not_eq_true] at idle new
  cases up : s.namedParent with
  | none =>
    simp only [up] at added
    cases added
    exact .root idle new up
  | some parent =>
    simp only [up] at added
    split at added
    · cases added
    · next node found =>
      cases added
      exact .below idle new up found

/-- The clock has no number for the end of the state's timeout. -/
def outlasts (h : Hierarchy) (name : String) (now : Nat) : Bool :=
  h.allowance name ≠ 0 && Clock.horizon ≤ now + h.allowance name

/-- How the watchdog is armed for a state. -/
def armedFor (h : Hierarchy) (name : String) (now : Nat) : Option Armed :=
  if h.allowance name = 0 then none else some ⟨name, h.allowance name, now + h.allowance name⟩

theorem arm_eq (h : Hierarchy) (name : String) (now : Nat) :
    h.arm name (h.allowance name) now =
      if h.outlasts name now then .broken h else .done { h with armed := h.armedFor name now } := by
  unfold arm Clock.after? outlasts armedFor
  by_cases forever : h.allowance name = 0
  · simp [forever]
  · by_cases near : now + h.allowance name < Clock.horizon
    · simp [forever, near]
    · simp [forever, near, Nat.le_of_not_lt near]

theorem enter_eq (h : Hierarchy) (name : String) (now : Nat) : h.enter name now =
    if !h.contains name then .refused (.unknownState name)
    else if h.outlasts name now then .broken { h with current := some name }
    else .done { h with current := some name, armed := h.armedFor name now } := by
  unfold enter contains Table.contains
  cases found : h.nodes.find? name with
  | none => rfl
  | some node =>
    have timeout : node.state.timeout = allowance { h with current := some name } name := by
      simp [allowance, state?, found]
    simp only [timeout, arm_eq]
    rfl

theorem enter_frame {h h' : Hierarchy} {name : String} {now : Nat}
    (leaves : (h.enter name now).Leaves h') : h.contains name = true ∧
      h' = { h with current := some name, armed := h'.armed } := by
  rw [enter_eq] at leaves
  split at leaves
  · rcases leaves with same | same <;> cases same
  · next known =>
    have known : h.contains name = true := by simpa using known
    split at leaves <;> rcases leaves with same | same <;> cases same <;> exact ⟨known, rfl⟩

theorem start_eq (h : Hierarchy) (now : Nat) : h.start now =
    if h.running then .done h
    else
      match h.current with
      | none => .done { h with running := true, watching := true, broken := false }
      | some name =>
        if h.outlasts name now then .broken { h with running := true }
        else .done { h with
          armed := h.armedFor name now
          running := true
          watching := true
          broken := false } := by
  unfold start rearm
  cases h.running with
  | true => rfl
  | false =>
    cases h.current with
    | none => rfl
    | some name =>
      simp only [arm_eq]
      change Ending.andThen (if h.outlasts name now then _ else _) _ = _
      split <;> rfl

theorem start_frame {h h' : Hierarchy} {now : Nat} (leaves : (h.start now).Leaves h') :
    h' = { h with
      armed := h'.armed
      running := h'.running
      watching := h'.watching
      broken := h'.broken } := by
  rw [start_eq] at leaves
  split at leaves
  · rcases leaves with same | same <;> cases same <;> rfl
  split at leaves
  · rcases leaves with same | same <;> cases same <;> rfl
  split at leaves <;> rcases leaves with same | same <;> cases same <;> rfl

theorem wake_cases {h h' : Hierarchy} {now : Nat} {spoken : Option Armed}
    (woken : h.wake? now = some (spoken, h')) :
    ∃ armed, h.watching = true ∧ h.broken = false ∧ h.armed = some armed ∧ armed.deadline ≤ now ∧
      (spoken = some armed ∧ now + armed.timeout < Clock.horizon ∧
        h' = { h with armed := some { armed with deadline := now + armed.timeout } } ∨
      spoken = none ∧ Clock.horizon ≤ now + armed.timeout ∧ h' = { h with broken := true }) := by
  unfold wake? at woken
  split at woken
  · next a alert here =>
    obtain ⟨watching, whole⟩ := Bool.and_eq_true_iff.mp alert
    split at woken
    · next due =>
      refine ⟨a, watching, by simpa using whole, here, due, ?_⟩
      unfold Clock.after? at woken
      by_cases near : now + a.timeout < Clock.horizon
      · simp only [near, if_true] at woken
        cases woken
        exact .inl ⟨rfl, near, rfl⟩
      · simp only [near, if_false] at woken
        cases woken
        exact .inr ⟨rfl, Nat.le_of_not_lt near, rfl⟩
    · cases woken
  · cases woken

end Hierarchy
end Statechart
