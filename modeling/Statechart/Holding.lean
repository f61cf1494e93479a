import Statechart.Table
import Statechart.Mailbox
import Statechart.Agenda
import Statechart.Check
import Statechart.Clock
/-!
The live values of a machine and the conditions registered on them (`ConditionManager`). A worker
applies new values one after the other. A value that a timed condition accepts sets a timer; when
that falls due and the value has stood all the while, the value is confirmed.
-/

namespace Statechart

structure Update where
  name : String
  value : Int64
  time : Nat
  deriving DecidableEq

/-- A timer for one value of a name: the generation tells whether the value has changed since. -/
structure HoldTimer where
  name : String
  value : Int64
  duration : Nat
  generation : Nat
  deriving DecidableEq

structure Change where
  name : String
  value : Int64
  /-- How long the value is confirmed to have stood; zero for a plain write. -/
  duration : Nat := 0
  /-- Some registered condition accepts the value. -/
  accepted : Bool
  deriving DecidableEq

def Change.reading (c : Change) : Reading :=
  { name := c.name, value := c.value, elapsed := c.duration }

structure Holding where
  signals : Table String Signal := {}
  registered : Table String (List Condition) := {}
  updates : Mailbox Update := {}
  /-- What the worker has taken out of the mailbox and not applied yet. -/
  batch : List Update := []
  timers : Agenda HoldTimer := {}
  running : Bool := false
  /-- The worker that applies values broke down. The next start brings another one. -/
  broken : Bool := false

namespace Holding

def registeredFor (h : Holding) (name : String) : List Condition :=
  (h.registered.find? name).getD []

def ensured (signals : Table String Signal) (name : String) (now : Nat) : Table String Signal :=
  if signals.contains name then signals else signals.put name (.create 0 now)

def admitListener (h : Holding) : Except Error Unit :=
  if h.running then .error .registrationClosed else .ok ()

def add (h : Holding) (c : Condition) (now : Nat) : Except Error Holding :=
  if h.running then .error .registrationClosed
  else if c.intervals.isEmpty then .error (.missingRanges c.name)
  else
    match c.intervals.find? (!·.isProper) with
    | some i => .error (.invalidRange c.name i.min i.max)
    | none =>
      let known := h.registeredFor c.name
      .ok { h with
        registered := h.registered.put c.name (if c ∈ known then known else known ++ [c])
        signals := ensured h.signals c.name now }

theorem add_cases {h h' : Holding} {c : Condition} {now : Nat} (added : h.add c now = .ok h') :
    h.running = false ∧ h' = { h with
      registered := h.registered.put c.name
        (if c ∈ h.registeredFor c.name then h.registeredFor c.name
          else h.registeredFor c.name ++ [c])
      signals := ensured h.signals c.name now } := by
  unfold add at added
  split at added
  · cases added
  next idle =>
  split at added
  · cases added
  split at added
  · cases added
  · cases added
    exact ⟨Bool.eq_false_iff.mpr idle, rfl⟩

def submit (h : Holding) (name : String) (value : Int64) (now : Nat) : Holding :=
  { h with updates := h.updates.push ⟨name, value, now⟩ }

def signal? (h : Holding) (name : String) : Option Signal := h.signals.find? name

def contains (h : Holding) (name : String) : Bool := h.signals.contains name

def value (h : Holding) (name : String) : Int64 := ((h.signal? name).map (·.value)).getD 0

def check (h : Holding) (conditions : List Condition) (connective : Connective) (now : Nat) :
    Except Error Verdict :=
  Condition.check h.signal? now connective conditions

/-- Writes a value at once, past the mailbox and without a report. -/
def store (h : Holding) (name : String) (value : Int64) (now : Nat) : Holding :=
  let old := (h.signal? name).getD (.create value now)
  { h with signals := h.signals.put name (old.write value now) }

def start (h : Holding) : Holding :=
  if h.running then h
  else { h with
    running := true
    broken := false
    updates := h.updates.openUp
    timers := h.timers.openUp }

def stop (h : Holding) : Holding :=
  { h with running := false, updates := h.updates.close, timers := h.timers.close }

def take (h : Holding) : Holding :=
  match h.batch with
  | [] => { h with batch := h.updates.drain.1, updates := h.updates.drain.2 }
  | _ :: _ => h

/-- The distinct durations of timed conditions, in order of first appearance. -/
def durations (accepting : List Condition) : List Nat :=
  ((accepting.filter (·.isTimed)).map (·.duration)).foldl
    (fun seen d => if d ∈ seen then seen else seen ++ [d]) []

/-- Sets timers for some durations, one after the other, up to the first whose end the clock has no
number for; with it, whether all of them could be set. -/
def setTimers (item : Nat → HoldTimer) (time : Nat) :
    List Nat → Agenda HoldTimer → Bool × Agenda HoldTimer
  | [], timers => (true, timers)
  | d :: rest, timers =>
    match Clock.after? time d with
    | none => (false, timers)
    | some due => setTimers item time rest (timers.schedule due (item d))

/-- The durations that a value has to stand for, if it is a change. -/
def waits (h : Holding) (u : Update) : List Nat :=
  let old := (h.signal? u.name).getD (.create 0 u.time)
  if old.differs u.value then
    durations ((h.registeredFor u.name).filter (·.accepts u.value))
  else []

/-- Applies one value. A changed value starts a timer for every duration that a condition accepting
it asks for. The write is reported unless all it has to wait for are such timers. If one of the
timers cannot be set the worker breaks down: the value stands, but nothing is reported, and what
else the worker had taken is lost. -/
def apply (h : Holding) (u : Update) : Holding × Option Change :=
  let old := (h.signal? u.name).getD (.create 0 u.time)
  let signal := old.write u.value u.time
  let accepting := (h.registeredFor u.name).filter (·.accepts u.value)
  let (set, timers) :=
    setTimers (⟨u.name, u.value, ·, signal.generation⟩) u.time (h.waits u) h.timers
  let h' := { h with signals := h.signals.put u.name signal, timers }
  if set then
    (h', if (h.waits u).isEmpty || accepting.any (!·.isTimed) then
        some { name := u.name, value := u.value, accepted := !accepting.isEmpty }
      else none)
  else ({ h' with batch := [], broken := true }, none)

/-- A timer confirms the value it was set for if that still stands and has stood long enough. -/
def confirms (s : Signal) (t : HoldTimer) (now : Nat) : Bool :=
  s.generation == t.generation && s.value == t.value && t.duration ≤ s.heldFor now

/-- Handles a timer that fell due; one whose value has changed since is dropped. -/
def fire (h : Holding) (t : HoldTimer) (now : Nat) : Holding × Option Change :=
  match h.signal? t.name with
  | none => (h, none)
  | some s =>
    if confirms s t now then
      ({ h with signals := h.signals.put t.name s.confirm },
        some { name := t.name, value := t.value, duration := t.duration, accepted := true })
    else (h, none)

def nextTime? (h : Holding) : Option Nat := if h.timers.isOpen then h.timers.nextTime? else none

theorem confirms_iff (s : Signal) (t : HoldTimer) (now : Nat) : confirms s t now = true ↔
    s.generation = t.generation ∧ s.value = t.value ∧ t.duration ≤ s.heldFor now := by
  simp [confirms, and_assoc]

/-- All that handling a timer can do. -/
theorem fire_cases (h : Holding) (t : HoldTimer) (now : Nat) : h.fire t now = (h, none) ∨
    ∃ s, h.signal? t.name = some s ∧ confirms s t now = true ∧
      h.fire t now = ({ h with signals := h.signals.put t.name s.confirm },
        some { name := t.name, value := t.value, duration := t.duration, accepted := true }) := by
  unfold fire
  split
  · exact .inl rfl
  · next s here =>
    split
    · next met => exact .inr ⟨s, here, met, rfl⟩
    · exact .inl rfl

/-- Handling a timer changes nothing but the signals. -/
theorem fire_frame (h : Holding) (t : HoldTimer) (now : Nat) :
    (h.fire t now).1 = { h with signals := (h.fire t now).1.signals } := by
  rcases h.fire_cases t now with same | ⟨_, _, _, same⟩ <;> rw [same]

/-- The signals after a value was applied, whether the worker got to the end of it or not. -/
theorem signals_apply (h : Holding) (u : Update) : (h.apply u).1.signals =
    h.signals.put u.name (((h.signal? u.name).getD (.create 0 u.time)).write u.value u.time) := by
  simp only [apply]
  split <;> rfl

theorem value_apply (h : Holding) (u : Update) : (h.apply u).1.value u.name = u.value := by
  simp [value, signal?, signals_apply, Table.find_put, Signal.value_write]

theorem value_store (h : Holding) (name : String) (v : Int64) (now : Nat) :
    (h.store name v now).value name = v := by
  simp [store, value, signal?, Table.find_put, Signal.value_write]

theorem mem_durations (accepting : List Condition) (d : Nat) :
    d ∈ durations accepting ↔ ∃ c ∈ accepting, c.isTimed = true ∧ c.duration = d := by
  have gathered (l seen : List Nat) :
      d ∈ l.foldl (fun seen d => if d ∈ seen then seen else seen ++ [d]) seen ↔
        d ∈ seen ∨ d ∈ l := by
    induction l generalizing seen with
    | nil => simp
    | cons first rest ih =>
      rw [List.foldl_cons, ih]
      by_cases known : first ∈ seen
      · simp only [known, if_true, List.mem_cons]
        constructor
        · rintro (h | h)
          · exact .inl h
          · exact .inr (.inr h)
        · rintro (h | rfl | h)
          · exact .inl h
          · exact .inl known
          · exact .inr h
      · simp [known, or_assoc]
  unfold durations
  rw [gathered]
  simp [and_assoc]

end Holding
end Statechart
