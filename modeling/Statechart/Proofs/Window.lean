import Statechart.Form.History
import Statechart.Proofs.Calls
import Statechart.Proofs.Chronicle
import Statechart.Proofs.Instants
import Statechart.Proofs.Transcription
/-!
A history under any sequence of calls. It is a window on the transitions recorded since it was last
cleared: it shows the last of them, as many as fit. To write it down and read it again changes
nothing that the window shows, except that a leap second at a place where there is none becomes the
second that follows.
-/

namespace Statechart

open Json

/-! A history as JSON. -/

theorem recovers_time {t : Timestamp} (instant : t.IsInstant) :
    Recovers Timestamp.reader t.toJson t :=
  (recovers_text _).filterMap (by rw [String.toList_ofList, instant.read_write])

namespace Passage

def settled (p : Passage) : Passage := { p with time := p.time.settled }

theorem settled_of_instant {p : Passage} (instant : p.time.IsInstant) : p.settled = p := by
  rw [settled, instant.settled]

theorem map_settled {passages : List Passage} (instants : ∀ p ∈ passages, p.time.IsInstant) :
    passages.map settled = passages :=
  (List.map_congr_left fun p member => settled_of_instant (instants p member)).trans
    (List.map_id passages)

theorem to_json_settled {p : Passage} (held : p.time.IsHeld) : p.settled.toJson = p.toJson := by
  simp only [toJson, settled, Timestamp.toJson, held.write_settled]

theorem recovers_passage {p : Passage} (instant : p.time.IsInstant) :
    Recovers reader p.toJson p :=
  recovers_record
    (.of rfl rfl (recovers_text p.source) <| .of rfl rfl (recovers_text p.target) <|
      .of rfl rfl (recovers_text p.event) <| .of rfl rfl (recovers_texts p.exited) <|
      .of rfl rfl (recovers_texts p.entered) <| .of rfl rfl (recovers_time instant) <| .done _) rfl

end Passage

namespace History

theorem recovers_history {h : History} (instants : ∀ p ∈ h.passages, p.time.IsInstant) :
    Recovers reader h.toJson h :=
  recovers_record
    (.of rfl rfl (recovers_uint64 h.capacity) <|
      .of rfl rfl (recovers_list h.passages fun p member =>
        Passage.recovers_passage (instants p member)) <| .done _) rfl

def settled (h : History) : History := { h with passages := h.passages.map Passage.settled }

/-- A history that is written down and read again is the same, with its instants settled. -/
theorem reload_settles {h : History} (held : ∀ p ∈ h.passages, p.time.IsHeld) :
    ofText h.write = .ok h.settled := by
  have same : h.settled.toJson = h.toJson := by
    have each : h.passages.map (·.settled.toJson) = h.passages.map Passage.toJson :=
      List.map_congr_left fun p member => Passage.to_json_settled (held p member)
    simp only [toJson, settled, List.map_map, Function.comp_def, each]
  have instants : ∀ p ∈ h.settled.passages, p.time.IsInstant := by
    intro p member
    obtain ⟨q, kept, rfl⟩ := List.mem_map.mp member
    exact (held q kept).settled
  rw [ofText, write, ← same]
  exact (recovers_history instants).run

/-- What can be done with a history. -/
inductive Call
  | record (p : Passage)
  | clear
  | reload

/-- A history after a call, unless it is read from a text that is none. -/
def call (h : History) : Call → Except Problem History
  | .record p => .ok (h.record p)
  | .clear => .ok h.clear
  | .reload => ofText h.write

def afterCalls (h : History) (calls : List Call) : Except Problem History := calls.foldlM call h

def logged (made : List Passage) : Call → List Passage
  | .record p => made ++ [p]
  | .clear => []
  | .reload => made

/-- The transitions recorded since the last call that cleared the history. -/
def sinceClear (calls : List Call) : List Passage := calls.foldl logged []

/-- The last transitions, as many as there is room for. -/
def window (room : UInt64) (made : List Passage) : List Passage :=
  made.drop (made.length - room.toNat)

theorem window_map (room : UInt64) (made : List Passage) (f : Passage → Passage) :
    window room (made.map f) = (window room made).map f := by
  rw [window, window, List.length_map, List.map_drop]

theorem settled_record (h : History) (p : Passage) :
    (h.record p).settled = h.settled.record p.settled := by
  simp only [settled, record, List.length_map, List.map_append, List.map_cons, List.map_nil]
  split
  · rw [List.map_drop]
  · rfl

theorem settled_path (h : History) : h.settled.path = h.path := by
  unfold path settled
  cases h.passages with
  | nil => rfl
  | cons first rest =>
    have targets : (rest.map Passage.settled).map (·.target) = rest.map (·.target) := by
      rw [List.map_map]
      rfl
    exact congrArg (fun way => first.source :: first.target :: way) targets

/-- The history shows the last of these transitions, except for instants that are not settled. -/
structure Shows (h : History) (room : UInt64) (made : List Passage) : Prop where
  capacity : h.capacity = room
  held : ∀ p ∈ h.passages, p.time.IsHeld
  settled : h.settled.passages = window room (made.map Passage.settled)
  kept : (∀ p ∈ made, p.time.IsInstant) → h.passages = window room made

namespace Shows
variable {h : History} {room : UInt64} {made : List Passage}

theorem start (room : UInt64) : Shows { capacity := room } room [] where
  capacity := rfl
  held p member := by cases member
  settled := by simp [History.settled, window]
  kept _ := by simp [window]

variable (shows : h.Shows room made)
include shows

theorem record (positive : 0 < room.toNat) {p : Passage} (held : p.time.IsHeld) :
    (h.record p).Shows room (made ++ [p]) where
  capacity := shows.capacity
  held q member := by
    rcases List.mem_append.mp member with old | new
    · refine shows.held q ?_
      split at old
      · exact List.mem_of_mem_drop old
      · exact old
    · rw [List.mem_singleton.mp new]
      exact held
  settled := by
    have settled := shows.settled
    rw [← show h.settled.capacity = room from shows.capacity] at positive settled ⊢
    rw [settled_record, List.map_append]
    exact record_last positive settled p.settled
  kept instants := by
    have kept := shows.kept fun q member => instants q (List.mem_append_left _ member)
    rw [← shows.capacity] at positive kept ⊢
    exact record_last positive kept p

theorem clear : h.clear.Shows room [] where
  capacity := shows.capacity
  held p member := by cases member
  settled := by simp [History.settled, History.clear, window]
  kept _ := by simp [History.clear, window]

theorem reload : ∃ h', ofText h.write = .ok h' ∧ h'.Shows room made := by
  have instant (p : Passage) (member : p ∈ h.settled.passages) : p.time.IsInstant := by
    obtain ⟨q, old, rfl⟩ := List.mem_map.mp member
    exact (shows.held q old).settled
  have again : h.settled.settled = h.settled :=
    congrArg (History.mk h.capacity) (Passage.map_settled instant)
  refine ⟨h.settled, reload_settles shows.held, shows.capacity, ?_, ?_, ?_⟩
  · exact fun p member => (instant p member).toIsHeld
  · rw [again]
    exact shows.settled
  · intro instants
    rw [shows.settled, Passage.map_settled instants]

theorem call (positive : 0 < room.toNat) (c : Call)
    (held : ∀ p, c = .record p → p.time.IsHeld) :
    ∃ h', h.call c = .ok h' ∧ h'.Shows room (logged made c) := by
  cases c with
  | record p => exact ⟨_, rfl, shows.record positive (held p rfl)⟩
  | clear => exact ⟨_, rfl, shows.clear⟩
  | reload => exact shows.reload

end Shows

theorem room_pos (capacity : UInt64) : 0 < (max capacity 1).toNat := by
  change 0 < (if capacity ≤ 1 then 1 else capacity).toNat
  split
  · decide
  · next more => exact Nat.lt_trans Nat.zero_lt_one (UInt64.not_le.mp more)

/-- Whatever is recorded in a history of any capacity, and however often it is cleared, or written
down and read again: nothing fails, it keeps its capacity, and it holds the last transitions
recorded since it was cleared, as many as fit, where at least one does. Its path leads from the
source of the first of these through the targets of all of them. To read a history again settles
its times: a leap second that does not end a minute becomes the second that follows. So the
transitions are the very same if none was made in such a second, and else the same once settled. -/
theorem history_is_window (capacity : UInt64) (calls : List Call)
    (held : ∀ p, .record p ∈ calls → p.time.IsHeld) :
    let made := sinceClear calls
    let room := max capacity 1
    let last := made.drop (made.length - room.toNat)
    ∃ h, (ofCapacity capacity).afterCalls calls = .ok h ∧ h.capacity = room ∧
      h.size = min made.length room.toNat ∧
      ((∀ p ∈ made, p.time.IsInstant) → h.passages = last) ∧
      h.passages.map Passage.settled = last.map Passage.settled ∧
      (last = [] → h.path = []) ∧
      ∀ first, last.head? = some first → h.path = first.source :: last.map (·.target) := by
  intro made room last
  obtain ⟨h, done, shows⟩ := @granted_keeps _ _ _ _ call logged (fun made h => h.Shows room made)
    calls (fun c member _ _ shows => shows.call (room_pos capacity) c fun p same =>
      held p (same ▸ member)) _ _ (Shows.start room)
  -- Settled, the history is the window itself, and settling leaves the path alone.
  have same : h.settled = settled ⟨room, last⟩ := by
    refine (mk.injEq ..).mpr ⟨shows.capacity, ?_⟩
    exact shows.settled.trans (window_map room made _)
  have shown : h.passages.map Passage.settled = last.map Passage.settled :=
    congrArg passages same
  have path : h.path = path ⟨room, last⟩ := by
    rw [← settled_path, same, settled_path]
  refine ⟨h, done, shows.capacity, ?_, shows.kept, shown, fun nothing => ?_, fun first head => ?_⟩
  · have counted := congrArg List.length shown
    simp only [List.length_map, last, List.length_drop] at counted
    rw [size]
    omega
  · rw [path, nothing]
    rfl
  · obtain ⟨rest, begins⟩ := List.head?_eq_some_iff.mp head
    rw [path, begins]
    rfl

def hop (source target : String) (seconds : Int) (nanos : Nat) : Passage where
  source := source
  target := target
  event := "go"
  exited := [source]
  entered := [target]
  time := { seconds, nanos }

/-- A walk that begins again, with a leap second before 1970 and an instant in the year 262142. -/
def walk : List Call :=
  [.record (hop "Cellar" "Hall" 0 1), .reload, .clear,
    .record (hop "Hall" "Attic" (-1) 1000000000), .reload,
    .record (hop "Attic" "Hall" 8210266876799 999999999),
    .record (hop "Hall" "Garden" 7 0), .reload]

theorem walk_seen :
    (∃ h, (ofCapacity 2).afterCalls walk = .ok h ∧
      h.passages = [hop "Attic" "Hall" 8210266876799 999999999, hop "Hall" "Garden" 7 0] ∧
      h.path = ["Attic", "Hall", "Garden"]) ∧
    ∃ h, (ofCapacity 0).afterCalls walk = .ok h ∧ h.size = 1 ∧ h.path = ["Hall", "Garden"] := by
  have instants (p : Passage) (member : .record p ∈ walk) : p.time.IsInstant := by
    simp only [walk, List.mem_cons, Call.record.injEq, reduceCtorEq, false_or, List.not_mem_nil,
      or_false] at member
    rcases member with rfl | rfl | rfl | rfl <;>
      exact ⟨⟨by decide +kernel, by decide⟩, by decide⟩
  have held (p : Passage) (member : .record p ∈ walk) : p.time.IsHeld :=
    (instants p member).toIsHeld
  constructor
  · obtain ⟨h, done, _, _, kept, _, _, path⟩ := history_is_window 2 walk held
    refine ⟨h, done, kept fun p member => instants p ?_, path _ rfl⟩
    simp only [walk, sinceClear, logged, List.foldl_cons, List.foldl_nil, List.nil_append,
      List.cons_append, List.mem_cons, List.not_mem_nil, or_false] at member
    rcases member with rfl | rfl | rfl <;> simp [walk]
  · obtain ⟨h, done, _, size, _, _, _, path⟩ := history_is_window 0 walk held
    exact ⟨h, done, size, path _ rfl⟩

end History
end Statechart
