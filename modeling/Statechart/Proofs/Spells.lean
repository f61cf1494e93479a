import Statechart.Signal
/-!
A signal under any writes and confirmations. Its clocks tell of its last spell, which begins with
the sample that brought in the present value and lasts through all samples that only repeat it. How
long the value has stood is therefore told by the samples that differ from the one before them, and
a confirmation stands until the next of these.
-/

namespace Statechart

/-- A value, and the time at which it was put down. -/
structure Sample where
  value : Int64
  time : Nat
  deriving DecidableEq

namespace Signal

/-- What can be done to a signal. -/
inductive Touch
  | write (value : Int64) (time : Nat)
  | confirm

def touch (s : Signal) : Touch → Signal
  | .write value time => s.write value time
  | .confirm => s.confirm

def Touch.written? : Touch → Option Sample
  | .write value time => some ⟨value, time⟩
  | .confirm => none

/-- What was written, in order. -/
def written (touches : List Touch) : List Sample := touches.filterMap Touch.written?

@[simp] theorem written_write (value : Int64) (time : Nat) (rest : List Touch) :
    written (.write value time :: rest) = ⟨value, time⟩ :: written rest := rfl

@[simp] theorem written_confirm (rest : List Touch) :
    written (.confirm :: rest) = written rest := rfl

/-- The samples that differ from the value before them. -/
def shifts (value : Int64) : List Sample → List Sample
  | [] => []
  | w :: rest => if w.value = value then shifts value rest else w :: shifts w.value rest

theorem shifts_snoc (first : Sample) (samples : List Sample) (w : Sample) :
    shifts first.value (samples ++ [w]) = shifts first.value samples ++
      if w.value = (samples.getLastD first).value then [] else [w] := by
  induction samples generalizing first with
  | nil => rfl
  | cons next rest ih =>
    rw [List.cons_append, shifts, shifts, ih next, List.getLastD_cons]
    by_cases same : next.value = first.value
    · rw [if_pos same, if_pos same, ← same, ih next]
    · rw [if_neg same, if_neg same, List.cons_append]

theorem shifts_sublist (value : Int64) (samples : List Sample) :
    (shifts value samples).Sublist samples := by
  induction samples generalizing value with
  | nil => exact .slnil
  | cons w rest ih =>
    unfold shifts
    split
    · exact (ih value).cons w
    · exact (ih w.value).cons_cons w

/-- In order of time no sample is later than the last one. -/
theorem time_le_last {first : Sample} {samples : List Sample}
    (ordered : (first :: samples).Pairwise (·.time ≤ ·.time)) :
    ∀ w ∈ first :: samples, w.time ≤ (samples.getLastD first).time := by
  induction samples generalizing first with
  | nil =>
    intro w member
    rw [List.mem_singleton.mp member]
    exact Nat.le_refl _
  | cons next rest ih =>
    obtain ⟨before, ordered'⟩ := List.pairwise_cons.mp ordered
    rw [List.getLastD_cons]
    intro w member
    rcases List.mem_cons.mp member with rfl | later
    · have first_le := before next (List.mem_cons_self ..)
      exact Nat.le_trans first_le (ih ordered' next (List.mem_cons_self ..))
    · exact ih ordered' w later

/-- A signal as the samples tell it, of which the first made it. -/
structure Told (first : Sample) (samples : List Sample) (s : Signal) : Prop where
  last : samples.getLastD first = ⟨s.value, s.updated⟩
  generation : s.generation = (shifts first.value samples).length
  shift : (shifts first.value samples).getLastD first = ⟨s.value, s.changed⟩
  spell : ∃ before rest, first :: samples = before ++ ⟨s.value, s.changed⟩ :: rest ∧
    (∀ w ∈ rest, w.value = s.value) ∧ ∀ w ∈ before.getLast?, w.value ≠ s.value

theorem told_create (value : Int64) (time : Nat) :
    Told ⟨value, time⟩ [] (create value time) where
  last := rfl
  generation := rfl
  shift := rfl
  spell := ⟨[], [], rfl, by simp, by simp⟩

namespace Told
variable {first : Sample} {samples : List Sample} {s : Signal} (told : Told first samples s)
include told

theorem stood : (samples.getLastD first).value = s.value := by rw [told.last]

/-- A sample that repeats the value prolongs the spell. -/
theorem repeats (time : Nat) :
    Told first (samples ++ [⟨s.value, time⟩]) { s with updated := time } := by
  have same : shifts first.value (samples ++ [⟨s.value, time⟩]) = shifts first.value samples := by
    rw [shifts_snoc, if_pos told.stood.symm, List.append_nil]
  obtain ⟨before, rest, parted, steady, apart⟩ := told.spell
  refine ⟨List.getLastD_concat, ?_, ?_, before, rest ++ [⟨s.value, time⟩], ?_, ?_, apart⟩
  · rw [same]
    exact told.generation
  · rw [same]
    exact told.shift
  · rw [← List.cons_append, parted, List.append_assoc, List.cons_append]
  · intro w member
    rcases List.mem_append.mp member with old | new
    · exact steady w old
    · rw [List.mem_singleton.mp new]

/-- A sample with another value begins a spell. -/
theorem turns {value : Int64} (other : s.value ≠ value) (time : Nat) :
    Told first (samples ++ [⟨value, time⟩])
      { value, updated := time, changed := time, generation := s.generation + 1 } := by
  have more : shifts first.value (samples ++ [⟨value, time⟩]) =
      shifts first.value samples ++ [⟨value, time⟩] := by
    rw [shifts_snoc, told.stood, if_neg other.symm]
  refine ⟨List.getLastD_concat, ?_, ?_, first :: samples, [], rfl, by simp, ?_⟩
  · rw [more, List.length_append, told.generation, List.length_singleton]
  · rw [more, List.getLastD_concat]
  · intro w last
    rw [List.getLast?_cons, Option.mem_some_iff, ← List.getLastD_eq_getLast?] at last
    rw [← last, told.stood]
    exact other

theorem write (value : Int64) (time : Nat) :
    Told first (samples ++ [⟨value, time⟩]) (s.write value time) := by
  unfold Signal.write
  split
  · next same => exact same ▸ told.repeats time
  · next other => exact told.turns other time

theorem confirm : Told first samples s.confirm :=
  ⟨told.last, told.generation, told.shift, told.spell⟩

theorem touches (touches : List Touch) :
    Told first (samples ++ written touches) (touches.foldl touch s) := by
  induction touches generalizing samples s with
  | nil => simpa [written] using told
  | cons t rest ih =>
    cases t with
    | write value time =>
      have later := ih (told.write value time)
      rwa [List.append_assoc] at later
    | confirm => exact ih told.confirm

theorem listed : ⟨s.value, s.changed⟩ ∈ first :: shifts first.value samples :=
  told.shift ▸ List.getLastD_mem_cons

/-- In order of time, the present value came in with the last shift. -/
theorem latest (ordered : (first :: samples).Pairwise (·.time ≤ ·.time)) :
    (∀ w ∈ first :: shifts first.value samples, w.time ≤ s.changed) ∧ s.changed ≤ s.updated := by
  have fewer : (first :: shifts first.value samples).Sublist (first :: samples) :=
    (shifts_sublist first.value samples).cons_cons first
  have shifted := time_le_last (ordered.sublist fewer)
  have ended := time_le_last ordered
  rw [told.shift] at shifted
  rw [told.last] at ended
  exact ⟨shifted, ended _ (fewer.subset told.listed)⟩

/-- The value has stood for a span exactly if nothing shifted it within that span. -/
theorem held_iff (ordered : (first :: samples).Pairwise (·.time ≤ ·.time)) {span now : Nat}
    (late : s.updated ≤ now) : span ≤ s.heldFor now ↔
      ∀ w ∈ first :: shifts first.value samples, (w.time : Int) ≤ now - span := by
  obtain ⟨latest, settled⟩ := told.latest ordered
  unfold heldFor
  constructor
  · intro held w member
    have := latest w member
    omega
  · intro before
    have last : (s.changed : Int) ≤ now - span := before _ told.listed
    omega

end Told

theorem confirmed_write_iff (s : Signal) (value : Int64) (time : Nat) (later : List Sample) :
    ((s.write value time).confirmed = true ∧ shifts value later = []) ↔
      s.confirmed = true ∧ shifts s.value (⟨value, time⟩ :: later) = [] := by
  by_cases same : value = s.value
  · simp [confirmed_write, differs, shifts, same]
  · simp [confirmed_write, differs, shifts, same, Ne.symm same]

/-- A confirmation among some touches is the first of them or one of the others. -/
theorem confirm_among_cons (t : Touch) (rest : List Touch)
    (holds : List Touch → List Touch → Prop) :
    (∃ before after, t :: rest = before ++ .confirm :: after ∧ holds before after) ↔
      (t = .confirm ∧ holds [] rest) ∨
      ∃ before after, rest = before ++ .confirm :: after ∧ holds (t :: before) after := by
  constructor
  · rintro ⟨before, after, parted, held⟩
    cases before with
    | nil =>
      cases parted
      exact .inl ⟨rfl, held⟩
    | cons first before =>
      cases parted
      exact .inr ⟨before, after, rfl, held⟩
  · rintro (⟨rfl, held⟩ | ⟨before, after, rfl, held⟩)
    · exact ⟨[], rest, rfl, held⟩
    · exact ⟨t :: before, after, rfl, held⟩

/-- A signal is confirmed as long as no sample shifts the value that was confirmed. -/
theorem confirmed_touches (touches : List Touch) (s : Signal) :
    (touches.foldl touch s).confirmed = true ↔
      (s.confirmed = true ∧ shifts s.value (written touches) = []) ∨
      ∃ before after, touches = before ++ .confirm :: after ∧
        shifts (before.foldl touch s).value (written after) = [] := by
  induction touches generalizing s with
  | nil => simp [written, shifts]
  | cons t rest ih =>
    rw [List.foldl_cons, ih, confirm_among_cons, ← or_assoc]
    refine or_congr ?_ Iff.rfl
    cases t with
    | write value time =>
      have kept := s.confirmed_write_iff value time (written rest)
      simpa [touch, value_write] using kept
    | confirm =>
      have confirmed : (s.touch .confirm).confirmed = true := rfl
      have value : (s.touch .confirm).value = s.value := rfl
      simp +contextual [confirmed, value]

/-- Whatever is written in order of time, and whenever a timer confirms what stands: the value and
the time of the last update are those of the last sample, where the first one made the signal. The
generation counts the samples that differ from the value before them. The last change is the time of
the first sample of the last spell of equal values, which is when the signal was made if its value
never changed, and it is no later than the last update. From the last update on, the value has stood
for a span exactly if the signal was made, and last shifted, no later than the span before. A
confirmation stands until the next sample that differs. -/
theorem clocks_tell_last_spell (value : Int64) (time : Nat) (touches : List Touch)
    (ordered : (⟨value, time⟩ :: written touches).Pairwise (·.time ≤ ·.time)) :
    let made : Sample := ⟨value, time⟩
    let later := written touches
    let s := touches.foldl touch (create value time)
    later.getLastD made = ⟨s.value, s.updated⟩ ∧
    s.generation = (shifts value later).length ∧
    (∃ before rest, made :: later = before ++ ⟨s.value, s.changed⟩ :: rest ∧
      (∀ w ∈ rest, w.value = s.value) ∧ ∀ w ∈ before.getLast?, w.value ≠ s.value) ∧
    (shifts value later = [] → s.changed = time) ∧
    s.changed ≤ s.updated ∧
    (∀ span now : Nat, s.updated ≤ now → (span ≤ s.heldFor now ↔
      (time : Int) ≤ now - span ∧ ∀ w ∈ shifts value later, ¬ (now : Int) - span < w.time)) ∧
    (s.confirmed = true ↔ ∃ before after, touches = before ++ .confirm :: after ∧
      shifts ((written before).getLastD made).value (written after) = []) := by
  intro made later s
  have told (touches : List Touch) :
      Told made (written touches) (touches.foldl touch (create value time)) :=
    (told_create value time).touches touches
  have all := told touches
  refine ⟨all.last, all.generation, all.spell, fun steady => ?_, (all.latest ordered).2, ?_, ?_⟩
  · have shift := all.shift
    rw [show shifts made.value (written touches) = [] from steady] at shift
    exact (congrArg Sample.time shift).symm
  · intro span now late
    rw [all.held_iff ordered late, List.forall_mem_cons]
    simp only [Int.not_lt]
    rfl
  · rw [confirmed_touches, or_iff_right fun first => Bool.noConfusion first.1]
    simp only [(told _).last]

/-- A value that is repeated and confirmed, shifted, shifted back, and confirmed again. -/
def tide : List Touch :=
  [.write 3 5, .confirm, .write 3 8, .write 7 10, .write 3 20, .write 3 30, .confirm, .write 3 40]

theorem tide_told :
    (⟨3, 0⟩ :: written tide).Pairwise (·.time ≤ ·.time) ∧
    let s := tide.foldl touch (create 3 0)
    (s.value = 3 ∧ s.updated = 40) ∧ s.generation = 2 ∧
    (∀ span, span ≤ s.heldFor 50 ↔ span ≤ 30) ∧ s.confirmed = true := by
  have ordered : (⟨3, 0⟩ :: written tide).Pairwise (·.time ≤ ·.time) := by decide
  obtain ⟨last, generation, _, _, _, held, confirmed⟩ := clocks_tell_last_spell 3 0 tide ordered
  have shifted : shifts 3 (written tide) = [⟨7, 10⟩, ⟨3, 20⟩] := by decide
  obtain ⟨value, updated⟩ := Sample.mk.inj last.symm
  refine ⟨ordered, ⟨value, updated⟩, ?_, fun span => ?_, ?_⟩
  · rw [generation, shifted]
    rfl
  · rw [held span 50 (updated ▸ by decide), shifted, List.forall_mem_cons,
      List.forall_mem_singleton]
    dsimp only
    omega
  · exact confirmed.mpr ⟨tide.take 6, [.write 3 40], rfl, by decide⟩

end Signal
end Statechart
