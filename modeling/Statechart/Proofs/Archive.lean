import Statechart.Proofs.Window
/-!
Histories kept as text. A history without leap seconds is read back from what was written for it, in
every year that is kept and to the nanosecond. Reading takes a text at its word, though: a history
may come from it with more transitions than it has room for, or without room for any. A history that
is read within its bounds stays there whatever is recorded in it. One that is not grows with every
transition, since an old one only makes place when there are exactly as many as fit.
-/

namespace Statechart

/-- An instant that is no leap second has a place in its minute. -/
theorem Timestamp.instant_of_regular {t : Timestamp} (inside : t.inRange = true)
    (regular : t.isLeap = false) : t.IsInstant where
  inRange := inside
  small := by
    have small := of_decide_eq_false regular
    omega
  leap leap := by simp [regular] at leap

namespace History

/-! Written down and read again. -/

/-- Nothing is refused for its capacity, nor for the number of its transitions. -/
theorem read_written {h : History} (instants : ∀ p ∈ h.passages, p.time.IsInstant) :
    ofText h.write = .ok h :=
  (recovers_history instants).run

/-- A history of instants that are no leap seconds is read as it was written: with its capacity and
its transitions in order, each at the very same instant, so that the way, the last transition and
the time that they took are those of before. Two such histories are never written alike. -/
theorem survives_text (h : History)
    (instants : ∀ p ∈ h.passages, p.time.inRange = true ∧ p.time.isLeap = false) :
    (∃ h', ofText h.write = .ok h' ∧ h'.capacity = h.capacity ∧ h'.passages = h.passages ∧
      h'.path = h.path ∧ h'.last? = h.last? ∧ h'.duration? = h.duration?) ∧
    ∀ other : History, (∀ p ∈ other.passages, p.time.inRange = true ∧ p.time.isLeap = false) →
      other.write = h.write → other = h := by
  have read (k : History)
      (regular : ∀ p ∈ k.passages, p.time.inRange = true ∧ p.time.isLeap = false) :
      ofText k.write = .ok k :=
    read_written fun p member =>
      Timestamp.instant_of_regular (regular p member).1 (regular p member).2
  refine ⟨⟨h, read h instants, rfl, rfl, rfl, rfl, rfl⟩, fun other regular same => ?_⟩
  have again := read other regular
  rw [same, read h instants] at again
  exact (Except.ok.inj again).symm

/-- The first day that is kept, the leap day of the year 0, the last moment of 1969 and the last one
that is kept. -/
def ages : History where
  capacity := 3
  passages := [hop "Morgen" "Tag" (-8334601228800) 0, hop "Tag" "Nacht" (-62162121600) 120000000,
    hop "Nacht" "夜明け" (-1) 999999000, hop "夜明け" "Tag" 8210266876799 999999999]

theorem ages_survive :
    (∀ p ∈ ages.passages, p.time.inRange = true ∧ p.time.isLeap = false) ∧
    ∃ h, ofText ages.write = .ok h ∧ h.passages = ages.passages ∧
      h.path = ["Morgen", "Tag", "Nacht", "夜明け", "Tag"] ∧
      h.duration? = some 16544868105599999999999 := by
  have instants : ∀ p ∈ ages.passages, p.time.inRange = true ∧ p.time.isLeap = false := by
    decide +kernel
  obtain ⟨⟨h, read, _, passages, path, _, duration⟩, _⟩ := survives_text ages instants
  exact ⟨instants, h, read, passages, path, duration⟩

/-! Recording in what was read. -/

def recordAll (h : History) (made : List Passage) : History := made.foldl record h

/-- There is room for one transition at least, and there are no more than there is room for. -/
def InBounds (h : History) : Prop := 0 < h.capacity.toNat ∧ h.size ≤ h.capacity.toNat

instance (h : History) : Decidable h.InBounds := inferInstanceAs (Decidable (_ ∧ _))

theorem capacity_record_all (made : List Passage) (h : History) :
    (h.recordAll made).capacity = h.capacity := by
  induction made generalizing h with
  | nil => rfl
  | cons p rest ih => exact ih (h.record p)

theorem record_all_last (made : List Passage) {h : History} {log : List Passage}
    (room : 0 < h.capacity.toNat) (kept : h.passages = window h.capacity log) :
    (h.recordAll made).passages = window h.capacity (log ++ made) := by
  induction made generalizing h log with
  | nil => simpa [recordAll] using kept
  | cons p rest ih =>
    have later := @ih (h.record p) (log ++ [p]) room (record_last room kept p)
    rwa [List.append_assoc] at later

theorem InBounds.record_all {h : History} (fits : h.InBounds) (made : List Passage) :
    (h.recordAll made).passages = window h.capacity (h.passages ++ made) := by
  refine record_all_last made fits.1 ?_
  have all : h.passages.length - h.capacity.toNat = 0 := Nat.sub_eq_zero_of_le fits.2
  rw [window, all, List.drop_zero]

/-- A history out of bounds gives up nothing for a new transition, and stays out of bounds. -/
theorem record_overfull {h : History} (overfull : ¬ h.InBounds) (p : Passage) :
    (h.record p).passages = h.passages ++ [p] ∧ ¬ (h.record p).InBounds := by
  have out : h.capacity.toNat = 0 ∨ h.capacity.toNat < h.passages.length := by
    rw [InBounds, size] at overfull
    omega
  have passages : (h.record p).passages = h.passages ++ [p] := by
    simp only [record]
    split
    · next full =>
      -- Without room for any, a history is full only while it is empty.
      have empty : h.passages = [] := List.length_eq_zero_iff.mp (by omega)
      rw [empty, List.drop_nil]
    · rfl
  refine ⟨passages, fun fits => ?_⟩
  rw [InBounds, size, passages, List.length_append, List.length_singleton] at fits
  have capacity : (h.record p).capacity = h.capacity := rfl
  rw [capacity] at fits
  omega

theorem record_all_overfull (made : List Passage) {h : History} (overfull : ¬ h.InBounds) :
    (h.recordAll made).passages = h.passages ++ made := by
  induction made generalizing h with
  | nil => simp [recordAll]
  | cons p rest ih =>
    obtain ⟨added, still⟩ := record_overfull overfull p
    have later := ih still
    rw [added, List.append_assoc] at later
    exact later

theorem size_record_all (h : History) (made : List Passage) : (h.recordAll made).size =
    if h.InBounds then min (h.size + made.length) h.capacity.toNat else h.size + made.length := by
  split
  · next fits =>
    rw [size, fits.record_all made, window, List.length_drop, List.length_append, size]
    omega
  · next overfull =>
    rw [size, record_all_overfull made overfull, List.length_append, size]

/-- Whatever is recorded in a history, made or read: it keeps to its capacity, or to any bound at
all, exactly if it did so before, and had room for one transition at least. Then it shows the last
of the transitions that it came with and of those recorded since; otherwise it shows all of them. -/
theorem bounded_iff_in_bounds (h : History) :
    (h.InBounds ↔ ∀ made, made ≠ [] → (h.recordAll made).size ≤ max h.capacity.toNat 1) ∧
    (h.InBounds ↔ ∃ bound, ∀ made, (h.recordAll made).size ≤ bound) ∧
    ∀ made, (h.recordAll made).capacity = h.capacity ∧
      (h.recordAll made).passages = if h.InBounds then
          (h.passages ++ made).drop ((h.passages ++ made).length - h.capacity.toNat)
        else h.passages ++ made := by
  refine ⟨⟨fun fits made _ => ?_, fun bounded => ?_⟩,
    ⟨fun fits => ⟨h.capacity.toNat, fun made => ?_⟩, fun ⟨bound, bounded⟩ => ?_⟩,
    fun made => ⟨capacity_record_all made h, ?_⟩⟩
  · rw [size_record_all, if_pos fits]
    omega
  · refine Decidable.byContradiction fun overfull => ?_
    -- An overfull history drops nothing, so two more bring it beyond its capacity and beyond one.
    have two := bounded [hop "" "" 0 0, hop "" "" 0 0] (List.cons_ne_nil _ _)
    rw [size_record_all, if_neg overfull] at two
    rw [InBounds] at overfull
    simp only [List.length_cons, List.length_nil] at two
    omega
  · rw [size_record_all, if_pos fits]
    omega
  · refine Decidable.byContradiction fun overfull => ?_
    have many := bounded (List.replicate (bound + 1) (hop "" "" 0 0))
    rw [size_record_all, if_neg overfull, List.length_replicate] at many
    omega
  · split
    · next fits => exact fits.record_all made
    · next overfull => exact record_all_overfull made overfull

/-- Two transitions in a history with so much room. -/
def stroll (capacity : UInt64) : History where
  capacity := capacity
  passages := [hop "Hall" "Attic" 0 0, hop "Attic" "Hall" 1 0]

theorem stroll_read (capacity : UInt64) :
    ofText (stroll capacity).write = .ok (stroll capacity) := by
  refine read_written fun p member => ?_
  simp only [stroll, List.mem_cons, List.not_mem_nil, or_false] at member
  rcases member with rfl | rfl <;> exact ⟨⟨by decide +kernel, by decide⟩, by decide⟩

/-- With room for two it stays as long as it is, with room for one it has no end. -/
theorem stroll_stays_or_grows :
    (∃ h, ofText (stroll 2).write = .ok h ∧ ∀ made, made ≠ [] → (h.recordAll made).size ≤ 2) ∧
    ∃ h, ofText (stroll 1).write = .ok h ∧ ∀ bound, ∃ made, bound < (h.recordAll made).size := by
  constructor
  · have law := bounded_iff_in_bounds (stroll 2)
    exact ⟨_, stroll_read 2, law.1.mp (by decide)⟩
  · have law := bounded_iff_in_bounds (stroll 1)
    have unbounded := mt law.2.1.mpr (by decide)
    simp only [not_exists, not_forall, not_le] at unbounded
    exact ⟨_, stroll_read 1, unbounded⟩

theorem stroll_outgrows : ∃ h, ofText (stroll 1).write = .ok h ∧ h.capacity = 1 ∧
    (h.recordAll [hop "Hall" "Garden" 2 0]).size = 3 :=
  ⟨_, stroll_read 1, rfl, rfl⟩

end History
end Statechart
