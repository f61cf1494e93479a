/-!
Items that fall due at set times (`DeadlineQueue`). They are released earliest first, and those due
at the same time in the order in which they were put down.
-/

namespace Statechart

/-- An item with the time at which it falls due and its number in the order of putting down. -/
structure Due (α : Type) where
  time : Nat
  ticket : Nat
  item : α
  deriving DecidableEq

structure Agenda (α : Type) where
  /-- In the order of release. -/
  entries : List (Due α) := []
  /-- How many items have been put down so far. -/
  issued : Nat := 0
  isOpen : Bool := false
  deriving DecidableEq

namespace Agenda
variable {α : Type}

/-- A new entry goes behind those that are due no later. -/
def insert (d : Due α) : List (Due α) → List (Due α)
  | [] => [d]
  | e :: rest => if d.time < e.time then d :: e :: rest else e :: insert d rest

def schedule (a : Agenda α) (time : Nat) (item : α) : Agenda α :=
  { a with entries := insert ⟨time, a.issued, item⟩ a.entries, issued := a.issued + 1 }

def nextTime? (a : Agenda α) : Option Nat := a.entries.head?.map (·.time)

/-- The first item, if the agenda is open and the item is due at `now`. -/
def release? (a : Agenda α) (now : Nat) : Option (α × Agenda α) :=
  match a.isOpen, a.entries with
  | true, first :: rest =>
    if first.time ≤ now then some (first.item, { a with entries := rest }) else none
  | _, _ => none

theorem release_cases {a a' : Agenda α} {now : Nat} {item : α}
    (released : a.release? now = some (item, a')) :
    ∃ e, a.entries = e :: a'.entries ∧ e.item = item ∧ e.time ≤ now ∧ a.isOpen = true ∧
      a' = { a with entries := a'.entries } := by
  unfold release? at released
  split at released
  · next first later opened entries =>
    split at released
    · next due =>
      cases released
      exact ⟨first, entries, rfl, due, opened, rfl⟩
    · cases released
  · cases released

def clear (a : Agenda α) : Agenda α := { a with entries := [] }

def openUp (a : Agenda α) : Agenda α := { a with isOpen := true }

def close (a : Agenda α) : Agenda α := { a with isOpen := false }

def size (a : Agenda α) : Nat := a.entries.length

theorem perm_insert (d : Due α) (entries : List (Due α)) :
    (insert d entries).Perm (d :: entries) := by
  induction entries with
  | nil => exact .refl _
  | cons e rest ih =>
    unfold insert
    split
    · exact .refl _
    · exact (ih.cons e).trans (.swap d e rest)

/-- Entries in order of time stay so. -/
theorem sorted_insert (d : Due α) (entries : List (Due α))
    (sorted : entries.Pairwise fun x y => x.time ≤ y.time) :
    (insert d entries).Pairwise fun x y => x.time ≤ y.time := by
  induction entries with
  | nil => simp [insert]
  | cons e rest ih =>
    have tail := List.pairwise_cons.mp sorted
    unfold insert
    split
    · next earlier =>
      refine List.pairwise_cons.mpr ⟨fun x hx => ?_, sorted⟩
      rcases List.mem_cons.mp hx with rfl | hx
      · omega
      · have := tail.1 x hx
        omega
    · next later =>
      refine List.pairwise_cons.mpr ⟨fun x hx => ?_, ih tail.2⟩
      rcases List.mem_cons.mp ((perm_insert d rest).mem_iff.mp hx) with rfl | hx
      · omega
      · exact tail.1 x hx

end Agenda
end Statechart
