/-!
First-in, first-out queues (`WorkQueue`) between those who submit work and the one worker that takes
it. Work is accepted whether or not the worker may take any: what is sent to a closed mailbox waits
there.
-/

namespace Statechart

structure Mailbox (α : Type) where
  /-- Oldest first. -/
  items : List α := []
  isOpen : Bool := false
  deriving DecidableEq

namespace Mailbox
variable {α : Type}

def push (m : Mailbox α) (a : α) : Mailbox α := { m with items := m.items ++ [a] }

def openUp (m : Mailbox α) : Mailbox α := { m with isOpen := true }

def close (m : Mailbox α) : Mailbox α := { m with isOpen := false }

def hasWork (m : Mailbox α) : Bool := m.isOpen && !m.items.isEmpty

def pop? (m : Mailbox α) : Option (α × Mailbox α) :=
  match m.isOpen, m.items with
  | true, first :: rest => some (first, { m with items := rest })
  | _, _ => none

/-- Everything in an open mailbox, oldest first. -/
def drain (m : Mailbox α) : List α × Mailbox α :=
  if m.isOpen then (m.items, { m with items := [] }) else ([], m)

def size (m : Mailbox α) : Nat := m.items.length

theorem items_push (m : Mailbox α) (a : α) : (m.push a).items = m.items ++ [a] := rfl

theorem items_of_pop (m rest : Mailbox α) (a : α) (taken : m.pop? = some (a, rest)) :
    m.items = a :: rest.items ∧ rest.isOpen = m.isOpen := by
  obtain ⟨items, isOpen⟩ := m
  cases isOpen <;> cases items <;> simp [pop?] at taken
  obtain ⟨rfl, rfl⟩ := taken
  exact ⟨rfl, rfl⟩

theorem items_drain (m : Mailbox α) : m.drain.1 ++ m.drain.2.items = m.items := by
  unfold drain
  split <;> simp

end Mailbox
end Statechart
