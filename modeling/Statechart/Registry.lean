import Statechart.Machine
/-!
Machines by name. A machine that has been taken off the registry lives on for those who hold it; a
machine created later under its name is another one.
-/

namespace Statechart

/-- Stands for one machine of a registry, for as long as there is the registry. -/
structure Handle where
  index : Nat
  deriving DecidableEq

structure Registry (σ : Type) where
  /-- All machines ever created, oldest first. -/
  machines : List (Machine σ) := []
  registered : Table String Handle := {}

namespace Registry
variable {σ : Type}

def machine? (r : Registry σ) (h : Handle) : Option (Machine σ) := r.machines[h.index]?

def replace (r : Registry σ) (h : Handle) (m : Machine σ) : Registry σ :=
  { r with machines := r.machines.set h.index m }

def get? (r : Registry σ) (name : String) : Option Handle := r.registered.find? name

/-- The machine registered under a name, a new one if there is none. -/
def create (r : Registry σ) (name : String) : Handle × Registry σ :=
  match r.get? name with
  | some h => (h, r)
  | none =>
    let h : Handle := ⟨r.machines.length⟩
    (h, { machines := r.machines ++ [{ name }], registered := r.registered.put name h })

def lookup? (r : Registry σ) (name : String) : Option (Handle × Machine σ) := do
  let h ← r.get? name
  return (h, ← r.machine? h)

def stop (r : Registry σ) (h : Handle) : Registry σ :=
  match r.machine? h with
  | none => r
  | some m => r.replace h m.stop

def remove (r : Registry σ) (name : String) : Option (Handle × Registry σ) :=
  (r.get? name).map fun h => (h, { r with registered := r.registered.erase name }.stop h)

/-- Stops every registered machine; they stay registered. -/
def stopAll (r : Registry σ) : Registry σ :=
  r.registered.entries.foldl (fun r entry => r.stop entry.2) r

def names (r : Registry σ) : List String := r.registered.keys.mergeSort (· ≤ ·)

def size (r : Registry σ) : Nat := r.registered.size

end Registry
end Statechart
