/-!
A table of entries under keys. Looking a key up after `put` gives the new entry for that key and
leaves every other key alone; the keys keep the order in which they were first put.
-/

namespace Statechart

/-- Entries under keys, in the order in which the keys were first put. -/
structure Table (κ α : Type) where
  entries : List (κ × α) := []

namespace Table
variable {κ α : Type} [DecidableEq κ]

def find? (t : Table κ α) (key : κ) : Option α := t.entries.lookup key

def contains (t : Table κ α) (key : κ) : Bool := (t.find? key).isSome

def keys (t : Table κ α) : List κ := t.entries.map Prod.fst

def size (t : Table κ α) : Nat := t.entries.length

/-- The entries with the one under `key` replaced, or with a new one at the end. -/
def putIn (key : κ) (a : α) : List (κ × α) → List (κ × α)
  | [] => [(key, a)]
  | (known, old) :: rest =>
    if key = known then (known, a) :: rest else (known, old) :: putIn key a rest

def put (t : Table κ α) (key : κ) (a : α) : Table κ α := ⟨putIn key a t.entries⟩

def erase (t : Table κ α) (key : κ) : Table κ α := ⟨t.entries.filter fun e => e.1 ≠ key⟩

theorem lookup_put_in (key : κ) (a : α) (entries : List (κ × α)) (other : κ) :
    (putIn key a entries).lookup other =
      if other = key then some a else entries.lookup other := by
  induction entries with
  | nil =>
    by_cases h : other = key
    · simp [putIn, h]
    · simp [putIn, List.lookup_cons, h, beq_eq_false_iff_ne.mpr h]
  | cons e rest ih =>
    obtain ⟨known, old⟩ := e
    by_cases hit : key = known
    · subst hit
      by_cases h : other = key
      · simp [putIn, h]
      · simp [putIn, List.lookup_cons, h, beq_eq_false_iff_ne.mpr h]
    · by_cases h : other = known
      · subst h
        simp [putIn, hit, Ne.symm hit]
      · simp [putIn, List.lookup_cons, hit, ih, beq_eq_false_iff_ne.mpr h]

theorem find_put (t : Table κ α) (key : κ) (a : α) (other : κ) :
    (t.put key a).find? other = if other = key then some a else t.find? other :=
  lookup_put_in key a t.entries other

theorem contains_put (t : Table κ α) (key : κ) (a : α) (other : κ) :
    (t.put key a).contains other = (decide (other = key) || t.contains other) := by
  by_cases h : other = key <;> simp [contains, find_put, h]

theorem keys_put_in (key : κ) (a : α) (entries : List (κ × α)) :
    (putIn key a entries).map Prod.fst =
      if key ∈ entries.map Prod.fst then entries.map Prod.fst
      else entries.map Prod.fst ++ [key] := by
  induction entries with
  | nil => simp [putIn]
  | cons e rest ih =>
    obtain ⟨known, old⟩ := e
    by_cases hit : key = known
    · simp [putIn, hit]
    · by_cases m : key ∈ rest.map Prod.fst <;> simp_all [putIn]

theorem contains_iff_mem_keys (t : Table κ α) (key : κ) :
    t.contains key = true ↔ key ∈ t.keys := by
  rw [contains, find?, List.lookup_isSome_iff, keys, List.mem_map]
  simp only [beq_iff_eq, eq_comm (a := key)]

theorem keys_put (t : Table κ α) (key : κ) (a : α) :
    (t.put key a).keys = if t.contains key then t.keys else t.keys ++ [key] := by
  have put := keys_put_in key a t.entries
  by_cases known : key ∈ t.keys
  · rw [if_pos ((contains_iff_mem_keys t key).mpr known)]
    exact put.trans (if_pos known)
  · rw [if_neg (mt (contains_iff_mem_keys t key).mp known)]
    exact put.trans (if_neg known)

/-- A table in which each key stands once keeps that property under `put`. -/
theorem nodup_keys_put (t : Table κ α) (key : κ) (a : α) (unique : t.keys.Nodup) :
    (t.put key a).keys.Nodup := by
  unfold keys put
  rw [keys_put_in]
  split
  · exact unique
  · next fresh =>
    exact List.nodup_append.mpr ⟨unique, by simp, by
      intro x hx y hy same
      simp only [List.mem_singleton] at hy
      exact fresh (by rw [← hy, ← same]; exact hx)⟩

end Table
end Statechart
