/-!
Calls, whatever they are made of. Some calls in a row fold into what becomes of the state that they
find. Of each call something may be noted down, and what one call keeps in step with such a log all
of them keep.
-/

namespace Statechart
variable {σ κ α β : Type}

/-- What is noted down of each call, by the state that it finds. -/
def noted (step : σ → κ → σ) (note : σ → κ → List α) (s : σ) : List κ → List α
  | [] => []
  | c :: rest => note s c ++ noted step note (step s c) rest

section Noted
variable {step : σ → κ → σ} {note : σ → κ → List α}

theorem noted_append (first later : List κ) (s : σ) :
    noted step note s (first ++ later) =
      noted step note s first ++ noted step note (first.foldl step s) later := by
  induction first generalizing s with
  | nil => rfl
  | cons c rest ih =>
    rw [List.cons_append, noted, noted, ih, List.append_assoc]
    rfl

theorem noted_map (f : α → β) (calls : List κ) (s : σ) :
    (noted step note s calls).map f = noted step (fun s c => (note s c).map f) s calls := by
  induction calls generalizing s with
  | nil => rfl
  | cons c rest ih => rw [noted, noted, List.map_append, ih]

/-- A law about a state and the log up to it that each call keeps, as it adds to the log. -/
theorem noted_keeps {P : List α → σ → Prop}
    (keeps : ∀ log s c, P log s → P (log ++ note s c) (step s c)) (calls : List κ) {log : List α}
    {s : σ} (holds : P log s) : P (log ++ noted step note s calls) (calls.foldl step s) := by
  induction calls generalizing log s with
  | nil => rwa [noted, List.append_nil]
  | cons c rest ih =>
    rw [noted, ← List.append_assoc]
    exact ih (keeps log s c holds)

end Noted

/-- Calls that are granted wherever the law holds, where the log is made up from the calls alone. -/
theorem granted_keeps {ε : Type} {call : σ → κ → Except ε σ} {entry : α → κ → α}
    {P : α → σ → Prop} (calls : List κ)
    (grants : ∀ c ∈ calls, ∀ log s, P log s → ∃ s', call s c = .ok s' ∧ P (entry log c) s')
    {log : α} {s : σ} (holds : P log s) :
    ∃ s', calls.foldlM call s = .ok s' ∧ P (calls.foldl entry log) s' := by
  induction calls generalizing log s with
  | nil => exact ⟨s, rfl, holds⟩
  | cons c rest ih =>
    obtain ⟨next, done, holds'⟩ := grants c (List.mem_cons_self ..) log s holds
    obtain ⟨s', later, holds''⟩ := ih (fun c' member => grants c' (.tail c member)) holds'
    refine ⟨s', ?_, holds''⟩
    rw [List.foldlM_cons, done]
    exact later

end Statechart
