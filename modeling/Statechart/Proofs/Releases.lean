import Mathlib.Data.List.Nodup
import Statechart.Agenda
import Statechart.Proofs.Calls
/-!
An agenda under any sequence of calls. Whoever waits at it is handed the earliest of the items that
are pending, among several of one time the one that was put down first, as soon as it is due and
never before. Nothing is lost and nothing comes twice: an item that was put down has been handed
out, or was dropped when the agenda was cleared, or is pending still.
-/

namespace Statechart

/-- The order of release: by time, and at one time by the order of putting down. -/
def Due.Precedes {α : Type} (x y : Due α) : Prop :=
  x.time < y.time ∨ x.time = y.time ∧ x.ticket < y.ticket

namespace Agenda
variable {α : Type}

/-- What can be done with an agenda. Someone who waits looks at the clock, again and again, until an
item is handed out or the agenda is closed. -/
inductive Call (α : Type)
  | schedule (time : Nat) (item : α)
  | look (now : Nat)
  | clear
  | openUp
  | close

/-- An agenda after a call. -/
def call (a : Agenda α) : Call α → Agenda α
  | .schedule time item => a.schedule time item
  | .look now => ((a.release? now).map (·.2)).getD a
  | .clear => a.clear
  | .openUp => a.openUp
  | .close => a.close

def afterCalls (a : Agenda α) (calls : List (Call α)) : Agenda α := calls.foldl call a

/-- What is noted down of each call, by the agenda that it finds. -/
def along {β : Type} (note : Agenda α → Call α → List β) (a : Agenda α) (calls : List (Call α)) :
    List β := noted call note a calls

/-- The item that a call hands out. -/
def answer (a : Agenda α) : Call α → List α
  | .look now => ((a.release? now).map (·.1)).toList
  | _ => []

/-- The entry that is taken away with it. -/
def released (a : Agenda α) : Call α → List (Due α)
  | .look now => if (a.release? now).isSome then a.entries.take 1 else []
  | _ => []

/-- The entries that a call does away with. -/
def dropped (a : Agenda α) : Call α → List (Due α)
  | .clear => a.entries
  | _ => []

/-- The items that are put down, numbered in this order. -/
def scheduled (ticket : Nat) : List (Call α) → List (Due α)
  | [] => []
  | .schedule time item :: rest => ⟨time, ticket, item⟩ :: scheduled (ticket + 1) rest
  | _ :: rest => scheduled ticket rest

def opens (before : Bool) : Call α → Bool
  | .openUp => true
  | .close => false
  | .schedule .. | .look _ | .clear => before

/-- The agenda is open after these calls. -/
def opened (before : Bool) (calls : List (Call α)) : Bool := calls.foldl opens before

theorem tickets_scheduled (calls : List (Call α)) (ticket : Nat) :
    (scheduled ticket calls).map (·.ticket) =
      List.range' ticket (scheduled ticket calls).length := by
  induction calls generalizing ticket with
  | nil => rfl
  | cons c rest ih =>
    cases c with
    | schedule time item =>
      simp only [scheduled, List.map_cons, List.length_cons, List.range'_succ]
      exact congrArg (List.cons ticket) (ih (ticket + 1))
    | look | clear | openUp | close => exact ih ticket

/-- The number of an item tells items apart. -/
theorem nodup_scheduled (calls : List (Call α)) (ticket : Nat) :
    (scheduled ticket calls).Nodup := by
  have tickets := @List.nodup_range' ticket (scheduled ticket calls).length 1 (by decide)
  rw [← tickets_scheduled] at tickets
  exact tickets.of_map

/-- It is also the place that the item has among all that were put down. -/
theorem scheduled_at (calls : List (Call α)) {e : Due α} (member : e ∈ scheduled 0 calls) :
    (scheduled 0 calls)[e.ticket]? = some e := by
  obtain ⟨i, inside, rfl⟩ := List.mem_iff_getElem.mp member
  have number : ((scheduled 0 calls).map (·.ticket))[i]? = some i := by
    rw [tickets_scheduled, List.getElem?_range' inside]
    simp
  have own : (scheduled 0 calls)[i].ticket = i := by simpa [inside] using number
  rw [own, List.getElem?_eq_getElem inside]

/-! One call. -/

/-- All that a look at the clock can come to. -/
inductive Looked (a : Agenda α) (now : Nat) : Prop
  | waits (nothing : a.release? now = none) (same : a.call (.look now) = a)
  | handed (e : Due α) (rest : List (Due α)) (first : a.entries = e :: rest)
    (found : a.release? now = some (e.item, { a with entries := rest }))
    (taken : a.call (.look now) = { a with entries := rest })

theorem looked (a : Agenda α) (now : Nat) : a.Looked now := by
  cases found : a.release? now with
  | none => exact .waits found (by simp [call, found])
  | some out =>
    obtain ⟨item, a'⟩ := out
    obtain ⟨e, entries, rfl, _, _, rest⟩ := release_cases found
    rw [rest] at found
    exact .handed e _ entries found (by simp [call, found])

/-- The entries stand in the order of release, and new numbers are greater than theirs. -/
structure Ordered (a : Agenda α) : Prop where
  order : a.entries.Pairwise Due.Precedes
  tickets : ∀ e ∈ a.entries, e.ticket < a.issued

theorem ordered_insert (d : Due α) (entries : List (Due α)) (order : entries.Pairwise Due.Precedes)
    (newest : ∀ e ∈ entries, e.ticket < d.ticket) : (insert d entries).Pairwise Due.Precedes := by
  induction entries with
  | nil => exact List.pairwise_singleton _ _
  | cons e rest ih =>
    obtain ⟨first, later⟩ := List.pairwise_cons.mp order
    unfold insert
    split
    · next earlier =>
      refine List.pairwise_cons.mpr ⟨fun x member => .inl ?_, order⟩
      rcases List.mem_cons.mp member with rfl | behind
      · exact earlier
      · rcases first x behind with before | same <;> omega
    · next notEarlier =>
      -- The new number is the greatest, so at one time the older entry comes first.
      have behind : e.Precedes d := by
        have older := newest e (List.mem_cons_self ..)
        rcases Nat.lt_or_eq_of_le (Nat.le_of_not_lt notEarlier) with before | same
        · exact .inl before
        · exact .inr ⟨same, older⟩
      have order' := ih later fun x member => newest x (List.mem_cons_of_mem e member)
      refine List.pairwise_cons.mpr ⟨fun x member => ?_, order'⟩
      rcases List.mem_cons.mp ((perm_insert d rest).mem_iff.mp member) with rfl | old
      · exact behind
      · exact first x old

theorem Ordered.call {a : Agenda α} (ordered : a.Ordered) (c : Call α) : (a.call c).Ordered := by
  cases c with
  | schedule time item =>
    refine ⟨ordered_insert _ _ ordered.order ordered.tickets, fun e member => ?_⟩
    rcases List.mem_cons.mp ((perm_insert _ _).mem_iff.mp member) with rfl | old
    · exact Nat.lt_succ_self _
    · exact Nat.lt_succ_of_lt (ordered.tickets e old)
  | look now =>
    cases a.looked now with
    | waits _ same => exact same.symm ▸ ordered
    | handed e rest first _ taken =>
      rw [taken]
      have order := first ▸ ordered.order
      refine ⟨(List.pairwise_cons.mp order).2, fun x member => ordered.tickets x ?_⟩
      exact first ▸ List.mem_cons_of_mem e member
  | clear => exact ⟨List.Pairwise.nil, fun e member => by cases member⟩
  | openUp | close => exact ⟨ordered.order, ordered.tickets⟩

theorem scheduled_cons (a : Agenda α) (c : Call α) (rest : List (Call α)) :
    scheduled a.issued (c :: rest) =
      scheduled a.issued [c] ++ scheduled (a.call c).issued rest := by
  cases c with
  | look now => cases a.looked now with | waits _ same | handed _ _ _ _ same => rw [same]; rfl
  | schedule | clear | openUp | close => rfl

/-- What a call takes off the agenda and what it leaves there is what was there and what it adds. -/
theorem call_accounted (a : Agenda α) (c : Call α) :
    (a.released c ++ a.dropped c ++ (a.call c).entries).Perm
      (a.entries ++ scheduled a.issued [c]) := by
  cases c with
  | schedule time item => exact (perm_insert _ _).trans (List.perm_append_singleton _ _).symm
  | look now =>
    cases a.looked now with
    | waits nothing same => simp [released, dropped, scheduled, nothing, same]
    | handed e rest first found taken => simp [released, dropped, scheduled, found, taken, first]
  | clear => exact .refl _
  | openUp | close => simp [released, dropped, scheduled, call, Agenda.openUp, Agenda.close]

/-- Whoever looks at the clock is handed what is taken off the agenda. -/
theorem answer_released (a : Agenda α) (c : Call α) :
    a.answer c = (a.released c).map (·.item) := by
  cases c with
  | look now =>
    cases a.looked now with
    | waits nothing _ => simp [answer, released, nothing]
    | handed e rest first found _ => simp [answer, released, found, first]
  | schedule | clear | openUp | close => rfl

/-! Any number of calls. -/

theorem Ordered.after {a : Agenda α} (ordered : a.Ordered) (calls : List (Call α)) :
    (a.afterCalls calls).Ordered :=
  List.foldlRecOn (motive := Ordered) calls Agenda.call ordered fun _ ordered c _ => ordered.call c

theorem is_open_after (calls : List (Call α)) (a : Agenda α) :
    (a.afterCalls calls).isOpen = opened a.isOpen calls := by
  unfold opened afterCalls
  refine (List.foldl_hom isOpen fun a c => ?_).symm
  cases c with
  | look now => cases a.looked now with | waits _ same | handed _ _ _ _ same => rw [same]; rfl
  | schedule | clear | openUp | close => rfl

theorem answers_released (calls : List (Call α)) (a : Agenda α) :
    a.along answer calls = (a.along released calls).map (·.item) := by
  rw [along, along, noted_map, ← funext fun a => funext fun c => answer_released a c]

theorem calls_accounted (calls : List (Call α)) (a : Agenda α) :
    (a.along released calls ++ a.along dropped calls ++ (a.afterCalls calls).entries).Perm
      (a.entries ++ scheduled a.issued calls) := by
  induction calls generalizing a with
  | nil => simp [along, noted, afterCalls, scheduled]
  | cons c rest ih =>
    have here := (call_accounted a c).append_right (scheduled (a.call c).issued rest)
    have later := ih (a.call c)
    rw [scheduled_cons]
    simp only [along, noted, List.append_assoc] at here later ⊢
    -- What this call drops has to pass what is released later.
    refine ((List.perm_append_comm_assoc _ _ _).append_left _).trans ?_
    exact ((later.append_left _).append_left _).trans here

/-- Whoever looks at the clock goes away with nothing exactly if the agenda is closed or nothing on
it is due. -/
theorem Ordered.release_none_iff {a : Agenda α} (ordered : a.Ordered) (now : Nat) :
    a.release? now = none ↔ a.isOpen = false ∨ ∀ e ∈ a.entries, now < e.time := by
  obtain ⟨entries, issued, isOpen⟩ := a
  cases isOpen with
  | false => simp [release?]
  | true =>
    cases entries with
    | nil => simp [release?]
    | cons first rest =>
      -- No other entry is earlier than the first, so it decides for all of them.
      have order := (List.pairwise_cons.mp ordered.order).1
      constructor
      · intro nothing
        have early : now < first.time := by
          refine Nat.lt_of_not_le fun due => ?_
          simp [release?, due] at nothing
        refine .inr fun e member => ?_
        rcases List.mem_cons.mp member with rfl | behind
        · exact early
        · rcases order e behind with before | same <;> omega
      · rintro (closed | early)
        · cases closed
        · have := early first (List.mem_cons_self ..)
          simp [release?, Nat.not_le.mpr this]

/-- Whatever is done with an agenda, in any order and however the clock goes. Someone who looks at
the clock goes away with nothing exactly if the agenda is closed or nothing that is pending is due;
else it is an item that is due, and of all that are pending the first by time and then by the order
of putting down, and it alone is pending no longer. The agenda is open if it was opened and not
closed since; opening and closing leave what is pending as it is. At every moment the entries that
were released, those that were dropped and those that are pending are together those that were put
down, each of them once, and each with its place among them as its number. -/
theorem earliest_released_none_lost (calls : List (Call α)) (now : Nat) :
    let start : Agenda α := {}
    let a := start.afterCalls calls
    (a.release? now = none ↔ a.isOpen = false ∨ ∀ e ∈ a.entries, now < e.time) ∧
    (∀ item a', a.release? now = some (item, a') → ∃ e, e.item = item ∧ e.time ≤ now ∧
      a.entries = e :: a'.entries ∧ ∀ other ∈ a'.entries, e.Precedes other) ∧
    a.isOpen = opened false calls ∧
    a.openUp.entries = a.entries ∧ a.close.entries = a.entries ∧
    start.along answer calls = (start.along released calls).map (·.item) ∧
    (start.along released calls ++ start.along dropped calls ++ a.entries).Perm
      (scheduled 0 calls) ∧
    (start.along released calls ++ start.along dropped calls ++ a.entries).Nodup ∧
    ∀ e ∈ a.entries, (scheduled 0 calls)[e.ticket]? = some e := by
  intro start a
  have ordered : a.Ordered :=
    Ordered.after ⟨List.Pairwise.nil, fun e member => by cases member⟩ calls
  have accounted := calls_accounted calls start
  refine ⟨ordered.release_none_iff now, ?_, is_open_after calls start, rfl, rfl,
    answers_released calls start, accounted, ?_, ?_⟩
  · intro item a' found
    obtain ⟨e, entries, same, due, _⟩ := release_cases found
    have order := entries ▸ ordered.order
    exact ⟨e, same, due, entries, (List.pairwise_cons.mp order).1⟩
  · exact accounted.nodup_iff.mpr (nodup_scheduled calls 0)
  · intro e pending
    exact scheduled_at calls (accounted.subset (List.mem_append_right _ pending))

example : ({} : Agenda String).along answer
    [.schedule 5 "tea", .schedule 3 "eggs", .look 9, .openUp, .schedule 5 "toast", .look 2, .look 5,
      .close, .openUp, .look 5, .schedule 4 "milk", .look 6, .clear, .look 9] =
    ["eggs", "tea", "milk"] := by decide

end Agenda
end Statechart
