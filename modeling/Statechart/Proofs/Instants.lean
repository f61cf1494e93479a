import Mathlib.Algebra.Group.Nat.Defs
import Statechart.Proofs.Calendar
import Statechart.Timestamp.Format
/-!
Instants as text. What is written for an instant is read back as that instant: every number stands
there with as many digits as are read, and what follows it is no digit. There is one exception. A
leap second is written as second 60 of its minute, but one that does not come at the end of a minute
has no such place; it is written, and read, as the second that follows.
-/

namespace Statechart.Timestamp
open Statechart.Text

/-! Numbers of a fixed width. -/

theorem is_blank_of_digit {c : Char} (digit : c.isDigit = true) : isBlank c = false := by
  simp only [Char.isDigit, Bool.and_eq_true, decide_eq_true_eq] at digit
  have least : 48 ≤ c.toNat := digit.1
  have most : c.toNat ≤ 57 := digit.2
  simp [isBlank, blankRuns]
  omega

theorem skip_blanks_cons {c : Char} (visible : isBlank c = false) (rest : List Char) :
    skipBlanks (c :: rest) = c :: rest := by
  rw [skipBlanks, List.dropWhile_cons_of_neg (by simp [visible])]

section Padded
variable {width n : Nat}

theorem padded_digits {c : Char} (member : c ∈ padded width n) : c.isDigit = true := by
  rcases List.mem_append.mp member with zero | digit
  · rw [List.eq_of_mem_replicate zero]
    rfl
  · exact Nat.isDigit_of_mem_toDigits (by decide) (by decide) digit

theorem padded_cons : ∃ c tail, padded width n = c :: tail ∧ c.isDigit = true := by
  cases shape : padded width n with
  | nil => exact absurd (List.append_eq_nil_iff.mp shape).2 Nat.toDigits_ne_nil
  | cons c tail => exact ⟨c, tail, rfl, padded_digits (shape ▸ List.mem_cons_self ..)⟩

theorem padded_value : Nat.ofDigitChars 10 (padded width n) 0 = n := by
  rw [padded, Nat.ofDigitChars_append, Nat.ofDigitChars_replicate_zero, Nat.mul_zero,
    Nat.ofDigitChars_ten_toDigits]

theorem length_padded (positive : 0 < width) (fits : n < 10 ^ width) :
    (padded width n).length = width := by
  have short := (Nat.length_toDigits_le_iff (by decide) positive).mpr fits
  simp only [padded, List.length_append, List.length_replicate]
  omega

theorem skip_padded (rest : List Char) :
    skipBlanks (padded width n ++ rest) = padded width n ++ rest := by
  obtain ⟨c, tail, shape, digit⟩ := @padded_cons width n
  rw [shape, List.cons_append, skip_blanks_cons (is_blank_of_digit digit)]

theorem take_padded {most : Nat} (room : (padded width n).length ≤ most) {rest : List Char}
    (halts : (rest.take (most - (padded width n).length)).takeWhile Char.isDigit = []) :
    ((padded width n ++ rest).take most).takeWhile Char.isDigit = padded width n := by
  rw [List.take_append, List.take_of_length_le room,
    List.takeWhile_append_of_pos fun c => padded_digits, halts, List.append_nil]

/-- A number is read back if as many digits are read as it has, or if no digit follows. -/
theorem read_digits_padded {most : Nat} (room : (padded width n).length ≤ most) {rest : List Char}
    (halts : (rest.take (most - (padded width n).length)).takeWhile Char.isDigit = []) :
    readDigits most (padded width n ++ rest) = some (n, rest) := by
  unfold readDigits
  rw [take_padded room halts]
  split
  · next empty =>
    obtain ⟨c, tail, shape, _⟩ := @padded_cons width n
    rw [shape] at empty
    cases empty
  · rw [padded_value, List.drop_left]

theorem read_part_padded {least most : Nat} (above : least ≤ n) (below : n ≤ most)
    (small : n < 100) (rest : List Char) :
    readPart least most (padded 2 n ++ rest) = some (n, rest) := by
  have length : (padded 2 n).length = 2 := length_padded (by decide) small
  have read : readDigits 2 (padded 2 n ++ rest) = some (n, rest) :=
    read_digits_padded (Nat.le_of_eq length) (by simp [length])
  simp [readPart, skip_padded, read, above, below]

end Padded

theorem read_year_text (year : Int) (rest : List Char) :
    readYear (yearText year ++ '-' :: rest) = some (year, '-' :: rest) := by
  unfold yearText
  by_cases plain : 0 ≤ year ∧ year ≤ 9999
  · have length : (padded 4 year.toNat).length = 4 := length_padded (by decide) (by omega)
    have read : readDigits 4 (padded 4 year.toNat ++ '-' :: rest) =
        some (year.toNat, '-' :: rest) :=
      read_digits_padded (Nat.le_of_eq length) (by simp [length])
    rw [if_pos plain, readYear, skip_padded]
    obtain ⟨c, tail, shape, digit⟩ := @padded_cons 4 year.toNat
    rw [shape, List.cons_append] at read ⊢
    -- No sign can be read, as the first character is a digit.
    split
    · next same =>
      obtain ⟨rfl, _⟩ := List.cons.inj same
      cases digit
    · next same =>
      obtain ⟨rfl, _⟩ := List.cons.inj same
      cases digit
    · simp only [read, Option.map_some, Int.toNat_of_nonneg plain.1]
  · -- With a sign all digits are read that there are.
    have read : readDigits (padded 4 year.natAbs ++ '-' :: rest).length
        (padded 4 year.natAbs ++ '-' :: rest) = some (year.natAbs, '-' :: rest) :=
      read_digits_padded (by simp) (by simp)
    rw [if_neg plain]
    by_cases negative : year < 0
    · rw [if_pos negative, List.cons_append, readYear, skip_blanks_cons (by decide)]
      simp only [read, Option.map_some]
      congr 2
      omega
    · rw [if_neg negative, List.cons_append, readYear, skip_blanks_cons (by decide)]
      simp only [read, Option.map_some]
      congr 2
      omega

/-- Three, six or nine digits of a fraction give back what was divided off. -/
theorem read_fraction_padded {width n : Nat} (positive : 0 < width) (most : width ≤ 9)
    (fits : n < 10 ^ width) :
    readFraction ('.' :: padded width n ++ ['Z']) = some (n * 10 ^ (9 - width), ['Z']) := by
  have length := length_padded positive fits
  have taken : ((padded width n ++ ['Z']).take 9).takeWhile Char.isDigit = padded width n := by
    refine take_padded (length.symm ▸ most) ?_
    rw [length]
    cases 9 - width <;> rfl
  rw [List.cons_append, readFraction, taken]
  split
  · next empty =>
    rw [empty] at length
    simp at length
    omega
  · rw [padded_value, List.drop_left, length]
    rfl

theorem read_fraction_text {nanos : Nat} (small : nanos < nanosPerSecond) :
    readFraction (fractionText nanos ++ ['Z']) = some (nanos, ['Z']) := by
  rw [nanosPerSecond] at small
  unfold fractionText
  split
  · next empty =>
    subst empty
    rfl
  · split
    · next whole =>
      rw [read_fraction_padded (by decide) (by decide) (by omega)]
      congr 2
      omega
    · split
      · next whole =>
        rw [read_fraction_padded (by decide) (by decide) (by omega)]
        congr 2
        omega
      · rw [read_fraction_padded (by decide) (by decide) (by omega)]
        congr 2
        omega

theorem bind_found {α β : Type} {x : Option α} {a : α} {f : α → Option β} (found : x = some a) :
    (x >>= f) = f a := by
  rw [found]
  rfl

/-- The text of a date and a time of day is read part by part. -/
theorem read_parts {year : Int} {month day hour minute second nanos : Nat}
    (months : 1 ≤ month ∧ month ≤ 12) (days : 1 ≤ day ∧ day ≤ 31) (hours : hour ≤ 23)
    (minutes : minute ≤ 59) (seconds : second ≤ 60) (small : nanos < nanosPerSecond) :
    read (yearText year ++ '-' :: padded 2 month ++ '-' :: padded 2 day ++ 'T' :: padded 2 hour ++
      ':' :: padded 2 minute ++ ':' :: padded 2 second ++ fractionText nanos ++ ['Z']) =
      let date : Date := { year, month, day }
      let t : Timestamp := {
        seconds := date.toDays * secondsPerDay +
          (hour * 3600 + minute * 60 + min second 59 : Nat)
        nanos := nanos + if second = 60 then nanosPerSecond else 0 }
      if date.isReal && t.inRange then some t else none := by
  have next {c : Char} (visible : isBlank c = false) (rest : List Char) :
      readChar c (skipBlanks (c :: rest)) = some rest := by
    rw [skip_blanks_cons visible, readChar, if_pos rfl]
  simp only [List.append_assoc, List.cons_append]
  rw [read]
  refine (bind_found (read_year_text year _)).trans ?_
  refine (bind_found (next (by decide) _)).trans ?_
  refine (bind_found (read_part_padded months.1 months.2 (by omega) _)).trans ?_
  refine (bind_found (next (by decide) _)).trans ?_
  refine (bind_found (read_part_padded days.1 days.2 (by omega) _)).trans ?_
  refine (bind_found (a := padded 2 hour ++ _) rfl).trans ?_
  refine (bind_found (read_part_padded (Nat.zero_le hour) hours (by omega) _)).trans ?_
  refine (bind_found (next (by decide) _)).trans ?_
  refine (bind_found (read_part_padded (Nat.zero_le minute) minutes (by omega) _)).trans ?_
  refine (bind_found (next (by decide) _)).trans ?_
  refine (bind_found (read_part_padded (Nat.zero_le second) seconds (by omega) _)).trans ?_
  refine (bind_found (read_fraction_text small)).trans ?_
  refine (bind_found (a := ((0 : Int), [])) rfl).trans ?_
  have nothing : ¬ skipBlanks [] ≠ [] := by decide
  simp only [if_neg nothing, Int.sub_zero]

/-- An instant within the years that are kept, with its nanoseconds in one second or in the leap
second after it. -/
structure IsHeld (t : Timestamp) : Prop where
  inRange : t.inRange = true
  small : t.nanos < 2 * nanosPerSecond

/-- A leap second comes at the end of a minute. -/
structure IsInstant (t : Timestamp) : Prop extends t.IsHeld where
  leap : t.isLeap = true → t.seconds % 60 = 59

/-- A leap second that does not end a minute is the second that follows. -/
def settled (t : Timestamp) : Timestamp :=
  if t.isLeap ∧ t.seconds % 60 ≠ 59 then ⟨t.seconds + 1, t.nanos - nanosPerSecond⟩ else t

theorem in_range_iff {t : Timestamp} : t.inRange = true ↔
    Date.toDays ⟨Date.firstYear, 1, 1⟩ ≤ t.seconds / secondsPerDay ∧
      t.seconds / secondsPerDay ≤ Date.toDays ⟨Date.lastYear, 12, 31⟩ := by
  simp [inRange]

theorem seconds_split (t : Timestamp) : t.secondOfDay < 86400 ∧
    t.seconds = t.seconds / secondsPerDay * secondsPerDay + t.secondOfDay := by
  unfold secondOfDay secondsPerDay
  omega

theorem IsInstant.settled {t : Timestamp} (instant : t.IsInstant) : t.settled = t := by
  refine if_neg fun moved => ?_
  exact moved.2 (instant.leap moved.1)

/-- Settling moves an instant within its minute. -/
theorem IsHeld.settled {t : Timestamp} (held : t.IsHeld) : t.settled.IsInstant := by
  have small := held.small
  unfold Timestamp.settled
  split
  · next moved =>
    have same : (t.seconds + 1) / secondsPerDay = t.seconds / secondsPerDay := by
      have inside := moved.2
      rw [secondsPerDay]
      omega
    refine ⟨⟨?_, by simp only; omega⟩, fun leap => ?_⟩
    · rw [in_range_iff, same, ← in_range_iff]
      exact held.inRange
    · have late : nanosPerSecond ≤ t.nanos - nanosPerSecond := of_decide_eq_true leap
      omega
  · next still =>
    exact ⟨held, fun leap => Decidable.byContradiction fun inside => still ⟨leap, inside⟩⟩

/-- Nobody can tell from the text whether an instant is settled. -/
theorem IsHeld.write_settled {t : Timestamp} (held : t.IsHeld) : t.settled.write = t.write := by
  have small := held.small
  unfold Timestamp.settled
  split
  · next moved =>
    obtain ⟨leap, inside⟩ := moved
    have late : nanosPerSecond ≤ t.nanos := of_decide_eq_true leap
    have day : (t.seconds + 1) / secondsPerDay = t.seconds / secondsPerDay := by
      rw [secondsPerDay]
      omega
    have next : secondOfDay ⟨t.seconds + 1, t.nanos - nanosPerSecond⟩ = t.secondOfDay + 1 := by
      simp only [secondOfDay, secondsPerDay]
      omega
    -- The next second is in the same minute, so only the seconds are written another way.
    have inside' : t.secondOfDay % 60 ≠ 59 := by
      rw [secondOfDay, secondsPerDay]
      omega
    have regular : isLeap ⟨t.seconds + 1, t.nanos - nanosPerSecond⟩ = false :=
      decide_eq_false (show ¬ nanosPerSecond ≤ t.nanos - nanosPerSecond by omega)
    have fraction : (t.nanos - nanosPerSecond) % nanosPerSecond = t.nanos % nanosPerSecond :=
      (Nat.mod_eq_sub_mod late).symm
    have hour : (t.secondOfDay + 1) / 3600 = t.secondOfDay / 3600 := by omega
    have minute : (t.secondOfDay + 1) / 60 = t.secondOfDay / 60 := by omega
    have second : (t.secondOfDay + 1) % 60 = t.secondOfDay % 60 + 1 := by omega
    simp only [write, date, day, next, leap, regular, fraction, hour, minute, second, if_true,
      Bool.false_eq_true, if_false, Nat.add_zero]
  · rfl

/-- Minutes and seconds, and the nanoseconds in the second, make up the instant again. -/
theorem IsInstant.joined {t : Timestamp} (instant : t.IsInstant) {second : Nat}
    (written : t.secondOfDay % 60 + (if t.isLeap then 1 else 0) = second) :
    (⟨t.seconds / secondsPerDay * secondsPerDay +
        (t.secondOfDay / 3600 * 3600 + t.secondOfDay / 60 % 60 * 60 + min second 59 : Nat),
      t.nanos % nanosPerSecond + if second = 60 then nanosPerSecond else 0⟩ : Timestamp) = t := by
  obtain ⟨_, parts⟩ := t.seconds_split
  have small := instant.small
  have minute : t.secondOfDay % 60 = t.seconds % 60 := by
    rw [secondsPerDay] at parts
    omega
  refine (mk.injEq _ _ t.seconds t.nanos).mpr ?_
  by_cases leap : t.isLeap = true
  · have late : nanosPerSecond ≤ t.nanos := of_decide_eq_true leap
    -- A leap second is written as the sixtieth: it only comes behind the last one of a minute.
    have last := instant.leap leap
    rw [if_pos leap] at written
    have sixtieth : second = 60 := by omega
    rw [if_pos sixtieth]
    rw [secondsPerDay, nanosPerSecond] at *
    omega
  · have early : ¬ nanosPerSecond ≤ t.nanos := fun late => leap (decide_eq_true late)
    rw [if_neg leap] at written
    have before : second ≠ 60 := by omega
    rw [if_neg before]
    rw [secondsPerDay, nanosPerSecond] at *
    omega

/-- What is written for an instant is read as this instant. -/
theorem IsInstant.read_write {t : Timestamp} (instant : t.IsInstant) : read t.write = some t := by
  obtain ⟨least, most⟩ := in_range_iff.mp instant.inRange
  obtain ⟨early, _⟩ := t.seconds_split
  have once : (if t.isLeap then 1 else 0) ≤ 1 := by split <;> omega
  have written := @read_parts t.date.year t.date.month t.date.day (t.secondOfDay / 3600)
    (t.secondOfDay / 60 % 60) (t.secondOfDay % 60 + if t.isLeap then 1 else 0)
    (t.nanos % nanosPerSecond) (Date.month_of_days _) (Date.day_of_days _) (by omega) (by omega)
    (by omega)
    (Nat.mod_lt _ (by decide))
  have real : t.date.isReal = true := Date.is_real_of_days least most
  have number : t.date.toDays = t.seconds / secondsPerDay := Date.to_days_of_days _
  simp only [number, instant.joined rfl, real, instant.inRange] at written
  exact written

end Statechart.Timestamp
