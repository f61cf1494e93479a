import Statechart.Json.Record
/-!
Reading what was written. A reader recovers a value from the JSON written for it if it gives the
value back and stops right behind it, whatever separates it from what follows. Strings, numbers and
names are recovered, and so are arrays whose items are and records whose fields are, one after the
other.
-/

namespace Statechart.Json

/-- What may stand behind a written value: the end of the text, or what sets values apart. -/
def Closes (rest : List Char) : Prop := ∀ c ∈ rest.head?, c = ',' ∨ c = ']' ∨ c = '}'

/-- A character with which a value may begin. -/
structure Opens (c : Char) : Prop where
  visible : isSpace c = false
  unclosed : c ≠ ']'

theorem Closes.nil : Closes [] := fun _ member => by cases member

theorem closes_cons {c : Char} (closes : c = ',' ∨ c = ']' ∨ c = '}') (rest : List Char) :
    Closes (c :: rest) := by
  intro d first
  cases first
  exact closes

theorem skip_space_cons {c : Char} (visible : isSpace c = false) (rest : List Char) :
    skipSpace (c :: rest) = c :: rest := by
  simp [skipSpace, visible]

/-! Strings. -/

theorem hex_value_digit (n : Nat) (small : n < 16) : hexValue? (hexDigit n) = some n := by
  revert n
  decide

theorem has_four_bytes (a b c d : Char) (rest : List Char) :
    hasFourBytes (a :: b :: c :: d :: rest) = true := by
  have := a.utf8Size_pos
  have := b.utf8Size_pos
  have := c.utf8Size_pos
  have := d.utf8Size_pos
  simp [hasFourBytes]
  omega

theorem complete_hex_control (c : Char) (control : c.toNat < 0x20) :
    completeHex c.toNat none = .char c := by
  have trailing : isTrailing c.toNat = false := by
    simp only [isTrailing, Bool.and_eq_false_imp, decide_eq_true_eq]
    omega
  have leading : isLeading c.toNat = false := by
    simp only [isLeading, Bool.and_eq_false_imp, decide_eq_true_eq]
    omega
  simp [completeHex, trailing, leading]

/-- A short escape stands for the character that it means. -/
theorem read_short {c d : Char} {rest after s : List Char} (other : d ≠ 'u')
    (short : unescape? d = some c) (read : readText .plain rest = .ok (s, after)) :
    readText .plain ('\\' :: d :: rest) = .ok (c :: s, after) := by
  simp [readText, other, short, read]

theorem read_escape (c : Char) {rest after s : List Char}
    (read : readText .plain rest = .ok (s, after)) :
    readText .plain (escape c ++ rest) = .ok (c :: s, after) := by
  have named {n : Nat} (here : c.toNat = n) : c = Char.ofNat n := by
    rw [← here, Char.ofNat_toNat]
  unfold escape
  split
  · next quote =>
    subst quote
    exact read_short (by decide) rfl read
  split
  · next slash =>
    subst slash
    exact read_short (by decide) rfl read
  next quote slash =>
  split
  · next visible =>
    have plain : ¬ c.toNat < 0x20 := by omega
    simp [readText, quote, slash, plain, read]
  split
  · next here => exact read_short (by decide) (named here ▸ rfl) read
  split
  · next here => exact read_short (by decide) (named here ▸ rfl) read
  split
  · next here => exact read_short (by decide) (named here ▸ rfl) read
  split
  · next here => exact read_short (by decide) (named here ▸ rfl) read
  split
  · next here => exact read_short (by decide) (named here ▸ rfl) read
  · -- All other control characters are written with four hexadecimal digits.
    have high := hex_value_digit (c.toNat / 16) (by omega)
    have low := hex_value_digit (c.toNat % 16) (by omega)
    have whole : c.toNat / 16 * 16 + c.toNat % 16 = c.toNat := by omega
    have zero : hexValue? '0' = some 0 := by decide
    simp [readText, has_four_bytes, zero, high, low, whole,
      complete_hex_control c (by omega), read]

theorem read_text_written (s rest : List Char) :
    readText .plain (s.flatMap escape ++ '"' :: rest) = .ok (s, rest) := by
  induction s with
  | nil => simp [readText]
  | cons c s ih =>
    rw [List.flatMap_cons, List.append_assoc]
    exact read_escape c ih

/-! Numbers. -/

theorem is_digit_of_digits {n : Nat} {c : Char} (member : c ∈ Nat.toDigits 10 n) :
    c.isDigit = true :=
  Nat.isDigit_of_mem_toDigits (by decide) (by decide) member

theorem Closes.no_digit {rest : List Char} (closes : Closes rest) :
    rest.takeWhile Char.isDigit = [] ∧ rest.dropWhile Char.isDigit = rest := by
  cases rest with
  | nil => exact ⟨rfl, rfl⟩
  | cons c rest => rcases closes c rfl with rfl | rfl | rfl <;> exact ⟨rfl, rfl⟩

/-- Only zero is written with a zero in front. -/
theorem digits_of_zero_head {n : Nat} {tail : List Char}
    (digits : Nat.toDigits 10 n = '0' :: tail) : n = 0 ∧ tail = [] := by
  induction n using Nat.strongRecOn generalizing tail with
  | ind n ih =>
    rw [Nat.toDigits_eq_if (by decide)] at digits
    split at digits
    · next small =>
      obtain ⟨head, rfl⟩ := List.cons.inj digits
      have : ∀ n < 10, n.digitChar = '0' → n = 0 := by decide
      exact ⟨this n small head, rfl⟩
    · next large =>
      -- The leading digits are those of a tenth of the number, which is not zero.
      cases front : Nat.toDigits 10 (n / 10) with
      | nil => exact absurd front Nat.toDigits_ne_nil
      | cons c more =>
        rw [front] at digits
        obtain ⟨rfl, _⟩ := List.cons.inj digits
        have := (ih (n / 10) (by omega) front).1
        omega

theorem scan_whole_digits (n : Nat) {rest : List Char} (closes : Closes rest) :
    scanWhole (Nat.toDigits 10 n ++ rest) = .ok (Nat.toDigits 10 n, rest) := by
  have taken : (Nat.toDigits 10 n ++ rest).takeWhile Char.isDigit = Nat.toDigits 10 n := by
    rw [List.takeWhile_append_of_pos fun c => is_digit_of_digits, closes.no_digit.1,
      List.append_nil]
  have remaining : (Nat.toDigits 10 n ++ rest).dropWhile Char.isDigit = rest := by
    rw [List.dropWhile_append_of_pos fun c => is_digit_of_digits, closes.no_digit.2]
  have scanned : scanDigits (Nat.toDigits 10 n ++ rest) = .ok (Nat.toDigits 10 n, rest) := by
    unfold scanDigits
    split
    · next nothing => exact absurd (taken.symm.trans nothing) Nat.toDigits_ne_nil
    · rw [taken, remaining]
  unfold scanWhole
  split
  · next d tail rest' zero =>
    rw [scanned] at zero
    have := (digits_of_zero_head (congrArg Prod.fst (Except.ok.inj zero))).2
    cases this
  · exact scanned

theorem scan_fraction_closes (parts : NumberParts) {rest : List Char} (closes : Closes rest) :
    scanFraction parts rest = .ok (parts, rest) := by
  cases rest with
  | nil => rfl
  | cons c rest => rcases closes c rfl with rfl | rfl | rfl <;> rfl

theorem scan_number_written (n : Int) {rest : List Char} (closes : Closes rest) :
    scanNumber (writeInteger n ++ rest) =
      .ok ({ negative := decide (n < 0), whole := Nat.toDigits 10 n.natAbs }, rest) := by
  unfold writeInteger
  split
  · next below =>
    simp [scanNumber, scan_whole_digits _ closes, scan_fraction_closes _ closes, below]
  · next above =>
    -- No digit is taken for a sign.
    cases digits : Nat.toDigits 10 n.natAbs with
    | nil => exact absurd digits Nat.toDigits_ne_nil
    | cons c more =>
      have unsigned : c ≠ '-' := by
        rintro rfl
        have := is_digit_of_digits (digits ▸ List.mem_cons_self ..)
        cases this
      have whole := scan_whole_digits n.natAbs closes
      rw [digits] at whole
      rw [List.cons_append] at whole ⊢
      unfold scanNumber
      split
      next divided =>
        split at divided
        · next sign => exact absurd (List.cons.inj sign).1 unsigned
        · cases divided
          simp only [whole, scan_fraction_closes _ closes, above, decide_false]

theorem read_number_written (n : Int) {rest : List Char} (closes : Closes rest)
    (least : Int64.minValue.toInt ≤ n) (most : n < UInt64.size) :
    readNumber (writeInteger n ++ rest) = .ok (.integer n, rest) := by
  have value : digitsValue (Nat.toDigits 10 n.natAbs) = n.natAbs := Nat.ofDigitChars_ten_toDigits
  have kept : NumberParts.integer?
      { negative := decide (n < 0), whole := Nat.toDigits 10 n.natAbs } = some n := by
    by_cases below : n < 0
    · have back : -(n.natAbs : Int) = n := by omega
      have positive : 0 < n.natAbs := by omega
      simp only [NumberParts.integer?, value, below, back, positive, least, decide_true, and_self,
        Bool.false_eq_true, if_false, if_true]
    · have back : (n.natAbs : Int) = n := by omega
      have fits : n.natAbs < UInt64.size := by omega
      simp [NumberParts.integer?, value, below, back, fits]
  simp only [readNumber, scan_number_written n closes, kept]

/-! Values. -/

/-- The reader gives a value back from the JSON written for it, whatever follows. -/
structure Recovers {α : Type} (p : Reader α) (j : Json) (a : α) : Prop where
  opens : ∃ c tail, j.write = c :: tail ∧ Opens c
  reads : ∀ rest, Closes rest → p (j.write ++ rest) = .ok (a, rest)

theorem Recovers.map {α β : Type} {p : Reader α} {j : Json} {a : α} (recovers : Recovers p j a)
    (f : α → β) : Recovers (p.map f) j (f a) where
  opens := recovers.opens
  reads rest closes := by rw [Reader.map, recovers.reads rest closes]

theorem Recovers.filterMap {α β : Type} {p : Reader α} {j : Json} {a : α} {f : α → Option β}
    {b : β} (recovers : Recovers p j a) (fits : f a = some b) : Recovers (p.filterMap f) j b where
  opens := recovers.opens
  reads rest closes := by
    simp only [Reader.filterMap, recovers.reads rest closes, fits]

/-- A value that may be missing is recovered if it does not begin as `null` does. -/
theorem Recovers.optional {α : Type} {p : Reader α} {j : Json} {a : α} (recovers : Recovers p j a)
    {c : Char} {tail : List Char} (written : j.write = c :: tail) (visible : isSpace c = false)
    (other : c ≠ 'n') : Recovers p.optional j (some a) where
  opens := recovers.opens
  reads rest closes := by
    have read := recovers.reads rest closes
    rw [written, List.cons_append] at read ⊢
    rw [Reader.optional, skip_space_cons visible]
    simp [other, Reader.map, read]

theorem recovers_null {α : Type} (p : Reader α) : Recovers p.optional .null none where
  opens := ⟨'n', _, rfl, rfl, by decide⟩
  reads rest _ := by
    rw [write, List.cons_append, Reader.optional, skip_space_cons (by decide)]
    rfl

theorem write_text_append (s : String) (rest : List Char) :
    (Json.text s).write ++ rest = '"' :: (s.toList.flatMap escape ++ '"' :: rest) := by
  simp [write, writeText]

theorem opens_text (s : String) : ∃ c tail, (Json.text s).write = c :: tail ∧ Opens c :=
  ⟨'"', _, rfl, rfl, by decide⟩

theorem recovers_text (s : String) : Recovers Reader.text (.text s) s where
  opens := opens_text s
  reads rest _ := by
    rw [write_text_append, Reader.text, skip_space_cons (by decide)]
    simp [read_text_written]

theorem recovers_optional_text (s : String) :
    Recovers (Reader.optional Reader.text) (.text s) (some s) :=
  (recovers_text s).optional rfl rfl (by decide)

/-- A name stands for what it is listed with. -/
theorem recovers_one_of {α : Type} {names : List (String × α)} {name : String} {a : α}
    (listed : names.lookup name = some a) : Recovers (Reader.oneOf names) (.text name) a where
  opens := opens_text name
  reads rest closes := by
    have read := (recovers_text name).reads rest closes
    rw [write_text_append] at read ⊢
    rw [Reader.oneOf, skip_space_cons (by decide)]
    simp [Reader.filterMap, read, listed]

theorem write_integer_head (n : Int) :
    ∃ c tail, writeInteger n = c :: tail ∧ (c = '-' ∨ c.isDigit = true) := by
  unfold writeInteger
  split
  · exact ⟨_, _, rfl, .inl rfl⟩
  · cases digits : Nat.toDigits 10 n.natAbs with
    | nil => exact absurd digits Nat.toDigits_ne_nil
    | cons c tail =>
      exact ⟨c, tail, rfl, .inr (is_digit_of_digits (digits ▸ List.mem_cons_self ..))⟩

theorem opens_number {c : Char} (head : c = '-' ∨ c.isDigit = true) : Opens c := by
  rcases head with rfl | digit
  · exact ⟨rfl, by decide⟩
  · constructor
    · refine Bool.eq_false_iff.mpr fun blank => ?_
      simp only [isSpace, Bool.or_eq_true, beq_iff_eq] at blank
      rcases blank with ((rfl | rfl) | rfl) | rfl <;> cases digit
    · rintro rfl
      cases digit

/-- The bounds of a reader lie within what 64 bits hold, with or without a sign. -/
theorem recovers_integer {least most n : Int} (above : least ≤ n) (below : n ≤ most)
    (low : Int64.minValue.toInt ≤ least) (high : most < UInt64.size) :
    Recovers (Reader.integer least most) (.integer n) n := by
  obtain ⟨c, tail, written, head⟩ := write_integer_head n
  refine ⟨⟨c, tail, (by rw [write]; exact written), opens_number head⟩, fun rest closes => ?_⟩
  have read := read_number_written n closes (by omega) (by omega)
  rw [write]
  rw [written, List.cons_append] at read ⊢
  rw [Reader.integer, skip_space_cons (opens_number head).visible]
  simp [head, read, above, below]

theorem recovers_int64 (v : Int64) : Recovers Reader.int64 (.integer v.toInt) v := by
  have recovers := (recovers_integer (n := v.toInt) v.minValue_le_toInt v.toInt_le (by decide)
    (by decide)).map Int64.ofInt
  rwa [Int64.ofInt_toInt] at recovers

theorem recovers_uint64 (v : UInt64) : Recovers Reader.uint64 (.natural v.toNat) v := by
  have small : v.toNat < UInt64.size := v.toNat_lt_size
  have counted : Recovers (Reader.integer 0 (UInt64.size - 1 : Nat)) (.integer v.toNat) v.toNat :=
    recovers_integer (by omega) (by omega) (by decide) (by decide)
  have recovers := counted.map fun n => UInt64.ofNat n.toNat
  rwa [Int.toNat_natCast, UInt64.ofNat_toNat] at recovers

/-! Arrays and objects. -/

/-- Texts with a comma before each, but none before the first of all. -/
def joined : (first : Bool) → List (List Char) → List Char
  | _, [] => []
  | true, t :: rest => t ++ joined false rest
  | false, t :: rest => ',' :: (t ++ joined false rest)

theorem write_items_joined (items : List Json) :
    writeItems items = joined true (items.map write) := by
  induction items with
  | nil => simp [writeItems, joined]
  | cons j rest ih =>
    cases rest with
    | nil => simp [writeItems, joined]
    | cons k more => simp [writeItems, joined, ih]

/-- A member of an object, its name and its value. -/
def writeMember (m : String × Json) : List Char := writeText m.1.toList ++ ':' :: m.2.write

theorem write_members_joined (members : List (String × Json)) :
    writeMembers members = joined true (members.map writeMember) := by
  induction members with
  | nil => simp [writeMembers, joined]
  | cons m rest ih =>
    cases rest with
    | nil => simp [writeMembers, joined, writeMember]
    | cons k more => simp [writeMembers, joined, writeMember, ih]

theorem length_joined_le (first : Bool) (texts : List (List Char))
    (nonempty : ∀ t ∈ texts, t ≠ []) :
    texts.length ≤ (joined first texts).length := by
  induction texts generalizing first with
  | nil => exact Nat.zero_le _
  | cons t rest ih =>
    have here := List.length_pos_iff.mpr (nonempty t (List.mem_cons_self ..))
    have later := ih false fun u member => nonempty u (List.mem_cons_of_mem t member)
    cases first <;> simp only [joined, List.length_cons, List.length_append] <;> omega

theorem closes_joined {close : Char} (closing : close = ']' ∨ close = '}')
    (texts : List (List Char)) (rest : List Char) :
    Closes (joined false texts ++ close :: rest) := by
  cases texts with
  | nil => exact closes_cons (.inr closing) rest
  | cons t more => exact closes_cons (.inl rfl) _

/-- What follows in the text of an array or object, from the comma on if there is one. -/
def onward (first : Bool) (text : List Char) : List Char := if first then text else ',' :: text

theorem joined_cons (first : Bool) (t : List Char) (texts : List (List Char)) (rest : List Char) :
    joined first (t :: texts) ++ rest = onward first (t ++ (joined false texts ++ rest)) := by
  cases first <;> simp [joined, onward]

theorem next_item (first : Bool) {c : Char} (head : Opens c) (rest : List Char) :
    Reader.nextItem first (onward first (c :: rest)) = .ok (some (c :: rest)) := by
  have item := skip_space_cons head.visible rest
  have comma := skip_space_cons (c := ',') rfl (c :: rest)
  have other : ¬ c = ']' := head.unclosed
  cases first <;> simp [Reader.nextItem, onward, item, comma, other]

section Arrays
variable {α : Type} {p : Reader α} {toJson : α → Json}

theorem read_items (xs : List α) (each : ∀ x ∈ xs, Recovers p (toJson x) x) (rest : List Char)
    (bound : Nat) (room : xs.length < bound) (first : Bool) :
    Reader.items p bound first (joined first (xs.map fun x => (toJson x).write) ++ ']' :: rest) =
      .ok (xs, ']' :: rest) := by
  induction xs generalizing bound first with
  | nil =>
    obtain ⟨bound, rfl⟩ := Nat.exists_eq_succ_of_ne_zero (Nat.ne_of_gt room)
    cases first <;> rfl
  | cons x xs ih =>
    obtain ⟨bound, rfl⟩ := Nat.exists_eq_succ_of_ne_zero (Nat.ne_of_gt (Nat.zero_lt_of_lt room))
    have here := each x (List.mem_cons_self ..)
    obtain ⟨c, tail, written, head⟩ := here.opens
    have item := here.reads _
      (closes_joined (.inl rfl) (xs.map fun x => (toJson x).write) rest)
    have later := ih (fun y member => each y (List.mem_cons_of_mem x member)) bound
      (Nat.lt_of_succ_lt_succ room) false
    rw [List.map_cons, joined_cons]
    rw [written, List.cons_append] at item ⊢
    simp only [Reader.items, next_item first head, item, later]

theorem read_array_body (xs : List α) (each : ∀ x ∈ xs, Recovers p (toJson x) x)
    (rest : List Char) :
    Reader.arrayBody p (joined true (xs.map fun x => (toJson x).write) ++ ']' :: rest) =
      .ok (xs, rest) := by
  have nonempty (t : List Char) (member : t ∈ xs.map fun x => (toJson x).write) : t ≠ [] := by
    obtain ⟨x, listed, rfl⟩ := List.mem_map.mp member
    obtain ⟨c, tail, written, _⟩ := (each x listed).opens
    simp [written]
  have room := length_joined_le true _ nonempty
  have read := read_items xs each rest
    ((joined true (xs.map fun x => (toJson x).write) ++ ']' :: rest).length + 1)
    (by simp only [List.length_map, List.length_append, List.length_cons] at room ⊢; omega) true
  rw [Reader.arrayBody, read]
  rfl

theorem recovers_list (xs : List α) (each : ∀ x ∈ xs, Recovers p (toJson x) x) :
    Recovers (Reader.list p) (.array (xs.map toJson)) xs where
  opens := ⟨'[', _, (by rw [write]), rfl, by decide⟩
  reads rest _ := by
    rw [write, write_items_joined, List.map_map, List.cons_append, List.append_assoc,
      Reader.list, skip_space_cons (by decide)]
    exact read_array_body xs each rest

end Arrays

/-! Values of which it is left open what they are. -/

theorem recovers_any_text (depth : Nat) (s : String) :
    Recovers (Reader.any depth) (.text s) (.text s) where
  opens := opens_text s
  reads rest _ := by
    rw [write_text_append, Reader.any, skip_space_cons (by decide)]
    simp [read_text_written, Except.map]

theorem recovers_any_integer (depth : Nat) {n : Int} (least : Int64.minValue.toInt ≤ n)
    (most : n < UInt64.size) : Recovers (Reader.any depth) (.integer n) (.integer n) := by
  obtain ⟨c, tail, written, head⟩ := write_integer_head n
  refine ⟨⟨c, tail, (by rw [write]; exact written), opens_number head⟩, fun rest closes => ?_⟩
  have read := read_number_written n closes least most
  rw [write]
  rw [written, List.cons_append] at read ⊢
  rw [Reader.any, skip_space_cons (opens_number head).visible]
  -- No sign or digit begins a word, a text or a container.
  have other (d : Char) (no_number : ¬ (d = '-' ∨ d.isDigit = true)) : c ≠ d := by
    rintro rfl
    exact no_number head
  simp [other 'n' (by decide), other 't' (by decide), other 'f' (by decide),
    other '"' (by decide), other '[' (by decide), other '{' (by decide), head, read]

theorem recovers_any_array (depth : Nat) (items : List Json)
    (each : ∀ j ∈ items, Recovers (Reader.any depth) j j) :
    Recovers (Reader.any (depth + 1)) (.array items) (.array items) where
  opens := ⟨'[', _, (by rw [write]), rfl, by decide⟩
  reads rest _ := by
    have read := read_array_body items each rest
    rw [write, write_items_joined, List.cons_append, List.append_assoc, Reader.any,
      skip_space_cons (by decide)]
    simp only [List.singleton_append, Reader.map, read]

/-! Records. -/

section Records
variable {δ α : Type} {fields : List (RecordField δ)}

/-- Reading these members, one after the other, turns the first draft into the last. -/
inductive Fills (fields : List (RecordField δ)) : δ → List (String × Json) → δ → Prop
  | done (d : δ) : Fills fields d [] d
  | field {f : RecordField δ} {name : String} {j : Json} {members : List (String × Json)}
    {d d' d'' : δ} : fields.find? (·.name == name) = some f → f.isSet d = false →
    Recovers (f.read d) j d' → Fills fields d' members d'' →
    Fills fields d ((name, j) :: members) d''

theorem Fills.append {first later : List (String × Json)} {d d' d'' : δ}
    (head : Fills fields d first d') (tail : Fills fields d' later d'') :
    Fills fields d (first ++ later) d'' := by
  induction head with
  | done => exact tail
  | field listed unset recovers _ ih => exact .field listed unset recovers (ih tail)

theorem next_key (first : Bool) (rest : List Char) :
    Reader.nextKey first (onward first ('"' :: rest)) = .ok (some rest) := by
  cases first <;> rfl

theorem write_member_append (name : String) (j : Json) (rest : List Char) :
    writeMember (name, j) ++ rest =
      '"' :: (name.toList.flatMap escape ++ '"' :: ':' :: (j.write ++ rest)) := by
  simp [writeMember, writeText]

theorem read_members {members : List (String × Json)} {d d' : δ} (fills : Fills fields d members d')
    (rest : List Char) (bound : Nat) (room : members.length < bound) (first : Bool) :
    Reader.fieldMembers fields bound first d
      (joined first (members.map writeMember) ++ '}' :: rest) = .ok (d', '}' :: rest) := by
  induction fills generalizing bound first with
  | done =>
    obtain ⟨bound, rfl⟩ := Nat.exists_eq_succ_of_ne_zero (Nat.ne_of_gt room)
    cases first <;> rfl
  | @field f name j members _ _ _ listed unset recovers _ ih =>
    obtain ⟨bound, rfl⟩ := Nat.exists_eq_succ_of_ne_zero (Nat.ne_of_gt (Nat.zero_lt_of_lt room))
    have value := recovers.reads _ (closes_joined (.inr rfl) (members.map writeMember) rest)
    have later := ih bound (Nat.lt_of_succ_lt_succ room) false
    have colon (text : List Char) : Reader.colon (':' :: text) = .ok text := rfl
    rw [List.map_cons, joined_cons, write_member_append]
    simp only [Reader.fieldMembers, next_key, read_text_written, String.ofList_toList, listed,
      unset, colon, Except.bind, value, later, Bool.false_eq_true, if_false]

theorem Fills.of {α : Type} {name : String} {p : Reader α} {get : δ → Option α}
    {set : δ → α → δ} {j : Json} {a : α} {members : List (String × Json)} {d d' : δ}
    (listed : fields.find? (·.name == name) = some (.of name p get set)) (unset : get d = none)
    (recovers : Recovers p j a) (later : Fills fields (set d a) members d') :
    Fills fields d ((name, j) :: members) d' :=
  .field listed (by simp [RecordField.of, unset]) (recovers.map (set d)) later

theorem recovers_record {members : List (String × Json)} {empty d : δ} {finish : δ → Option α}
    {a : α} (fills : Fills fields empty members d) (ends : finish d = some a) :
    Recovers (Reader.record fields empty finish) (.object members) a where
  opens := ⟨'{', _, (by rw [write]), rfl, by decide⟩
  reads rest _ := by
    have nonempty (t : List Char) (member : t ∈ members.map writeMember) : t ≠ [] := by
      obtain ⟨m, _, rfl⟩ := List.mem_map.mp member
      simp [writeMember, writeText]
    have room := length_joined_le true _ nonempty
    have read := read_members fills rest
      ((joined true (members.map writeMember) ++ '}' :: rest).length + 1)
      (by simp only [List.length_map, List.length_append, List.length_cons] at room ⊢; omega) true
    rw [write, write_members_joined, List.cons_append, List.append_assoc, Reader.record,
      skip_space_cons (by decide)]
    simp only [List.singleton_append, read, ends]
    rfl

end Records

theorem Recovers.run {α : Type} {p : Reader α} {j : Json} {a : α} (recovers : Recovers p j a) :
    p.run j.write = .ok a := by
  have read := recovers.reads [] Closes.nil
  rw [List.append_nil] at read
  simp [Reader.run, read, skipSpace]

/-! What readers can give. -/

theorem bound_ok {α β : Type} {x : Except Problem α} {f : α → Except Problem β} {b : β}
    (bound : x.bind f = .ok b) : ∃ a, x = .ok a ∧ f a = .ok b := by
  cases x with
  | error problem => cases bound
  | ok a => exact ⟨a, rfl, bound⟩

/-- What stands before a closing bracket has been read when that is. -/
theorem closed_ok {α : Type} {x : Except Problem (List Char)} {a b : α} {rest : List Char}
    (closed : (x.map fun rest => (a, rest)) = .ok (b, rest)) : a = b := by
  cases x with
  | error problem => cases closed
  | ok after => exact congrArg Prod.fst (Except.ok.inj closed)

/-- Whatever the reader takes off the front of a text has this property. -/
def Gives {α : Type} (p : Reader α) (Q : α → Prop) : Prop :=
  ∀ cs a rest, p cs = .ok (a, rest) → Q a

section Gives
variable {α β δ : Type} {p : Reader α} {Q : α → Prop}

theorem gives_some (p : Reader α) : Gives p fun _ => True := fun _ _ _ _ => trivial

theorem gives_map {R : β → Prop} {f : α → β} (gives : Gives p Q) (carries : ∀ a, Q a → R (f a)) :
    Gives (p.map f) R := by
  intro cs b rest read
  unfold Reader.map at read
  split at read
  · next a _ given =>
    cases read
    exact carries a (gives _ _ _ given)
  · cases read

theorem gives_integer (least most : Int) :
    Gives (Reader.integer least most) fun n => least ≤ n ∧ n ≤ most := by
  intro cs n rest read
  unfold Reader.integer at read
  repeat' split at read
  all_goals cases read
  assumption

theorem gives_items (gives : Gives p Q) (bound : Nat) :
    ∀ first, Gives (Reader.items p bound first) fun xs => ∀ x ∈ xs, Q x := by
  induction bound with
  | zero =>
    intro first cs xs rest read
    cases read
  | succ bound ih =>
    intro first cs xs rest read
    unfold Reader.items at read
    split at read
    · cases read
    · cases read
      simp
    split at read
    · cases read
    next item _ _ _ a after given =>
    split at read
    · cases read
    next more _ later =>
    cases read
    intro x member
    rcases List.mem_cons.mp member with rfl | member
    · exact gives _ _ _ given
    · exact ih false _ _ _ later x member

theorem gives_list (gives : Gives p Q) : Gives (Reader.list p) fun xs => ∀ x ∈ xs, Q x := by
  intro cs xs rest read
  unfold Reader.list at read
  split at read
  · unfold Reader.arrayBody at read
    split at read
    · cases read
    next given after items =>
    exact closed_ok read ▸ gives_items gives _ true _ _ _ items
  · cases read

theorem gives_field {name : String} {get : δ → Option α} {set : δ → α → δ} {I : δ → Prop} {d : δ}
    (gives : Gives p Q) (keeps : ∀ a, Q a → I (set d a)) :
    Gives ((RecordField.of name p get set).read d) I :=
  gives_map gives keeps

/-- A field of which the property says nothing. -/
theorem gives_other {name : String} {get : δ → Option α} {set : δ → α → δ} {I : δ → Prop} {d : δ}
    (keeps : ∀ a, I (set d a)) : Gives ((RecordField.of name p get set).read d) I :=
  gives_field (gives_some p) fun a _ => keeps a

/-- What has been read so far, if anything has, has the property. -/
def SoFar (Q : α → Prop) (a? : Option α) : Prop := ∀ a, a? = some a → Q a

theorem SoFar.none : SoFar Q none := fun _ read => by cases read

theorem SoFar.some {a : α} (holds : Q a) : SoFar Q (some a) := fun _ read => by
  cases read
  exact holds

theorem SoFar.default {a? : Option α} {a : α} (holds : SoFar Q a?) (otherwise : Q a) :
    Q (a?.getD a) := by
  cases a? with
  | none => exact otherwise
  | some b => exact holds b rfl

section Drafts
variable {fields : List (RecordField δ)} {I : δ → Prop}
  (keeps : ∀ f ∈ fields, ∀ d, I d → Gives (f.read d) I)
include keeps

theorem gives_members (bound : Nat) :
    ∀ first d, I d → Gives (Reader.fieldMembers fields bound first d) I := by
  induction bound with
  | zero =>
    intro first d holds cs d' rest read
    cases read
  | succ bound ih =>
    intro first d holds cs d' rest read
    unfold Reader.fieldMembers at read
    split at read
    · cases read
    · cases read
      exact holds
    split at read
    · cases read
    split at read
    · next f found =>
      split at read
      · cases read
      split at read
      · cases read
      next further after given =>
      obtain ⟨value, _, given⟩ := bound_ok given
      have kept := keeps f (List.mem_of_find?_eq_some found) d holds _ _ _ given
      exact ih false further kept _ _ _ read
    · split at read
      · cases read
      · exact ih false d holds _ _ _ read

theorem gives_field_items {chosen : List (RecordField δ)} (among : chosen ⊆ fields) :
    ∀ first d, I d → Gives (Reader.fieldItems chosen first d) I := by
  induction chosen with
  | nil =>
    intro first d holds cs d' rest read
    cases read
    exact holds
  | cons f more ih =>
    intro first d holds cs d' rest read
    unfold Reader.fieldItems at read
    split at read
    · cases read
    · cases read
      exact holds
    split at read
    · cases read
    next further after given =>
    have kept := keeps f (among (List.mem_cons_self ..)) d holds _ _ _ given
    exact ih (fun g member => among (List.mem_cons_of_mem f member)) false further kept _ _ _ read

/-- A property of the drafts that every field keeps goes over to the records. -/
theorem gives_record {empty : δ} {finish : δ → Option α} (starts : I empty)
    (ends : ∀ d a, I d → finish d = some a → Q a) :
    Gives (Reader.record fields empty finish) Q := by
  intro cs a rest read
  unfold Reader.record at read
  simp only at read
  split at read
  · split at read
    · cases read
    next d after members =>
    have holds := gives_members keeps _ true empty starts _ _ _ members
    split at read
    · cases read
    · next b made => exact closed_ok read ▸ ends d b holds made
  · split at read
    · cases read
    next d after items =>
    have holds := gives_field_items keeps (List.Subset.refl _) true empty starts _ _ _ items
    split at read
    · cases read
    · next b made => exact closed_ok read ▸ ends d b holds made
  · cases read

end Drafts

end Gives

end Statechart.Json
