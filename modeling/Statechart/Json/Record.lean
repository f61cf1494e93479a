import Statechart.Json.Skip
/-!
Records: values made of named fields. A record is written as an object, in any order of the fields,
or as an array in the order of declaration, from whose end fields may be missing if they have a
default. A field that is not known is passed over; one that is known may stand only once.

While a record is read, what has been read of it is kept in a draft.
-/

namespace Statechart.Json

structure RecordField (δ : Type) where
  name : String
  isSet : δ → Bool
  read : δ → Reader δ

namespace RecordField
variable {δ α : Type}

/-- A field that is read by `p` and kept in the draft under a lens. -/
def of (name : String) (p : Reader α) (get : δ → Option α) (set : δ → α → δ) :
    RecordField δ where
  name
  isSet := fun d => (get d).isSome
  read := fun d => p.map (set d)

end RecordField

namespace Reader
variable {δ α : Type}

/-- The fields of a record written as an object, up to the closing brace. -/
def fieldMembers (fields : List (RecordField δ)) : (bound : Nat) → (first : Bool) → δ → Reader δ
  | 0, _, _, _ => .error .truncated
  | bound + 1, first, d, cs =>
    match nextKey first cs with
    | .error e => .error e
    | .ok none => .ok (d, cs)
    | .ok (some rest) =>
      match readText .plain rest with
      | .error e => .error e
      | .ok (key, rest) =>
        match fields.find? (·.name == String.ofList key) with
        | some f =>
          if f.isSet d then .error .mismatched
          else
            match (colon rest).bind (f.read d) with
            | .error e => .error e
            | .ok (d, rest) => fieldMembers fields bound false d rest
        | none =>
          match (colon rest).bind skip with
          | .error e => .error e
          | .ok rest => fieldMembers fields bound false d rest

/-- The fields of a record written as an array, for as long as there are items. -/
def fieldItems : List (RecordField δ) → (first : Bool) → δ → Reader δ
  | [], _, d, cs => .ok (d, cs)
  | f :: fields, first, d, cs =>
    match nextItem first cs with
    | .error e => .error e
    | .ok none => .ok (d, cs)
    | .ok (some item) =>
      match f.read d item with
      | .error e => .error e
      | .ok (d, rest) => fieldItems fields false d rest

/-- A record. A draft that lacks a field is refused at the closing bracket. -/
def record (fields : List (RecordField δ)) (empty : δ) (finish : δ → Option α) : Reader α :=
  fun cs =>
  let finished (d : δ) (rest : List Char) (close : List Char → Except Problem (List Char)) :=
    match finish d with
    | none => .error .mismatched
    | some a => (close rest).map fun rest => (a, rest)
  match skipSpace cs with
  | '{' :: rest =>
    match fieldMembers fields (rest.length + 1) true empty rest with
    | .error e => .error e
    | .ok (d, rest) => finished d rest closeObject
  | '[' :: rest =>
    match fieldItems fields true empty rest with
    | .error e => .error e
    | .ok (d, rest) => finished d rest closeArray
  | other => .error (mismatch other)

end Reader
end Statechart.Json
