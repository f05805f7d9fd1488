import ApplianceRest.Json.Skip
import ApplianceRest.Record.Shape

/-!
# Reading records

A record is read from an object, whose members may stand in any order and among others that nobody
asked for, or from a list of its fields in order.
-/

namespace ApplianceRest.Record

open Json (Bytes Error Mismatch Reader Taken)
open Json.Reader

/-- What has been read of some fields so far. -/
@[reducible] def Fields.Slots : Fields → Type
  | .nil => Unit
  | .cons _ _ content rest => Option content.Carrier × rest.Slots

/-- Nothing read yet. -/
def Fields.noSlots : (fields : Fields) → fields.Slots
  | .nil => ()
  | .cons _ _ _ rest => (none, rest.noSlots)

/-- The fields at the end of an object: the first one that is missing and may not be is an error. -/
def Fields.fromSlots : (fields : Fields) → fields.Slots → Except Error fields.Carrier
  | .nil, () => .ok ()
  | .cons key role content rest, (slot, slots) => do
    let value ← match slot with
      | some value => .ok value
      | none =>
        if role.mayBeMissing then .ok content.default
        else .error (.mismatched (.missingField key))
    return (value, ← rest.fromSlots slots)

/-- The fields that a list of `size` fields ended before, the first of them being number `index`:
each one must be allowed to be missing there. -/
def Fields.beyondList (record : String) (size : Nat) :
    (fields : Fields) → (index : Nat) → Except Error fields.Carrier
  | .nil, _ => .ok ()
  | .cons _ role content rest, index =>
    if role.mayEndList then do return (content.default, ← rest.beyondList record size (index + 1))
    else .error (.mismatched (.tooShort index record size))

/-- The closing bracket behind the last field of a list of fields. -/
def endOfList (s : Bytes) : Except Error (Taken Unit s) :=
  match h : skipBlank s with
  | [] => .error (.unfinished .list)
  | b :: r =>
    have hr : r.length < s.length := length_lt_of_skipBlank h
    if b = closeBracket then .ok ⟨(), r, hr⟩
    else if b = comma ∧ (skipBlank r).head? = some closeBracket then
      .error (.malformed .trailingComma)
    else .error (.malformed .trailingCharacters)

mutual

/-- Reads a value of a shape. -/
def Shape.read : (shape : Shape) → Reader shape.Carrier
  | .text => textValue
  | .flag => flagValue
  | .word w => wordValue w
  | .optional content => optionalValue content.read
  | .list item => listValue item.read
  | .dict item => fromToken fun s =>
    match s with
    | b :: r =>
      if b = openBrace then
        (members (fun key (known : Dict item.Carrier) t =>
            (memberValue item.read t).map (·.map (known.insert key))) true .empty r).map
          (·.behind b)
      else .error (refusal "a map" (b :: r))
    | [] => .error (refusal "a map" [])
  | .record name fields => fromToken fun s =>
    match s with
    | b :: r =>
      if b = openBracket then
        (fields.readList name fields.length 0 r).map (·.behind b)
      else if b = openBrace then do
        let slots ← members (fun key slots t => fields.readMember key slots t) true
          fields.noSlots r
        let values ← fields.fromSlots slots.value
        .ok ((slots.map fun _ => values).behind b)
      else .error (refusal ("struct " ++ name) (b :: r))
    | [] => .error (refusal ("struct " ++ name) [])

/-- Reads the member under a key into its slot; a second one under the key is refused before it is
looked at, and one that is none of the fields is passed over. -/
def Fields.readMember : (fields : Fields) → (key : String) → fields.Slots → Reader fields.Slots
  | .nil, _, () => memberValue skip
  | .cons field _ content rest, key, (slot, slots) => fun s =>
    if key = field then
      if slot.isSome then .error (.mismatched (.duplicateField field))
      else (memberValue content.read s).map (·.map fun value => (some value, slots))
    else (rest.readMember key slots s).map (·.map fun slots => (slot, slots))

/-- Reads fields from a list that has `size` of them in full, from the one with number `index`
on. -/
def Fields.readList (record : String) (size : Nat) :
    (fields : Fields) → (index : Nat) → Reader fields.Carrier
  | .nil, _ => endOfList
  | .cons key role content rest, index => fun s => do
    match ← nextItem (index == 0) s with
    | .last t shorter =>
      let values ← (Fields.cons key role content rest).beyondList record size index
      .ok ⟨values, t, shorter⟩
    | .item t within => do
      let x ← content.read t
      let xs ← rest.readList record size (index + 1) x.rest
      .ok ((xs.map fun values => (x.value, values)).within
        (Nat.le_of_lt (Nat.lt_of_lt_of_le x.shorter within)))

end

/-- The value of a type that a text denotes. -/
def decode (α : Type) [Wire α] (s : Bytes) : Except Error α :=
  (whole (Wire.shape α).read s).map Wire.ofRow

end ApplianceRest.Record
