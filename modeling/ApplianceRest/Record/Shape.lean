import ApplianceRest.Dict
import ApplianceRest.Json.Atom

/-!
# Shapes of records

A record on the wire is described once, by its `Shape`: the names of its fields in order, what each
one holds, and the `Role` it plays when a record is read and when it is written. Reading and writing
both follow from the shape, so no field can be known to one of them only.

* `Shape.Carrier` is the type of the values of a shape.
* `Wire` ties a structure of the library to its shape.
-/

namespace ApplianceRest

/-- What becomes of a field when it is missing from a record that is read, and when a record is
written. -/
inductive Record.Role where
  /-- has to be there, and is always written -/
  | required
  /-- may be missing from an object, though not from a list of fields; written when it is set -/
  | optional
  /-- set by the appliance: may be missing, and is never written -/
  | readOnly
  /-- may be missing, and is always written -/
  | defaulted
  /-- may be missing, and is written unless it is empty -/
  | omittable
deriving DecidableEq, Repr

mutual

/-- What a value on the wire looks like. -/
inductive Record.Shape where
  | text
  | flag
  | word (w : Json.Word)
  | optional (content : Record.Shape)
  | list (item : Record.Shape)
  | dict (item : Record.Shape)
  | record (name : String) (fields : Record.Fields)

/-- The fields of a record, in order. -/
inductive Record.Fields where
  | nil
  | cons (key : String) (role : Record.Role) (content : Record.Shape) (rest : Record.Fields)

end

namespace Record

mutual

/-- The values of a shape. -/
@[reducible] def Shape.Carrier : Shape → Type
  | .text => String
  | .flag => Bool
  | .word w => w.Value
  | .optional content => Option content.Carrier
  | .list item => List item.Carrier
  | .dict item => Dict item.Carrier
  | .record _ fields => fields.Carrier

/-- The values of some fields: one of each, in order. -/
@[reducible] def Fields.Carrier : Fields → Type
  | .nil => Unit
  | .cons _ _ content rest => content.Carrier × rest.Carrier

end

mutual

/-- The value of a shape that says nothing: what a field has that is missing. -/
def Shape.default : (shape : Shape) → shape.Carrier
  | .text => ""
  | .flag => false
  | .word w => w.zero
  | .optional _ => none
  | .list _ => []
  | .dict _ => .empty
  | .record _ fields => fields.default

/-- Fields that are all missing. -/
def Fields.default : (fields : Fields) → fields.Carrier
  | .nil => ()
  | .cons _ _ content rest => (content.default, rest.default)

end

/-- Whether a value is one that an omittable field leaves out: no value, or an empty text, list or
dictionary. -/
def Shape.isEmpty : (shape : Shape) → shape.Carrier → Bool
  | .text, s => s == ""
  | .optional _, x => x.isNone
  | .list _, xs => xs.isEmpty
  | .dict _, d => d.entries.isEmpty
  | .flag, _ => false
  | .word _, _ => false
  | .record _ _, _ => false

/-- The number of fields. -/
def Fields.length : Fields → Nat
  | .nil => 0
  | .cons _ _ _ rest => rest.length + 1

/-- The keys of the fields, in order. -/
def Fields.keys : Fields → List String
  | .nil => []
  | .cons key _ _ rest => key :: rest.keys

namespace Role

/-- Whether a field may be missing from an object. -/
def mayBeMissing : Role → Bool
  | .required => false
  | _ => true

/-- Whether a field may be missing from the end of a list of fields. -/
def mayEndList : Role → Bool
  | .required | .optional => false
  | _ => true

/-- Whether a field is written, given whether it is empty. -/
def isWritten : Role → (isEmpty : Bool) → Bool
  | .required, _ | .defaulted, _ => true
  | .optional, isEmpty | .omittable, isEmpty => !isEmpty
  | .readOnly, _ => false

end Role

/-- A type of values that go over the wire: its shape, and the fields of a value in the order of the
shape. -/
class Wire (α : Type) where
  shape : Shape
  row : α → shape.Carrier
  ofRow : shape.Carrier → α
  ofRow_row : ∀ v, ofRow (row v) = v
  row_ofRow : ∀ r, row (ofRow r) = r

namespace Wire

variable {α : Type} [Wire α]

/-! Values nested in lists, options and dictionaries keep nothing back either. -/

theorem list_ofRow_row (xs : List α) : (xs.map row).map ofRow = xs := by
  simp [Function.comp_def, ofRow_row]

theorem list_row_ofRow (rs : List (shape α).Carrier) : (rs.map ofRow).map row = rs := by
  simp [Function.comp_def, row_ofRow]

theorem option_ofRow_row (x : Option α) : (x.map row).map ofRow = x := by
  cases x <;> simp [ofRow_row]

theorem option_row_ofRow (r : Option (shape α).Carrier) : (r.map ofRow).map row = r := by
  cases r <;> simp [row_ofRow]

theorem dict_ofRow_row (d : Dict α) : (d.map row).map ofRow = d := by
  rw [Dict.map_map]; exact Dict.map_id_of ofRow_row d

theorem dict_row_ofRow (d : Dict (shape α).Carrier) : (d.map ofRow).map row = d := by
  rw [Dict.map_map]; exact Dict.map_id_of row_ofRow d

end Wire

end Record

end ApplianceRest
