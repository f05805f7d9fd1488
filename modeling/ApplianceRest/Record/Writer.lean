import ApplianceRest.Json.Printer
import ApplianceRest.Record.Shape

/-!
# Writing records

A record is written as an object with its members in the order of the fields, leaving out those that
their role leaves out.
-/

namespace ApplianceRest.Record

mutual

/-- The document for a value. -/
def Shape.document : (shape : Shape) → shape.Carrier → Json
  | .text, s => .text s
  | .flag, b => .boolean b
  | .word w, x => .number (.whole (w.toInt x))
  | .optional _, none => .null
  | .optional content, some x => content.document x
  | .list item, xs => .array (xs.map item.document)
  | .dict item, d => .object (d.entries.map fun e => (e.1, item.document e.2))
  | .record _ fields, values => .object (fields.documents values)

/-- The members for the fields that are written. -/
def Fields.documents : (fields : Fields) → fields.Carrier → List (String × Json)
  | .nil, () => []
  | .cons key role content rest, (value, values) =>
    if role.isWritten (content.isEmpty value) then
      (key, content.document value) :: rest.documents values
    else rest.documents values

end

/-- The document for a value of a type. -/
def document {α : Type} [Wire α] (value : α) : Json := (Wire.shape α).document (Wire.row value)

end ApplianceRest.Record
