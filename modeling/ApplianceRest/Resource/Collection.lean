import ApplianceRest.Record.Reader
import ApplianceRest.Record.Writer

/-!
# Collections

What the appliance answers when it is asked for all objects of a kind.
-/

namespace ApplianceRest

open Record (Fields Wire)

/-- The objects of a kind, in the order in which the appliance lists them. -/
structure Collection (α : Type) where
  kind : String := ""
  selfLink : String := ""
  items : List α := []
deriving DecidableEq

namespace Collection

variable (α : Type) [Wire α]

/-- The fields of a collection on the wire. -/
def fields : Fields :=
  .cons "kind" .omittable .text <|
  .cons "selfLink" .omittable .text <|
  .cons "items" .defaulted (.list (Wire.shape α)) <|
  .nil

instance : Wire (Collection α) where
  shape := .record "Collection" (fields α)
  row v := (v.kind, v.selfLink, v.items.map Wire.row, ())
  ofRow := fun (kind, selfLink, items, ()) => ⟨kind, selfLink, items.map Wire.ofRow⟩
  ofRow_row v := congrArg (fun m => { v with items := m }) (Wire.list_ofRow_row v.items)
  row_ofRow := fun (kind, selfLink, items, ()) =>
    congrArg (fun m => (kind, selfLink, m, ())) (Wire.list_row_ofRow (α := α) items)

end Collection

end ApplianceRest
