import ApplianceRest.Record.Reader
import ApplianceRest.Record.Writer

/-!
# Virtual servers

The addresses at which the local traffic manager takes connections.
-/

namespace ApplianceRest

open Record (Fields Wire)

/-- How the source address of a virtual server's connections is replaced. -/
structure Translation where
  /-- how the source address is replaced -/
  method : String := ""
  pool : Option String := none
deriving DecidableEq

/-- The fields of a translation on the wire. -/
def Translation.fields : Fields :=
  .cons "type" .required .text <|
  .cons "pool" .optional (.optional .text) <|
  .nil

instance : Wire Translation where
  shape := .record "SourceAddressTranslation" Translation.fields
  row v := (v.method, v.pool, ())
  ofRow := fun (method, pool, ()) =>
    ⟨method, pool⟩
  ofRow_row _ := rfl
  row_ofRow _ := rfl

/-- A virtual server: an address at which the appliance takes connections. -/
structure VirtualServer where
  kind : Option String := none
  name : String := ""
  partition : Option String := none
  fullPath : Option String := none
  generation : Option UInt64 := none
  selfLink : Option String := none
  description : Option String := none
  destination : Option String := none
  source : Option String := none
  mask : Option String := none
  pool : Option String := none
  ipProtocol : Option String := none
  rules : List String := []
  translation : Option Translation := none
  enabled : Option Bool := none
  disabled : Option Bool := none
deriving DecidableEq

/-- The fields of a virtual server on the wire. -/
def VirtualServer.fields : Fields :=
  .cons "kind" .readOnly (.optional .text) <|
  .cons "name" .required .text <|
  .cons "partition" .optional (.optional .text) <|
  .cons "fullPath" .readOnly (.optional .text) <|
  .cons "generation" .readOnly (.optional (.word .u64)) <|
  .cons "selfLink" .readOnly (.optional .text) <|
  .cons "description" .optional (.optional .text) <|
  .cons "destination" .optional (.optional .text) <|
  .cons "source" .optional (.optional .text) <|
  .cons "mask" .optional (.optional .text) <|
  .cons "pool" .optional (.optional .text) <|
  .cons "ipProtocol" .optional (.optional .text) <|
  .cons "rules" .omittable (.list .text) <|
  .cons "sourceAddressTranslation" .optional
    (.optional (.record "SourceAddressTranslation" Translation.fields)) <|
  .cons "enabled" .optional (.optional .flag) <|
  .cons "disabled" .optional (.optional .flag) <|
  .nil

instance : Wire VirtualServer where
  shape := .record "Virtual" VirtualServer.fields
  row v := (v.kind, v.name, v.partition, v.fullPath, v.generation, v.selfLink, v.description,
    v.destination, v.source, v.mask, v.pool, v.ipProtocol, v.rules, v.translation.map Wire.row,
    v.enabled, v.disabled, ())
  ofRow := fun (kind, name, partition, fullPath, generation, selfLink, description, destination,
    source, mask, pool, ipProtocol, rules, translation, enabled, disabled, ()) =>
    ⟨kind, name, partition, fullPath, generation, selfLink, description, destination, source,
     mask, pool, ipProtocol, rules, translation.map Wire.ofRow, enabled, disabled⟩
  ofRow_row v :=
    congrArg (fun m => { v with translation := m }) (Wire.option_ofRow_row v.translation)
  row_ofRow := fun (kind, name, partition, fullPath, generation, selfLink, description,
    destination, source, mask, pool, ipProtocol, rules, translation, enabled, disabled, ()) =>
    congrArg (fun m => (kind, name, partition, fullPath, generation, selfLink, description,
      destination, source, mask, pool, ipProtocol, rules, m, enabled, disabled, ()))
      (Wire.option_row_ofRow (α := Translation) translation)

end ApplianceRest
