import ApplianceRest.Record.Reader
import ApplianceRest.Record.Writer

/-!
# Route domains

The network's separate routing tables.
-/

namespace ApplianceRest

open Record (Fields Wire)

/-- A link to another object. -/
structure Reference where
  link : String := ""
deriving DecidableEq

/-- The fields of a link on the wire. -/
def Reference.fields : Fields :=
  .cons "link" .required .text <|
  .nil

instance : Wire Reference where
  shape := .record "Reference" Reference.fields
  row v := (v.link, ())
  ofRow := fun (link, ()) =>
    ⟨link⟩
  ofRow_row _ := rfl
  row_ofRow _ := rfl

/-- A route domain: a routing table of its own for some networks. -/
structure RouteDomain where
  kind : Option String := none
  name : String := ""
  partition : Option String := none
  fullPath : Option String := none
  generation : Option UInt64 := none
  selfLink : Option String := none
  id : Option UInt32 := none
  connectionLimit : Option UInt32 := none
  strict : Option String := none
  throughputCapacity : Option String := none
  routingProtocol : List String := []
  vlans : List String := []
  vlansReference : List Reference := []
deriving DecidableEq

/-- The fields of a route domain on the wire. -/
def RouteDomain.fields : Fields :=
  .cons "kind" .readOnly (.optional .text) <|
  .cons "name" .required .text <|
  .cons "partition" .optional (.optional .text) <|
  .cons "fullPath" .readOnly (.optional .text) <|
  .cons "generation" .readOnly (.optional (.word .u64)) <|
  .cons "selfLink" .readOnly (.optional .text) <|
  .cons "id" .optional (.optional (.word .u32)) <|
  .cons "connectionLimit" .optional (.optional (.word .u32)) <|
  .cons "strict" .optional (.optional .text) <|
  .cons "throughputCapacity" .optional (.optional .text) <|
  .cons "routingProtocol" .omittable (.list .text) <|
  .cons "vlans" .omittable (.list .text) <|
  .cons "vlansReference" .readOnly (.list (.record "Reference" Reference.fields)) <|
  .nil

instance : Wire RouteDomain where
  shape := .record "RouteDomain" RouteDomain.fields
  row v := (v.kind, v.name, v.partition, v.fullPath, v.generation, v.selfLink, v.id,
    v.connectionLimit, v.strict, v.throughputCapacity, v.routingProtocol, v.vlans,
    v.vlansReference.map Wire.row, ())
  ofRow := fun (kind, name, partition, fullPath, generation, selfLink, id, connectionLimit,
    strict, throughputCapacity, routingProtocol, vlans, vlansReference, ()) =>
    ⟨kind, name, partition, fullPath, generation, selfLink, id, connectionLimit, strict,
     throughputCapacity, routingProtocol, vlans, vlansReference.map Wire.ofRow⟩
  ofRow_row v :=
    congrArg (fun m => { v with vlansReference := m }) (Wire.list_ofRow_row v.vlansReference)
  row_ofRow := fun (kind, name, partition, fullPath, generation, selfLink, id, connectionLimit,
    strict, throughputCapacity, routingProtocol, vlans, vlansReference, ()) =>
    congrArg (fun m => (kind, name, partition, fullPath, generation, selfLink, id,
      connectionLimit, strict, throughputCapacity, routingProtocol, vlans, m, ()))
      (Wire.list_row_ofRow (α := Reference) vlansReference)

end ApplianceRest
