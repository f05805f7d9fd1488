import ApplianceRest.Record.Reader
import ApplianceRest.Record.Writer

/-!
# Pools

The local traffic manager's pools and the servers in them.
-/

namespace ApplianceRest

open Record (Fields Wire)

/-- A server behind a pool: an address and a port, with its share of the load. -/
structure PoolMember where
  name : String := ""
  partition : Option String := none
  fullPath : Option String := none
  address : Option String := none
  connectionLimit : Option UInt32 := none
  priorityGroup : Option UInt32 := none
  ratio : Option UInt32 := none
  session : Option String := none
  state : Option String := none
deriving DecidableEq

/-- The fields of a pool member on the wire. -/
def PoolMember.fields : Fields :=
  .cons "name" .required .text <|
  .cons "partition" .optional (.optional .text) <|
  .cons "fullPath" .readOnly (.optional .text) <|
  .cons "address" .optional (.optional .text) <|
  .cons "connectionLimit" .optional (.optional (.word .u32)) <|
  .cons "priorityGroup" .optional (.optional (.word .u32)) <|
  .cons "ratio" .optional (.optional (.word .u32)) <|
  .cons "session" .optional (.optional .text) <|
  .cons "state" .optional (.optional .text) <|
  .nil

instance : Wire PoolMember where
  shape := .record "PoolMember" PoolMember.fields
  row v := (v.name, v.partition, v.fullPath, v.address, v.connectionLimit, v.priorityGroup,
    v.ratio, v.session, v.state, ())
  ofRow := fun (name, partition, fullPath, address, connectionLimit, priorityGroup, ratio,
    session, state, ()) =>
    ⟨name, partition, fullPath, address, connectionLimit, priorityGroup, ratio, session, state⟩
  ofRow_row _ := rfl
  row_ofRow _ := rfl

/-- A pool: servers among which connections are spread. -/
structure Pool where
  kind : Option String := none
  name : String := ""
  partition : Option String := none
  fullPath : Option String := none
  generation : Option UInt64 := none
  selfLink : Option String := none
  description : Option String := none
  loadBalancingMode : Option String := none
  monitor : Option String := none
  minActiveMembers : Option UInt32 := none
  slowRampTime : Option UInt32 := none
  serviceDownAction : Option String := none
  members : List PoolMember := []
deriving DecidableEq

/-- The fields of a pool on the wire. -/
def Pool.fields : Fields :=
  .cons "kind" .readOnly (.optional .text) <|
  .cons "name" .required .text <|
  .cons "partition" .optional (.optional .text) <|
  .cons "fullPath" .readOnly (.optional .text) <|
  .cons "generation" .readOnly (.optional (.word .u64)) <|
  .cons "selfLink" .readOnly (.optional .text) <|
  .cons "description" .optional (.optional .text) <|
  .cons "loadBalancingMode" .optional (.optional .text) <|
  .cons "monitor" .optional (.optional .text) <|
  .cons "minActiveMembers" .optional (.optional (.word .u32)) <|
  .cons "slowRampTime" .optional (.optional (.word .u32)) <|
  .cons "serviceDownAction" .optional (.optional .text) <|
  .cons "members" .omittable (.list (.record "PoolMember" PoolMember.fields)) <|
  .nil

instance : Wire Pool where
  shape := .record "Pool" Pool.fields
  row v := (v.kind, v.name, v.partition, v.fullPath, v.generation, v.selfLink, v.description,
    v.loadBalancingMode, v.monitor, v.minActiveMembers, v.slowRampTime, v.serviceDownAction,
    v.members.map Wire.row, ())
  ofRow := fun (kind, name, partition, fullPath, generation, selfLink, description,
    loadBalancingMode, monitor, minActiveMembers, slowRampTime, serviceDownAction, members, ()) =>
    ⟨kind, name, partition, fullPath, generation, selfLink, description, loadBalancingMode,
     monitor, minActiveMembers, slowRampTime, serviceDownAction, members.map Wire.ofRow⟩
  ofRow_row v := congrArg (fun m => { v with members := m }) (Wire.list_ofRow_row v.members)
  row_ofRow := fun (kind, name, partition, fullPath, generation, selfLink, description,
    loadBalancingMode, monitor, minActiveMembers, slowRampTime, serviceDownAction, members, ()) =>
    congrArg (fun m => (kind, name, partition, fullPath, generation, selfLink, description,
      loadBalancingMode, monitor, minActiveMembers, slowRampTime, serviceDownAction, m, ()))
      (Wire.list_row_ofRow (α := PoolMember) members)

end ApplianceRest
