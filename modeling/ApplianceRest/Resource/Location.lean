import ApplianceRest.Request.Basic
import ApplianceRest.Resource.IcapProfile
import ApplianceRest.Resource.NaptrPool
import ApplianceRest.Resource.Pool
import ApplianceRest.Resource.RouteDomain
import ApplianceRest.Resource.TcpMonitor
import ApplianceRest.Resource.VirtualServer

/-!
# Where resources are found

Each kind of objects has its place under the base path of the appliance, and each object has a place
below that of its kind, named by its full path.

* `Location.collectionRequest` and `Location.instanceRequest` address a kind and one of its objects.
* `Resource` says of a type which kind of objects its values are.
-/

namespace ApplianceRest

open Http (Method)
open Record (Wire)

/-- The place of a kind of objects, and what messages call them. -/
structure Location where
  label : String
  manager : String
  resource : String
  /-- for a kind that is one of several variants of a resource -/
  variant : Option String := none
  isPlace : ([manager, resource] ++ variant.toList).all Path.isSegment := by decide
deriving DecidableEq, Repr

/-- The segment under which the appliance offers everything. -/
def basePath : String := "mgmt"

/-- The category of everything about traffic management. -/
def trafficManagement : String := "tm"

/-- The segment under which the figures of an object or of a kind are found. -/
def statsSegment : String := "stats"

namespace Location

/-- A request to the collection of a kind. -/
def collectionRequest (l : Location) (client : Client) (method : Method) : Request :=
  let place := (Request.new client method).setAll
    [.pathPrefix [basePath], .category trafficManagement, .manager l.manager, .resource l.resource]
  match l.variant with
  | some variant => place.set (.subResource [variant])
  | none => place

/-- A request to an object of a kind. -/
def instanceRequest (l : Location) (client : Client) (method : Method) (fullPath : String) :
    Request :=
  let place := l.collectionRequest client method
  match l.variant with
  | some _ => place.set (.subInstance [fullPath])
  | none => place.set (.resourceInstance [fullPath])

/-- A request to the figures of all objects of a kind. -/
def statsRequest (l : Location) (client : Client) : Request :=
  (l.collectionRequest client .get).set (.statistics [statsSegment])

/-- A request to the figures of one object of a kind. -/
def instanceStatsRequest (l : Location) (client : Client) (fullPath : String) : Request :=
  (l.instanceRequest client .get fullPath).set (.statistics [statsSegment])

end Location

/-- A kind of objects with a place of its own. -/
class Resource (α : Type) extends Wire α where
  location : Location

instance : Resource Pool where
  location := { label := "Pool", manager := "ltm", resource := "pool" }

instance : Resource VirtualServer where
  location := { label := "Virtual", manager := "ltm", resource := "virtual" }

instance : Resource TcpMonitor where
  location :=
    { label := "MonitorTcp", manager := "ltm", resource := "monitor", variant := some "tcp" }

instance : Resource IcapProfile where
  location :=
    { label := "ProfileIcap", manager := "ltm", resource := "profile", variant := some "icap" }

instance : Resource NaptrPool where
  location :=
    { label := "NaptrPool", manager := "gtm", resource := "pool", variant := some "naptr" }

instance : Resource RouteDomain where
  location := { label := "RouteDomain", manager := "net", resource := "route-domain" }

namespace Pool

/-- What messages call a member of a pool. -/
def memberLabel : String := "PoolMember"

/-- The segment under which the members of a pool are found. -/
def membersSegment : String := "members"

/-- A request to the members of a pool. -/
def membersRequest (client : Client) (method : Method) (pool : String) : Request :=
  ((Resource.location Pool).instanceRequest client method pool).set
    (.subResource [membersSegment])

/-- A request to one member of a pool. -/
def memberRequest (client : Client) (method : Method) (pool member : String) : Request :=
  (membersRequest client method pool).set (.subInstance [member])

end Pool

end ApplianceRest
