import ApplianceRest.Request.Send
import ApplianceRest.Resource.Collection
import ApplianceRest.Resource.Error
import ApplianceRest.Resource.Location
import ApplianceRest.Resource.Stats

/-!
# Operations on resources

What can be done with the objects of a kind. Each operation is a single exchange on a line; it gives
what the appliance answers, or why there is nothing to give.
-/

namespace ApplianceRest

open Record (Wire)

/-- What an operation does on a line: how it ends, and the line after it. -/
abbrev Operation (α : Type) := Line → Outcome ResourceError α × Line

namespace Request

/-- The request with a value as its body. -/
def withRecord {α : Type} [Wire α] (r : Request) (value : α) : Request :=
  r.set (.bodyDocument (.ok (Record.document value)))

/-- Sends a request for a value of a type. Errors speak of a resource by its label, and of the
object that is asked for where one is. -/
def fetch {α : Type} [Wire α] (r : Request) (label : String) (fullPath : Option String) :
    Operation α := fun line =>
  let (outcome, line) := r.sendFor (Record.decode α) line
  (outcome.mapError (.ofExchange label fullPath), line)

/-- Sends a request for nothing but success. -/
def perform (r : Request) (label : String) (fullPath : Option String) :
    Operation Unit := fun line =>
  let (outcome, line) := r.sendForNothing line
  (outcome.mapError (.ofExchange label fullPath), line)

end Request

namespace Resource

variable {α : Type} [Resource α]

/-- All objects of a kind. -/
def list (client : Client) : Operation (Collection α) :=
  let l := location α
  (l.collectionRequest client .get).fetch l.label none

/-- One object. -/
def get (client : Client) (fullPath : String) : Operation α :=
  let l := location α
  (l.instanceRequest client .get fullPath).fetch l.label (some fullPath)

/-- Makes an object. -/
def create (client : Client) (value : α) : Operation α :=
  let l := location α
  ((l.collectionRequest client .post).withRecord value).fetch l.label none

/-- Puts an object in place of one that is there. -/
def update (client : Client) (value : α) (fullPath : String) : Operation α :=
  let l := location α
  ((l.instanceRequest client .put fullPath).withRecord value).fetch l.label (some fullPath)

/-- Changes some properties of an object. -/
def modify (client : Client) (fullPath : String) (changes : Json) : Operation α :=
  let l := location α
  ((l.instanceRequest client .patch fullPath).set (.bodyDocument (.ok changes))).fetch
    l.label (some fullPath)

/-- Takes an object away. -/
def delete (α : Type) [Resource α] (client : Client) (fullPath : String) : Operation Unit :=
  let l := location α
  (l.instanceRequest client .delete fullPath).perform l.label (some fullPath)

end Resource

namespace VirtualServer

/-- The figures of all virtual servers. -/
def stats (client : Client) : Operation Stats :=
  let l := Resource.location VirtualServer
  (l.statsRequest client).fetch l.label none

/-- The figures of one virtual server. -/
def statsFor (client : Client) (fullPath : String) : Operation Stats :=
  let l := Resource.location VirtualServer
  (l.instanceStatsRequest client fullPath).fetch l.label (some fullPath)

end VirtualServer

namespace Pool

/-- The members of a pool. -/
def listMembers (client : Client) (pool : String) : Operation (Collection PoolMember) :=
  (membersRequest client .get pool).fetch (Resource.location Pool).label (some pool)

/-- One member of a pool. -/
def getMember (client : Client) (pool member : String) : Operation PoolMember :=
  (memberRequest client .get pool member).fetch memberLabel (some member)

/-- Adds a member to a pool. -/
def addMember (client : Client) (pool : String) (member : PoolMember) : Operation PoolMember :=
  ((membersRequest client .post pool).withRecord member).fetch
    (Resource.location Pool).label (some pool)

/-- Takes a member out of a pool. -/
def removeMember (client : Client) (pool member : String) : Operation Unit :=
  (memberRequest client .delete pool member).perform memberLabel (some member)

end Pool

end ApplianceRest
