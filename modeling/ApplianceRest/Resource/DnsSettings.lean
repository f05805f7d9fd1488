import ApplianceRest.Resource.Operation

/-!
# Resolver settings

Where the appliance itself looks up names. There is one set of these settings; name servers are
added to it by reading it, and writing it back if there is a new one among them.
-/

namespace ApplianceRest

open Http (Method)
open Record (Fields Wire)

/-- The system's resolver settings, of which there is one set. -/
structure DnsSettings where
  kind : Option String := none
  selfLink : Option String := none
  description : Option String := none
  nameServers : List String := []
  numberOfDots : Option UInt32 := none
  search : List String := []
deriving DecidableEq

/-- The fields of the resolver settings on the wire. -/
def DnsSettings.fields : Fields :=
  .cons "kind" .readOnly (.optional .text) <|
  .cons "selfLink" .readOnly (.optional .text) <|
  .cons "description" .optional (.optional .text) <|
  .cons "nameServers" .defaulted (.list .text) <|
  .cons "numberOfDots" .optional (.optional (.word .u32)) <|
  .cons "search" .defaulted (.list .text) <|
  .nil

instance : Wire DnsSettings where
  shape := .record "Dns" DnsSettings.fields
  row v := (v.kind, v.selfLink, v.description, v.nameServers, v.numberOfDots, v.search, ())
  ofRow := fun (kind, selfLink, description, nameServers, numberOfDots, search, ()) =>
    ⟨kind, selfLink, description, nameServers, numberOfDots, search⟩
  ofRow_row _ := rfl
  row_ofRow _ := rfl

namespace DnsSettings

/-- What messages call the settings. -/
def label : String := "Dns"

/-- A request to the settings. -/
def request (client : Client) (method : Method) : Request :=
  (Request.new client method).setAll
    [.pathPrefix [basePath], .category trafficManagement, .manager "sys", .resource "dns"]

/-- The settings as they are. -/
def get (client : Client) : Operation DnsSettings := (request client .get).fetch label none

/-- Puts settings in place of those that are there. -/
def update (client : Client) (settings : DnsSettings) : Operation DnsSettings :=
  ((request client .put).withRecord settings).fetch label none

/-- A list of servers with one more behind it, unless that is in the list. -/
def withServer (known : List String) (server : String) : List String :=
  if known.contains server then known else known ++ [server]

/-- Adds name servers behind those that are set, each once; where all of them are set already
nothing is written. -/
def addNameServers (client : Client) (servers : List String) : Operation DnsSettings := fun line =>
  match get client line with
  | (.ok settings, line) =>
    let extended := servers.foldl withServer settings.nameServers
    if extended.length = settings.nameServers.length then (.ok settings, line)
    else update client { settings with nameServers := extended } line
  | other => other

end DnsSettings

end ApplianceRest
