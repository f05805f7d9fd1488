import ApplianceRest.Percent
import ApplianceRest.Request.Basic

/-!
# The address of a request

The text under which a request is sent: the origin of the host, the path, and the query.
-/

namespace ApplianceRest.Request

/-- Whether a request names anything behind its path prefix. An instance alone is of nothing, so it
does not count. -/
def isBare (r : Request) : Bool :=
  r.subPath = "" ∧
    [Field.category, .manager, .resource, .subResource, .statistics].all (r.fields · |>.isNone)

/-- The path: the prefix as it is on a bare request, else the prefix and all parts in order. -/
def path (r : Request) : String :=
  if r.isBare then r.pathPrefix
  else
    let part (field : Field) : String := (r.fields field).getD ""
    Path.join [r.pathPrefix, part .category, part .manager, part .resource, part .resourceInstance,
      r.subPath, part .subResource, part .subInstance, part .statistics]

/-- The name of the parameter that carries the deadline. -/
def timeoutKey : String := "timeout"

/-- The parameters that are sent: a deadline stands in place of any values given for it. -/
def sentParameters (r : Request) : Dict (List String) :=
  if r.timeout.isZero then r.parameters
  else r.parameters.insert timeoutKey [r.timeout.compound]

/-- The parameters one by one: in key order, and those of one key in the order in which they were
given. -/
def pairs (parameters : Dict (List String)) : List (String × String) :=
  parameters.entries.flatMap fun (key, values) => values.map (key, ·)

/-- The text of one parameter. -/
def pairText (pair : String × String) : String :=
  Percent.component pair.1 ++ "=" ++ Percent.component pair.2

/-- The query, without its question mark. -/
def query (r : Request) : String := "&".intercalate ((pairs r.sentParameters).map pairText)

/-- The address under which the request is sent. -/
def url (r : Request) : String :=
  let slash := if r.path.toList.head? = some '/' then "" else "/"
  let query := r.query
  r.client.host.origin ++ slash ++ Percent.path r.path ++
    if query = "" then "" else "?" ++ query

end ApplianceRest.Request
