/-!
# Request methods
-/

namespace ApplianceRest.Http

/-- What a request asks the appliance to do. -/
inductive Method where
  | get
  | post
  | put
  | patch
  | delete
deriving DecidableEq, Repr

/-- The name of a method on the wire. -/
def Method.name : Method → String
  | .get => "GET"
  | .post => "POST"
  | .put => "PUT"
  | .patch => "PATCH"
  | .delete => "DELETE"

/-- The method with a name. -/
def Method.ofName? (name : String) : Option Method :=
  [Method.get, .post, .put, .patch, .delete].find? (·.name == name)

end ApplianceRest.Http
