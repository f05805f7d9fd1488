import ApplianceRest.ExchangeError

/-!
# Errors of operations on resources
-/

namespace ApplianceRest

/-- Why an operation on a resource brought nothing. -/
inductive ResourceError where
  /-- there is no such object -/
  | notFound (resource fullPath : String)
  | exchange (error : ExchangeError)
deriving DecidableEq

namespace ResourceError

/-- The error of an operation: where an object was asked for and the status is 404, that object is
not there. -/
def ofExchange (resource : String) (fullPath : Option String) (error : ExchangeError) :
    ResourceError :=
  match error.statusCode?, fullPath with
  | some 404, some fullPath => .notFound resource fullPath
  | _, _ => .exchange error

/-- The wording of an error. -/
def message? : ResourceError → Option String
  | .notFound resource fullPath => some (resource ++ " " ++ fullPath ++ " not found")
  | .exchange error => error.message?

/-- The status code that an error tells of. -/
def statusCode? : ResourceError → Option Nat
  | .notFound _ _ => some 404
  | .exchange error => error.statusCode?

end ResourceError

end ApplianceRest
