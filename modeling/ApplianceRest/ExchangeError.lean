import ApplianceRest.ApplianceError
import ApplianceRest.Duration
import ApplianceRest.Request.Invalid

/-!
# Errors of an exchange
-/

namespace ApplianceRest

/-- Why an exchange with the appliance brought nothing. -/
inductive ExchangeError where
  /-- the request was never sent -/
  | invalidRequest (reason : InvalidRequest)
  /-- the appliance refused and said why -/
  | appliance (error : ApplianceError)
  /-- the answer is no document and has a status that is none of success -/
  | status (code : Nat) (line : String)
  /-- the answer says that the appliance refused, but not legibly why -/
  | errorBody (reason : Json.Error)
  /-- the answer is not what was asked for -/
  | decode (reason : Json.Error)
  /-- there was no answer before the deadline -/
  | timeout (deadline : Duration)
  /-- the caller lost interest -/
  | cancelled
  /-- there was no complete answer -/
  | network
deriving DecidableEq

namespace ExchangeError

/-- The wording of an error. What the network says about itself is not worded here. -/
def message? : ExchangeError → Option String
  | .invalidRequest reason => some reason.message
  | .appliance error => some error.summary
  | .status _ line => some ("the http response error status code: " ++ line)
  | .errorBody reason =>
    some ("cannot read error message from response body: " ++ reason.message)
  | .decode reason => some ("failed to decode response body: " ++ reason.message)
  | .timeout deadline => some ("request timed out after " ++ deadline.inOneUnit)
  | .cancelled => some "request cancelled"
  | .network => none

/-- What the appliance said, where it did. -/
def applianceError? : ExchangeError → Option ApplianceError
  | .appliance error => some error
  | _ => none

/-- The status code that an error tells of: the code the appliance names if it is an unsigned number
of 16 bits, else the status of the answer where the error still knows it. -/
def statusCode? : ExchangeError → Option Nat
  | .appliance error =>
    let code := error.code.toInt
    if 0 ≤ code ∧ code < UInt16.size then some code.toNat else none
  | .status code _ => some code
  | _ => none

/-- Whether the exchange was given up on this side. -/
def isCancellation : ExchangeError → Bool
  | .timeout _ => true
  | .cancelled => true
  | _ => false

end ExchangeError

end ApplianceRest
