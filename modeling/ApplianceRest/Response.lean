import ApplianceRest.ExchangeError
import ApplianceRest.Http.Header
import ApplianceRest.Http.Status
import ApplianceRest.Json.Document

/-!
# Answers

A complete answer of the appliance, and how it is taken: as what was asked for, or as an error.
-/

namespace ApplianceRest

open Http (Headers Status)

/-- A complete answer. -/
structure Response where
  status : Status
  headers : Headers
  body : Json.Bytes

namespace Response

/-- Whether a text occurs in another one. -/
def occursIn (part : List Char) : List Char → Bool
  | [] => part.isEmpty
  | c :: rest => part.isPrefixOf (c :: rest) || occursIn part rest

/-- The first type named for the body, if it is printable. -/
def contentType (r : Response) : String :=
  ((r.headers.values .contentType).head?.bind (·.ascii?)).getD ""

/-- Whether the body is said to be a document. -/
def isDocument (r : Response) : Bool :=
  occursIn "application/json".toList r.contentType.toList

/-- What an answer that is none of success says: a document names the error, of anything else only
the status is known. -/
def failure? (r : Response) : Option ExchangeError :=
  if r.status.isOk then none
  else if !r.isDocument then some (.status r.status.code r.status.line)
  else
    match ApplianceError.ofBody r.body with
    | .ok error => some (.appliance error)
    | .error reason => some (.errorBody reason)

/-- The body of a success. -/
def bodyOrFailure (r : Response) : Except ExchangeError Json.Bytes :=
  match r.failure? with
  | some error => .error error
  | none => .ok r.body

/-- What the body of a success denotes. -/
def decode {α : Type} (read : Json.Bytes → Except Json.Error α) (r : Response) :
    Except ExchangeError α := do
  let body ← r.bodyOrFailure
  match read body with
  | .ok value => .ok value
  | .error reason => .error (.decode reason)

/-- The document that the body of a success is. -/
def document (r : Response) : Except ExchangeError Json := r.decode Json.ofBytes

end Response

end ApplianceRest
