import ApplianceRest.Line
import ApplianceRest.Request.Render

/-!
# Sending requests

A request with something wrong is never sent; any other one is handed over exactly once, and the
answer is taken as what was asked for or as an error.

* `Request.send` gives the answer of a success.
* `Request.sendForBody`, `Request.sendFor` and `Request.sendForNothing` give what it brings.
-/

namespace ApplianceRest.Request

open Http (Headers)

/-- The header fields that are sent: those of the request, and the client's type of bodies where
there is a body and the request names no type for it. -/
def sentHeaders (r : Request) : Headers :=
  match r.client.contentType with
  | some value =>
    if r.body.isEmpty || r.headers.contains .contentType then r.headers
    else r.headers.set .contentType value
  | none => r.headers

/-- What is handed over for a request. -/
def message (r : Request) : Message := ⟨r.method, r.url, r.sentHeaders, r.body.data⟩

/-- Takes a reply: an answer that is a success, or why there is none. A silent line is given up at
the deadline of the request, and never where that is empty. An answer that would come behind the
deadline is not told from one that never comes: the request no longer waits for it. -/
def take (r : Request) : Reply → Outcome ExchangeError Response
  | .answer response =>
    match response.failure? with
    | some error => .error error
    | none => .ok response
  | .cutShort _ => .error .network
  | .closed => .error .network
  | .silent => if r.timeout.isZero then .waiting else .error (.timeout r.timeout)

/-- Sends a request and gives the answer of a success. -/
def send (r : Request) (line : Line) : Outcome ExchangeError Response × Line :=
  match r.error with
  | some reason => (.error (.invalidRequest reason), line)
  | none =>
    let (reply, line) := line.exchange r.message
    (r.take reply, line)

/-- Sends a request and gives the bytes of the answer. -/
def sendForBody (r : Request) (line : Line) : Outcome ExchangeError Json.Bytes × Line :=
  let (outcome, line) := r.send line
  (outcome.map (·.body), line)

/-- Sends a request and gives what the body of the answer denotes. -/
def sendFor {α : Type} (read : Json.Bytes → Except Json.Error α) (r : Request) (line : Line) :
    Outcome ExchangeError α × Line :=
  let (outcome, line) := r.send line
  (outcome.bind fun response => .ofExcept (response.decode read), line)

/-- Sends a request and asks only for success. -/
def sendForNothing (r : Request) (line : Line) : Outcome ExchangeError Unit × Line :=
  let (outcome, line) := r.send line
  (outcome.map fun _ => (), line)

/-- Sends a request and gives the bytes of the answer, unless the caller has lost interest before
anything is sent. -/
def sendForBodyUnless (cancelled : Bool) (r : Request) (line : Line) :
    Outcome ExchangeError Json.Bytes × Line :=
  if cancelled then (.error .cancelled, line) else r.sendForBody line

end ApplianceRest.Request
