import ApplianceRest.Http.Method
import ApplianceRest.Response

/-!
# The line to an appliance

The other end of an exchange, as far as a client can tell: each message meets the next of the
replies that are still to come. What has been handed over is kept as it was handed over, so it can
be said what the appliance was sent.

When an answer comes is no part of a reply. One that comes too late is a reply of silence, as is one
that never comes: while the request waits there is none.
-/

namespace ApplianceRest

open Http (Headers Method)

/-- What goes to the appliance. -/
structure Message where
  method : Method
  target : String
  headers : Headers
  body : Json.Bytes

/-- What the other end does with a message. -/
inductive Reply where
  /-- it answers -/
  | answer (response : Response)
  /-- it starts to answer, and its answer breaks off -/
  | cutShort (response : Response)
  /-- it closes the connection -/
  | closed
  /-- it does not answer while the request waits, be it that it answers later or never -/
  | silent

/-- The line to an appliance. -/
structure Line where
  /-- whether a connection can be made at all -/
  isUp : Bool
  /-- the replies still to come -/
  replies : List Reply
  /-- the messages handed over so far, each with the reply it met -/
  handed : List (Message × Reply)

namespace Line

/-- A line on which nothing has been said and these replies are to come. -/
def withReplies (replies : List Reply) : Line := ⟨true, replies, []⟩

/-- A line on which no connection can be made. -/
def down : Line := ⟨false, [], []⟩

/-- Hands a message over: what comes back, and the line after it. Without a connection nothing is
handed over; with no reply left the connection is closed. -/
def exchange (line : Line) (m : Message) : Reply × Line :=
  if !line.isUp then (.closed, line)
  else
    let reply := line.replies.head?.getD .closed
    (reply, { line with
      replies := line.replies.tail
      handed := line.handed ++ [(m, reply)] })

/-- The messages that the other end took, in order; one that it let hang is not among them. -/
def messages (line : Line) : List Message :=
  line.handed.filterMap fun (m, reply) =>
    match reply with
    | .silent => none
    | _ => some m

end Line

/-- How a call ends, if it does. -/
inductive Outcome (ε α : Type) where
  | ok (value : α)
  | error (error : ε)
  /-- the call waits, without a deadline, for an answer that does not come -/
  | waiting

namespace Outcome

variable {ε ζ α β : Type}

/-- The outcome that a result is. -/
def ofExcept : Except ε α → Outcome ε α
  | .ok value => .ok value
  | .error e => .error e

/-- The outcome with another value. -/
def map (f : α → β) : Outcome ε α → Outcome ε β
  | .ok value => .ok (f value)
  | .error e => .error e
  | .waiting => .waiting

/-- The outcome with another error. -/
def mapError (f : ε → ζ) : Outcome ε α → Outcome ζ α
  | .ok value => .ok value
  | .error e => .error (f e)
  | .waiting => .waiting

/-- Goes on with the value. -/
def bind (f : α → Outcome ε β) : Outcome ε α → Outcome ε β
  | .ok value => f value
  | .error e => .error e
  | .waiting => .waiting

end Outcome

end ApplianceRest
