import ApplianceRest.Record.Reader
import ApplianceRest.Record.Writer

/-!
# TCP monitors

How the local traffic manager finds out over TCP whether a server is up.
-/

namespace ApplianceRest

open Record (Fields Wire)

/-- A check that a server answers over TCP. -/
structure TcpMonitor where
  kind : Option String := none
  name : String := ""
  partition : Option String := none
  fullPath : Option String := none
  selfLink : Option String := none
  defaultsFrom : Option String := none
  description : Option String := none
  destination : Option String := none
  interval : Option UInt32 := none
  timeout : Option UInt32 := none
  send : Option String := none
  recv : Option String := none
  recvDisable : Option String := none
  reverse : Option String := none
  transparent : Option String := none
  manualResume : Option String := none
  timeUntilUp : Option UInt32 := none
  upInterval : Option UInt32 := none
deriving DecidableEq

/-- The fields of a TCP monitor on the wire. -/
def TcpMonitor.fields : Fields :=
  .cons "kind" .readOnly (.optional .text) <|
  .cons "name" .required .text <|
  .cons "partition" .optional (.optional .text) <|
  .cons "fullPath" .readOnly (.optional .text) <|
  .cons "selfLink" .readOnly (.optional .text) <|
  .cons "defaultsFrom" .optional (.optional .text) <|
  .cons "description" .optional (.optional .text) <|
  .cons "destination" .optional (.optional .text) <|
  .cons "interval" .optional (.optional (.word .u32)) <|
  .cons "timeout" .optional (.optional (.word .u32)) <|
  .cons "send" .optional (.optional .text) <|
  .cons "recv" .optional (.optional .text) <|
  .cons "recvDisable" .optional (.optional .text) <|
  .cons "reverse" .optional (.optional .text) <|
  .cons "transparent" .optional (.optional .text) <|
  .cons "manualResume" .optional (.optional .text) <|
  .cons "timeUntilUp" .optional (.optional (.word .u32)) <|
  .cons "upInterval" .optional (.optional (.word .u32)) <|
  .nil

instance : Wire TcpMonitor where
  shape := .record "MonitorTcp" TcpMonitor.fields
  row v := (v.kind, v.name, v.partition, v.fullPath, v.selfLink, v.defaultsFrom, v.description,
    v.destination, v.interval, v.timeout, v.send, v.recv, v.recvDisable, v.reverse, v.transparent,
    v.manualResume, v.timeUntilUp, v.upInterval, ())
  ofRow := fun (kind, name, partition, fullPath, selfLink, defaultsFrom, description, destination,
    interval, timeout, send, recv, recvDisable, reverse, transparent, manualResume, timeUntilUp,
    upInterval, ()) =>
    ⟨kind, name, partition, fullPath, selfLink, defaultsFrom, description, destination, interval,
     timeout, send, recv, recvDisable, reverse, transparent, manualResume, timeUntilUp,
     upInterval⟩
  ofRow_row _ := rfl
  row_ofRow _ := rfl

end ApplianceRest
