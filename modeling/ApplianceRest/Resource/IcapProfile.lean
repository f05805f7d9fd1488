import ApplianceRest.Record.Reader
import ApplianceRest.Record.Writer

/-!
# ICAP profiles

How the local traffic manager talks to a content adaptation server.
-/

namespace ApplianceRest

open Record (Fields Wire)

/-- The settings for requests to a content adaptation server. -/
structure IcapProfile where
  kind : Option String := none
  name : String := ""
  partition : Option String := none
  fullPath : Option String := none
  selfLink : Option String := none
  defaultsFrom : Option String := none
  headerFrom : Option String := none
  host : Option String := none
  previewLength : Option UInt32 := none
  referer : Option String := none
  uri : Option String := none
  userAgent : Option String := none
deriving DecidableEq

/-- The fields of an ICAP profile on the wire. -/
def IcapProfile.fields : Fields :=
  .cons "kind" .readOnly (.optional .text) <|
  .cons "name" .required .text <|
  .cons "partition" .optional (.optional .text) <|
  .cons "fullPath" .readOnly (.optional .text) <|
  .cons "selfLink" .readOnly (.optional .text) <|
  .cons "defaultsFrom" .optional (.optional .text) <|
  .cons "headerFrom" .optional (.optional .text) <|
  .cons "host" .optional (.optional .text) <|
  .cons "previewLength" .optional (.optional (.word .u32)) <|
  .cons "referer" .optional (.optional .text) <|
  .cons "uri" .optional (.optional .text) <|
  .cons "userAgent" .optional (.optional .text) <|
  .nil

instance : Wire IcapProfile where
  shape := .record "ProfileIcap" IcapProfile.fields
  row v := (v.kind, v.name, v.partition, v.fullPath, v.selfLink, v.defaultsFrom, v.headerFrom,
    v.host, v.previewLength, v.referer, v.uri, v.userAgent, ())
  ofRow := fun (kind, name, partition, fullPath, selfLink, defaultsFrom, headerFrom, host,
    previewLength, referer, uri, userAgent, ()) =>
    ⟨kind, name, partition, fullPath, selfLink, defaultsFrom, headerFrom, host, previewLength,
     referer, uri, userAgent⟩
  ofRow_row _ := rfl
  row_ofRow _ := rfl

end ApplianceRest
