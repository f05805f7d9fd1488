import ApplianceRest.Record.Reader
import ApplianceRest.Record.Writer

/-!
# NAPTR pools

The global traffic manager's pools of name authority pointers.
-/

namespace ApplianceRest

open Record (Fields Wire)

/-- A pool of name authority pointers. -/
structure NaptrPool where
  kind : Option String := none
  name : String := ""
  partition : Option String := none
  fullPath : Option String := none
  selfLink : Option String := none
  description : Option String := none
  enabled : Option Bool := none
  loadBalancingMode : Option String := none
  alternateMode : Option String := none
  fallbackMode : Option String := none
  ttl : Option UInt32 := none
  monitor : Option String := none
deriving DecidableEq

/-- The fields of a NAPTR pool on the wire. -/
def NaptrPool.fields : Fields :=
  .cons "kind" .readOnly (.optional .text) <|
  .cons "name" .required .text <|
  .cons "partition" .optional (.optional .text) <|
  .cons "fullPath" .readOnly (.optional .text) <|
  .cons "selfLink" .readOnly (.optional .text) <|
  .cons "description" .optional (.optional .text) <|
  .cons "enabled" .optional (.optional .flag) <|
  .cons "loadBalancingMode" .optional (.optional .text) <|
  .cons "alternateMode" .optional (.optional .text) <|
  .cons "fallbackMode" .optional (.optional .text) <|
  .cons "ttl" .optional (.optional (.word .u32)) <|
  .cons "monitor" .optional (.optional .text) <|
  .nil

instance : Wire NaptrPool where
  shape := .record "NaptrPool" NaptrPool.fields
  row v := (v.kind, v.name, v.partition, v.fullPath, v.selfLink, v.description, v.enabled,
    v.loadBalancingMode, v.alternateMode, v.fallbackMode, v.ttl, v.monitor, ())
  ofRow := fun (kind, name, partition, fullPath, selfLink, description, enabled,
    loadBalancingMode, alternateMode, fallbackMode, ttl, monitor, ()) =>
    ⟨kind, name, partition, fullPath, selfLink, description, enabled, loadBalancingMode,
     alternateMode, fallbackMode, ttl, monitor⟩
  ofRow_row _ := rfl
  row_ofRow _ := rfl

end ApplianceRest
