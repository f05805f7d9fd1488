import ApplianceRest.Record.Reader
import ApplianceRest.Record.Writer

/-!
# Statistics

The figures that the appliance keeps about an object or about all objects of a kind.
-/

namespace ApplianceRest

open Record (Fields Wire)

/-- One figure: a count, or a state in words. -/
structure StatValue where
  value : Option Int64 := none
  description : Option String := none
deriving DecidableEq

/-- The fields of one figure on the wire. -/
def StatValue.fields : Fields :=
  .cons "value" .omittable (.optional (.word .i64)) <|
  .cons "description" .omittable (.optional .text) <|
  .nil

instance : Wire StatValue where
  shape := .record "StatValue" StatValue.fields
  row v := (v.value, v.description, ())
  ofRow := fun (value, description, ()) =>
    ⟨value, description⟩
  ofRow_row _ := rfl
  row_ofRow _ := rfl

/-- The figures of one object, by name. -/
structure NestedStats where
  kind : String := ""
  selfLink : String := ""
  entries : Dict StatValue := .empty
deriving DecidableEq

/-- The fields of one object's figures on the wire. -/
def NestedStats.fields : Fields :=
  .cons "kind" .omittable .text <|
  .cons "selfLink" .omittable .text <|
  .cons "entries" .defaulted (.dict (.record "StatValue" StatValue.fields)) <|
  .nil

instance : Wire NestedStats where
  shape := .record "NestedStats" NestedStats.fields
  row v := (v.kind, v.selfLink, v.entries.map Wire.row, ())
  ofRow := fun (kind, selfLink, entries, ()) =>
    ⟨kind, selfLink, entries.map Wire.ofRow⟩
  ofRow_row v := congrArg (fun m => { v with entries := m }) (Wire.dict_ofRow_row v.entries)
  row_ofRow := fun (kind, selfLink, entries, ()) =>
    congrArg (fun m => (kind, selfLink, m, ())) (Wire.dict_row_ofRow (α := StatValue) entries)

/-- The count under a name. -/
def NestedStats.value (s : NestedStats) (name : String) : Option Int64 :=
  (s.entries.get? name).bind (·.value)

/-- The state under a name, in words. -/
def NestedStats.description (s : NestedStats) (name : String) : Option String :=
  (s.entries.get? name).bind (·.description)

/-- The figures of one object, as they are listed. -/
structure StatsEntry where
  nestedStats : NestedStats := {}
deriving DecidableEq

/-- The fields of a listed entry on the wire. -/
def StatsEntry.fields : Fields :=
  .cons "nestedStats" .defaulted (.record "NestedStats" NestedStats.fields) <|
  .nil

instance : Wire StatsEntry where
  shape := .record "StatsEntry" StatsEntry.fields
  row v := (Wire.row v.nestedStats, ())
  ofRow := fun (nestedStats, ()) =>
    ⟨Wire.ofRow nestedStats⟩
  ofRow_row v := congrArg StatsEntry.mk (Wire.ofRow_row v.nestedStats)
  row_ofRow := fun (nestedStats, ()) =>
    congrArg (fun m => (m, ())) (Wire.row_ofRow (α := NestedStats) nestedStats)

/-- The figures of some objects, by the address of each object. -/
structure Stats where
  kind : String := ""
  selfLink : String := ""
  entries : Dict StatsEntry := .empty
deriving DecidableEq

/-- The fields of the statistics on the wire. -/
def Stats.fields : Fields :=
  .cons "kind" .omittable .text <|
  .cons "selfLink" .omittable .text <|
  .cons "entries" .defaulted (.dict (.record "StatsEntry" StatsEntry.fields)) <|
  .nil

instance : Wire Stats where
  shape := .record "Stats" Stats.fields
  row v := (v.kind, v.selfLink, v.entries.map Wire.row, ())
  ofRow := fun (kind, selfLink, entries, ()) =>
    ⟨kind, selfLink, entries.map Wire.ofRow⟩
  ofRow_row v := congrArg (fun m => { v with entries := m }) (Wire.dict_ofRow_row v.entries)
  row_ofRow := fun (kind, selfLink, entries, ()) =>
    congrArg (fun m => (kind, selfLink, m, ())) (Wire.dict_row_ofRow (α := StatsEntry) entries)

/-- The figures of the objects, in the order of their addresses. -/
def Stats.objects (s : Stats) : List NestedStats := s.entries.values.map (·.nestedStats)

end ApplianceRest
