import ApplianceRest.FileTree
import ApplianceRest.Json.Message
import ApplianceRest.Path.Rule

/-!
# Invalid requests

The parts of a request's path that are set once, and what can be wrong with a request before it is
ever sent.
-/

namespace ApplianceRest

/-- A part of the path that is set at most once. -/
inductive Request.Field where
  | category
  | manager
  | resource
  | resourceInstance
  | subResource
  | subInstance
  | statistics
deriving DecidableEq, Repr

/-- What messages call a part of the path. -/
def Request.Field.label : Request.Field → String
  | .category => "resource category"
  | .manager => "manager name"
  | .resource => "resource"
  | .resourceInstance => "resource instance"
  | .subResource => "sub-resource"
  | .subInstance => "sub-resource instance"
  | .statistics => "sub-stats resource"

/-- What is wrong with a request. -/
inductive InvalidRequest where
  /-- a part of the path was to be set again -/
  | alreadySet (field : Request.Field) (current attempted : String)
  /-- a name breaks the rules for its part of the path -/
  | invalidSegment (field : Request.Field) (value : String) (violations : List Path.Violation)
  | emptyManager
  | unreadableBody (path : String) (fault : FileFault)
  | unserializableBody (reason : Json.Error)
  | invalidHeader (name : String)
deriving DecidableEq, Repr

/-- The wording of what is wrong with a request. -/
def InvalidRequest.message : InvalidRequest → String
  | .alreadySet field current attempted =>
    field.label ++ " already set to " ++ Text.quoted current ++ ", cannot change to " ++
      Text.quoted attempted
  | .invalidSegment field value violations =>
    "invalid " ++ field.label ++ " " ++ Text.quoted value ++ ": [" ++
      ", ".intercalate (violations.map (·.message)) ++ "]"
  | .emptyManager => "manager name may not be empty"
  | .unreadableBody path fault => "cannot read request body from " ++ path ++ ": " ++ fault.message
  | .unserializableBody reason => "cannot serialize request body: " ++ reason.message
  | .invalidHeader name => "invalid header " ++ Text.quoted name

end ApplianceRest
