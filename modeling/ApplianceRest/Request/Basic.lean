import ApplianceRest.Client
import ApplianceRest.Dict
import ApplianceRest.Http.Method
import ApplianceRest.Json.Printer
import ApplianceRest.Request.Invalid

/-!
# Requests

A request is made from settings, one after the other, on top of what its client says. Why a setting
is not accepted is remembered as what is wrong with the request; from then on no setting but that of
the method has an effect.

* `Request.edit` is what a setting does to a request, step by step and in place.
* `Request.set` makes one setting, `Request.setAll` several.
-/

namespace ApplianceRest

open Http (FieldName FieldValue Headers Method)

/-- A file from which a body is taken, and what reading it gives. -/
structure BodyFile where
  path : String
  contents : Except FileFault Json.Bytes

/-- The body of a request. -/
inductive Body where
  | empty
  | bytes (data : Json.Bytes)
  /-- a body that is produced while it is sent -/
  | stream (data : Json.Bytes)
deriving DecidableEq, Repr

namespace Body

/-- Whether there is no body at all; a body of no bytes is one. -/
def isEmpty : Body → Bool
  | .empty => true
  | _ => false

/-- The bytes that are sent. -/
def data : Body → Json.Bytes
  | .empty => []
  | .bytes data => data
  | .stream data => data

end Body

/-- A request to the appliance of a client. -/
@[ext]
structure Request where
  client : Client
  method : Method
  timeout : Duration
  headers : Headers
  body : Body
  /-- what is wrong with the request, if anything -/
  error : Option InvalidRequest
  pathPrefix : String
  subPath : String
  fields : Request.Field → Option String
  parameters : Dict (List String)

namespace Request

/-- One setting of a request. -/
inductive Setting where
  | method (method : Method)
  /-- segments behind the path prefix -/
  | pathPrefix (segments : List String)
  /-- segments behind the resource instance -/
  | pathSuffix (segments : List String)
  /-- segments behind the path of the host, in place of the path prefix -/
  | absolutePath (segments : List String)
  | category (name : String)
  | manager (name : String)
  | resource (name : String)
  | resourceInstance (fullPath : List String)
  | subResource (names : List String)
  | subInstance (fullPath : List String)
  | statistics (names : List String)
  | bodyFile (file : BodyFile)
  | bodyBytes (data : Json.Bytes)
  | bodyStream (data : Json.Bytes)
  /-- a document as body, or why there is no text for it -/
  | bodyDocument (document : Except Json.Error Json)
  | header (name : String) (values : List String)
  | parameter (key value : String)
  | timeout (timeout : Duration)

/-- A request on which nothing has been set. -/
def new (client : Client) (method : Method) : Request where
  client
  method
  timeout := client.timeout.getD .zero
  headers := client.headers
  body := .empty
  error := none
  pathPrefix := client.pathPrefix
  subPath := ""
  fields _ := none
  parameters := .empty

/-- The request with a part of its path set, whatever it was. -/
def put (r : Request) (field : Field) (value : String) : Request :=
  { r with fields := fun f => if f = field then some value else r.fields f }

/-- The error for a value without any text. -/
def emptyValue (field : Field) : InvalidRequest := .invalidSegment field "" [.empty]

/-- Work on a request in place, which may stop with what is wrong. What it has changed by then stays
changed. -/
abbrev Edit := EStateM InvalidRequest Request

/-- Sets a part of the path to one name. -/
def placeName (field : Field) (name : String) : Edit Unit := do
  match (← get).fields field with
  | some current => throw (.alreadySet field current name)
  | none =>
    if name = "" then throw (emptyValue field)
    else
      match Path.nameViolations name with
      | [] => modify (·.put field name)
      | violations => throw (.invalidSegment field name violations)

/-- The first value that breaks rules, with what it breaks. -/
def firstViolation (check : String → List Path.Violation) (values : List String) :
    Option (String × List Path.Violation) :=
  (values.map fun value => (value, check value)).find? fun (_, violations) => violations ≠ []

/-- Sets a part of the path to some names, joined. -/
def placeNames (field : Field) (names : List String) : Edit Unit := do
  let joined := Path.join names
  match (← get).fields field with
  | some current => throw (.alreadySet field current joined)
  | none =>
    if joined = "" then throw (emptyValue field)
    else
      match firstViolation Path.nameViolations names with
      | some (name, violations) => throw (.invalidSegment field name violations)
      | none => modify (·.put field joined)

/-- Sets a part of the path to the full path of an object, given in parts. The parts are checked
before anything else. -/
def placeFullPath (field : Field) (parts : List String) : Edit Unit := do
  match firstViolation Path.fullPathViolations parts with
  | some (part, violations) => throw (.invalidSegment field part violations)
  | none =>
    let encoded := Path.encodeFullPath parts
    match (← get).fields field with
    | some current => throw (.alreadySet field current encoded)
    | none =>
      if encoded = "" then throw (emptyValue field) else modify (·.put field encoded)

/-- The path of the host with segments behind it. A single segment that ends in a slash keeps that
slash if the host has a path of its own. -/
def absolutePath (client : Client) (segments : List String) : String :=
  let base := client.host.path
  let joined := Path.join [base, Path.join segments]
  match segments with
  | [segment] =>
    if 1 < base.toList.length ∧ segment.toList.getLast? = some '/' then joined ++ "/" else joined
  | _ => joined

/-- Adds values under a header field, one after the other. -/
def addValues (name : FieldName) : List FieldValue → Edit Unit
  | [] => pure ()
  | value :: rest => do
    modify fun r => { r with headers := r.headers.add name value }
    addValues name rest

/-- Puts values under a header field, in place of the ones that are there. All of them and the name
have to be allowed. -/
def putHeader (name : String) (values : List String) : Edit Unit := do
  match FieldName.ofString? name, values.mapM FieldValue.ofString? with
  | some n, some vs =>
    modify fun r => { r with headers := r.headers.erase n }
    addValues n vs
  | _, _ => throw (.invalidHeader name)

/-- What a setting does to a request, whatever has been wrong before. -/
def edit : Setting → Edit Unit
  | .method method => modify fun r => { r with method }
  | .pathPrefix segments =>
    modify fun r => { r with pathPrefix := Path.join [r.pathPrefix, Path.join segments] }
  | .pathSuffix segments =>
    modify fun r => { r with subPath := Path.join [r.subPath, Path.join segments] }
  | .absolutePath segments =>
    modify fun r => { r with pathPrefix := absolutePath r.client segments }
  | .category name => placeName .category name
  | .manager name => if name = "" then throw .emptyManager else placeName .manager name
  | .resource name => placeName .resource name
  | .resourceInstance fullPath => placeFullPath .resourceInstance fullPath
  | .subResource names => placeNames .subResource names
  | .subInstance fullPath => placeFullPath .subInstance fullPath
  | .statistics names => placeNames .statistics names
  | .bodyFile file =>
    match file.contents with
    | .ok data => modify fun r => { r with body := .bytes data }
    | .error fault => throw (.unreadableBody file.path fault)
  | .bodyBytes data => modify fun r => { r with body := .bytes data }
  | .bodyStream data => modify fun r => { r with body := .stream data }
  | .bodyDocument (.error reason) => throw (.unserializableBody reason)
  | .bodyDocument (.ok document) => do
    modify fun r => { r with headers := r.headers.set .contentType .document }
    modify fun r => { r with body := .bytes document.toBytes }
  | .header name values => putHeader name values
  | .parameter key value =>
    modify fun r =>
      { r with parameters := r.parameters.insert key ((r.parameters.get? key).getD [] ++ [value]) }
  | .timeout timeout => modify fun r => { r with timeout }

/-- Makes a setting, and remembers why if it is not accepted. On a request with something wrong only
the method can still be set. -/
def set (r : Request) (setting : Setting) : Request :=
  match setting, r.error with
  | .method method, _ => { r with method }
  | _, some _ => r
  | setting, none =>
    match (edit setting).run r with
    | .ok () r' => r'
    | .error reason r' => { r' with error := some reason }

/-- Makes settings in order. -/
def setAll (r : Request) (settings : List Setting) : Request := settings.foldl set r

end Request

end ApplianceRest
