import ApplianceRest.Base64
import ApplianceRest.Config
import ApplianceRest.Http.Header
import ApplianceRest.Path.Lexical

/-!
# Clients

What all requests to one appliance have in common, worked out once from a configuration.
-/

namespace ApplianceRest

open Http (FieldName FieldValue Headers)

/-- What all requests to one appliance have in common. -/
structure Client where
  host : HostUrl
  /-- the path of the interface below that of the host -/
  apiPath : String
  /-- the header fields that every request starts with -/
  headers : Headers
  /-- the type of a body whose request names none -/
  contentType : Option FieldValue
  /-- the deadline that every request starts with -/
  timeout : Option Duration

namespace Client

/-- The path that every request starts with. -/
def pathPrefix (c : Client) : String := Path.join ["/", c.host.path, c.apiPath]

/-- How the library names itself to the appliance. -/
def libraryName : String := "BIG-IP REST Library v0.1.0 | Rust 1.75"

/-- The text of the `User-Agent` field. -/
def userAgent (config : Config) : String :=
  match config.userAgentPrefix with
  | some text => text ++ " | " ++ libraryName
  | none => libraryName

/-- The value for a header field. -/
def fieldValue (header text : String) : Except ConfigError FieldValue :=
  match FieldValue.ofString? text with
  | some value => .ok value
  | none => .error (.invalidHeaderValue header)

/-- The header field that shows who asks; its value is sensitive. -/
def credentialField : Credentials → Except ConfigError (FieldName × FieldValue)
  | .basic username password => do
    let pair := (username.text ++ ":" ++ password.text).toList.flatMap String.utf8EncodeChar
    let value ← fieldValue "Authorization" ("Basic " ++ .ofList (Base64.encode pair))
    return (.authorization, value.asSensitive)
  | .token token => do
    let value ← fieldValue "X-F5-Auth-Token" token.text
    return (.authToken, value.asSensitive)

/-- The client for a configuration. A header field whose text may not be one is an error; they are
looked at in the order user agent, accepted types, credentials, type of bodies. -/
def ofConfig (config : Config) : Except ConfigError Client := do
  let agent ← fieldValue "User-Agent" (userAgent config)
  let accept ← match config.content.acceptText with
    | some text => do
      let value ← fieldValue "Accept" text
      pure [(FieldName.accept, value)]
    | none => pure []
  let credential ← credentialField config.credentials
  let contentType ←
    if config.content.contentType = "" then pure none
    else some <$> fieldValue "Content-Type" config.content.contentType
  return {
    host := config.host
    apiPath := config.apiPath
    headers := ⟨(FieldName.userAgent, agent) :: accept ++ [credential]⟩
    contentType
    timeout := config.timeout }

end Client

end ApplianceRest
