import ApplianceRest.Duration
import ApplianceRest.Host

/-!
# Configuration

What a client has to know about an appliance: where it is, who asks, and how to talk to it. A
configuration is made from single settings; of two settings of one kind the later one counts.

* `Config.ofSettings` makes a configuration from settings in order.
* `Username`, `Password` and `AuthToken` are the non-empty texts that credentials are made of.
-/

namespace ApplianceRest

/-- Why there is no configuration, or no client for it. -/
inductive ConfigError where
  | emptyUsername
  | emptyPassword
  | emptyToken
  /-- the text, trimmed, is no host address -/
  | invalidHost (url : String)
  | missingHost
  | missingCredentials
  /-- the text for a header field holds a control character -/
  | invalidHeaderValue (header : String)
deriving DecidableEq, Repr

/-- The wording of a configuration error. -/
def ConfigError.message : ConfigError → String
  | .emptyUsername => "Username cannot be empty. Please provide the name of a BIG-IP user."
  | .emptyPassword => "Password cannot be empty. Please provide the password of the BIG-IP user."
  | .emptyToken =>
    "Auth token cannot be empty. Please provide a token issued by /mgmt/shared/authn/login."
  | .invalidHost url =>
    "Invalid host URL '" ++ url ++ "'. Please provide an http or https URL without query or " ++
      "fragment (e.g., 'https://10.0.0.1:8443')."
  | .missingHost =>
    "Missing required field: 'host'. This field must be set before building the configuration."
  | .missingCredentials =>
    "No credentials configured. Set either a username and password or an auth token."
  | .invalidHeaderValue header => "Invalid value for header '" ++ header ++ "'."

/-! ## Credentials -/

/-- The name of a user. -/
structure Username where
  text : String
  nonempty : text ≠ ""
deriving DecidableEq

/-- A password; its description hides it. -/
structure Password where
  text : String
  nonempty : text ≠ ""
deriving DecidableEq

/-- A token that the appliance issued; its description hides it. -/
structure AuthToken where
  text : String
  nonempty : text ≠ ""
deriving DecidableEq

/-- The user name that a text is. -/
def Username.ofString (text : String) : Except ConfigError Username :=
  if h : text = "" then .error .emptyUsername else .ok ⟨text, h⟩

/-- The password that a text is. -/
def Password.ofString (text : String) : Except ConfigError Password :=
  if h : text = "" then .error .emptyPassword else .ok ⟨text, h⟩

/-- The token that a text is. -/
def AuthToken.ofString (text : String) : Except ConfigError AuthToken :=
  if h : text = "" then .error .emptyToken else .ok ⟨text, h⟩

/-- What may be shown of a password: nothing of it. -/
def Password.description (_ : Password) : String := "Password(*****)"

/-- What may be shown of a token: nothing of it. -/
def AuthToken.description (_ : AuthToken) : String := "AuthToken(*****)"

/-- The host address that a text is. The error names the text as it was looked at, without the
white space around it. -/
def HostUrl.ofString (text : String) : Except ConfigError HostUrl :=
  match HostUrl.ofString? text with
  | some host => .ok host
  | none => .error (.invalidHost (.ofList (Text.trim text.toList)))

/-- How a client shows who it is: by a name and a password, or by a token. -/
inductive Credentials where
  | basic (username : Username) (password : Password)
  | token (token : AuthToken)
deriving DecidableEq

/-! ## Content -/

/-- What a client sends and what it can read. -/
structure Content where
  accept : Option String := none
  contentType : String := "application/json"
deriving DecidableEq, Repr

/-- The text of the `Accept` field: as set, else the type of the content before anything else, and
none where neither is given. -/
def Content.acceptText (c : Content) : Option String :=
  let fromType := if c.contentType = "" then none else some (c.contentType ++ ", */*")
  match c.accept with
  | some accept => if accept = "" then fromType else some accept
  | none => fromType

/-! ## Configurations -/

/-- What a client has to know about an appliance. -/
structure Config where
  host : HostUrl
  credentials : Credentials
  apiPath : String
  /-- the deadline of requests that set none; never an empty one -/
  timeout : Option Duration
  acceptInvalidCertificates : Bool
  userAgentPrefix : Option String
  content : Content
deriving DecidableEq

namespace Config

/-- One setting. -/
inductive Setting where
  | host (host : HostUrl)
  | credentials (username : Username) (password : Password)
  | authToken (token : AuthToken)
  | apiPath (path : String)
  | timeout (timeout : Duration)
  | acceptInvalidCertificates (accept : Bool)
  | userAgentPrefix (text : String)
  | content (content : Content)

/-- The settings made so far. -/
structure Draft where
  host : Option HostUrl := none
  credentials : Option Credentials := none
  apiPath : Option String := none
  timeout : Option Duration := none
  acceptInvalidCertificates : Option Bool := none
  userAgentPrefix : Option String := none
  content : Option Content := none

/-- Makes one more setting. A user with a password and a token are two values of one setting. -/
def Draft.set (d : Draft) : Setting → Draft
  | .host host => { d with host := some host }
  | .credentials username password => { d with credentials := some (.basic username password) }
  | .authToken token => { d with credentials := some (.token token) }
  | .apiPath path => { d with apiPath := some path }
  | .timeout timeout => { d with timeout := some timeout }
  | .acceptInvalidCertificates accept => { d with acceptInvalidCertificates := some accept }
  | .userAgentPrefix text => { d with userAgentPrefix := some text }
  | .content content => { d with content := some content }

/-- The configuration that the settings make. Host and credentials have to be set, and a host that
is missing is reported first; an empty deadline is none. -/
def Draft.build (d : Draft) : Except ConfigError Config :=
  match d.host with
  | none => .error .missingHost
  | some host =>
    match d.credentials with
    | none => .error .missingCredentials
    | some credentials =>
      .ok {
        host
        credentials
        apiPath := d.apiPath.getD ""
        timeout := d.timeout.filter (!·.isZero)
        acceptInvalidCertificates := d.acceptInvalidCertificates.getD false
        userAgentPrefix := d.userAgentPrefix
        content := d.content.getD {} }

/-- The configuration that settings make, in order. -/
def ofSettings (settings : List Setting) : Except ConfigError Config :=
  (settings.foldl Draft.set {}).build

end Config

end ApplianceRest
