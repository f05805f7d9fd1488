import ApplianceRest.Proofs.Client.Credentials
import ApplianceRest.Proofs.Path.Cleanness

/-!
# From settings to a client

A configuration is made from settings in order, and of those of one kind the last one counts. A
user name with a password and a token are of one kind. What a client starts its requests with is
worked out from the configuration, where each text that goes into a header field is looked at.

* `get_foldl_set`: after a run of settings, each part of the draft is the last one of its kind.
* `Checks`: a computation that fails exactly if one of some texts may not be sent, which is kept by
  putting computations one after the other.
* `client_reflects_settings`: when there is a configuration and a client, and what they are.
-/

namespace ApplianceRest

open Http (FieldName FieldValue)

namespace Config

/-! ## The last setting of each kind -/

namespace Setting

/-- The host that a setting is about. -/
def host? : Setting → Option HostUrl
  | .host url => some url
  | _ => none

/-- The credentials that a setting is about, of either form. -/
def credentials? : Setting → Option Credentials
  | .credentials username password => some (.basic username password)
  | .authToken token => some (.token token)
  | _ => none

/-- The path of the interface that a setting is about. -/
def apiPath? : Setting → Option String
  | .apiPath path => some path
  | _ => none

/-- The deadline that a setting is about. -/
def timeout? : Setting → Option Duration
  | .timeout deadline => some deadline
  | _ => none

/-- Whether certificates that do not hold are taken, if a setting is about this. -/
def acceptInvalidCertificates? : Setting → Option Bool
  | .acceptInvalidCertificates accept => some accept
  | _ => none

/-- The text in front of the name of the library that a setting is about. -/
def userAgentPrefix? : Setting → Option String
  | .userAgentPrefix text => some text
  | _ => none

/-- The content that a setting is about. -/
def content? : Setting → Option Content
  | .content types => some types
  | _ => none

end Setting

/-- What the last one of some settings that is of a kind says. -/
def lastOf {α : Type} (kind : Setting → Option α) (settings : List Setting) : Option α :=
  (settings.filterMap kind).getLast?

variable {α : Type} {kind : Setting → Option α}

theorem lastOf_concat (before : List Setting) (s : Setting) :
    lastOf kind (before ++ [s]) = (kind s).or (lastOf kind before) := by
  unfold lastOf
  rw [List.filterMap_append, List.getLast?_append]
  cases hs : kind s with
  | none => simp [hs]
  | some value => simp [hs]

theorem lastOf_eq_none {settings : List Setting} :
    lastOf kind settings = none ↔ ∀ s ∈ settings, kind s = none := by
  unfold lastOf
  rw [List.getLast?_eq_none_iff, List.filterMap_eq_nil_iff]

/-- Where one more setting puts its value into a part of the draft if it is of a kind, and leaves
the part alone if it is not, a run of settings leaves the last value of this kind. -/
theorem get_foldl_set (get : Draft → Option α) (kind : Setting → Option α) (hnone : get {} = none)
    (hset : ∀ d s, get (d.set s) = (kind s).or (get d)) (settings : List Setting) :
    get (settings.foldl Draft.set {}) = lastOf kind settings := by
  induction settings using List.reverseRec with
  | nil => exact hnone
  | append_singleton before s ih => rw [List.foldl_concat, hset, ih, lastOf_concat]

/-- What a configuration has from the settings that it is made of: of each kind the last value, or
what stands in for it. -/
structure Reflects (settings : List Setting) (config : Config) : Prop where
  host : lastOf Setting.host? settings = some config.host
  credentials : lastOf Setting.credentials? settings = some config.credentials
  apiPath : config.apiPath = (lastOf Setting.apiPath? settings).getD ""
  timeout : config.timeout = (lastOf Setting.timeout? settings).filter (!·.isZero)
  acceptInvalidCertificates : config.acceptInvalidCertificates =
    (lastOf Setting.acceptInvalidCertificates? settings).getD false
  userAgentPrefix : config.userAgentPrefix = lastOf Setting.userAgentPrefix? settings
  content : config.content = (lastOf Setting.content? settings).getD {}

/-- There is no configuration without a host or without credentials, and with both there is one. -/
theorem ofSettings_cases (settings : List Setting) :
    (lastOf Setting.host? settings = none ∧ ofSettings settings = .error .missingHost) ∨
      (lastOf Setting.host? settings ≠ none ∧ lastOf Setting.credentials? settings = none ∧
        ofSettings settings = .error .missingCredentials) ∨
      ∃ config, ofSettings settings = .ok config ∧ config.Reflects settings := by
  have hhost := get_foldl_set Draft.host Setting.host? rfl
    (by intro d s; cases s <;> rfl) settings
  have hcredentials := get_foldl_set Draft.credentials Setting.credentials? rfl
    (by intro d s; cases s <;> rfl) settings
  have hapi := get_foldl_set Draft.apiPath Setting.apiPath? rfl
    (by intro d s; cases s <;> rfl) settings
  have htimeout := get_foldl_set Draft.timeout Setting.timeout? rfl
    (by intro d s; cases s <;> rfl) settings
  have hcertificates := get_foldl_set Draft.acceptInvalidCertificates
    Setting.acceptInvalidCertificates? rfl (by intro d s; cases s <;> rfl) settings
  have hagent := get_foldl_set Draft.userAgentPrefix Setting.userAgentPrefix? rfl
    (by intro d s; cases s <;> rfl) settings
  have hcontent := get_foldl_set Draft.content Setting.content? rfl
    (by intro d s; cases s <;> rfl) settings
  unfold ofSettings Draft.build
  rw [hhost, hcredentials, hapi, htimeout, hcertificates, hagent, hcontent]
  cases hlast : lastOf Setting.host? settings with
  | none => exact Or.inl ⟨rfl, rfl⟩
  | some host =>
    cases hlast' : lastOf Setting.credentials? settings with
    | none => exact Or.inr (Or.inl ⟨Option.some_ne_none _, rfl, rfl⟩)
    | some credentials => exact Or.inr (Or.inr ⟨_, rfl, hlast, hlast', rfl, rfl, rfl, rfl, rfl⟩)

end Config

/-! ## Texts that may be sent -/

/-- Whether a text may be the value of a header field: no byte of it is a control character other
than the tab. -/
def IsSendable (text : String) : Prop :=
  ∀ b ∈ Text.bytes text.toList, (0x20 ≤ b ∨ b = 0x09) ∧ b ≠ 0x7F

theorem isSendable_iff {text : String} :
    IsSendable text ↔ (Text.bytes text.toList).all Http.isValueByte = true := by
  unfold IsSendable
  rw [List.all_eq_true]
  apply forall₂_congr
  intro b _
  have htab : (0x09 : UInt8) ≠ 0x7F := by decide
  unfold Http.isValueByte
  rw [Bool.or_eq_true, Bool.and_eq_true, beq_iff_eq, decide_eq_true_eq, bne_iff_ne]
  constructor
  · rintro ⟨hprintable | rfl, hdelete⟩
    · exact Or.inr ⟨hprintable, hdelete⟩
    · exact Or.inl rfl
  · rintro (rfl | ⟨hprintable, hdelete⟩)
    · exact ⟨Or.inr rfl, htab⟩
    · exact ⟨Or.inl hprintable, hdelete⟩

theorem ofString_of_isSendable {text : String} (h : IsSendable text) :
    FieldValue.ofString? text = some ⟨Text.bytes text.toList, false, isSendable_iff.mp h⟩ :=
  FieldValue.ofString_eq_some.mpr ⟨rfl, rfl⟩

namespace Client

/-- A computation that looks at some texts on its way: it gives something if all of them may be
sent, and else it fails because of a header field. -/
def Checks {α : Type} (x : Except ConfigError α) (texts : List String) : Prop :=
  ((∀ text ∈ texts, IsSendable text) ∧ ∃ a, x = .ok a) ∨
    ((∃ text ∈ texts, ¬IsSendable text) ∧ ∃ header, x = .error (.invalidHeaderValue header))

variable {α β : Type} {x : Except ConfigError α} {texts more : List String}

theorem checks_ok (a : α) : Checks (.ok a) [] :=
  Or.inl ⟨List.forall_mem_nil _, a, rfl⟩

/-- One computation after another looks at the texts of both. -/
theorem Checks.bind {f : α → Except ConfigError β} (h : Checks x texts)
    (hf : ∀ a, x = .ok a → Checks (f a) more) : Checks (x >>= f) (texts ++ more) := by
  rcases h with ⟨hall, a, ha⟩ | ⟨⟨text, hmem, hnot⟩, header, hx⟩
  · rw [ha]
    rcases hf a ha with ⟨hmore, b, hb⟩ | ⟨⟨text, hmem, hnot⟩, header, hx⟩
    · exact Or.inl ⟨List.forall_mem_append.mpr ⟨hall, hmore⟩, b, hb⟩
    · exact Or.inr ⟨⟨text, List.mem_append_right _ hmem, hnot⟩, header, hx⟩
  · rw [hx]
    exact Or.inr ⟨⟨text, List.mem_append_left _ hmem, hnot⟩, header, rfl⟩

theorem Checks.map (h : Checks x texts) (f : α → β) : Checks (f <$> x) texts := by
  rcases h with ⟨hall, a, rfl⟩ | ⟨hnot, header, rfl⟩
  · exact Or.inl ⟨hall, f a, rfl⟩
  · exact Or.inr ⟨hnot, header, rfl⟩

/-- What is looked at decides whether there is a result. -/
theorem Checks.exists_ok_iff (h : Checks x texts) :
    (∃ a, x = .ok a) ↔ ∀ text ∈ texts, IsSendable text := by
  rcases h with ⟨hall, hok⟩ | ⟨⟨text, hmem, hnot⟩, header, rfl⟩
  · exact iff_of_true hok hall
  · refine iff_of_false ?_ fun hall => hnot (hall text hmem)
    rintro ⟨a, ha⟩
    cases ha

theorem Checks.of_error {e : ConfigError} (h : Checks x texts) (he : x = .error e) :
    ∃ header, e = .invalidHeaderValue header := by
  rcases h with ⟨-, a, ha⟩ | ⟨-, header, hx⟩
  · cases he.symm.trans ha
  · cases he.symm.trans hx
    exact ⟨header, rfl⟩

theorem checks_fieldValue (header text : String) : Checks (fieldValue header text) [text] := by
  by_cases htext : IsSendable text
  · exact Or.inl ⟨List.forall_mem_singleton.mpr htext,
      ⟨_, fieldValue_eq_ok.mpr (ofString_of_isSendable htext)⟩⟩
  · refine Or.inr ⟨⟨text, List.mem_singleton_self text, htext⟩, header, ?_⟩
    have hnone : FieldValue.ofString? text = none := by
      unfold FieldValue.ofString? FieldValue.ofBytes?
      exact dif_neg (mt isSendable_iff.mpr htext)
    unfold fieldValue
    rw [hnone]

/-- The text of credentials that might not be one for a header field: that of a token. A user name
with a password is encoded first. -/
def tokenText? : Credentials → Option String
  | .basic _ _ => none
  | .token token => some token.text

theorem checks_credentialField (credentials : Credentials) :
    Checks (credentialField credentials) (tokenText? credentials).toList := by
  cases credentials with
  | basic username password => exact Or.inl ⟨List.forall_mem_nil _, _, credentialField_basic _ _⟩
  | token token =>
    have hsplit : (tokenText? (.token token)).toList = [token.text] ++ [] := rfl
    rw [hsplit]
    exact (checks_fieldValue _ token.text).bind fun _ _ => checks_ok _

/-- The text that names the library, behind what a configuration has to put in front of it. -/
def agentText (config : Config) : String :=
  config.userAgentPrefix.elim "" (· ++ " | ") ++ "BIG-IP REST Library v0.1.0 | Rust 1.75"

theorem userAgent_eq (config : Config) : userAgent config = agentText config := by
  unfold userAgent agentText
  cases config.userAgentPrefix with
  | none => rfl
  | some text => rfl

/-- The text that says what is accepted: what is set, and where that is nothing, the type of bodies
before any other one. Without such a type there is no text. -/
def acceptedText? (content : Content) : Option String :=
  if content.accept.getD "" ≠ "" then content.accept
  else if content.contentType ≠ "" then some (content.contentType ++ ", */*")
  else none

theorem acceptText_eq (content : Content) : content.acceptText = acceptedText? content := by
  rcases content with ⟨accept, contentType⟩
  unfold Content.acceptText acceptedText?
  cases accept with
  | none => by_cases htype : contentType = "" <;> simp [htype]
  | some accept =>
    by_cases haccept : accept = ""
    · by_cases htype : contentType = "" <;> simp [haccept, htype]
    · simp [haccept]

/-- The texts of a configuration that go into header fields as they are. -/
def fieldTexts (config : Config) : List String :=
  [agentText config] ++ ((acceptedText? config.content).toList ++
    ((tokenText? config.credentials).toList ++ [config.content.contentType]))

/-- There is a client for a configuration exactly if its texts may be sent. -/
theorem checks_ofConfig (config : Config) : Checks (ofConfig config) (fieldTexts config) := by
  unfold ofConfig fieldTexts
  rw [← userAgent_eq, ← acceptText_eq]
  apply (checks_fieldValue "User-Agent" (userAgent config)).bind
  intro agent _
  -- whether or not there are accepted types, what comes behind them is the same
  extract_lets finish
  have hfinish : ∀ accept, Checks (finish accept)
      ((tokenText? config.credentials).toList ++ [config.content.contentType]) := by
    intro accept
    apply (checks_credentialField config.credentials).bind
    intro credential _
    by_cases hempty : config.content.contentType = ""
    · -- no type at all: the empty text may be sent, but is not
      refine Or.inl ⟨?_, _, if_pos hempty⟩
      intro text htext b hb
      rw [List.mem_singleton.mp htext, hempty] at hb
      cases hb
    · dsimp only
      rw [if_neg hempty]
      exact ((checks_fieldValue _ config.content.contentType).map some).bind fun _ _ => checks_ok _
  cases config.content.acceptText with
  | none => exact hfinish []
  | some text => exact (checks_fieldValue "Accept" text).bind fun value _ => hfinish _

/-! ## What a client is made of -/

/-- The path that requests start with is the root, the path of the host and that of the interface,
put together and cleaned. -/
theorem pathPrefix_eq_clean (client : Client) :
    client.pathPrefix = Path.clean ("/" ++ client.host.path ++ "/" ++ client.apiPath) := by
  have hnames : Path.names ("/" ++ client.host.path ++ "/" ++ client.apiPath).toList =
      Path.names client.host.path.toList ++ Path.names client.apiPath.toList := by
    rw [Path.toList_slash, String.toList_append, Path.names, Path.elements_append_slash,
      List.filter_append]
    exact congrArg (· ++ _) (Path.names_slash _)
  have hjoined : Path.names (Path.together (["/", client.host.path, client.apiPath].map
      String.toList)) = Path.names client.host.path.toList ++ Path.names client.apiPath.toList := by
    rw [Path.names_together, List.flatMap_cons, List.flatMap_cons, List.flatMap_singleton]
    rfl
  have hroot : Path.isRooted (Path.together (["/", client.host.path, client.apiPath].map
      String.toList)) = true := by
    rw [Path.isRooted_together, Path.startsAtRoot_cons]
    rfl
  have hne : Path.together (["/", client.host.path, client.apiPath].map String.toList) ≠ [] := by
    intro hnil
    rw [hnil] at hroot
    cases hroot
  unfold pathPrefix
  rw [← String.toList_inj, Path.toList_join, Path.joinChars_eq, Path.settle_of_ne hne,
    Path.toList_clean]
  apply Path.cleanChars_eq_of_names hroot
  · rw [Path.toList_slash, String.toList_append]
    rfl
  · rw [hjoined, hnames]

/-- The name of the header field that credentials go into, with its bytes; it is sensitive. -/
def shownCredentials : Credentials → String × List UInt8 × Bool
  | .basic username password =>
    ("authorization", Text.bytes (basicText username password), true)
  | .token token => ("x-f5-auth-token", Text.bytes token.text.toList, true)

/-- The header fields that the requests of a configuration start with, each with its name, its bytes
and whether it is sensitive. -/
def startingFields (config : Config) : List (String × List UInt8 × Bool) :=
  ("user-agent", Text.bytes (agentText config).toList, false) ::
    (acceptedText? config.content).toList.map
      (fun text => ("accept", Text.bytes text.toList, false)) ++
    [shownCredentials config.credentials]

/-- What a client has from its configuration. -/
structure Reflects (config : Config) (client : Client) : Prop where
  host : client.host = config.host
  timeout : client.timeout = config.timeout
  fields : client.headers.fields.map
    (fun (name, value) => (name.text, value.bytes, value.sensitive)) = startingFields config
  contentType : client.contentType.map FieldValue.bytes =
    if config.content.contentType = "" then none
    else some (Text.bytes config.content.contentType.toList)
  isRooted : Path.isRooted client.pathPrefix.toList = true
  pathPrefix : client.pathPrefix = Path.clean ("/" ++ config.host.path ++ "/" ++ config.apiPath)

theorem shown_of_credentialField {credentials : Credentials} {field : FieldName × FieldValue}
    (h : credentialField credentials = .ok field) :
    (field.1.text, field.2.bytes, field.2.sensitive) = shownCredentials credentials := by
  cases credentials with
  | basic username password =>
    rw [credentialField_basic] at h
    cases h
    rfl
  | token token =>
    rcases bind_eq_ok.mp h with ⟨value, hvalue, hfield⟩
    rcases FieldValue.ofString_eq_some.mp (fieldValue_eq_ok.mp hvalue) with ⟨hbytes, -⟩
    cases hfield
    show (_, value.bytes, true) = _
    rw [hbytes]
    rfl

/-- What a client has, of whatever configuration. -/
theorem reflects_of_ofConfig {config : Config} {client : Client}
    (h : ofConfig config = .ok client) : client.Reflects config := by
  have htexts := (checks_ofConfig config).exists_ok_iff.mp ⟨client, h⟩
  rcases parts_of_ofConfig h with ⟨agent, accept, credential, hagent, haccept, hcredential, rfl⟩
  refine ⟨rfl, rfl, ?_, ?_, ?_, pathPrefix_eq_clean _⟩
  · rcases FieldValue.ofString_eq_some.mp hagent with ⟨hbytes, hsensitive⟩
    have hshown := congrArg (List.map ("accept", ·)) (FieldValue.shown_of_mapM haccept)
    simp only [List.map_map, Function.comp_def] at hshown
    unfold startingFields
    rw [← shown_of_credentialField hcredential, ← acceptText_eq, ← hshown, ← userAgent_eq, ← hbytes,
      ← hsensitive]
    simp [FieldName.userAgent, FieldName.accept]
  · show (if config.content.contentType = "" then none else _).map FieldValue.bytes = _
    split
    · rfl
    · have htype : IsSendable config.content.contentType :=
        htexts _ (by simp [fieldTexts])
      rw [ofString_of_isSendable htype]
      rfl
  · unfold pathPrefix
    rw [Path.isRooted_join, Path.startsAtRoot_cons]
    rfl

theorem acceptedText_eq_none {content : Content} :
    acceptedText? content = none ↔
      (∀ accept, content.accept = some accept → accept = "") ∧ content.contentType = "" := by
  unfold acceptedText?
  rcases content with ⟨accept, contentType⟩
  cases accept with
  | none => simp
  | some accept => by_cases hempty : accept = "" <;> simp [hempty]

/-- A client says what it can read exactly if its configuration has a text for it. -/
theorem Reflects.accept_mem_iff {config : Config} {client : Client} (h : client.Reflects config) :
    (∃ value, (FieldName.accept, value) ∈ client.headers.fields) ↔
      acceptedText? config.content ≠ none := by
  have hname : (shownCredentials config.credentials).1 ≠ "accept" := by
    cases config.credentials with
    | basic username password =>
      show "authorization" ≠ "accept"
      decide
    | token token =>
      show "x-f5-auth-token" ≠ "accept"
      decide
  have hnames : client.headers.fields.map (·.1.text) = (startingFields config).map Prod.fst := by
    rw [← h.fields, List.map_map]
    rfl
  have hmem : (∃ value, (FieldName.accept, value) ∈ client.headers.fields) ↔
      "accept" ∈ (startingFields config).map Prod.fst := by
    rw [← hnames, List.mem_map]
    constructor
    · rintro ⟨value, hvalue⟩
      exact ⟨_, hvalue, rfl⟩
    · rintro ⟨⟨name, value⟩, hfield, htext⟩
      obtain rfl : name = .accept := FieldName.text_inj.mp htext
      exact ⟨value, hfield⟩
  rw [hmem]
  unfold startingFields
  cases acceptedText? config.content with
  | none => simp [Ne.symm hname]
  | some text => simp

end Client

/-! ## From settings to a client -/

open Config (Setting lastOf ofSettings)

variable {settings : List Setting}

theorem lastOf_host_eq_none :
    lastOf Setting.host? settings = none ↔ ∀ host, .host host ∉ settings := by
  rw [Config.lastOf_eq_none]
  constructor
  · intro hall host hmem
    cases hall _ hmem
  · intro hno s hs
    cases s with
    | host host => exact absurd hs (hno host)
    | _ => rfl

theorem lastOf_credentials_eq_none :
    lastOf Setting.credentials? settings = none ↔
      (∀ username password, .credentials username password ∉ settings) ∧
        ∀ token, .authToken token ∉ settings := by
  rw [Config.lastOf_eq_none]
  constructor
  · intro hall
    refine ⟨?_, ?_⟩
    · intro username password hmem
      cases hall _ hmem
    · intro token hmem
      cases hall _ hmem
  · rintro ⟨hbasic, htoken⟩ s hs
    cases s with
    | credentials username password => exact absurd hs (hbasic username password)
    | authToken token => exact absurd hs (htoken token)
    | _ => rfl

/-- When settings make a configuration and a client, and which. There is no configuration without a
host, and none without credentials of either form, in this order; with both there is one, and each
part of it is what the last setting of its kind says, where credentials of both forms are of one
kind and an empty deadline is none. There is a client for it exactly if the text that names the
library, that of the accepted types, that of a token and that of the type of bodies may be sent, and
where there is none it is because of a header field. The client starts its requests with the header
fields `User-Agent`, `Accept` if a type is accepted or set, and one for the credentials, which alone
is sensitive; the path they start with is that of the host and the interface behind the root. -/
theorem client_reflects_settings (settings : List Setting) :
    (ofSettings settings = .error .missingHost ↔ ∀ host, .host host ∉ settings) ∧
    (ofSettings settings = .error .missingCredentials ↔
      (∃ host, .host host ∈ settings) ∧
        (∀ username password, .credentials username password ∉ settings) ∧
        ∀ token, .authToken token ∉ settings) ∧
    ((∃ config, ofSettings settings = .ok config) ↔
      (∃ host, .host host ∈ settings) ∧
        ((∃ username password, .credentials username password ∈ settings) ∨
          ∃ token, .authToken token ∈ settings)) ∧
    ∀ config, ofSettings settings = .ok config →
      config.Reflects settings ∧
      ((∃ client, Client.ofConfig config = .ok client) ↔
        ∀ text ∈ Client.fieldTexts config, IsSendable text) ∧
      (∀ e, Client.ofConfig config = .error e → ∃ header, e = .invalidHeaderValue header) ∧
      ∀ client, Client.ofConfig config = .ok client →
        client.Reflects config ∧
          ((∃ value, (FieldName.accept, value) ∈ client.headers.fields) ↔
            (∃ accept, config.content.accept = some accept ∧ accept ≠ "") ∨
              config.content.contentType ≠ "") := by
  have hhost : (∃ host, .host host ∈ settings) ↔ lastOf Setting.host? settings ≠ none := by
    rw [Ne, lastOf_host_eq_none, not_forall_not]
  have hcredentials : ((∃ username password, .credentials username password ∈ settings) ∨
      ∃ token, .authToken token ∈ settings) ↔ lastOf Setting.credentials? settings ≠ none := by
    rw [Ne, lastOf_credentials_eq_none, not_and_or, not_forall_not]
    simp only [not_forall, not_not]
  have hbuild : (ofSettings settings = .error .missingHost ↔
        lastOf Setting.host? settings = none) ∧
      (ofSettings settings = .error .missingCredentials ↔
        lastOf Setting.host? settings ≠ none ∧ lastOf Setting.credentials? settings = none) ∧
      ((∃ config, ofSettings settings = .ok config) ↔
        lastOf Setting.host? settings ≠ none ∧ lastOf Setting.credentials? settings ≠ none) := by
    rcases Config.ofSettings_cases settings with ⟨hnone, herror⟩ | ⟨hsome, hnone, herror⟩ |
      ⟨config, hok, h⟩
    · simp [hnone, herror]
    · simp [hsome, hnone, herror]
    · simp [hok, h.host, h.credentials]
  rw [hhost, hcredentials, ← lastOf_credentials_eq_none, ← lastOf_host_eq_none]
  refine ⟨hbuild.1, hbuild.2.1, hbuild.2.2, ?_⟩
  intro config hconfig
  refine ⟨?_, ?_, ?_, ?_⟩
  · rcases Config.ofSettings_cases settings with ⟨-, herror⟩ | ⟨-, -, herror⟩ | ⟨config', hok, h⟩
    · cases hconfig.symm.trans herror
    · cases hconfig.symm.trans herror
    · cases hconfig.symm.trans hok
      exact h
  · exact (Client.checks_ofConfig config).exists_ok_iff
  · intro e he
    exact (Client.checks_ofConfig config).of_error he
  · intro client hclient
    have h := Client.reflects_of_ofConfig hclient
    refine ⟨h, ?_⟩
    rw [h.accept_mem_iff, Ne, Client.acceptedText_eq_none, not_and_or]
    simp only [not_forall, exists_prop]

end ApplianceRest
