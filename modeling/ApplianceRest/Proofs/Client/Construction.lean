import ApplianceRest.Client
import ApplianceRest.Proofs.Text.Bytes

/-!
# What a client is made of

A client is made of the texts of its configuration, each of which has to be one that may be sent.
A text that may be sent stands in a header field with its bytes (`ofString_eq_some`).
`parts_of_ofConfig` says what a configuration has, for which there is a client, and what the client
takes from it; nothing else is used of how it is made.
-/

namespace ApplianceRest

open Http (FieldName FieldValue)

theorem bind_eq_ok {ε α β : Type} {x : Except ε α} {f : α → Except ε β} {b : β} :
    (x >>= f) = .ok b ↔ ∃ a, x = .ok a ∧ f a = .ok b := by
  cases x with
  | error e => exact ⟨nofun, nofun⟩
  | ok a =>
    constructor
    · intro h
      exact ⟨a, rfl, h⟩
    · rintro ⟨_, ⟨⟩, h⟩
      exact h

namespace Http.FieldValue

/-- A text that may be the value of a header field stands there with its bytes, for all to see. -/
theorem ofString_eq_some {text : String} {value : FieldValue} :
    ofString? text = some value ↔
      value.bytes = Text.bytes text.toList ∧ value.sensitive = false := by
  unfold ofString? ofBytes?
  constructor
  · intro h
    split at h
    · cases h
      exact ⟨rfl, rfl⟩
    · cases h
  · rintro ⟨hbytes, hsensitive⟩
    obtain ⟨bytes, sensitive, hvalid⟩ := value
    cases hsensitive
    cases hbytes
    exact dif_pos hvalid

/-- So do several texts, in order. -/
theorem shown_of_mapM {texts : List String} {values : List FieldValue}
    (h : texts.mapM ofString? = some values) :
    values.map (fun value => (value.bytes, value.sensitive)) =
      texts.map fun text => (Text.bytes text.toList, false) := by
  induction texts generalizing values with
  | nil =>
    cases h
    rfl
  | cons text rest ih =>
    rw [List.mapM_cons] at h
    obtain ⟨value, hvalue, h⟩ := Option.bind_eq_some_iff.mp h
    obtain ⟨behind, hbehind, h⟩ := Option.bind_eq_some_iff.mp h
    cases h
    obtain ⟨hbytes, hsensitive⟩ := ofString_eq_some.mp hvalue
    rw [List.map_cons, List.map_cons, hbytes, hsensitive, ih hbehind]

end Http.FieldValue

namespace Client

variable {config : Config} {client : Client}

theorem fieldValue_eq_ok {header text : String} {value : FieldValue} :
    fieldValue header text = .ok value ↔ FieldValue.ofString? text = some value := by
  rw [fieldValue]
  cases FieldValue.ofString? text with
  | none => simp
  | some v => simp

/-- A client names itself, says what it can read if that is set, and shows its credentials. It has a
type for bodies if one is set, and host, path and deadline of its configuration. -/
theorem parts_of_ofConfig (h : ofConfig config = .ok client) :
    ∃ agent accept credential,
      FieldValue.ofString? (userAgent config) = some agent ∧
      config.content.acceptText.toList.mapM FieldValue.ofString? = some accept ∧
      credentialField config.credentials = .ok credential ∧
      client = {
        host := config.host
        apiPath := config.apiPath
        headers := ⟨(FieldName.userAgent, agent) :: accept.map (FieldName.accept, ·) ++ [credential]⟩
        contentType :=
          if config.content.contentType = "" then none
          else FieldValue.ofString? config.content.contentType
        timeout := config.timeout } := by
  rw [ofConfig] at h
  obtain ⟨agent, hagent, h⟩ := bind_eq_ok.mp h
  -- whether or not there are accepted types, what comes behind them is the same
  extract_lets finish at h
  have hfinish : ∃ accept, config.content.acceptText.toList.mapM FieldValue.ofString? = some accept ∧
      finish (accept.map (FieldName.accept, ·)) = .ok client := by
    cases htext : config.content.acceptText with
    | none =>
      rw [htext] at h
      exact ⟨[], rfl, h⟩
    | some text =>
      rw [htext] at h
      obtain ⟨value, hvalue, h⟩ := bind_eq_ok.mp h
      refine ⟨[value], ?_, h⟩
      simp [fieldValue_eq_ok.mp hvalue]
  obtain ⟨accept, haccept, hfinish⟩ := hfinish
  obtain ⟨credential, hcredential, hclient⟩ := bind_eq_ok.mp hfinish
  refine ⟨agent, accept, credential, fieldValue_eq_ok.mp hagent, haccept, hcredential, ?_⟩
  dsimp only at hclient
  split at hclient
  · next hempty =>
    cases hclient
    rw [if_pos hempty]
  · next hne =>
    obtain ⟨contentType, htype, hclient⟩ := bind_eq_ok.mp hclient
    cases hvalue : fieldValue "Content-Type" config.content.contentType with
    | error e =>
      rw [hvalue] at htype
      cases htype
    | ok value =>
      rw [hvalue] at htype
      cases htype
      cases hclient
      rw [if_neg hne, fieldValue_eq_ok.mp hvalue]

/-- The type of bodies of a client is what its configuration says, if it says anything. -/
theorem contentType_of_ofConfig (h : ofConfig config = .ok client) :
    client.contentType =
      if config.content.contentType = "" then none
      else FieldValue.ofString? config.content.contentType := by
  obtain ⟨agent, accept, credential, -, -, -, rfl⟩ := parts_of_ofConfig h
  rfl

end Client

end ApplianceRest
