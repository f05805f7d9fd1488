import ApplianceRest.Proofs.Base64.RoundTrip
import ApplianceRest.Proofs.Client.Construction
import ApplianceRest.Proofs.Text.Bytes
import Mathlib.Data.List.TakeWhile

/-!
# Credentials in a header field

A user name and a password are sent as one text, with a colon between them, of which the bytes are
written in base 64. A server takes what stands before the first colon for the user name and all that
is behind it for the password (`readBasic?`). That gives back both exactly if there is no colon in
the user name.

* `headers_of_ofConfig`: the header fields that a client starts with.
* `credentialField_basic`: the field for a user name and a password, which there always is.
* `basic_credentials_read_back`: what can be read from it.
-/

namespace ApplianceRest

open Http (FieldName FieldValue Headers)

/-! ## Reading -/

/-- The byte of a colon. -/
def Credentials.colon : UInt8 := 0x3A

/-- What stands before the first colon, and what behind it. -/
def Credentials.splitPair? (pair : List UInt8) : Option (List UInt8 × List UInt8) :=
  match pair.dropWhile (· ≠ colon) with
  | [] => none
  | _ :: password => some (pair.takeWhile (· ≠ colon), password)

/-- The bytes of the user name and of the password that a server reads from base 64. -/
def Credentials.readBasic? (code : List Char) : Option (List UInt8 × List UInt8) := do
  splitPair? (← Base64.decode? code)

/-- A user name and a password as the one text that is sent. -/
def Credentials.pairText (username : Username) (password : Password) : List Char :=
  (username.text ++ ":" ++ password.text).toList

namespace Credentials

variable {username username' : Username} {password password' : Password}

theorem toList_pairText (username : Username) (password : Password) :
    pairText username password = username.text.toList ++ ':' :: password.text.toList := by
  rw [pairText, String.toList_append, String.toList_append, List.append_assoc]
  rfl

/-- A colon has a byte of its own, which no other character has. -/
theorem colon_mem_bytes {cs : List Char} : colon ∈ Text.bytes cs ↔ ':' ∈ cs := by
  unfold Text.bytes
  rw [List.mem_flatMap]
  constructor
  · rintro ⟨c, hc, hbyte⟩
    have hchar : Char.ofNat colon.toNat = c := Text.ofNat_of_mem_utf8EncodeChar hbyte (by decide)
    have hcolon : c = ':' := hchar.symm
    rw [← hcolon]
    exact hc
  · intro h
    exact ⟨':', h, by decide⟩

/-- Bytes are split behind what holds no colon. -/
theorem splitPair_append {cs : List Char} (h : ':' ∉ cs) (rest : List UInt8) :
    splitPair? (Text.bytes cs ++ colon :: rest) = some (Text.bytes cs, rest) := by
  have hall : ∀ b ∈ Text.bytes cs, decide (b ≠ colon) = true := by
    intro b hb
    rw [decide_eq_true_eq]
    rintro rfl
    exact h (colon_mem_bytes.mp hb)
  unfold splitPair?
  rw [List.dropWhile_append_of_pos hall, List.takeWhile_append_of_pos hall]
  rw [List.dropWhile_cons_of_neg (by simp), List.takeWhile_cons_of_neg (by simp),
    List.append_nil]

/-- No colon is left in what stands before the first one. -/
theorem colon_not_mem_of_splitPair {pair name rest : List UInt8}
    (h : splitPair? pair = some (name, rest)) : colon ∉ name := by
  unfold splitPair? at h
  split at h
  · cases h
  · cases h
    intro hmem
    have hne := List.mem_takeWhile_imp (p := fun b => decide (b ≠ colon)) hmem
    exact of_decide_eq_true hne rfl

theorem bytes_pairText (username : Username) (password : Password) :
    Text.bytes (pairText username password) =
      Text.bytes username.text.toList ++ colon :: Text.bytes password.text.toList := by
  rw [toList_pairText, Text.bytes_append, Text.bytes_cons]
  rfl

/-- Where there is no colon in the user names, the text that is sent is that of one user name and one
password. -/
theorem eq_of_pairText_eq (hname : ':' ∉ username.text.toList) (hname' : ':' ∉ username'.text.toList)
    (h : pairText username password = pairText username' password') :
    username = username' ∧ password = password' := by
  have hbytes := congrArg Text.bytes h
  rw [bytes_pairText, bytes_pairText] at hbytes
  have hsplit := congrArg splitPair? hbytes
  rw [splitPair_append hname, splitPair_append hname', Option.some.injEq, Prod.mk.injEq,
    Text.bytes_inj, Text.bytes_inj, String.toList_inj, String.toList_inj] at hsplit
  constructor
  · cases username
    cases username'
    cases hsplit.1
    rfl
  · cases password
    cases password'
    cases hsplit.2
    rfl

/-- A server reads the user name and the password that were sent exactly if there is no colon in the
user name. -/
theorem readBasic_encode (username : Username) (password : Password) :
    readBasic? (Base64.encode (Text.bytes (pairText username password))) =
        some (Text.bytes username.text.toList, Text.bytes password.text.toList) ↔
      ':' ∉ username.text.toList := by
  unfold readBasic?
  rw [Base64.decode_encode, Option.bind_eq_bind, Option.bind_some]
  constructor
  · intro h hcolon
    exact colon_not_mem_of_splitPair h (colon_mem_bytes.mpr hcolon)
  · intro h
    rw [bytes_pairText, splitPair_append h]

end Credentials

/-! ## The header field -/

namespace Client

variable {username username' : Username} {password password' : Password}

/-- Base 64 may stand in a header field. -/
theorem isValueByte_of_mem_encode {data : List UInt8} {b : UInt8}
    (h : b ∈ Text.bytes (Base64.encode data)) : Http.isValueByte b = true := by
  have hsymbol : ∀ n, (String.utf8EncodeChar (Base64.symbol n)).all Http.isValueByte = true :=
    Base64.symbol_all (P := fun c => (String.utf8EncodeChar c).all Http.isValueByte = true)
      (by decide)
  have hpadding : (String.utf8EncodeChar '=').all Http.isValueByte = true := by decide
  obtain ⟨c, hc, hbyte⟩ := List.mem_flatMap.mp h
  rcases Base64.mem_encode hc with rfl | ⟨n, rfl⟩
  · exact List.all_eq_true.mp hpadding b hbyte
  · exact List.all_eq_true.mp (hsymbol n) b hbyte

/-- The text of the field for a user name and a password. -/
def basicText (username : Username) (password : Password) : List Char :=
  "Basic ".toList ++ Base64.encode (Text.bytes (Credentials.pairText username password))

theorem all_bytes_basicText (username : Username) (password : Password) :
    (Text.bytes (basicText username password)).all Http.isValueByte = true := by
  unfold basicText
  rw [Text.bytes_append, List.all_append, Bool.and_eq_true]
  refine ⟨by decide, List.all_eq_true.mpr ?_⟩
  intro b hb
  exact isValueByte_of_mem_encode hb

/-- The value of the field for a user name and a password. -/
def basicValue (username : Username) (password : Password) : FieldValue :=
  ⟨Text.bytes (basicText username password), true, all_bytes_basicText username password⟩

/-- There is a field for every user name and every password. -/
theorem credentialField_basic (username : Username) (password : Password) :
    credentialField (.basic username password) =
      .ok (.authorization, basicValue username password) := by
  have htext : ("Basic " ++ String.ofList (Base64.encode (Text.bytes
      (Credentials.pairText username password)))).toList = basicText username password := by
    unfold basicText
    exact String.toList_append.trans (congrArg ("Basic ".toList ++ ·) String.toList_ofList)
  have hvalue : FieldValue.ofString? ("Basic " ++ String.ofList (Base64.encode (Text.bytes
      (Credentials.pairText username password)))) =
      some ⟨Text.bytes (basicText username password), false,
        all_bytes_basicText username password⟩ := by
    rw [FieldValue.ofString?, htext]
    exact dif_pos (all_bytes_basicText username password)
  exact bind_eq_ok.mpr ⟨_, fieldValue_eq_ok.mpr hvalue, rfl⟩

/-- Two user names with passwords have the same value exactly if they are the same text when they are
put together. -/
theorem basicValue_inj :
    basicValue username password = basicValue username' password' ↔
      Credentials.pairText username password = Credentials.pairText username' password' := by
  constructor
  · intro h
    have hbytes := congrArg FieldValue.bytes h
    have htext : basicText username password = basicText username' password' :=
      Text.bytes_inj.mp hbytes
    unfold basicText at htext
    rw [List.append_cancel_left_eq, Base64.encode_inj] at htext
    exact Text.bytes_inj.mp htext
  · intro h
    have htext : basicText username password = basicText username' password' := by
      unfold basicText
      rw [h]
    unfold basicValue
    simp only [htext]

/-- A client with a user name and a password starts with one value of the field. -/
theorem values_authorization {config : Config} {client : Client} (h : ofConfig config = .ok client)
    (hbasic : config.credentials = .basic username password) :
    client.headers.values .authorization = [basicValue username password] := by
  obtain ⟨agent, accept, credential, -, -, hcredential, rfl⟩ := parts_of_ofConfig h
  rw [hbasic, credentialField_basic, Except.ok.injEq] at hcredential
  subst hcredential
  have hagent : (Headers.mk [(FieldName.userAgent, agent)]).values .authorization = [] :=
    Headers.values_under_of_ne (by decide) [agent]
  have haccept : (Headers.mk (accept.map (FieldName.accept, ·))).values .authorization = [] :=
    Headers.values_under_of_ne (by decide) accept
  show (Headers.mk ([(FieldName.userAgent, agent)] ++ accept.map (FieldName.accept, ·) ++
    [(FieldName.authorization, basicValue username password)])).values .authorization = _
  rw [Headers.values_append, Headers.values_append, hagent, haccept]
  exact Headers.values_under_self .authorization [basicValue username password]

end Client

open Credentials (pairText readBasic?)

/-- The one value under `Authorization` with which a client of a user name and a password starts is
`Basic` and a text in base 64, which stands for the bytes of the user name, a colon, and the bytes of
the password. Split at its first colon, that is the user name and the password again exactly if there
is no colon in the user name. Clients of two user names with passwords start with the same value
exactly if these are the same text when they are put together; where there is no colon in the user
names, they are then the same. -/
theorem basic_credentials_read_back (config : Config) (client : Client) (username : Username)
    (password : Password) (hclient : Client.ofConfig config = .ok client)
    (hbasic : config.credentials = .basic username password) :
    (∃ value code, client.headers.values .authorization = [value] ∧
      value.bytes = Text.bytes ("Basic ".toList ++ code) ∧
      Base64.decode? code = some (Text.bytes (pairText username password)) ∧
      (readBasic? code =
          some (Text.bytes username.text.toList, Text.bytes password.text.toList) ↔
        ':' ∉ username.text.toList)) ∧
    ∀ (config' : Config) (client' : Client) (username' : Username) (password' : Password),
      Client.ofConfig config' = .ok client' →
      config'.credentials = .basic username' password' →
      (client.headers.values .authorization = client'.headers.values .authorization ↔
        pairText username password = pairText username' password') ∧
      (client.headers.values .authorization = client'.headers.values .authorization →
        ':' ∉ username.text.toList → ':' ∉ username'.text.toList →
        username = username' ∧ password = password') := by
  have hvalue := Client.values_authorization hclient hbasic
  refine ⟨?_, ?_⟩
  · exact ⟨Client.basicValue username password,
      Base64.encode (Text.bytes (pairText username password)), hvalue, rfl,
      Base64.decode_encode _, Credentials.readBasic_encode username password⟩
  · intro config' client' username' password' hclient' hbasic'
    have hvalue' := Client.values_authorization hclient' hbasic'
    have hsame : client.headers.values .authorization = client'.headers.values .authorization ↔
        pairText username password = pairText username' password' := by
      rw [hvalue, hvalue', List.cons.injEq, and_iff_left rfl, Client.basicValue_inj]
    refine ⟨hsame, ?_⟩
    intro hheaders hname hname'
    exact Credentials.eq_of_pairText_eq hname hname' (hsame.mp hheaders)

/-- A configuration of a host under a documentation address, for a user name and a password. -/
def sampleConfig (username : Username) (password : Password) : Config where
  host := {
    parts := ⟨"https".toList, "192.0.2.1".toList, [], []⟩
    isValid := by decide }
  credentials := .basic username password
  apiPath := ""
  timeout := none
  acceptInvalidCertificates := false
  userAgentPrefix := none
  content := {}

/-- Colons in a password do no harm. -/
theorem basic_credentials_read_back_password :
    ∃ client value code,
      Client.ofConfig (sampleConfig ⟨"admin", by decide⟩ ⟨":ä:", by decide⟩) = .ok client ∧
      client.headers.values .authorization = [value] ∧
      value.bytes = Text.bytes ("Basic ".toList ++ code) ∧
      readBasic? code = some (Text.bytes "admin".toList, Text.bytes ":ä:".toList) := by
  have hclient : ∃ client,
      Client.ofConfig (sampleConfig ⟨"admin", by decide⟩ ⟨":ä:", by decide⟩) = .ok client :=
    ⟨_, rfl⟩
  obtain ⟨client, hclient⟩ := hclient
  obtain ⟨⟨value, code, hvalue, hbytes, -, hread⟩, -⟩ :=
    basic_credentials_read_back _ client ⟨"admin", by decide⟩ ⟨":ä:", by decide⟩ hclient rfl
  exact ⟨client, value, code, hclient, hvalue, hbytes, hread.mpr (by decide)⟩

/-- With a colon in the user name, the field is that of another user, and read as theirs. -/
theorem basic_credentials_of_another_user :
    ∃ client client' value code,
      Client.ofConfig (sampleConfig ⟨"a:b", by decide⟩ ⟨"c", by decide⟩) = .ok client ∧
      Client.ofConfig (sampleConfig ⟨"a", by decide⟩ ⟨"b:c", by decide⟩) = .ok client' ∧
      client.headers.values .authorization = [value] ∧
      client'.headers.values .authorization = [value] ∧
      value.bytes = Text.bytes ("Basic ".toList ++ code) ∧
      readBasic? code = some (Text.bytes "a".toList, Text.bytes "b:c".toList) :=
  ⟨_, _, _, "YTpiOmM=".toList, rfl, rfl, rfl, rfl, by decide, by decide⟩

end ApplianceRest
