import ApplianceRest.Proofs.Client.Construction
import ApplianceRest.Proofs.Request.Hierarchy

/-!
# Header fields of a run

Under each name a request sends what the last setting about that name has put there, and what its
client starts with where there is no such setting. A document as body is a setting about its content
type, which it says is `application/json`. The type that a client has for bodies comes in last of
all: where there is a body, and nothing else has been left to say what it is.

* `values_setAll`: what a run leaves under a name.
* `values_set_setAll`: what one more setting changes there.
* `isEmpty_body_setAll`: which runs leave a body.
* `last_setting_decides_header`: what is handed over.
-/

namespace ApplianceRest

open Http (FieldName FieldValue Headers Method)

/-- A text that may be the name of a header field is the one that it spells in lower case. -/
theorem Http.FieldName.ofString?_eq_some_iff {text : String} (h : (ofString? text).isSome)
    (name : FieldName) :
    ofString? text = some name ↔ text.toList.map Char.toLower = name.text.toList := by
  obtain ⟨named, hnamed⟩ := Option.isSome_iff_exists.mp h
  have hlower : text.toList.map Char.toLower = named.text.toList := by
    rw [ofString?] at hnamed
    split at hnamed
    · split at hnamed
      · cases hnamed
        rw [String.toList_ofList]
      · cases hnamed
    · cases hnamed
  rw [hnamed, hlower, Option.some.injEq, String.toList_inj]
  exact FieldName.text_inj.symm

namespace Request

/-! ## What settings say about header fields -/

namespace Setting

/-- The values that some texts are under a header field, if it is the one that they are for. Names
are compared without regard to case. -/
def textsUnder? (name : FieldName) (text : String) (values : List String) :
    Option (List FieldValue) :=
  if text.toList.map Char.toLower = name.text.toList then values.mapM FieldValue.ofString? else none

/-- The values that a setting puts under a header field, which may be none, if it is about that
field. A document as body says that the content type is `application/json`. -/
def valuesUnder? (name : FieldName) : Setting → Option (List FieldValue)
  | .header text values => textsUnder? name text values
  | .bodyDocument _ => textsUnder? name "Content-Type" ["application/json"]
  | _ => none

/-- Whether a setting gives the request a body, be it one of no bytes. -/
def givesBody : Setting → Bool
  | .bodyFile _ => true
  | .bodyBytes _ => true
  | .bodyStream _ => true
  | .bodyDocument _ => true
  | _ => false

variable {s : Setting} {name : FieldName} {text : String} {texts : List String}
variable {values : List FieldValue}

/-- What stands under a name are the bytes of the texts for it. -/
theorem bytes_of_textsUnder (h : textsUnder? name text texts = some values) :
    values.map FieldValue.bytes = texts.map fun value => Text.bytes value.toList := by
  rw [textsUnder?] at h
  split at h
  · have hshown := congrArg (List.map Prod.fst) (FieldValue.shown_of_mapM h)
    simpa only [List.map_map, Function.comp_def] using hshown
  · cases h

theorem textsUnder_document :
    textsUnder? name "Content-Type" ["application/json"] =
      if name = .contentType then some [.document] else none := by
  have hlower : "Content-Type".toList.map Char.toLower = FieldName.contentType.text.toList := by
    decide
  have hvalue : ["application/json"].mapM FieldValue.ofString? = some [.document] := by decide
  rw [textsUnder?, hvalue]
  simp only [hlower, String.toList_inj, FieldName.text_inj, eq_comm]

theorem onValues_eq (h : s.IsLegal) (name : FieldName) (current : List FieldValue) :
    s.onValues name current = (s.valuesUnder? name).getD current := by
  cases s with
  | bodyDocument document =>
    obtain ⟨content, rfl⟩ := h
    rw [onValues, valuesUnder?, textsUnder_document]
    split <;> rfl
  | header text values =>
    rw [onValues, valuesUnder?, textsUnder?]
    simp only [FieldName.ofString?_eq_some_iff h.1 name]
    split <;> rfl
  | _ => rfl

/-- A body that has been set is only ever replaced by another one. -/
theorem isEmpty_onBody (h : s.IsLegal) (current : Body) :
    (s.onBody current).isEmpty = (current.isEmpty && !s.givesBody) := by
  cases s with
  | bodyFile file =>
    obtain ⟨path, contents⟩ := file
    obtain ⟨data, rfl⟩ := h
    exact (Bool.and_false _).symm
  | bodyBytes data => exact (Bool.and_false _).symm
  | bodyStream data => exact (Bool.and_false _).symm
  | bodyDocument document =>
    obtain ⟨content, rfl⟩ := h
    exact (Bool.and_false _).symm
  | _ => exact (Bool.and_true _).symm

end Setting

/-- What a run leaves under a header field: the values of the last setting about it, else those that
the client starts with. -/
def givenHeader (client : Client) (settings : List Setting) (name : FieldName) : List FieldValue :=
  (settings.filterMap (Setting.valuesUnder? name)).getLast?.getD (client.headers.values name)

/-- What is sent under a header field after a run: what the run leaves there. Where it leaves no type
for the body that it gives, the client's type of bodies is sent. -/
def sentHeader (client : Client) (settings : List Setting) (name : FieldName) : List FieldValue :=
  let given := givenHeader client settings name
  if name.text = "content-type" ∧ given = [] ∧ settings.any Setting.givesBody then
    client.contentType.toList
  else given

variable {client : Client} {method : Method} {settings before : List Setting} {s : Setting}
variable {r : Request} {name : FieldName}

theorem givenHeader_concat (before : List Setting) (s : Setting) :
    givenHeader client (before ++ [s]) name =
      (s.valuesUnder? name).getD (givenHeader client before name) := by
  rw [givenHeader, givenHeader, List.filterMap_append]
  cases h : s.valuesUnder? name with
  | none => simp [h]
  | some values => simp [h]

/-! ## Runs -/

/-- The values of the last setting about a header field are those that a run leaves there. -/
theorem values_setAll (hend : ((new client method).setAll settings).error = none)
    (name : FieldName) :
    ((new client method).setAll settings).headers.values name =
      givenHeader client settings name := by
  refine run_induction (P := fun before r => r.headers.values name = givenHeader client before name)
    rfl ?_ hend
  intro before r s r' hbefore hs
  have c := change_of_apply_ok hs
  rw [c.values, Setting.onValues_eq c.legal, hbefore, givenHeader_concat]

/-- One more setting puts its values under a header field if it is about it, and leaves it alone
otherwise. -/
theorem values_set_setAll (hend : ((new client method).setAll settings).error = none)
    (hs : (((new client method).setAll settings).set s).error = none) (name : FieldName) :
    (((new client method).setAll settings).set s).headers.values name =
      (s.valuesUnder? name).getD (((new client method).setAll settings).headers.values name) := by
  -- with one more setting a run is a run too
  rw [← setAll_concat] at hs ⊢
  rw [values_setAll hs, givenHeader_concat, values_setAll hend]

/-- A run leaves a body exactly if one of its settings gives one. -/
theorem isEmpty_body_setAll (hend : ((new client method).setAll settings).error = none) :
    ((new client method).setAll settings).body.isEmpty = !settings.any Setting.givesBody := by
  refine run_induction (P := fun before r => r.body.isEmpty = !before.any Setting.givesBody)
    rfl ?_ hend
  intro before r s r' hbefore hs
  have c := change_of_apply_ok hs
  rw [c.body, Setting.isEmpty_onBody c.legal, hbefore, List.any_append]
  simp

/-! ## What is sent -/

/-- The client's type of bodies is sent where there is a body and no type for it; everything else is
sent as it is. -/
theorem values_sentHeaders (r : Request) (name : FieldName) :
    r.sentHeaders.values name =
      if name = .contentType ∧ r.headers.values .contentType = [] ∧ r.body.isEmpty = false then
        r.client.contentType.toList
      else r.headers.values name := by
  by_cases htype : r.headers.values .contentType = [] ∧ r.body.isEmpty = false
  · have hno := (Headers.values_eq_nil_iff _ _).mp htype.1
    have hsent : r.sentHeaders =
        (r.client.contentType.map (r.headers.set .contentType)).getD r.headers := by
      rw [sentHeaders]
      cases r.client.contentType with
      | none => rfl
      | some value => simp [hno, htype.2]
    rw [hsent]
    by_cases hname : name = .contentType
    · subst hname
      rw [if_pos ⟨rfl, htype⟩]
      cases r.client.contentType with
      | none => exact htype.1
      | some value => exact Headers.values_setAll_self _ _ _
    · rw [if_neg fun h => hname h.1]
      cases r.client.contentType with
      | none => rfl
      | some value => exact Headers.values_setAll_of_ne _ hname _
  · -- there is no body, or it has a type
    have hkeep : r.sentHeaders = r.headers := by
      rw [sentHeaders]
      split
      · refine if_pos ?_
        rw [Headers.values_eq_nil_iff, not_and_or, Bool.not_eq_false, Bool.not_eq_false] at htype
        exact Bool.or_eq_true_iff.mpr htype.symm
      · rfl
    rw [hkeep, if_neg fun h => htype h.2]

/-- After a run, what is sent under a name is what the run and its client leave there. -/
theorem values_sentHeaders_setAll (hend : ((new client method).setAll settings).error = none)
    (name : FieldName) :
    ((new client method).setAll settings).sentHeaders.values name =
      sentHeader client settings name := by
  have hclient : ((new client method).setAll settings).client = client := (holds_setAll hend).client
  have htype : name.text = "content-type" ↔ name = .contentType := by
    show name.text = FieldName.contentType.text ↔ _
    exact FieldName.text_inj
  rw [values_sentHeaders, hclient, values_setAll hend, values_setAll hend,
    isEmpty_body_setAll hend, sentHeader]
  simp only [Bool.not_eq_false', htype]
  by_cases hname : name = .contentType
  · subst hname
    rfl
  · rw [if_neg fun h => hname h.1, if_neg fun h => hname h.1]

/-- What is sent under a header field after a run that left no error is decided by the last setting
about that field, and under the content type, where that leaves none, by the client. This is what is
handed over. A setting changes what is under the names it is about and no others: the texts that are
given for a name stand there with their bytes, where none are given nothing is left there, and a
document as body leaves the text `application/json` under the content type. -/
theorem last_setting_decides_header (client : Client) (method : Method) (settings : List Setting)
    (hend : ((new client method).setAll settings).error = none) :
    let r := (new client method).setAll settings
    (∀ name, r.message.headers.values name = sentHeader client settings name) ∧
    (∀ line, (r.send line).2 = line.afterHanding r.message) ∧
    (∀ config, Client.ofConfig config = .ok client → client.contentType =
      if config.content.contentType = "" then none
      else FieldValue.ofString? config.content.contentType) ∧
    (∀ s, (r.set s).error = none → ∀ name, s.valuesUnder? name = none →
      (r.set s).headers.values name = r.headers.values name) ∧
    (∀ text values, (r.set (.header text values)).error = none →
      ∀ name : FieldName, text.toList.map Char.toLower = name.text.toList →
        ((r.set (.header text values)).headers.values name).map FieldValue.bytes =
          values.map fun value => Text.bytes value.toList) ∧
    (∀ text, (r.set (.header text [])).error = none →
      ∀ name : FieldName, text.toList.map Char.toLower = name.text.toList →
        (r.set (.header text [])).headers.values name = []) ∧
    (∀ document, (r.set (.bodyDocument document)).error = none →
      ∀ name : FieldName, name.text = "content-type" →
        ((r.set (.bodyDocument document)).headers.values name).map FieldValue.bytes =
          [Text.bytes "application/json".toList]) := by
  intro r
  have hstep : ∀ s, (r.set s).error = none → ∀ name,
      (r.set s).headers.values name = (s.valuesUnder? name).getD (r.headers.values name) :=
    fun _ hs => values_set_setAll hend hs
  refine ⟨values_sentHeaders_setAll hend, send_snd hend, ?_, ?_, ?_, ?_, ?_⟩
  · intro config hconfig
    exact Client.contentType_of_ofConfig hconfig
  · intro s hs name hno
    rw [hstep s hs, hno]
    rfl
  · intro text values hs name hname
    obtain ⟨_, haccepted⟩ := exists_apply_of_error_set hend hs
    obtain ⟨put, hput⟩ := Option.isSome_iff_exists.mp (change_of_apply_ok haccepted).legal.2
    have hunder : (Setting.header text values).valuesUnder? name = some put :=
      (if_pos hname).trans hput
    rw [hstep _ hs, hunder]
    exact Setting.bytes_of_textsUnder hunder
  · intro text hs name hname
    rw [hstep _ hs, Setting.valuesUnder?, Setting.textsUnder?, if_pos hname]
    rfl
  · intro document hs name hname
    have hunder : (Setting.bodyDocument document).valuesUnder? name = some [.document] :=
      Setting.textsUnder_document.trans (if_pos (FieldName.text_inj.mp hname))
    rw [hstep _ hs, hunder]
    exact Setting.bytes_of_textsUnder hunder

/-- A client that accepts anything and whose bodies are plain texts. -/
def plainClient : Client :=
  { sampleClient with
    headers := ⟨(FieldValue.ofString? "*/*").toList.map (.accept, ·)⟩
    contentType := FieldValue.ofString? "text/plain" }

/-- The content type of a document is taken back, and other names are set in several cases. -/
def headerRun : List Setting :=
  [.header "X-Trace" ["a"], .bodyDocument (.ok .null), .header "ACCEPT" [],
    .header "content-TYPE" [], .header "x-trace" ["b", "c"], .bodyBytes []]

/-- A document is the last to say what the content type is. -/
def documentRun : List Setting :=
  [.bodyBytes [0x41], .header "content-type" ["text/html", "text/xml"], .bodyDocument (.ok .null)]

/-- Without a type of its own the body is sent as a plain text, and a document as what it is. -/
theorem last_setting_decides_headerRun :
    ((new plainClient .put).setAll headerRun).error = none ∧
    ((new plainClient .put).setAll documentRun).error = none ∧
    let sent := ((new plainClient .put).setAll headerRun).message.headers
    let sentDocument := ((new plainClient .put).setAll documentRun).message.headers
    sent.values .accept = [] ∧
      (sent.values .contentType).map (·.ascii?) = [some "text/plain"] ∧
      (sent.values ⟨"x-trace", by decide⟩).map (·.ascii?) = [some "b", some "c"] ∧
      (sentDocument.values .accept).map (·.ascii?) = [some "*/*"] ∧
      (sentDocument.values .contentType).map (·.ascii?) = [some "application/json"] := by
  have hend : ((new plainClient .put).setAll headerRun).error = none := by decide +kernel
  have hend' : ((new plainClient .put).setAll documentRun).error = none := by decide +kernel
  have hsent := (last_setting_decides_header plainClient .put headerRun hend).1
  have hsent' := (last_setting_decides_header plainClient .put documentRun hend').1
  refine ⟨hend, hend', (hsent _).trans ?_, (congrArg _ (hsent _)).trans ?_,
    (congrArg _ (hsent _)).trans ?_, (congrArg _ (hsent' _)).trans ?_,
    (congrArg _ (hsent' _)).trans ?_⟩
  · decide +kernel
  · decide +kernel
  · decide +kernel
  · decide +kernel
  · decide +kernel

end Request

end ApplianceRest
