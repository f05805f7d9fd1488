import ApplianceRest.Proofs.Record.Denotation
import ApplianceRest.Proofs.Request.Hierarchy

/-!
# What an answer comes to

All ways to send a request take an answer alike. With a status of success it brings what was asked
for; with any other status it is a refusal, and then its status, its content type and its body decide
on the error (`Response.IsRefusal`), whatever was asked for.

* `isDocument_iff`: which answers are taken for documents.
* `ofBody_object_iff`: which objects are error documents, and what they say.
* `IsRefusal.unique`: a refusal comes to one error.
* `answer_decides_outcome`: what each way to send a request makes of an answer.
-/

namespace ApplianceRest

open Http (FieldValue)
open Json (Key Written)
open Record (Fields Role Shape Wire decode_eq_ok_iff forall_mem_others_iff others own own_others)
open Text (bytes)

namespace Http.FieldValue

/-- Whether a value holds printable ASCII characters and tabs only. -/
def IsPrintable (v : FieldValue) : Prop := ∀ b ∈ v.bytes, b = 0x09 ∨ (0x20 ≤ b ∧ b < 0x7F)

theorem ascii?_of_isPrintable {v : FieldValue} (h : v.IsPrintable) :
    v.ascii? = some (.ofList (v.bytes.map fun b => Char.ofNat b.toNat)) := by
  rw [ascii?, if_pos]
  rw [List.all_eq_true]
  intro b hb
  simpa using h b hb

theorem ascii?_of_not_isPrintable {v : FieldValue} (h : ¬v.IsPrintable) : v.ascii? = none := by
  rw [ascii?, if_neg]
  intro hall
  refine h fun b hb => ?_
  simpa using List.all_eq_true.mp hall b hb

/-- A printable value has one character for each byte. -/
theorem bytes_of_isPrintable {v : FieldValue} (h : v.IsPrintable) :
    Text.bytes (v.bytes.map fun b => Char.ofNat b.toNat) = v.bytes := by
  have hsmall : ∀ b ∈ v.bytes, b.toNat < 128 := by
    intro b hb
    rcases h b hb with rfl | ⟨-, hlt⟩
    · decide
    · exact Nat.lt_trans (UInt8.lt_iff_toNat_lt.mp hlt) (by decide)
  rw [Text.bytes, List.flatMap_map]
  generalize v.bytes = bs at hsmall
  induction bs with
  | nil => rfl
  | cons b bs ih =>
    obtain ⟨hb, hbs⟩ := List.forall_mem_cons.mp hsmall
    rw [List.flatMap_cons, Text.utf8EncodeChar_ofNat hb, ih hbs]
    rfl

/-- A printable value speaks of a document exactly if its text does. -/
theorem document_infix_iff {v : FieldValue} (h : v.IsPrintable) :
    "application/json".toList <:+: v.bytes.map (fun b => Char.ofNat b.toNat) ↔
      Text.bytes "application/json".toList <:+: v.bytes := by
  constructor
  · rintro ⟨front, rest, htext⟩
    have hbytes := congrArg Text.bytes htext
    rw [Text.bytes_append, Text.bytes_append, bytes_of_isPrintable h] at hbytes
    exact ⟨_, _, hbytes⟩
  · intro hinfix
    exact hinfix.map fun b => Char.ofNat b.toNat

end Http.FieldValue

/-- An object is an error document exactly if it has no more than one member under each of the keys
`code`, `message` and `errorStack`, and these are a number of 64 bits, a text and a list of texts.
It says what they denote; where there is no such member it says nothing there. -/
theorem ApplianceError.ofBody_object_iff {w : Written} {ms : List (Key × Written)}
    {error : ApplianceError} (h : w.members? = some ms) :
    ofBody w.bytes = .ok error ↔
      Role.defaulted.Holds 0 (Shape.word .i64).Denotes (own "code" ms) error.code ∧
      Role.defaulted.Holds "" Shape.text.Denotes (own "message" ms) error.message ∧
      Role.defaulted.Holds [] (Shape.list .text).Denotes (own "errorStack" ms) error.stack ∧
      ∀ m ∈ ms, m.1.body.text?.isSome := by
  have hitems : w.items? = none := by
    cases w with
    | object before ms inner behind => rfl
    | _ => cases h
  -- a key that has been looked for is not among the others that are left
  have hmessage : own "message" (others "code" ms) = own "message" ms := own_others (by decide)
  have hstack : own "errorStack" (others "message" (others "code" ms)) = own "errorStack" ms :=
    (own_others (by decide)).trans (own_others (by decide))
  have hobject : (Shape.record "RequestError" fields).Denotes w (Wire.row error) ↔
      fields.Holds ms (Wire.row error) := by
    rw [Shape.Denotes, hitems, h]
    simp
  rw [ofBody, decode_eq_ok_iff]
  refine hobject.trans ?_
  show _ ∧ _ ∧ _ ∧ (∀ m ∈ others _ (others _ (others _ ms)), m.1.body.text?.isSome) ↔ _
  rw [hmessage, hstack, forall_mem_others_iff, forall_mem_others_iff, forall_mem_others_iff]
  rfl

namespace Response

/-- A text occurs in another one exactly if it is a stretch of it. -/
theorem occursIn_iff {part text : List Char} : occursIn part text = true ↔ part <:+: text := by
  induction text with
  | nil => simp [occursIn]
  | cons c rest ih =>
    rw [occursIn, Bool.or_eq_true, ih, List.isPrefixOf_iff_prefix, List.infix_cons_iff]

/-- Whether the body of an answer is said to be a document: the first of the types named for it is
printable and speaks of one. -/
def NamesDocument (response : Response) : Prop :=
  ∃ value, (response.headers.values .contentType).head? = some value ∧ value.IsPrintable ∧
    bytes "application/json".toList <:+: value.bytes

/-- The error that an answer without success is: without a document only its status is known, with
one it is what the document says. -/
inductive IsRefusal (response : Response) : ExchangeError → Prop
  | status (hnames : ¬response.NamesDocument) :
    IsRefusal response (.status response.status.code response.status.line)
  | appliance {error : ApplianceError} (hnames : response.NamesDocument)
    (hbody : ApplianceError.ofBody response.body = .ok error) :
    IsRefusal response (.appliance error)
  | errorBody {reason : Json.Error} (hnames : response.NamesDocument)
    (hbody : ApplianceError.ofBody response.body = .error reason) :
    IsRefusal response (.errorBody reason)

variable {response : Response} {e : ExchangeError}

theorem isDocument_iff : response.isDocument = true ↔ response.NamesDocument := by
  have hempty : ¬"application/json".toList <:+: [] := by decide
  rw [isDocument, occursIn_iff, contentType, NamesDocument]
  cases (response.headers.values .contentType).head? with
  | none => simp
  | some value =>
    by_cases hprintable : value.IsPrintable
    · have htext : (String.ofList (value.bytes.map fun b => Char.ofNat b.toNat)).toList = _ :=
        String.toList_ofList
      rw [Option.bind_some, FieldValue.ascii?_of_isPrintable hprintable, Option.getD_some, htext,
        FieldValue.document_infix_iff hprintable]
      constructor
      · intro h
        exact ⟨value, rfl, hprintable, h⟩
      · rintro ⟨_, ⟨⟩, -, h⟩
        exact h
    · -- what is not printable counts as no type at all
      rw [Option.bind_some, FieldValue.ascii?_of_not_isPrintable hprintable, Option.getD_none]
      constructor
      · intro h
        exact absurd h hempty
      · rintro ⟨_, ⟨⟩, h, -⟩
        exact absurd h hprintable

/-- An answer is a success exactly if its status is from 200 to 206. -/
theorem failure?_eq_none_iff :
    response.failure? = none ↔ 200 ≤ response.status.code ∧ response.status.code ≤ 206 := by
  have hok : response.status.isOk = true ↔
      200 ≤ response.status.code ∧ response.status.code ≤ 206 := by simp [Http.Status.isOk]
  rw [← hok, failure?]
  cases response.status.isOk with
  | true => simp
  | false =>
    simp only [Bool.false_eq_true, if_false, iff_false]
    split
    · intro h
      cases h
    · split
      · intro h
        cases h
      · intro h
        cases h

/-- Any other answer is a refusal, and what it comes to is the error of the refusal. -/
theorem isRefusal_of_failure (h : response.failure? = some e) : response.IsRefusal e := by
  rw [failure?] at h
  split at h
  · cases h
  · split at h
    · next hnames =>
      cases h
      refine .status fun h => ?_
      rw [isDocument_iff.mpr h] at hnames
      cases hnames
    · next hnames =>
      have hnames := isDocument_iff.mp (by simpa using hnames)
      split at h
      · next hbody =>
        cases h
        exact .appliance hnames hbody
      · next hbody =>
        cases h
        exact .errorBody hnames hbody

/-- What an answer holds leaves one error only for it to be. -/
theorem IsRefusal.unique {e' : ExchangeError} (h : response.IsRefusal e)
    (h' : response.IsRefusal e') : e = e' := by
  cases h with
  | status hno =>
    cases h' with
    | status _ => rfl
    | appliance hnames _ => exact absurd hnames hno
    | errorBody hnames _ => exact absurd hnames hno
  | appliance hnames hbody =>
    cases h' with
    | status hno => exact absurd hnames hno
    | appliance _ hbody' =>
      cases hbody.symm.trans hbody'
      rfl
    | errorBody _ hbody' => cases hbody.symm.trans hbody'
  | errorBody hnames hbody =>
    cases h' with
    | status hno => exact absurd hnames hno
    | appliance _ hbody' => cases hbody.symm.trans hbody'
    | errorBody _ hbody' =>
      cases hbody.symm.trans hbody'
      rfl

theorem IsRefusal.ne_decode (h : response.IsRefusal e) (reason : Json.Error) :
    e ≠ .decode reason := by
  rintro rfl
  cases h

/-! ## What an answer holds -/

section

variable {α : Type} (read : Json.Bytes → Except Json.Error α)

theorem bodyOrFailure_of_success (h : response.failure? = none) :
    response.bodyOrFailure = .ok response.body := by
  rw [bodyOrFailure, h]

theorem bodyOrFailure_of_failure (h : response.failure? = some e) :
    response.bodyOrFailure = .error e := by
  rw [bodyOrFailure, h]

theorem decode_of_failure (h : response.failure? = some e) : response.decode read = .error e := by
  rw [decode, bodyOrFailure_of_failure h]
  rfl

/-- What is wrong with the body of a success is no error document. -/
theorem decode_ne_errorBody (h : response.failure? = none) (reason : Json.Error) :
    Outcome.ofExcept (response.decode read) ≠ .error (.errorBody reason) := by
  rw [decode_of_success h]
  cases read response.body with
  | ok x =>
    intro h
    cases h
  | error _ =>
    intro h
    cases h

end

end Response

namespace Request

variable {r : Request} {line : Line} {response : Response}

/-- A complete answer is sent on as it is. -/
theorem send_answered (hr : r.error = none) (hup : line.isUp = true)
    (hreply : line.replies.head? = some (.answer response)) :
    (r.send line).1 = r.take (.answer response) := by
  rw [send_fst hr, Line.exchange, hup, hreply]
  rfl

/-- What all ways to send a request make of an answer that is a success. -/
theorem outcomes_of_success {α : Type} (read : Json.Bytes → Except Json.Error α)
    (hsend : (r.send line).1 = r.take (.answer response)) (h : response.failure? = none) :
    (r.sendForBody line).1 = .ok response.body ∧ (r.sendForNothing line).1 = .ok () ∧
      (r.sendFor read line).1 = .ofExcept (response.decode read) := by
  have hanswer : (r.send line).1 = .ok response := hsend.trans (take_eq_ok.mpr ⟨rfl, h⟩)
  exact ⟨congrArg (·.map (·.body)) hanswer, congrArg (·.map fun _ => ()) hanswer,
    congrArg (·.bind fun answer => .ofExcept (answer.decode read)) hanswer⟩

/-- What they make of any other one. -/
theorem outcomes_of_failure {α : Type} (read : Json.Bytes → Except Json.Error α)
    {e : ExchangeError} (hsend : (r.send line).1 = r.take (.answer response))
    (h : response.failure? = some e) :
    (r.sendForBody line).1 = .error e ∧ (r.sendForNothing line).1 = .error e ∧
      (r.sendFor read line).1 = .error e := by
  have hanswer : (r.send line).1 = .error e := by rw [hsend, take, h]
  exact ⟨congrArg (·.map (·.body)) hanswer, congrArg (·.map fun _ => ()) hanswer,
    congrArg (·.bind fun answer => .ofExcept (answer.decode read)) hanswer⟩

/-- All ways to send a request take an answer alike. A status from 200 to 206 brings the body as it is,
its value, or why it has none; any other one brings the error of the refusal, whatever was asked for.
This is what the answer by itself comes to. -/
theorem answer_decides_outcome {α : Type} (read : Json.Bytes → Except Json.Error α) (r : Request)
    (line : Line) (response : Response) (hr : r.error = none) (hup : line.isUp = true)
    (hreply : line.replies.head? = some (.answer response)) :
    let isSuccess := 200 ≤ response.status.code ∧ response.status.code ≤ 206
    let body := (r.sendForBody line).1
    let nothing := (r.sendForNothing line).1
    let value := (r.sendFor read line).1
    (isSuccess → body = .ok response.body ∧ nothing = .ok () ∧
      value = match read response.body with
        | .ok x => .ok x
        | .error reason => .error (.decode reason)) ∧
    (¬isSuccess → ∃ e, response.IsRefusal e ∧
      body = .error e ∧ nothing = .error e ∧ value = .error e) ∧
    body = .ofExcept response.bodyOrFailure ∧
    value = .ofExcept (response.decode read) ∧
    (∀ reason, isSuccess → body ≠ .error (.errorBody reason) ∧
      nothing ≠ .error (.errorBody reason) ∧ value ≠ .error (.errorBody reason)) ∧
    (∀ reason, ¬isSuccess → body ≠ .error (.decode reason) ∧
      nothing ≠ .error (.decode reason) ∧ value ≠ .error (.decode reason)) := by
  intro isSuccess body nothing value
  have hsend := send_answered hr hup hreply
  cases hfailure : response.failure? with
  | none =>
    have hsuccess : isSuccess := Response.failure?_eq_none_iff.mp hfailure
    obtain ⟨hbody, hnothing, hvalue⟩ : body = .ok response.body ∧ nothing = .ok () ∧
        value = .ofExcept (response.decode read) := outcomes_of_success read hsend hfailure
    rw [hbody, hnothing, hvalue, Response.bodyOrFailure_of_success hfailure]
    refine ⟨fun _ => ⟨rfl, rfl, ?_⟩, fun h => absurd hsuccess h, rfl, rfl, ?_,
      fun _ h => absurd hsuccess h⟩
    · rw [Response.decode_of_success hfailure]
      cases read response.body <;> rfl
    · intro reason _
      refine ⟨?_, ?_, ?_⟩
      · intro h
        cases h
      · intro h
        cases h
      · exact Response.decode_ne_errorBody read hfailure reason
  | some e =>
    have hrefusal := Response.isRefusal_of_failure hfailure
    have hkind : ∀ reason, e ≠ .decode reason := hrefusal.ne_decode
    have hno : ¬isSuccess := by
      intro h
      rw [Response.failure?_eq_none_iff.mpr h] at hfailure
      cases hfailure
    obtain ⟨hbody, hnothing, hvalue⟩ : body = .error e ∧ nothing = .error e ∧ value = .error e :=
      outcomes_of_failure read hsend hfailure
    rw [hbody, hnothing, hvalue, Response.bodyOrFailure_of_failure hfailure,
      Response.decode_of_failure read hfailure]
    refine ⟨fun h => absurd h hno, fun _ => ⟨e, hrefusal, rfl, rfl, rfl⟩, rfl, rfl,
      fun _ h => absurd h hno, ?_⟩
    intro reason _
    refine ⟨?_, ?_, ?_⟩
    · exact fun h => hkind reason (Outcome.error.inj h)
    · exact fun h => hkind reason (Outcome.error.inj h)
    · exact fun h => hkind reason (Outcome.error.inj h)

/-- A refusal that names some types for its body. -/
def unavailable (types : List String) (body : String) : Response where
  status := ⟨503, by decide, by decide⟩
  headers := ⟨types.flatMap fun type => (FieldValue.ofString? type).toList.map (.contentType, ·)⟩
  body := bytes body.toList

/-- Where the first type is no document only the status is known. Of a document what it says is
taken, and where its body is none, why it is none. -/
theorem answer_decides_unavailable :
    let r := new sampleClient .get
    let line := fun response => Line.withReplies [.answer response]
    let other := unavailable ["*/*", "application/json"] "\x7b\x7d"
    let told := unavailable ["application/json; charset=UTF-8"]
      "\x7b\"message\":\"no such pool\",\"code\":400,\"errorStack\":[\"in /Common\"]\x7d"
    let untold := unavailable ["application/json"] "<html>"
    r.error = none ∧ (∀ response, (line response).replies.head? = some (.answer response)) ∧
      (r.sendForBody (line other)).1 = .error (.status 503 "503 Service Unavailable") ∧
      (r.sendFor Json.ofBytes (line other)).1 = .error (.status 503 "503 Service Unavailable") ∧
      (r.sendForBody (line told)).1 = .error (.appliance ⟨400, "no such pool", ["in /Common"]⟩) ∧
      (r.sendForNothing (line told)).1 = .error (.appliance ⟨400, "no such pool", ["in /Common"]⟩) ∧
      (r.sendForBody (line untold)).1 = .error (.errorBody (.malformed .expectedValue)) ∧
      (r.sendFor Json.ofBytes (line untold)).1 =
        .error (.errorBody (.malformed .expectedValue)) := by
  intro r line other told untold
  have hno : ¬other.NamesDocument := by
    rintro ⟨_, ⟨⟩, -, hinfix⟩
    exact absurd hinfix (by decide)
  have htold : told.NamesDocument := Response.isDocument_iff.mp (by decide +kernel)
  have huntold : untold.NamesDocument := Response.isDocument_iff.mp (by decide +kernel)
  obtain ⟨e₁, h₁, hbody₁, -, hvalue₁⟩ :=
    (answer_decides_outcome Json.ofBytes r (line other) other rfl rfl rfl).2.1 (by decide)
  obtain ⟨e₂, h₂, hbody₂, hnothing₂, -⟩ :=
    (answer_decides_outcome Json.ofBytes r (line told) told rfl rfl rfl).2.1 (by decide)
  obtain ⟨e₃, h₃, hbody₃, -, hvalue₃⟩ :=
    (answer_decides_outcome Json.ofBytes r (line untold) untold rfl rfl rfl).2.1 (by decide)
  have he₁ : e₁ = .status 503 "503 Service Unavailable" :=
    (h₁.unique (.status hno)).trans (by decide +kernel)
  have he₂ : e₂ = .appliance ⟨400, "no such pool", ["in /Common"]⟩ :=
    h₂.unique (.appliance htold (by decide +kernel))
  have he₃ : e₃ = .errorBody (.malformed .expectedValue) :=
    h₃.unique (.errorBody huntold (by decide +kernel))
  rw [← he₁, ← he₂, ← he₃]
  exact ⟨rfl, fun _ => rfl, hbody₁, hvalue₁, hbody₂, hnothing₂, hbody₃, hvalue₃⟩

end Request

end ApplianceRest
