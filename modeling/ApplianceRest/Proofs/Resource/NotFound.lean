import ApplianceRest.Proofs.Resource.InstanceOperation

/-!
# Objects that are not there

An operation ends with the error that its object is not there where the error of the exchange tells
of the status 404. That error has been made from the answer, and where the answer is a document it
keeps the code the document names and forgets the status, so the two can disagree.

* `isNotFound_run`: which answers make an operation say that its object is not there.
* `isNotFound_iff_status`: where this is the status 404, and where it is not.
-/

namespace ApplianceRest

/-- Whether the body of an answer is an error document with the code 404. -/
def Response.NamesMissing (response : Response) : Prop :=
  ∃ e, ApplianceError.ofBody response.body = .ok e ∧ e.code.toInt = 404

instance (response : Response) : Decidable response.NamesMissing :=
  match h : ApplianceError.ofBody response.body with
  | .ok e => decidable_of_iff (e.code.toInt = 404) (by simp [Response.NamesMissing, h])
  | .error _ => isFalse (by simp [Response.NamesMissing, h])

/-- What makes an answer say that an object is not there: it is none of success, and it is a document
that names the code 404, or no document and has that status. -/
def Response.SaysMissing (response : Response) : Prop :=
  response.status.isOk = false ∧
    if response.isDocument then response.NamesMissing else response.status.code = 404

instance (response : Response) : Decidable response.SaysMissing :=
  inferInstanceAs (Decidable (_ ∧ _))

/-- Whether an operation ends with the error that its object is not there. -/
def Outcome.IsNotFound {α : Type} (outcome : Outcome ResourceError α) : Prop :=
  ∃ resource fullPath, outcome = .error (.notFound resource fullPath)

variable {response : Response}

/-- An error document tells of the status 404 exactly if that is the code it names. -/
theorem ExchangeError.statusCode_appliance {error : ApplianceError} :
    (ExchangeError.appliance error).statusCode? = some 404 ↔ error.code.toInt = 404 := by
  have hsize : (UInt16.size : Int) = 65536 := rfl
  rw [statusCode?]
  split
  · rw [Option.some.injEq]
    omega
  · constructor
    · intro h
      cases h
    · intro h
      omega

/-- Which answers leave an error that tells of the status 404. -/
theorem Response.statusCode_failure :
    (∃ e, response.failure? = some e ∧ e.statusCode? = some 404) ↔ response.SaysMissing := by
  rw [SaysMissing, failure?]
  cases hok : response.status.isOk with
  | true => simp
  | false =>
    cases hdocument : response.isDocument with
    | false => simp [ExchangeError.statusCode?]
    | true =>
      rw [NamesMissing]
      cases hbody : ApplianceError.ofBody response.body with
      | error reason => simp [ExchangeError.statusCode?]
      | ok error => simp [ExchangeError.statusCode_appliance]

/-- A success never has the status 404. -/
theorem Response.code_ne_of_isOk (h : response.status.isOk = true) :
    response.status.code ≠ 404 := by
  rw [Http.Status.isOk, Bool.and_eq_true, decide_eq_true_eq, decide_eq_true_eq] at h
  omega

theorem ResourceError.ofExchange_eq_notFound {label subject resource fullPath : String}
    {e : ExchangeError} :
    ofExchange label (some subject) e = .notFound resource fullPath ↔
      e.statusCode? = some 404 ∧ label = resource ∧ subject = fullPath := by
  unfold ofExchange
  split
  · next h hpath =>
    cases hpath
    rw [h]
    simp
  · next hno =>
    constructor
    · intro h
      cases h
    · rintro ⟨h, -⟩
      exact absurd rfl (hno subject h)

namespace InstanceOperation

variable {α : Type} {op : InstanceOperation α} {line : Line}

/-- An operation that is answered says that its object is not there exactly if the answer does. -/
theorem isNotFound_run (client : Client) (haddressed : op.call.IsAddressed) (hup : line.isUp = true)
    (hreply : line.replies.head? = some (.answer response)) :
    (op.run client line).1.IsNotFound ↔ response.SaysMissing := by
  have hc := op.carries client
  have hreply' : (line.exchange (op.call.request client).message).1 = .answer response := by
    rw [Line.exchange, hup, hreply]
    rfl
  have hsend := Request.send_fst ((op.call.error_request_eq_none client).mpr haddressed) line
  rw [hreply', Request.take] at hsend
  rw [← Response.statusCode_failure]
  cases hfailure : response.failure? with
  | none =>
    -- a success is given as a value, or does not decode
    simp only [hfailure] at hsend
    constructor
    · rintro ⟨resource, fullPath, hrun⟩
      rcases hc.ok line response hsend with ⟨value, hvalue⟩ | ⟨reason, hreason⟩
      · rw [hvalue] at hrun
        cases hrun
      · rw [hreason] at hrun
        cases hrun
    · rintro ⟨e, ⟨⟩, -⟩
  | some e =>
    simp only [hfailure] at hsend
    rw [Outcome.IsNotFound, hc.error line e hsend]
    constructor
    · rintro ⟨resource, fullPath, hrun⟩
      rw [Outcome.error.injEq, ResourceError.ofExchange_eq_notFound] at hrun
      exact ⟨e, rfl, hrun.1⟩
    · rintro ⟨e', he, hcode⟩
      cases he
      refine ⟨op.call.label, op.call.subject, ?_⟩
      rw [Outcome.error.injEq, ResourceError.ofExchange_eq_notFound]
      exact ⟨hcode, rfl, rfl⟩

/-- An operation that is answered ends with the error that its object is not there exactly if the
answer says so. Whether this is when the status is 404 depends on the document of a refusal: it is
exactly if the document names the code 404 where the status is 404, and only there. -/
theorem isNotFound_iff_status (client : Client) (op : InstanceOperation α) (line : Line)
    (response : Response) (haddressed : op.call.IsAddressed) (hup : line.isUp = true)
    (hreply : line.replies.head? = some (.answer response)) :
    ((op.run client line).1.IsNotFound ↔ response.SaysMissing) ∧
    (((op.run client line).1.IsNotFound ↔ response.status.code = 404) ↔
      (response.status.isOk = false → response.isDocument = true →
        (response.NamesMissing ↔ response.status.code = 404))) := by
  have hrun := isNotFound_run client haddressed hup hreply
  refine ⟨hrun, ?_⟩
  rw [hrun, Response.SaysMissing]
  cases hok : response.status.isOk with
  | true =>
    have hcode := Response.code_ne_of_isOk hok
    simp [hcode]
  | false =>
    cases hdocument : response.isDocument with
    | false => simp
    | true => simp

/-- The operation that asks for one pool. -/
def getWeb : InstanceOperation Pool := .get "/Common/web"

theorem isAddressed_getWeb : getWeb.call.IsAddressed := by
  refine ⟨?_, trivial⟩
  show Path.IsFullPath "/Common/web"
  decide

/-- An answer with the status 404 and a document. -/
def refusal (document : String) : Response where
  status := ⟨404, by decide, by decide⟩
  headers := ⟨[(.contentType, .document)]⟩
  body := document.toList.flatMap String.utf8EncodeChar

/-- Where the document names the code 404, the operation says that the object is not there. -/
theorem isNotFound_of_code :
    (getWeb.run Request.sampleClient
      (.withReplies [.answer (refusal "\x7b\"code\":404\x7d")])).1.IsNotFound :=
  (isNotFound_iff_status Request.sampleClient getWeb _ _ isAddressed_getWeb rfl rfl).1.mpr
    (by decide +kernel)

/-- Where it names no code, the status 404 is not enough. -/
theorem not_isNotFound_without_code :
    ¬((getWeb.run Request.sampleClient
        (.withReplies [.answer (refusal "\x7b\"message\":\"gone\"\x7d")])).1.IsNotFound ↔
      (refusal "\x7b\"message\":\"gone\"\x7d").status.code = 404) := by
  have hno : ¬(refusal "\x7b\"message\":\"gone\"\x7d").SaysMissing := by decide +kernel
  rw [isNotFound_run Request.sampleClient isAddressed_getWeb rfl rfl]
  intro h
  exact hno (h.mpr rfl)

end InstanceOperation

end ApplianceRest
