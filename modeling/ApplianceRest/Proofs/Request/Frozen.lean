import ApplianceRest.Proofs.Request.Hierarchy

/-!
# Requests with something wrong

Once something is wrong with a request, settings have no effect on it but one: the method is still
set. `set_of_error` says so of one setting, `setAll_of_error` of a run, and
`observe_setAll_of_error` says what can be seen of it.
-/

namespace ApplianceRest.Request

open Http (Headers Method)

/-- All that can be seen of a request before it is sent. -/
structure Observation where
  method : Method
  path : String
  query : String
  url : String
  timeout : Duration
  headers : Headers
  body : Body
  error : Option InvalidRequest

/-- What can be seen of a request. -/
def observe (r : Request) : Observation where
  method := r.method
  path := r.path
  query := r.query
  url := r.url
  timeout := r.timeout
  headers := r.headers
  body := r.body
  error := r.error

variable {r : Request} {s : Setting} {reason : InvalidRequest}

/-- On a request with something wrong a setting sets the method or does nothing. -/
theorem set_of_error (hr : r.error = some reason) :
    r.set s = { r with method := s.onMethod r.method } := by
  cases s with
  | method m => rfl
  | _ =>
    -- any other setting is passed over
    show r.set _ = r
    simp only [set, hr]

/-- On a request with something wrong a run sets the method, and does nothing else. -/
theorem setAll_of_error (hr : r.error = some reason) (settings : List Setting) :
    r.setAll settings = { r with method := settings.foldl Setting.onMethod r.method } := by
  induction settings generalizing r with
  | nil => rfl
  | cons s rest ih =>
    -- the error is still there after the first setting
    have hnext : (r.set s).error = some reason := error_set_of_some hr
    calc r.setAll (s :: rest)
        = (r.set s).setAll rest := rfl
      _ = { r.set s with method := rest.foldl Setting.onMethod (r.set s).method } := ih hnext
      _ = { r with method := (s :: rest).foldl Setting.onMethod r.method } := by
        rw [set_of_error hr, List.foldl_cons]

/-- The method shows in no other part of what can be seen of a request. -/
theorem observe_method (r : Request) (m : Method) :
    ({ r with method := m } : Request).observe = { r.observe with method := m } := rfl

/-- Whatever is set on a request with something wrong, all that can be seen of it stays, except that
the method is the last one that was set. So the request is as it was exactly if that is the method
it had. -/
theorem observe_setAll_of_error (r : Request) (reason : InvalidRequest) (settings : List Setting)
    (hr : r.error = some reason) :
    (r.setAll settings).observe =
        { r.observe with method := settings.foldl Setting.onMethod r.method } ∧
      ((r.setAll settings).observe = r.observe ↔
        settings.foldl Setting.onMethod r.method = r.method) := by
  have hobserve : (r.setAll settings).observe =
      { r.observe with method := settings.foldl Setting.onMethod r.method } := by
    rw [setAll_of_error hr, observe_method]
  refine ⟨hobserve, ?_⟩
  rw [hobserve]
  constructor
  · intro h
    exact congrArg Observation.method h
  · intro h
    rw [h]
    rfl

/-- A request whose first setting names no category. -/
def rejected : Request := (new sampleClient .get).set (.category "..")

/-- Of the settings behind the rejected one, neither the parameter nor the manager is seen. -/
theorem observe_rejected :
    (rejected.setAll [.parameter "a" "1", .method .get, .manager "ltm"]).observe =
      rejected.observe :=
  (observe_setAll_of_error rejected (.invalidSegment .category ".." [.reserved ".."]) _
    (by decide)).2.mpr rfl

/-- The method is seen: a rejected request for reading becomes one for deleting. -/
theorem observe_method_of_rejected :
    rejected.error.isSome ∧ (rejected.setAll [.method .delete]).observe ≠ rejected.observe := by
  refine ⟨by decide, ?_⟩
  intro h
  have hmethod : Method.delete = Method.get := congrArg Observation.method h
  cases hmethod

end ApplianceRest.Request
