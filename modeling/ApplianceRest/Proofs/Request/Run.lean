import ApplianceRest.Proofs.Request.Setting
import ApplianceRest.Request.Send
import Mathlib.Data.List.Induction

/-!
# Runs of settings

A run of settings goes well or is rejected at its first setting that is not accepted where it
stands. Everything about the error of a request follows from three step lemmas: an accepted setting
leaves no error behind (`set_of_apply_ok`), a rejected one leaves its own (`set_of_apply_error`), and
nothing changes an error that is there (`error_set_of_some`).

* `error_setAll`: the error of a run is its first rejection.
* `rejection_decides_exchange`: with a rejection nothing is handed over, without one exactly one
  message is.
-/

namespace ApplianceRest

/-- A line after a message has been handed over: where there is a connection, the message has met
the next reply, and that reply is used up. -/
def Line.afterHanding (line : Line) (m : Message) : Line :=
  if line.isUp then
    { line with
      replies := line.replies.tail
      handed := line.handed ++ [(m, line.replies.head?.getD .closed)] }
  else line

theorem Line.exchange_snd (line : Line) (m : Message) :
    (line.exchange m).2 = line.afterHanding m := by
  rw [Line.exchange, Line.afterHanding]
  cases line.isUp <;> rfl

/-- What an answer says when it is none of success. -/
theorem Response.failure_cases {response : Response} {e : ExchangeError}
    (h : response.failure? = some e) :
    (∃ error, e = .appliance error) ∨ (∃ code line, e = .status code line) ∨
      ∃ reason, e = .errorBody reason := by
  rw [failure?] at h
  split at h
  · cases h
  · split at h
    · cases h
      exact Or.inr (Or.inl ⟨_, _, rfl⟩)
    · split at h
      · cases h
        exact Or.inl ⟨_, rfl⟩
      · cases h
        exact Or.inr (Or.inr ⟨_, rfl⟩)

/-- What a success brings is what its body denotes. -/
theorem Response.decode_of_success {α : Type} {response : Response}
    (h : response.failure? = none) (read : Json.Bytes → Except Json.Error α) :
    response.decode read =
      match read response.body with
      | .ok value => .ok value
      | .error reason => .error (.decode reason) := by
  rw [decode, bodyOrFailure, h]
  rfl

namespace Request

open Http (Method)

/-- Why a request does not accept a setting, if it does not. -/
def rejection? (r : Request) (s : Setting) : Option InvalidRequest :=
  match r.apply s with
  | .ok _ => none
  | .error reason => some reason

/-- The error of the first setting of a run that is rejected by the request which the settings
before it have made. -/
def firstRejection? (r : Request) : List Setting → Option InvalidRequest
  | [] => none
  | s :: rest => (r.rejection? s).or ((r.set s).firstRejection? rest)

/-! ## One setting -/

variable {r r' : Request} {s : Setting} {settings : List Setting}

/-- On a request that is in order, an accepted setting does what it does. -/
theorem set_of_apply_ok (hr : r.error = none) (h : r.apply s = .ok r') : r.set s = r' := by
  have hrun := apply_eq_ok.mp h
  cases s with
  | method m =>
    cases hrun
    rfl
  | _ => simp only [set, hr, hrun]

/-- On a request that is in order, a rejected setting leaves its error and nothing else. -/
theorem set_of_apply_error {reason : InvalidRequest} (hr : r.error = none)
    (h : r.apply s = .error reason) : r.set s = { r with error := some reason } := by
  have hrun := apply_eq_error.mp h
  cases s with
  | method m => cases hrun
  | _ => simp only [set, hr, hrun]

/-- No setting takes an error away or puts another one in its place. -/
theorem error_set_of_some {reason : InvalidRequest} (hr : r.error = some reason) :
    (r.set s).error = some reason := by
  cases s with
  | method m => exact hr
  | _ => simp only [set, hr]

/-- The method is set whatever is wrong with the request, and by one setting only. -/
theorem method_set : (r.set s).method = s.onMethod r.method := by
  cases hr : r.error with
  | some reason =>
    cases s with
    | method m => rfl
    | _ => simp only [set, hr, Setting.onMethod]
  | none =>
    cases h : r.apply s with
    | ok r' => rw [set_of_apply_ok hr h, (change_of_apply_ok h).method]
    | error reason =>
      rw [set_of_apply_error hr h]
      cases s with
      | method m => cases h
      | _ => rfl

theorem rejection_eq_none : r.rejection? s = none ↔ ∃ r', r.apply s = .ok r' := by
  rw [rejection?]
  cases r.apply s with
  | ok r' => simp
  | error reason => simp

theorem rejection_eq_some {reason : InvalidRequest} :
    r.rejection? s = some reason ↔ r.apply s = .error reason := by
  rw [rejection?]
  cases r.apply s with
  | ok r' => simp
  | error e => simp

/-- The error after one setting on a request that is in order. -/
theorem error_set (hr : r.error = none) : (r.set s).error = r.rejection? s := by
  cases h : r.apply s with
  | ok r' =>
    rw [set_of_apply_ok hr h, (change_of_apply_ok h).error, hr, rejection_eq_none.mpr ⟨r', h⟩]
  | error reason =>
    rw [set_of_apply_error hr h]
    exact (rejection_eq_some.mpr h).symm

/-- A setting that leaves no error on a request that is in order has been accepted. -/
theorem exists_apply_of_error_set (hr : r.error = none) (hs : (r.set s).error = none) :
    ∃ r', r.apply s = .ok r' :=
  rejection_eq_none.mp ((error_set hr).symm.trans hs)

/-! ## Runs -/

theorem setAll_append (before after : List Setting) :
    r.setAll (before ++ after) = (r.setAll before).setAll after :=
  List.foldl_append

theorem setAll_concat (before : List Setting) (s : Setting) :
    r.setAll (before ++ [s]) = (r.setAll before).set s :=
  setAll_append before [s]

theorem method_setAll : (r.setAll settings).method = settings.foldl Setting.onMethod r.method := by
  induction settings generalizing r with
  | nil => rfl
  | cons s rest ih =>
    rw [List.foldl_cons, ← method_set]
    exact ih

theorem error_setAll_of_some {reason : InvalidRequest} (hr : r.error = some reason) :
    (r.setAll settings).error = some reason := by
  induction settings generalizing r with
  | nil => exact hr
  | cons s rest ih => exact ih (error_set_of_some hr)

/-- The error of a run is its first rejection. -/
theorem error_setAll (hr : r.error = none) :
    (r.setAll settings).error = r.firstRejection? settings := by
  induction settings generalizing r with
  | nil => exact hr
  | cons s rest ih =>
    rw [firstRejection?]
    cases h : r.rejection? s with
    | none =>
      have hs : (r.set s).error = none := (error_set hr).trans h
      exact ih hs
    | some reason =>
      -- the first rejection: whatever follows leaves it there
      have hs : (r.set s).error = some reason := (error_set hr).trans h
      show ((r.set s).setAll rest).error = some reason
      exact error_setAll_of_some hs

/-- What holds of a request at the start of a run, and is kept by every setting that is accepted,
holds at the end if the run left no error. -/
theorem run_induction {P : List Setting → Request → Prop} {start : Request} (hstart : P [] start)
    (hstep : ∀ before r s r', P before r → r.apply s = .ok r' → P (before ++ [s]) r')
    (hend : (start.setAll settings).error = none) : P settings (start.setAll settings) := by
  induction settings using List.reverseRec with
  | nil => exact hstart
  | append_singleton before s ih =>
    -- no setting takes an error away, so there was none before the last setting
    rw [setAll_concat] at hend ⊢
    have hbefore : (start.setAll before).error = none := by
      cases h : (start.setAll before).error with
      | none => rfl
      | some reason => rw [error_set_of_some h] at hend; cases hend
    obtain ⟨r', hr'⟩ := exists_apply_of_error_set hbefore hend
    rw [set_of_apply_ok hbefore hr']
    exact hstep before _ s r' (ih hbefore) hr'

/-! ## Exchanges -/

/-- A request that is in order is handed over, and once only. -/
theorem send_snd (hr : r.error = none) (line : Line) :
    (r.send line).2 = line.afterHanding r.message := by
  rw [send, hr]
  exact line.exchange_snd r.message

theorem send_of_error {reason : InvalidRequest} (hr : r.error = some reason) (line : Line) :
    r.send line = (.error (.invalidRequest reason), line) := by
  rw [send, hr]

theorem send_fst (hr : r.error = none) (line : Line) :
    (r.send line).1 = r.take (line.exchange r.message).1 := by
  rw [send, hr]

/-- Only an answer that is a success is taken as an answer. -/
theorem take_eq_ok {reply : Reply} {response : Response} :
    r.take reply = .ok response ↔ reply = .answer response ∧ response.failure? = none := by
  cases reply with
  | answer answered =>
    rw [take]
    cases hfailure : answered.failure? with
    | some e =>
      constructor
      · intro h
        cases h
      · rintro ⟨⟨⟩, hnone⟩
        exact absurd (hfailure.symm.trans hnone) (by simp)
    | none =>
      constructor
      · intro h
        cases h
        exact ⟨rfl, hfailure⟩
      · rintro ⟨⟨⟩, -⟩
        rfl
  | cutShort answered => simp [take]
  | closed => simp [take]
  | silent =>
    rw [take]
    split <;> simp

/-- How an exchange can fail: with what the answer says, without an answer, or because a silent line
has been given up at the deadline. -/
theorem take_eq_error {reply : Reply} {e : ExchangeError} (h : r.take reply = .error e) :
    (∃ response, reply = .answer response ∧ response.failure? = some e) ∨ e = .network ∨
      (reply = .silent ∧ e = .timeout r.timeout ∧ r.timeout.isZero = false) := by
  cases reply with
  | answer response =>
    rw [take] at h
    cases hfailure : response.failure? with
    | none =>
      simp only [hfailure] at h
      cases h
    | some reason =>
      simp only [hfailure] at h
      cases h
      exact Or.inl ⟨response, rfl, hfailure⟩
  | cutShort response =>
    cases h
    exact Or.inr (Or.inl rfl)
  | closed =>
    cases h
    exact Or.inr (Or.inl rfl)
  | silent =>
    rw [take] at h
    split at h
    · cases h
    · next hzero =>
      cases h
      exact Or.inr (Or.inr ⟨rfl, rfl, by simpa using hzero⟩)

/-- Only a silent line is waited for, and only without a deadline. -/
theorem take_eq_waiting {reply : Reply} (h : r.take reply = .waiting) :
    reply = .silent ∧ r.timeout.isZero = true := by
  cases reply with
  | answer response =>
    rw [take] at h
    split at h <;> cases h
  | cutShort response => cases h
  | closed => cases h
  | silent =>
    rw [take] at h
    split at h
    · next hzero => exact ⟨rfl, hzero⟩
    · cases h

/-- Nothing that comes over a line says that a request was invalid. -/
theorem take_ne_invalidRequest (reply : Reply) (reason : InvalidRequest) :
    r.take reply ≠ .error (.invalidRequest reason) := by
  intro h
  rcases take_eq_error h with ⟨response, -, hfailure⟩ | hnetwork | ⟨-, htimeout, -⟩
  · rcases Response.failure_cases hfailure with ⟨_, he⟩ | ⟨_, _, he⟩ | ⟨_, he⟩ <;> cases he
  · cases hnetwork
  · cases htimeout

/-- Whether a setting of a run is rejected decides everything: the first rejection is the error of
the request and of every way to send it, and then nothing is handed over; without a rejection there
is no error, and every way to send the request hands over exactly one message. -/
theorem rejection_decides_exchange (client : Client) (method : Method) (settings : List Setting)
    (line : Line) :
    let start := Request.new client method
    let r := start.setAll settings
    match start.firstRejection? settings with
    | some reason =>
      r.error = some reason ∧
      r.send line = (.error (.invalidRequest reason), line) ∧
      r.sendForBody line = (.error (.invalidRequest reason), line) ∧
      (∀ (α : Type) (read : Json.Bytes → Except Json.Error α),
        r.sendFor read line = (.error (.invalidRequest reason), line)) ∧
      r.sendForNothing line = (.error (.invalidRequest reason), line)
    | none =>
      r.error = none ∧
      (r.send line).2 = line.afterHanding r.message ∧
      (r.sendForBody line).2 = line.afterHanding r.message ∧
      (∀ (α : Type) (read : Json.Bytes → Except Json.Error α),
        (r.sendFor read line).2 = line.afterHanding r.message) ∧
      (r.sendForNothing line).2 = line.afterHanding r.message := by
  intro start r
  have herror : r.error = start.firstRejection? settings := error_setAll rfl
  cases hfirst : start.firstRejection? settings with
  | some reason =>
    rw [hfirst] at herror
    have hsend := send_of_error herror line
    refine ⟨herror, hsend, ?_, ?_, ?_⟩
    · rw [sendForBody, hsend]
      rfl
    · intro α read
      rw [sendFor, hsend]
      rfl
    · rw [sendForNothing, hsend]
      rfl
  | none =>
    rw [hfirst] at herror
    have hsend := send_snd herror line
    exact ⟨herror, hsend, hsend, fun _ _ => hsend, hsend⟩

end Request

end ApplianceRest
