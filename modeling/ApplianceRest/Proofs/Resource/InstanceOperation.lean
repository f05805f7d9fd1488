import ApplianceRest.Proofs.Resource.Call
import ApplianceRest.Resource.Operation

/-!
# Operations on one object

All operations that name an object, as one type: those on an object of any kind, the figures of a
virtual server, and the members of a pool. Each is a single exchange of its call, and `carries` says
all that it does with what the exchange gives.

* `run_of_not_isAddressed`, `run_snd`, `run_ne_invalidRequest`: what happens on the line.
-/

namespace ApplianceRest

open Record (Wire)
open Request (Setting)

/-- An operation that names an object by its full path. -/
inductive InstanceOperation : Type → Type 1 where
  | get {α : Type} [Resource α] (fullPath : String) : InstanceOperation α
  | update {α : Type} [Resource α] (value : α) (fullPath : String) : InstanceOperation α
  | modify {α : Type} [Resource α] (fullPath : String) (changes : Json) : InstanceOperation α
  | delete (α : Type) [Resource α] (fullPath : String) : InstanceOperation Unit
  | statsFor (fullPath : String) : InstanceOperation Stats
  | listMembers (pool : String) : InstanceOperation (Collection PoolMember)
  | getMember (pool member : String) : InstanceOperation PoolMember
  | addMember (pool : String) (member : PoolMember) : InstanceOperation PoolMember
  | removeMember (pool member : String) : InstanceOperation Unit

namespace InstanceOperation

variable {α : Type}

/-- What the operation does. -/
def run (client : Client) : InstanceOperation α → Operation α
  | @get _ _ fullPath => Resource.get client fullPath
  | @update _ _ value fullPath => Resource.update client value fullPath
  | @modify _ _ fullPath changes => Resource.modify client fullPath changes
  | @delete α _ fullPath => Resource.delete α client fullPath
  | .statsFor fullPath => VirtualServer.statsFor client fullPath
  | .listMembers pool => Pool.listMembers client pool
  | .getMember pool member => Pool.getMember client pool member
  | .addMember pool member => Pool.addMember client pool member
  | .removeMember pool member => Pool.removeMember client pool member

/-- What the operation asks for. -/
def call : InstanceOperation α → Call
  | @get α _ fullPath => ⟨.get, Resource.location α, fullPath, .object, none, nofun⟩
  | @update α _ value fullPath =>
    ⟨.put, Resource.location α, fullPath, .object, some (Record.document value), nofun⟩
  | @modify α _ fullPath changes =>
    ⟨.patch, Resource.location α, fullPath, .object, some changes, nofun⟩
  | @delete α _ fullPath => ⟨.delete, Resource.location α, fullPath, .object, none, nofun⟩
  | .statsFor fullPath =>
    ⟨.get, Resource.location VirtualServer, fullPath, .stats, none, nofun⟩
  | .listMembers pool => ⟨.get, Resource.location Pool, pool, .members, none, fun _ => rfl⟩
  | .getMember pool member =>
    ⟨.get, Resource.location Pool, pool, .member member, none, fun _ => rfl⟩
  | .addMember pool member =>
    ⟨.post, Resource.location Pool, pool, .members, some (Record.document member), fun _ => rfl⟩
  | .removeMember pool member =>
    ⟨.delete, Resource.location Pool, pool, .member member, none, fun _ => rfl⟩

end InstanceOperation

/-! ## What is missing -/

namespace Call

/-- What errors call the kind of what is missing. -/
def label (c : Call) : String :=
  match c.place with
  | .member _ => Pool.memberLabel
  | _ => c.location.label

/-- What errors say is missing. -/
def subject (c : Call) : String :=
  match c.place with
  | .member name => name
  | _ => c.fullPath

/-- The request of a call is that to the object with what else the call sets. -/
theorem request_eq (c : Call) (client : Client) :
    c.request client = (c.location.instanceRequest client c.method c.fullPath).setAll
      (c.place.settings ++ c.body.toList.map fun document => .bodyDocument (.ok document)) := by
  rw [request, settings, Location.instanceRequest_eq, ← Request.setAll_append, List.append_assoc]
  rfl

end Call

/-! ## One exchange -/

/-- What an operation makes of the exchange of its request. -/
structure Carries {α : Type} (r : Request) (label subject : String) (operation : Operation α) :
    Prop where
  line : ∀ line, (operation line).2 = (r.send line).2
  error : ∀ line e, (r.send line).1 = .error e →
    (operation line).1 = .error (.ofExchange label (some subject) e)
  ok : ∀ line response, (r.send line).1 = .ok response →
    (∃ value, (operation line).1 = .ok value) ∨
      ∃ reason, (operation line).1 = .error (.exchange (.decode reason))
  waiting : ∀ line, (r.send line).1 = .waiting → (operation line).1 = .waiting

/-- An answer is sent on only if it is a success. -/
theorem Request.failure_eq_none_of_send {r : Request} {line : Line} {response : Response}
    (h : (r.send line).1 = .ok response) : response.failure? = none := by
  cases hr : r.error with
  | some reason =>
    rw [send_of_error hr] at h
    cases h
  | none =>
    rw [send_fst hr] at h
    exact (take_eq_ok.mp h).2

variable {α : Type}

theorem carries_fetch [Wire α] (r : Request) (label subject : String) :
    Carries r label subject (r.fetch (α := α) label (some subject)) where
  line line := rfl
  error line e h := by
    simp only [Request.fetch, Request.sendFor, h, Outcome.bind, Outcome.mapError]
  ok line response h := by
    have hdecode := Response.decode_of_success (Request.failure_eq_none_of_send h)
      (Record.decode α)
    simp only [Request.fetch, Request.sendFor, h, Outcome.bind, hdecode]
    cases hread : Record.decode α response.body with
    | ok value => exact Or.inl ⟨value, rfl⟩
    | error reason => exact Or.inr ⟨reason, rfl⟩
  waiting line h := by
    simp only [Request.fetch, Request.sendFor, h, Outcome.bind, Outcome.mapError]

theorem carries_perform (r : Request) (label subject : String) :
    Carries r label subject (r.perform label (some subject)) where
  line line := rfl
  error line e h := by
    simp only [Request.perform, Request.sendForNothing, h, Outcome.map, Outcome.mapError]
  ok line response h := by
    refine Or.inl ⟨(), ?_⟩
    simp only [Request.perform, Request.sendForNothing, h, Outcome.map, Outcome.mapError]
  waiting line h := by
    simp only [Request.perform, Request.sendForNothing, h, Outcome.map, Outcome.mapError]

namespace InstanceOperation

/-- Every operation is one exchange of its call. -/
theorem carries (op : InstanceOperation α) (client : Client) :
    Carries (op.call.request client) op.call.label op.call.subject (op.run client) := by
  rw [Call.request_eq]
  cases op with
  | get fullPath => exact carries_fetch _ _ _
  | update value fullPath => exact carries_fetch _ _ _
  | modify fullPath changes => exact carries_fetch _ _ _
  | delete α fullPath => exact carries_perform _ _ _
  | statsFor fullPath => exact carries_fetch _ _ _
  | listMembers pool => exact carries_fetch _ _ _
  | getMember pool member => exact carries_fetch _ _ _
  | addMember pool member => exact carries_fetch _ _ _
  | removeMember pool member => exact carries_perform _ _ _

variable {op : InstanceOperation α} {client : Client}

/-- An operation that is not addressed by full paths fails at once and hands nothing over. -/
theorem run_of_not_isAddressed (h : ¬op.call.IsAddressed) (line : Line) :
    ∃ reason, op.run client line = (.error (.exchange (.invalidRequest reason)), line) := by
  have hc := op.carries client
  cases herror : (op.call.request client).error with
  | none => exact absurd ((op.call.error_request_eq_none client).mp herror) h
  | some reason =>
    have hsend := Request.send_of_error herror line
    refine ⟨reason, Prod.ext ?_ ?_⟩
    · exact hc.error line (.invalidRequest reason) (congrArg Prod.fst hsend)
    · exact (hc.line line).trans (congrArg Prod.snd hsend)

/-- Any other operation hands over the message of its call. -/
theorem run_snd (h : op.call.IsAddressed) (line : Line) :
    (op.run client line).2 = line.afterHanding (op.call.request client).message := by
  rw [(op.carries client).line]
  exact Request.send_snd ((op.call.error_request_eq_none client).mpr h) line

theorem run_ne_invalidRequest (h : op.call.IsAddressed) (line : Line) (reason : InvalidRequest) :
    (op.run client line).1 ≠ .error (.exchange (.invalidRequest reason)) := by
  have hc := op.carries client
  have hfst := Request.send_fst ((op.call.error_request_eq_none client).mpr h) line
  intro hrun
  cases hsend : ((op.call.request client).send line).1 with
  | ok response =>
    -- a success is given as a value or as what could not be decoded
    rcases hc.ok line response hsend with ⟨value, hvalue⟩ | ⟨e, he⟩
    · rw [hvalue] at hrun
      cases hrun
    · rw [he] at hrun
      cases hrun
  | waiting =>
    rw [hc.waiting line hsend] at hrun
    cases hrun
  | error e =>
    rw [hc.error line e hsend, Outcome.error.injEq] at hrun
    -- the error of the exchange is passed on as it is, or says that the object is missing
    have he : e = .invalidRequest reason := by
      unfold ResourceError.ofExchange at hrun
      split at hrun
      · cases hrun
      · exact ResourceError.exchange.inj hrun
    rw [hsend, he] at hfst
    exact Request.take_ne_invalidRequest _ _ hfst.symm

end InstanceOperation

end ApplianceRest
