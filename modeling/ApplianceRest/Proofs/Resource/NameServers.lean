import ApplianceRest.Proofs.Resource.InstanceOperation
import ApplianceRest.Proofs.Resource.Writable

/-!
# Adding name servers

Name servers are added by reading the resolver settings and writing them back. What one such run
asks for follows from the replies it has had (`Operation.next?`): it reads, and once it has read, it
writes the settings that were there with the new servers behind the known ones, or is done if there
is no new one. What it writes denotes just these settings (`decode_body_updateMessage`).
-/

namespace ApplianceRest

open Http (Method)
open Request (Setting)

/-- The message with which an operation goes on when it has had some replies: the one that meets no
reply on a line with these and no others. -/
def Operation.next? {α : Type} (operation : Operation α) (replies : List Reply) : Option Message :=
  (operation (.withReplies replies)).2.handed[replies.length]?.map (·.1)

/-- On a line with a connection a message goes to the other end. -/
theorem Line.afterHanding_of_isUp {line : Line} (h : line.isUp = true) (m : Message) :
    line.afterHanding m = { line with
      replies := line.replies.tail
      handed := line.handed ++ [(m, line.replies.head?.getD .closed)] } := by
  rw [afterHanding, if_pos h]

theorem Line.length_handed_afterHanding_le (line : Line) (m : Message) :
    (line.afterHanding m).handed.length ≤ line.handed.length + 1 := by
  by_cases hup : line.isUp = true
  · rw [afterHanding_of_isUp hup]
    exact Nat.le_of_eq List.length_append
  · rw [afterHanding, if_neg hup]
    exact Nat.le_succ _

/-- A request that is in order is handed over, and what comes back is made of the reply. -/
theorem Request.fetch_eq {α : Type} [Record.Wire α] {r : Request} (hr : r.error = none)
    (label : String) (fullPath : Option String) (line : Line) :
    r.fetch (α := α) label fullPath line =
      (((r.take (line.exchange r.message).1).bind fun response =>
        .ofExcept (response.decode (Record.decode α))).mapError (.ofExchange label fullPath),
        line.afterHanding r.message) := by
  rw [fetch, sendFor, ← send_fst hr, ← send_snd hr]

theorem Line.exchange_fst {line : Line} (h : line.isUp = true) (m : Message) :
    (line.exchange m).1 = line.replies.head?.getD .closed := by
  rw [exchange, h]
  rfl

theorem Request.fetch_answered {α : Type} [Record.Wire α] {r : Request} {line : Line}
    {response : Response} {rest : List Reply} {value : α} (hr : r.error = none)
    (hup : line.isUp = true) (hreplies : line.replies = .answer response :: rest)
    (hok : response.failure? = none) (hdecode : Record.decode α response.body = .ok value)
    (label : String) (fullPath : Option String) :
    r.fetch label fullPath line = (.ok value, line.afterHanding r.message) := by
  have htake : r.take (line.exchange r.message).1 = .ok response := by
    rw [Line.exchange_fst hup, hreplies]
    exact take_eq_ok.mpr ⟨rfl, hok⟩
  rw [fetch_eq hr, htake]
  simp only [Outcome.bind, Response.decode_of_success hok, hdecode, Outcome.ofExcept,
    Outcome.mapError]

theorem Request.fetch_closed {α : Type} [Record.Wire α] {r : Request} {line : Line}
    (hr : r.error = none) (hup : line.isUp = true) (hreplies : line.replies = [])
    (label : String) (fullPath : Option String) :
    r.fetch (α := α) label fullPath line =
      (.error (.ofExchange label fullPath .network), line.afterHanding r.message) := by
  rw [fetch_eq hr, Line.exchange_fst hup, hreplies]
  rfl

/-- Method, header fields and body are no parts of the address. -/
theorem Request.url_of_parts (r : Request) (method : Method) (headers : Http.Headers) (body : Body) :
    { r with method, headers, body : Request }.url = r.url := rfl

namespace DnsSettings

variable {client : Client} {servers known : List String} {server : String}

/-! ## Lists of servers -/

theorem mem_withServer {s : String} : s ∈ withServer known server ↔ s ∈ known ∨ s = server := by
  rw [withServer]
  split
  · next hmem =>
    have hserver : server ∈ known := by simpa using hmem
    constructor
    · exact Or.inl
    · rintro (hs | rfl)
      · exact hs
      · exact hserver
  · rw [List.mem_append, List.mem_singleton]

theorem prefix_withServer (known : List String) (server : String) :
    known <+: withServer known server := by
  rw [withServer]
  split
  · exact List.prefix_rfl
  · exact List.prefix_append known [server]

/-- The servers that are known afterwards are those from before and those that are added. -/
theorem mem_foldl_withServer {s : String} :
    s ∈ servers.foldl withServer known ↔ s ∈ known ∨ s ∈ servers := by
  induction servers generalizing known with
  | nil => simp
  | cons server rest ih => rw [List.foldl_cons, ih, mem_withServer, List.mem_cons, or_assoc]

/-- Servers are added behind those that are known. -/
theorem prefix_foldl_withServer (known servers : List String) :
    known <+: servers.foldl withServer known := by
  induction servers generalizing known with
  | nil => exact List.prefix_rfl
  | cons server rest ih => exact (prefix_withServer known server).trans (ih _)

/-- The list grows exactly if some server is new. -/
theorem length_foldl_withServer :
    (servers.foldl withServer known).length = known.length ↔ ∀ s ∈ servers, s ∈ known := by
  constructor
  · intro hlength s hs
    have heq := (prefix_foldl_withServer known servers).eq_of_length hlength.symm
    rw [heq]
    exact mem_foldl_withServer.mpr (Or.inr hs)
  · intro hknown
    induction servers with
    | nil => rfl
    | cons server rest ih =>
      rw [List.forall_mem_cons] at hknown
      rw [List.foldl_cons, withServer, if_pos (by simpa using hknown.1)]
      exact ih hknown.2

/-! ## The two requests -/

/-- The request that puts settings in place of those that are there. -/
def updateRequest (client : Client) (settings : DnsSettings) : Request :=
  (request client .put).withRecord settings

theorem updateRequest_eq (client : Client) (settings : DnsSettings) :
    updateRequest client settings =
      { request client .get with
        method := .put
        headers := (request client .get).headers.set .contentType .document
        body := .bytes (Record.document settings).toBytes } := rfl

/-- Where the resolver settings of the appliance of a client are. -/
def address (client : Client) : String := (request client .get).url

/-- The message that asks for the settings. -/
def getMessage (client : Client) : Message := (request client .get).message

/-- The message that brings settings. -/
def updateMessage (client : Client) (settings : DnsSettings) : Message :=
  (updateRequest client settings).message

theorem method_getMessage : (getMessage client).method = .get := rfl

theorem target_getMessage : (getMessage client).target = address client := rfl

variable {settings : DnsSettings}

theorem method_updateMessage : (updateMessage client settings).method = .put := rfl

theorem target_updateMessage : (updateMessage client settings).target = address client := by
  show (updateRequest client settings).url = address client
  rw [updateRequest_eq, Request.url_of_parts, address]

theorem body_updateMessage :
    (updateMessage client settings).body = (Record.document settings).toBytes := by
  rw [updateMessage, updateRequest_eq]
  rfl

/-- The body of an update denotes the settings, but for what only the appliance sets. -/
theorem decode_body_updateMessage :
    Record.decode DnsSettings (updateMessage client settings).body = .ok settings.writable := by
  rw [body_updateMessage, resets.decode_document]

/-! ## One run -/

variable {line : Line} {response : Response} {rest : List Reply}

theorem get_of_no_reply (client : Client) (hup : line.isUp = true) (hreplies : line.replies = []) :
    get client line = (.error (.ofExchange label none .network),
      line.afterHanding (request client .get).message) := by
  rw [get, Request.fetch_closed rfl hup hreplies]

theorem get_of_answer (client : Client) (hup : line.isUp = true)
    (hreplies : line.replies = .answer response :: rest) (hok : response.failure? = none)
    (hdecode : Record.decode DnsSettings response.body = .ok settings) :
    get client line = (.ok settings, line.afterHanding (request client .get).message) := by
  rw [get, Request.fetch_answered rfl hup hreplies hok hdecode]

theorem addNameServers_of_get {behind : Line} (hget : get client line = (.ok settings, behind)) :
    addNameServers client servers line =
      let extended := servers.foldl withServer settings.nameServers
      if extended.length = settings.nameServers.length then (.ok settings, behind)
      else update client { settings with nameServers := extended } behind := by
  rw [addNameServers, hget]

/-- Where all servers are known, a run ends with reading. -/
theorem addNameServers_of_known (hget : (get client line).1 = .ok settings)
    (hknown : ∀ s ∈ servers, s ∈ settings.nameServers) :
    addNameServers client servers line = get client line := by
  rw [addNameServers_of_get (Prod.ext hget rfl)]
  dsimp only
  rw [if_pos (length_foldl_withServer.mpr hknown), ← hget]

/-- Where some server is new, a run writes the settings with it. -/
theorem addNameServers_of_new (hget : (get client line).1 = .ok settings)
    (hnew : ¬∀ s ∈ servers, s ∈ settings.nameServers) :
    addNameServers client servers line =
      update client { settings with nameServers := servers.foldl withServer settings.nameServers }
        (get client line).2 := by
  rw [addNameServers_of_get (Prod.ext hget rfl)]
  exact if_neg (mt length_foldl_withServer.mp hnew)

/-- A run that cannot read ends with that. -/
theorem addNameServers_of_failed (hget : ∀ settings, (get client line).1 ≠ .ok settings) :
    addNameServers client servers line = get client line := by
  cases hread : get client line with
  | mk outcome behind =>
    rw [hread] at hget
    rw [addNameServers, hread]
    cases outcome with
    | ok settings => exact absurd rfl (hget settings)
    | error e => rfl
    | waiting => rfl

/-- No run hands over more than two messages. -/
theorem length_handed_addNameServers (client : Client) (servers : List String) (line : Line) :
    (addNameServers client servers line).2.handed.length ≤ line.handed.length + 2 := by
  have hget : (get client line).2.handed.length ≤ line.handed.length + 1 := by
    rw [get, Request.fetch_eq rfl]
    exact line.length_handed_afterHanding_le _
  by_cases hok : ∃ settings, (get client line).1 = .ok settings
  · obtain ⟨settings, hok⟩ := hok
    by_cases hknown : ∀ s ∈ servers, s ∈ settings.nameServers
    · rw [addNameServers_of_known hok hknown]
      omega
    · rw [addNameServers_of_new hok hknown, update, Request.fetch_eq rfl]
      have hupdate := (get client line).2.length_handed_afterHanding_le
        (updateRequest client { settings with
          nameServers := servers.foldl withServer settings.nameServers }).message
      exact Nat.le_trans hupdate (by omega)
  · rw [addNameServers_of_failed fun settings h => hok ⟨settings, h⟩]
    omega

/-- A run starts with reading. -/
theorem next?_start : (addNameServers client servers).next? [] = some (getMessage client) := by
  have hget : get client (.withReplies []) = _ := get_of_no_reply client rfl rfl
  have hrun : addNameServers client servers (.withReplies []) = get client (.withReplies []) :=
    addNameServers_of_failed fun settings h => by rw [hget] at h; cases h
  rw [Operation.next?, hrun, hget, Line.afterHanding_of_isUp rfl]
  rfl

/-- A run that has read all its servers is done. -/
theorem next?_of_known (hok : response.failure? = none)
    (hdecode : Record.decode DnsSettings response.body = .ok settings)
    (hknown : ∀ s ∈ servers, s ∈ settings.nameServers) :
    (addNameServers client servers).next? [.answer response] = none := by
  have hget : get client (.withReplies [.answer response]) = _ :=
    get_of_answer client rfl rfl hok hdecode
  have hsettings := congrArg Prod.fst hget
  rw [Operation.next?, addNameServers_of_known hsettings hknown, hget,
    Line.afterHanding_of_isUp rfl]
  rfl

/-- A run that has read, but not all its servers, goes on with writing. -/
theorem next?_of_new (hok : response.failure? = none)
    (hdecode : Record.decode DnsSettings response.body = .ok settings)
    (hnew : ¬∀ s ∈ servers, s ∈ settings.nameServers) :
    (addNameServers client servers).next? [.answer response] = some (updateMessage client
      { settings with nameServers := servers.foldl withServer settings.nameServers }) := by
  have hget : get client (.withReplies [.answer response]) = _ :=
    get_of_answer client rfl rfl hok hdecode
  have hsettings := congrArg Prod.fst hget
  -- the line has one reply, which reading uses up: the update meets none
  rw [Operation.next?, addNameServers_of_new hsettings hnew, hget, update,
    Request.fetch_closed rfl (by rw [Line.afterHanding_of_isUp rfl]; rfl)
      (by rw [Line.afterHanding_of_isUp rfl]; rfl)]
  rw [Line.afterHanding_of_isUp (by rw [Line.afterHanding_of_isUp rfl]; rfl),
    Line.afterHanding_of_isUp rfl]
  rfl

/-- A run that has had two replies is done. -/
theorem next?_of_two (reply reply' : Reply) :
    (addNameServers client servers).next? [reply, reply'] = none := by
  have hlength := length_handed_addNameServers client servers (.withReplies [reply, reply'])
  have hnone := List.getElem?_eq_none (i := [reply, reply'].length) hlength
  rw [Operation.next?, hnone]
  rfl

end DnsSettings

end ApplianceRest
