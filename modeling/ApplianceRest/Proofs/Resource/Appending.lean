import ApplianceRest.Proofs.Resource.NameServers

/-!
# What a run that adds name servers sends

A run reads the resolver settings. It writes them back exactly if some server is new, and then with
the new ones behind the known ones: each once, where it is named first (`foldl_withServer`). After a
reading that failed nothing more is sent, and where all servers are known already nothing is written.
-/

namespace ApplianceRest.DnsSettings

variable {client : Client} {servers known : List String} {line : Line} {settings : DnsSettings}

/-! ## Lists of servers -/

/-- The servers that are not known, each once, in the order in which they are first named. -/
def newServers (known servers : List String) : List String :=
  (servers.filter fun s => s ∉ known).eraseDups

theorem newServers_cons_of_mem {s : String} (h : s ∈ known) (servers : List String) :
    newServers known (s :: servers) = newServers known servers := by
  rw [newServers, List.filter_cons_of_neg (by simpa using h), newServers]

/-- A server that is not known is named first, and from then on it is known. -/
theorem newServers_cons_of_not_mem {s : String} (h : s ∉ known) (servers : List String) :
    newServers known (s :: servers) = s :: newServers (known ++ [s]) servers := by
  rw [newServers, List.filter_cons_of_pos (by simpa using h), List.eraseDups_cons, newServers,
    List.filter_filter]
  congr 2
  refine List.filter_congr fun x _ => ?_
  rw [Bool.eq_iff_iff]
  simp [not_or, and_comm]

/-- Servers are added one by one: what comes behind those that are known is what is new. -/
theorem foldl_withServer (known servers : List String) :
    servers.foldl withServer known = known ++ newServers known servers := by
  induction servers generalizing known with
  | nil => exact (List.append_nil known).symm
  | cons s rest ih =>
    rw [List.foldl_cons, ih, withServer]
    by_cases hs : s ∈ known
    · rw [if_pos (by simpa using hs), newServers_cons_of_mem hs]
    · rw [if_neg (by simpa using hs), newServers_cons_of_not_mem hs, List.append_assoc]
      rfl

/-! ## One run -/

/-- Whether the next message on a line meets an answer with some settings. -/
structure Brings (line : Line) (response : Response) (settings : DnsSettings) : Prop where
  isUp : line.isUp = true
  reply : line.replies.head? = some (.answer response)
  isSuccess : response.failure? = none
  decodes : Record.decode DnsSettings response.body = .ok settings

/-- What is wrong with an answer that brings no settings. -/
inductive IsFault (response : Response) : ExchangeError → Prop
  | failure {e : ExchangeError} (hfailure : response.failure? = some e) : IsFault response e
  | decode {reason : Json.Error} (hok : response.failure? = none)
    (hdecode : Record.decode DnsSettings response.body = .error reason) :
    IsFault response (.decode reason)

/-- What is wrong with an exchange is wrong with the settings: there is no object to be missing. -/
theorem ofExchange_none (e : ExchangeError) :
    ResourceError.ofExchange label none e = .exchange e := by
  rw [ResourceError.ofExchange]
  intro fullPath _ hpath
  cases hpath

/-- Reading is one exchange, and what comes back is made of the reply. -/
theorem get_eq (client : Client) (line : Line) :
    get client line =
      ((((request client .get).take (line.exchange (request client .get).message).1).bind
        fun response => .ofExcept (response.decode (Record.decode DnsSettings))).mapError .exchange,
        line.afterHanding (request client .get).message) := by
  have hlabel : ResourceError.ofExchange label none = .exchange := funext ofExchange_none
  rw [get, Request.fetch_eq rfl, hlabel]

namespace Brings

variable {response : Response}

theorem replies (h : Brings line response settings) :
    ∃ rest, line.replies = .answer response :: rest := by
  have hreply := h.reply
  cases hreplies : line.replies with
  | nil =>
    rw [hreplies] at hreply
    cases hreply
  | cons reply rest =>
    rw [hreplies] at hreply
    cases hreply
    exact ⟨rest, rfl⟩

theorem get_eq (h : Brings line response settings) (client : Client) :
    get client line = (.ok settings, line.afterHanding (request client .get).message) := by
  obtain ⟨rest, hreplies⟩ := h.replies
  exact get_of_answer client h.isUp hreplies h.isSuccess h.decodes

/-- Where all servers are known, a run has read and is done. -/
theorem run_of_known (h : Brings line response settings) (client : Client)
    (hknown : ∀ s ∈ servers, s ∈ settings.nameServers) :
    addNameServers client servers line =
      (.ok settings, line.afterHanding (request client .get).message) := by
  rw [addNameServers_of_known (congrArg Prod.fst (h.get_eq client)) hknown, h.get_eq]

/-- What is handed over by reading. -/
theorem handed_get (h : Brings line response settings) :
    (line.afterHanding (request client .get).message).handed =
      line.handed ++ [(getMessage client, .answer response)] := by
  rw [Line.afterHanding_of_isUp h.isUp, h.reply]
  rfl

/-- Where some server is new, a run reads, and then writes the settings with the new servers behind
the known ones. -/
theorem handed_of_new (h : Brings line response settings)
    (hnew : ¬∀ s ∈ servers, s ∈ settings.nameServers) :
    (addNameServers client servers line).2.handed = line.handed ++
      [(getMessage client, .answer response),
        (updateMessage client { settings with
          nameServers := settings.nameServers ++ newServers settings.nameServers servers },
          line.replies.tail.head?.getD .closed)] := by
  rw [addNameServers_of_new (congrArg Prod.fst (h.get_eq client)) hnew, h.get_eq, update,
    Request.fetch_eq rfl, foldl_withServer]
  have hup : (line.afterHanding (request client .get).message).isUp = true := by
    rw [Line.afterHanding_of_isUp h.isUp]
    exact h.isUp
  dsimp only
  rw [Line.afterHanding_of_isUp hup, h.handed_get, List.append_assoc,
    Line.afterHanding_of_isUp h.isUp]
  rfl

end Brings

variable {response : Response} {e : ExchangeError}

/-- What is wrong with an answer is the error of reading. -/
theorem get_eq_of_isFault (hfault : IsFault response e) (client : Client) (hup : line.isUp = true)
    (hreply : line.replies.head? = some (.answer response)) :
    (get client line).1 = .error (.exchange e) := by
  rw [get_eq, Line.exchange_fst hup, hreply, Option.getD_some]
  cases hfault with
  | failure hfailure =>
    rw [Request.take, hfailure]
    rfl
  | decode hok hdecode =>
    rw [Request.take_eq_ok.mpr ⟨rfl, hok⟩, Outcome.bind, Response.decode_of_success hok, hdecode]
    rfl

/-- A run that adds servers reads first. Settings that lack one of the servers are written back, with
all they lack behind the servers they have, each once and in the order in which it is first named; the
settings that are there afterwards are not written again. Settings that have all the servers are not
written at all, and where reading fails its error is all there is. -/
theorem addNameServers_appends_new (client : Client) (servers : List String) :
    (getMessage client).method = .get ∧
    (∀ line response settings, Brings line response settings →
      let run := addNameServers client servers line
      let extended := settings.nameServers ++ newServers settings.nameServers servers
      ((∀ s ∈ servers, s ∈ settings.nameServers) →
        run.1 = .ok settings ∧
        run.2.handed = line.handed ++ [(getMessage client, .answer response)]) ∧
      ((∃ s ∈ servers, s ∉ settings.nameServers) →
        ∃ put reply,
          run.2.handed = line.handed ++ [(getMessage client, .answer response), (put, reply)] ∧
          put.method = .put ∧ put.target = (getMessage client).target ∧
          Record.decode DnsSettings put.body =
            .ok { settings.writable with nameServers := extended }) ∧
      ∀ line' response' settings', Brings line' response' settings' →
        settings'.nameServers = extended →
        (addNameServers client servers line').1 = .ok settings' ∧
        (addNameServers client servers line').2.handed =
          line'.handed ++ [(getMessage client, .answer response')]) ∧
    (∀ line response e, line.isUp = true → line.replies.head? = some (.answer response) →
      IsFault response e →
      (addNameServers client servers line).1 = .error (.exchange e) ∧
      (addNameServers client servers line).2.handed =
        line.handed ++ [(getMessage client, .answer response)]) ∧
    ∀ line e, (get client line).1 = .error e →
      addNameServers client servers line =
        (.error e, line.afterHanding (request client .get).message) := by
  have hfailed : ∀ line e, (get client line).1 = .error e →
      addNameServers client servers line =
        (.error e, line.afterHanding (request client .get).message) := by
    intro line e he
    rw [addNameServers_of_failed fun settings hsettings => by rw [he] at hsettings; cases hsettings]
    refine Prod.ext he ?_
    rw [get_eq]
  refine ⟨rfl, ?_, ?_, hfailed⟩
  · intro line response settings h run extended
    refine ⟨?_, ?_, ?_⟩
    · intro hknown
      have hrun : run = _ := h.run_of_known client hknown
      exact ⟨congrArg Prod.fst hrun, hrun ▸ h.handed_get⟩
    · rintro ⟨s, hs, hnew⟩
      refine ⟨_, _, h.handed_of_new fun hall => hnew (hall s hs), method_updateMessage,
        target_updateMessage, ?_⟩
      rw [decode_body_updateMessage]
      rfl
    · intro line' response' settings' h' hservers
      have hknown : ∀ s ∈ servers, s ∈ settings'.nameServers := by
        intro s hs
        have hextended : extended = servers.foldl withServer settings.nameServers :=
          (foldl_withServer _ _).symm
        rw [hservers, hextended]
        exact mem_foldl_withServer.mpr (.inr hs)
      rw [h'.run_of_known client hknown]
      exact ⟨rfl, h'.handed_get⟩
  · intro line response e hup hreply hfault
    rw [hfailed line _ (get_eq_of_isFault hfault client hup hreply)]
    refine ⟨rfl, ?_⟩
    rw [Line.afterHanding_of_isUp hup, hreply]
    rfl

/-- An answer that brings a document. -/
def report (document : Json.Bytes) : Response :=
  ⟨⟨200, by decide, by decide⟩, ⟨[]⟩, document⟩

theorem brings_report {document : Json.Bytes}
    (hdecode : Record.decode DnsSettings document = .ok settings) :
    Brings (.withReplies [.answer (report document)]) (report document) settings :=
  ⟨rfl, rfl, rfl, hdecode⟩

/-- Settings with a server that is set twice. -/
def twiceSet : DnsSettings := { nameServers := ["10.0.0.1", "10.0.0.1"] }

/-- A server that is set twice stays so, and one that is added twice is set once. -/
theorem addNameServers_appends_new_once :
    let answer := report (Record.document twiceSet).toBytes
    ∃ put reply,
      (addNameServers Request.sampleClient ["10.0.0.3", "10.0.0.1", "10.0.0.2", "10.0.0.3"]
          (.withReplies [.answer answer])).2.handed =
        [(getMessage Request.sampleClient, .answer answer), (put, reply)] ∧
      Record.decode DnsSettings put.body =
        .ok { nameServers := ["10.0.0.1", "10.0.0.1", "10.0.0.3", "10.0.0.2"] } := by
  intro answer
  have happends := (addNameServers_appends_new Request.sampleClient
    ["10.0.0.3", "10.0.0.1", "10.0.0.2", "10.0.0.3"]).2.1
  obtain ⟨put, reply, hhanded, -, -, hdecode⟩ :=
    (happends _ _ _ (brings_report (resets.decode_document twiceSet))).2.1
      ⟨"10.0.0.2", by decide, by decide⟩
  exact ⟨put, reply, hhanded, hdecode⟩

end ApplianceRest.DnsSettings
