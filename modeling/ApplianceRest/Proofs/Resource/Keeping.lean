import ApplianceRest.Proofs.Record.Members
import ApplianceRest.Proofs.Resource.Appending

/-!
# What a run that adds name servers keeps

The settings are written back whole, so a setting that is not written is one that the appliance
loses. Written are the settings that the library knows: of the members of the object that was read,
besides those that the appliance sets and the name servers themselves, just the description, the
number of dots and the search list, unless they are `null`. Any other member is left out.
-/

namespace ApplianceRest.DnsSettings

open Json.Reader
open Record (Fields Shape Wire readsMember_first readsMembers_behind)

variable {client : Client} {servers : List String} {line : Line} {response : Response}
  {settings : DnsSettings} {key : String} {document : Json}

/-- The settings that a run hands back as it has found them. -/
def keptKeys : List String := ["description", "numberOfDots", "search"]

/-- The settings that a run adds to, and those that only the appliance sets. -/
def otherKeys : List String := ["kind", "selfLink", "nameServers"]

/-- What is written of the settings. -/
theorem mem_documents :
    (key, document) ∈ fields.documents (Wire.row settings) ↔
      (key = "description" ∧ document = (Shape.optional .text).document settings.description ∧
        document ≠ .null) ∨
      (key = "nameServers" ∧ document = (Shape.list .text).document settings.nameServers) ∨
      (key = "numberOfDots" ∧
        document = (Shape.optional (.word .u32)).document settings.numberOfDots ∧
        document ≠ .null) ∨
      (key = "search" ∧ document = (Shape.list .text).document settings.search) := by
  refine Fields.mem_documents_cons.trans ?_
  rw [Fields.mem_documents_cons, Fields.mem_documents_optional rfl, Fields.mem_documents_cons,
    Fields.mem_documents_optional rfl, Fields.mem_documents_cons, Fields.documents]
  simp [Record.Role.isWritten]

/-- The members of the object that is written for the settings. -/
def members (settings : DnsSettings) : List (String × Option Json) :=
  (fields.documents (Wire.row settings)).map fun m => (m.1, some m.2)

theorem mem_members {value : Option Json} :
    (key, value) ∈ settings.members ↔
      ∃ document, value = some document ∧
        (key, document) ∈ fields.documents (Wire.row settings) := by
  rw [members, List.mem_map]
  constructor
  · rintro ⟨m, hm, ⟨⟩⟩
    exact ⟨m.2, rfl, hm⟩
  · rintro ⟨document, rfl, hm⟩
    exact ⟨(key, document), hm, rfl⟩

theorem objectMembers?_updateMessage :
    objectMembers? (updateMessage client settings).body = some settings.members := by
  rw [body_updateMessage]
  exact Fields.objectMembers?_documents (by decide) (by decide) (Wire.row settings)

theorem nodup_members (settings : DnsSettings) : (settings.members.map (·.1)).Nodup := by
  rw [members, List.map_map]
  exact Fields.nodup_documents (by decide) (Wire.row settings)

/-- A member of the object that was read is written back if it is one of the kept ones and says
something, and else left out. -/
theorem keeps_member {received : List (String × Option Json)}
    (hmatches : fields.Matches (Wire.row settings) received) {value : Option Json}
    (hmember : (key, value) ∈ received) (hkey : key ∉ otherKeys) (extended : List String) :
    let sent := members { settings with nameServers := extended }
    (key ∈ keptKeys ∧ value ≠ some .null → (key, value) ∈ sent) ∧
    (¬(key ∈ keptKeys ∧ value ≠ some .null) → ∀ value', (key, value') ∉ sent) := by
  intro sent
  obtain ⟨-, -, hdescription, -, hdots, hsearch, -⟩ := hmatches
  simp only [otherKeys, List.mem_cons, List.not_mem_nil, or_false, not_or] at hkey
  obtain ⟨-, -, hservers⟩ := hkey
  constructor
  · rintro ⟨hkept, hnull⟩
    rw [mem_members]
    simp only [keptKeys, List.mem_cons, List.not_mem_nil, or_false] at hkept
    rcases hkept with rfl | rfl | rfl
    · have hvalue := hdescription value hmember
      rw [hvalue] at hnull
      exact ⟨_, hvalue, mem_documents.mpr (.inl ⟨rfl, rfl, fun h => hnull (congrArg some h)⟩)⟩
    · have hvalue := hdots value hmember
      rw [hvalue] at hnull
      exact ⟨_, hvalue,
        mem_documents.mpr (.inr (.inr (.inl ⟨rfl, rfl, fun h => hnull (congrArg some h)⟩)))⟩
    · exact ⟨_, hsearch value hmember, mem_documents.mpr (.inr (.inr (.inr ⟨rfl, rfl⟩)))⟩
  · intro hkept value' hsent
    obtain ⟨document, -, hsent⟩ := mem_members.mp hsent
    refine hkept ?_
    rcases mem_documents.mp hsent with ⟨rfl, hd, hnull⟩ | ⟨rfl, -⟩ | ⟨rfl, hd, hnull⟩ | ⟨rfl, -⟩
    · rw [hdescription value hmember, ← hd]
      exact ⟨by decide, fun h => hnull (Option.some.inj h)⟩
    · exact absurd rfl hservers
    · rw [hdots value hmember, ← hd]
      exact ⟨by decide, fun h => hnull (Option.some.inj h)⟩
    · rw [hsearch value hmember]
      exact ⟨by decide, fun h => Shape.document_ne_null rfl _ (Option.some.inj h)⟩

/-! ## One run -/

/-- Settings of which the description is `null`, and one that the library does not know. -/
def sampleMembers : List (String × Json) :=
  [("include", .text "x"), ("description", .null), ("nameServers", .array [.text "10.0.0.1"]),
    ("search", .array [.text "example.test"])]

/-- What is read of them. -/
def sampleFound : DnsSettings := { nameServers := ["10.0.0.1"], search := ["example.test"] }

/-- An answer with these settings. -/
def sampleAnswer : Response := report (Json.object sampleMembers).toBytes

theorem isReadBack_sampleMembers : ∀ m ∈ sampleMembers, IsReadBack m.2 := by
  have htext : IsReadBack (Shape.text.document "x") := Shape.text.isReadBack rfl rfl (by decide) "x"
  have hnull : IsReadBack ((Shape.optional .text).document none) :=
    (Shape.optional .text).isReadBack rfl rfl (by decide) none
  have hlist : ∀ texts, IsReadBack ((Shape.list .text).document texts) :=
    (Shape.list .text).isReadBack rfl rfl (by decide)
  rw [sampleMembers, List.forall_mem_cons, List.forall_mem_cons, List.forall_mem_cons,
    List.forall_mem_cons]
  exact ⟨htext, hnull, hlist ["10.0.0.1"], hlist ["example.test"], nofun⟩

theorem decode_sampleAnswer : Record.decode DnsSettings sampleAnswer.body = .ok sampleFound := by
  have hmembers : ReadsMembers (fun key slots t => fields.readMember key slots t) sampleMembers
      fields.noSlots
      (none, none, some none, some ["10.0.0.1"], none, some ["example.test"], ()) := by
    -- each member goes to its field, past the fields before it
    refine .cons (Fields.readsMember_unknown (by decide)
      (isReadBack_sampleMembers _ List.mem_cons_self) _) ?_
    refine readsMembers_behind ?_ (by decide) _
    refine readsMembers_behind ?_ (by decide) _
    refine .cons (readsMember_first ((Shape.optional .text).reads_document rfl none) _) ?_
    refine readsMembers_behind ?_ (by decide) _
    refine .cons (readsMember_first ((Shape.list .text).reads_document rfl ["10.0.0.1"]) _) ?_
    refine readsMembers_behind ?_ (by decide) _
    refine readsMembers_behind ?_ (by decide) _
    exact .cons (readsMember_first ((Shape.list .text).reads_document rfl ["example.test"]) _)
      (.nil _)
  exact Record.decode_eq_ok.mpr (Fields.reads_object hmembers rfl).whole_eq

theorem objectMembers?_sampleAnswer :
    objectMembers? sampleAnswer.body = some (sampleMembers.map fun m => (m.1, some m.2)) :=
  objectMembers?_toBytes isReadBack_sampleMembers

theorem brings_sampleAnswer :
    Brings (.withReplies [.answer sampleAnswer]) sampleAnswer sampleFound :=
  brings_report decode_sampleAnswer

/-- A run that writes settings back hands back the description, the number of dots and the search
list as it has found them, unless they are `null`. Whatever else the object held is left out, besides
what the appliance sets by itself and the servers that are added to. -/
theorem addNameServers_keeps_known (client : Client) (h : Brings line response settings)
    (hobject : (skipBlank response.body).head? = some openBrace)
    (hnew : ∃ s ∈ servers, s ∉ settings.nameServers) :
    ∃ received sent put reply,
      objectMembers? response.body = some received ∧
      (addNameServers client servers line).2.handed =
        line.handed ++ [(getMessage client, .answer response), (put, reply)] ∧
      put.method = .put ∧ objectMembers? put.body = some sent ∧ (sent.map (·.1)).Nodup ∧
      ∀ key value, (key, value) ∈ received → key ∉ otherKeys →
        (key ∈ keptKeys ∧ value ≠ some .null → (key, value) ∈ sent) ∧
        (¬(key ∈ keptKeys ∧ value ≠ some .null) → ∀ value', (key, value') ∉ sent) := by
  obtain ⟨s, hs, hunknown⟩ := hnew
  obtain ⟨received, hreceived, hmatches⟩ := Fields.objectMembers?_eq_some (by decide) (by decide)
    hobject (Record.decode_eq_ok.mp h.decodes)
  refine ⟨received, _, _, _, hreceived, h.handed_of_new fun hall => hunknown (hall s hs),
    method_updateMessage, objectMembers?_updateMessage, nodup_members _, ?_⟩
  intro key value hmember hkey
  exact keeps_member hmatches hmember hkey _

/-- The search list comes back as it was found. -/
theorem addNameServers_keeps_search :
    ∃ sent put reply,
      (addNameServers Request.sampleClient ["10.0.0.2"]
          (.withReplies [.answer sampleAnswer])).2.handed =
        [(getMessage Request.sampleClient, .answer sampleAnswer), (put, reply)] ∧
      objectMembers? put.body = some sent ∧
      ("search", some (.array [.text "example.test"])) ∈ sent := by
  obtain ⟨received, sent, put, reply, hreceived, hhanded, -, hsent, -, hkeeps⟩ :=
    addNameServers_keeps_known Request.sampleClient brings_sampleAnswer rfl
      ⟨"10.0.0.2", List.mem_singleton.mpr rfl, by decide⟩
  have hfound : some received = some (sampleMembers.map fun m => (m.1, some m.2)) :=
    hreceived.symm.trans objectMembers?_sampleAnswer
  have hsearch : ("search", some (.array [.text "example.test"])) ∈ received := by
    rw [Option.some.inj hfound]
    simp [sampleMembers]
  exact ⟨sent, put, reply, hhanded, hsent, (hkeeps _ _ hsearch (by decide)).1 ⟨by decide, nofun⟩⟩

/-- What the library does not know of is gone afterwards, and so is a `null`. -/
theorem not_all_settings_kept :
    ∃ received sent put reply,
      Brings (.withReplies [.answer sampleAnswer]) sampleAnswer sampleFound ∧
      objectMembers? sampleAnswer.body = some received ∧
      (addNameServers Request.sampleClient ["10.0.0.2"]
          (.withReplies [.answer sampleAnswer])).2.handed =
        [(getMessage Request.sampleClient, .answer sampleAnswer), (put, reply)] ∧
      put.method = .put ∧ objectMembers? put.body = some sent ∧
      (("include", some (.text "x")) ∈ received ∧ ∀ value, ("include", value) ∉ sent) ∧
      ("description", some .null) ∈ received ∧ ∀ value, ("description", value) ∉ sent := by
  have hnew : ¬∀ s ∈ ["10.0.0.2"], s ∈ sampleFound.nameServers := by decide
  refine ⟨_, _, _, _, brings_sampleAnswer, objectMembers?_sampleAnswer,
    brings_sampleAnswer.handed_of_new hnew, method_updateMessage, objectMembers?_updateMessage,
    ⟨by simp [sampleMembers], fun value hvalue => ?_⟩, by simp [sampleMembers],
    fun value hvalue => ?_⟩
  · obtain ⟨document, -, hmem⟩ := mem_members.mp hvalue
    have hother : "include" ∉ ["description", "nameServers", "numberOfDots", "search"] := by decide
    refine hother ?_
    rcases mem_documents.mp hmem with ⟨h, -⟩ | ⟨h, -⟩ | ⟨h, -⟩ | ⟨h, -⟩ <;> simp [h]
  · obtain ⟨document, -, hmem⟩ := mem_members.mp hvalue
    have hother : "description" ∉ ["nameServers", "numberOfDots", "search"] := by decide
    rcases mem_documents.mp hmem with ⟨-, hd, hnull⟩ | ⟨h, -⟩ | ⟨h, -⟩ | ⟨h, -⟩
    · exact hnull hd
    all_goals exact hother (by simp [h])

end ApplianceRest.DnsSettings
