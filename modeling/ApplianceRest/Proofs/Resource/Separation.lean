import ApplianceRest.Proofs.Resource.InstanceOperation

/-!
# What stands at an address

Objects, their figures and their members share one tree of segments, in which users choose the names
of objects. All that requests can be about is a `Target`: the collection of a kind, an object of it,
the figures of either where the kind has some, and the members of a pool. The address of a request
tells its target, whatever names are in it, with one exception: a virtual server whose name is that of
the segment for figures is where the figures of all virtual servers are.

* `Target.spells_bareRequest`: the segments that a request spells out.
* `Target.segments_eq_iff`: which targets have the same segments.
* `url_request_eq_iff`: which requests have the same address.
-/

namespace ApplianceRest

open Http (Method)
open Request (IsRendered Setting Value hierarchy nameTexts parametersAfter prefixAfter timeoutAfter)

/-- The kinds of objects. -/
inductive Kind where
  | pool
  | virtualServer
  | tcpMonitor
  | icapProfile
  | naptrPool
  | routeDomain
deriving DecidableEq

/-- Where the objects of a kind are found. -/
def Kind.location : Kind → Location
  | .pool => Resource.location Pool
  | .virtualServer => Resource.location VirtualServer
  | .tcpMonitor => Resource.location TcpMonitor
  | .icapProfile => Resource.location IcapProfile
  | .naptrPool => Resource.location NaptrPool
  | .routeDomain => Resource.location RouteDomain

/-- What a request can be about. -/
inductive Target where
  | collection (kind : Kind)
  /-- the figures of all virtual servers -/
  | collectionStats
  | object (kind : Kind) (fullPath : String)
  /-- the figures of a virtual server -/
  | objectStats (fullPath : String)
  | members (pool : String)
  | member (pool name : String)
deriving DecidableEq

namespace Target

/-- The kind of objects that a target belongs to. -/
def kind : Target → Kind
  | .collection kind => kind
  | .collectionStats => .virtualServer
  | .object kind _ => kind
  | .objectStats _ => .virtualServer
  | .members _ => .pool
  | .member _ _ => .pool

/-- A request without a body. -/
def bareRequest (client : Client) (method : Method) : Target → Request
  | .collection kind => kind.location.collectionRequest client method
  | .collectionStats => (Resource.location VirtualServer).statsRequest client
  | .object kind fullPath => kind.location.instanceRequest client method fullPath
  | .objectStats fullPath =>
    (Resource.location VirtualServer).instanceStatsRequest client fullPath
  | .members pool => Pool.membersRequest client method pool
  | .member pool name => Pool.memberRequest client method pool name

/-- A request, with a document as body or without one. -/
def request (t : Target) (client : Client) (method : Method) (body : Option Json) : Request :=
  (t.bareRequest client method).setAll
    (body.toList.map fun document => .bodyDocument (.ok document))

/-- The segments that lead from the collection of the kind to the target. -/
def segments : Target → List String
  | .collection _ => []
  | .collectionStats => [statsSegment]
  | .object _ fullPath => [Path.encodeFullPath [fullPath]]
  | .objectStats fullPath => [Path.encodeFullPath [fullPath], statsSegment]
  | .members pool => [Path.encodeFullPath [pool], Pool.membersSegment]
  | .member pool name =>
    [Path.encodeFullPath [pool], Pool.membersSegment, Path.encodeFullPath [name]]

/-- Whether what the target names is named by full paths. -/
def IsAddressed : Target → Prop
  | .collection _ => True
  | .collectionStats => True
  | .object _ fullPath => Path.IsFullPath fullPath
  | .objectStats fullPath => Path.IsFullPath fullPath
  | .members pool => Path.IsFullPath pool
  | .member pool name => Path.IsFullPath pool ∧ Path.IsFullPath name

/-- The target with its full paths cleaned. -/
def cleaned : Target → Target
  | .object kind fullPath => .object kind (Path.clean fullPath)
  | .objectStats fullPath => .objectStats (Path.clean fullPath)
  | .members pool => .members (Path.clean pool)
  | .member pool name => .member (Path.clean pool) (Path.clean name)
  | target => target

end Target

/-! ## Requests as runs -/

/-- The segments under which a kind of objects is found. -/
def Location.segments (l : Location) : List String :=
  [trafficManagement, l.manager, l.resource] ++ l.variant.toList

/-- The segments with which all addresses of a client start. -/
def Client.baseSegments (client : Client) : List String :=
  nameTexts (prefixAfter client [.pathPrefix [basePath]])

/-- A request that spells out some segments behind those of its client: a rendered run with this
hierarchy, which says nothing of a query. -/
def Spells (client : Client) (r : Request) (segments : List String) : Prop :=
  ∃ method settings, r = (Request.new client method).setAll settings ∧
    IsRendered client method settings ∧
    hierarchy client settings = client.baseSegments ++ segments ∧
    timeoutAfter client settings = client.timeout.getD .zero ∧ parametersAfter settings = .empty

variable {client : Client} {r r' : Request} {segments segments' : List String}

/-- Requests that spell out segments have the same address exactly if these are the same. -/
theorem Spells.url_eq_iff (h : Spells client r segments) (h' : Spells client r' segments') :
    r.url = r'.url ↔ segments = segments' := by
  obtain ⟨method, settings, rfl, hrun, hsegments, htimeout, hparameters⟩ := h
  obtain ⟨method', settings', rfl, hrun', hsegments', htimeout', hparameters'⟩ := h'
  constructor
  · intro hurl
    have haddress : ((Request.new client method).setAll settings).address =
        ((Request.new client method').setAll settings').address := by
      unfold Request.address
      rw [hurl]
    have hall := hrun.hierarchy_inj hrun' haddress
    rw [hsegments, hsegments', List.append_cancel_left_eq] at hall
    exact hall
  · intro hsame
    have haddress : ((Request.new client method).setAll settings).address =
        ((Request.new client method').setAll settings').address := by
      rw [hrun.address_eq, hrun'.address_eq, hsegments, hsegments', hsame]
    have hold := Request.holds_setAll hrun.accepted
    have hold' := Request.holds_setAll hrun'.accepted
    have hquery : ((Request.new client method).setAll settings).querySuffix =
        ((Request.new client method').setAll settings').querySuffix :=
      Request.querySuffix_congr
        ((hold.timeout.trans htimeout).trans (hold'.timeout.trans htimeout').symm)
        ((hold.parameters.trans hparameters).trans (hold'.parameters.trans hparameters').symm)
    rw [← String.toList_inj, Request.toList_url, Request.toList_url, haddress, hquery]

theorem Location.hierarchy_settings (l : Location) (client : Client) :
    hierarchy client l.settings = client.baseSegments ++ l.segments := by
  have hbase : prefixAfter client l.settings = prefixAfter client [.pathPrefix [basePath]] := by
    unfold settings
    cases l.variant <;> rfl
  have hempty : nameTexts "" = [] := rfl
  unfold hierarchy Client.baseSegments
  rw [hbase, l.subPathAfter_settings, hempty]
  simp only [List.append_assoc, List.append_cancel_left_eq]
  unfold settings segments
  cases hvariant : l.variant with
  | none => rfl
  | some variant =>
    -- the variant has a text, so it is among the segments that are asked for
    have hname : variant ≠ "" := by
      have hsegment := List.all_eq_true.mp l.isPlace variant (by simp [hvariant])
      rintro rfl
      cases hsegment
    simp [Request.written, Setting.segmentsFor, Setting.writes, Value.segments, hname]

theorem spells_collectionRequest (l : Location) (client : Client) (method : Method) :
    Spells client (l.collectionRequest client method) l.segments := by
  refine ⟨method, l.settings, l.collectionRequest_eq client method, l.isRendered client method,
    l.hierarchy_settings client, ?_, ?_⟩
  · unfold Location.settings
    cases l.variant <;> rfl
  · unfold Location.settings
    cases l.variant <;> rfl

theorem spells_call (c : Call) (client : Client) (h : c.IsAddressed) :
    Spells client (c.request client)
      (c.location.segments ++ Path.encodeFullPath [c.fullPath] :: c.place.segments) := by
  obtain ⟨-, -, htimeout, hparameters⟩ := c.settings_keep client
  refine ⟨c.method, c.settings, rfl, c.isRendered client h, ?_, htimeout, hparameters⟩
  rw [c.hierarchy_settings, c.location.hierarchy_settings, List.append_assoc]

/-- A kind of objects may have figures of all of them. -/
theorem spells_statsRequest (l : Location) (client : Client) :
    Spells client (l.statsRequest client) (l.segments ++ [statsSegment]) := by
  have hkind := l.isRendered client .get
  have hstats : (Setting.statistics [statsSegment]).IsLegal :=
    (Setting.isLegal_of_writes rfl).mpr (Value.isLegal_many (by decide))
  have hsub : Request.subPathAfter (l.settings ++ [.statistics [statsSegment]]) = "" := by
    unfold Request.subPathAfter
    rw [List.foldl_concat]
    exact l.subPathAfter_settings
  refine ⟨.get, l.settings ++ [.statistics [statsSegment]], ?_, ⟨?_, ?_, ?_⟩, ?_, ?_, ?_⟩
  · rw [Location.statsRequest, l.collectionRequest_eq, Request.setAll_concat]
  · rw [Request.error_setAll_eq_none, List.forall_mem_append, List.forall_mem_singleton]
    refine ⟨⟨l.legal_settings, hstats⟩, ?_⟩
    unfold Location.settings
    cases l.variant with
    | none =>
      show List.Nodup [Request.Field.category, .manager, .resource, .statistics]
      decide
    | some variant =>
      show List.Nodup [Request.Field.category, .manager, .resource, .subResource, .statistics]
      decide
  · obtain ⟨s, hs, hcategory⟩ := l.exists_mem_settings
    exact ⟨s, List.mem_append_left _ hs, hcategory⟩
  · rw [hsub]
    decide
  · -- the figures come last in an address, behind all that the kind has
    have hbase : prefixAfter client (l.settings ++ [.statistics [statsSegment]]) =
        prefixAfter client l.settings := by
      unfold prefixAfter
      rw [List.foldl_concat]
      rfl
    have hlast : hierarchy client (l.settings ++ [.statistics [statsSegment]]) =
        hierarchy client l.settings ++ [statsSegment] := by
      unfold hierarchy
      rw [hbase, hsub, l.subPathAfter_settings]
      simp [Request.written_concat, Setting.segmentsFor, Setting.writes, Value.segments,
        statsSegment]
    rw [hlast, l.hierarchy_settings, List.append_assoc]
  · unfold Location.settings
    cases l.variant <;> rfl
  · unfold Location.settings
    cases l.variant <;> rfl

/-! ## Requests and their targets -/

namespace Target

variable {t t' : Target}

/-- A call that asks for a target. -/
structure IsCall (t : Target) (client : Client) (method : Method) (c : Call) : Prop where
  request : t.bareRequest client method = c.request client
  isAddressed : c.IsAddressed ↔ t.IsAddressed
  location : c.location = t.kind.location
  segments : Path.encodeFullPath [c.fullPath] :: c.place.segments = t.segments

/-- A target is the collection of a kind, the figures of all virtual servers, or what a call asks
for. -/
theorem target_cases (t : Target) (client : Client) (method : Method) :
    (∃ kind, t = .collection kind) ∨ t = .collectionStats ∨ ∃ c, t.IsCall client method c := by
  cases t with
  | collection kind => exact Or.inl ⟨kind, rfl⟩
  | collectionStats => exact Or.inr (Or.inl rfl)
  | object kind fullPath =>
    refine Or.inr (Or.inr ⟨⟨method, kind.location, fullPath, .object, none, ?_⟩, ?_, ?_, rfl, rfl⟩)
    · intro h
      cases h
    · rw [Call.request_eq]
      rfl
    · exact and_iff_left trivial
  | objectStats fullPath =>
    refine Or.inr (Or.inr ⟨⟨.get, Kind.virtualServer.location, fullPath, .stats, none, ?_⟩, ?_, ?_,
      rfl, rfl⟩)
    · intro h
      cases h
    · rw [Call.request_eq]
      rfl
    · exact and_iff_left trivial
  | members pool =>
    refine Or.inr (Or.inr ⟨⟨method, Kind.pool.location, pool, .members, none, fun _ => rfl⟩, ?_, ?_,
      rfl, rfl⟩)
    · rw [Call.request_eq]
      rfl
    · exact and_iff_left trivial
  | member pool name =>
    refine Or.inr (Or.inr ⟨⟨method, Kind.pool.location, pool, .member name, none, fun _ => rfl⟩, ?_,
      Iff.rfl, rfl, rfl⟩)
    rw [Call.request_eq]
    rfl

/-- Where the kind of a target is found, and how to go on from there. -/
theorem spells_bareRequest (client : Client) (method : Method) (h : t.IsAddressed) :
    Spells client (t.bareRequest client method) (t.kind.location.segments ++ t.segments) := by
  rcases t.target_cases client method with ⟨kind, rfl⟩ | rfl | ⟨c, hc⟩
  · have hkind := spells_collectionRequest kind.location client method
    rw [← List.append_nil kind.location.segments] at hkind
    exact hkind
  · exact spells_statsRequest _ client
  · have hcall := spells_call c client (hc.isAddressed.mpr h)
    rw [hc.location, hc.segments, ← hc.request] at hcall
    exact hcall

/-- A request is in order exactly if what it is about is named by full paths. -/
theorem error_bareRequest (client : Client) (method : Method) :
    (t.bareRequest client method).error = none ↔ t.IsAddressed := by
  constructor
  · intro herror
    rcases t.target_cases client method with ⟨kind, rfl⟩ | rfl | ⟨c, hc⟩
    · trivial
    · trivial
    · rw [hc.request, c.error_request_eq_none] at herror
      exact hc.isAddressed.mp herror
  · intro h
    obtain ⟨_, _, hrequest, hrun, -⟩ := spells_bareRequest client method h
    rw [hrequest]
    exact hrun.accepted

/-- A request with a body is in order if it is without, and has the same address. -/
theorem request_of_bareRequest {method : Method}
    (hr : (t.bareRequest client method).error = none) (body : Option Json) :
    (t.request client method body).error = none ∧
      (t.request client method body).url = (t.bareRequest client method).url := by
  cases body with
  | none => exact ⟨hr, rfl⟩
  | some document =>
    have hset : t.request client method (some document) =
        { t.bareRequest client method with
          headers := (t.bareRequest client method).headers.set .contentType .document
          body := .bytes document.toBytes } := Request.set_of_apply_ok hr rfl
    rw [hset]
    exact ⟨hr, rfl⟩

theorem error_request (client : Client) (method : Method) (body : Option Json) :
    (t.request client method body).error = none ↔ t.IsAddressed := by
  rw [← error_bareRequest client method]
  constructor
  · intro herror
    cases hr : (t.bareRequest client method).error with
    | none => rfl
    | some reason =>
      -- what is wrong without a body stays wrong
      unfold request at herror
      rw [Request.error_setAll_of_some hr] at herror
      cases herror
  · intro hr
    exact (request_of_bareRequest hr body).1

/-! ## Segments and targets -/

/-- No two kinds are found under the same manager and resource. -/
theorem kind_inj {kind kind' : Kind} (hmanager : kind.location.manager = kind'.location.manager)
    (hresource : kind.location.resource = kind'.location.resource) : kind = kind' := by
  revert hmanager hresource
  cases kind <;> cases kind' <;> decide

/-- Kinds are told apart by where they are found, whatever comes behind. -/
theorem segments_location_append {kind kind' : Kind} {xs ys : List String} :
    kind.location.segments ++ xs = kind'.location.segments ++ ys ↔ kind = kind' ∧ xs = ys := by
  constructor
  · intro h
    have hplace := h
    simp only [Location.segments, List.cons_append, List.cons.injEq] at hplace
    obtain ⟨-, hmanager, hresource, -⟩ := hplace
    obtain rfl : kind = kind' := kind_inj hmanager hresource
    exact ⟨rfl, List.append_cancel_left h⟩
  · rintro ⟨rfl, rfl⟩
    rfl

/-- The virtual server whose name is that of the segment for figures. -/
def statsNamesake : Target := .object .virtualServer statsSegment

/-- The segment for figures is that of an object of this name, and of no other. -/
theorem encodeFullPath_eq_stats {fullPath : String} (h : Path.IsFullPath fullPath) :
    Path.encodeFullPath [fullPath] = statsSegment ↔ Path.clean fullPath = statsSegment := by
  have hstats : Path.IsFullPath statsSegment := by
    rw [Path.isFullPath_iff]
    decide
  have hsegment : Path.encodeFullPath [statsSegment] = statsSegment := by decide
  have hclean : Path.clean statsSegment = statsSegment := by decide
  have hinj := Path.encodeFullPath_inj h hstats
  rw [hsegment, hclean] at hinj
  exact hinj

/-- Targets of one kind with the same segments are the same, once their full paths are cleaned, or
they are the figures of all virtual servers and the virtual server of that name. -/
theorem segments_eq_iff (h : t.IsAddressed) (h' : t'.IsAddressed) :
    (t.kind = t'.kind ∧ t.segments = t'.segments) ↔
      t.cleaned = t'.cleaned ∨
        (t.cleaned = .collectionStats ∧ t'.cleaned = statsNamesake) ∨
        (t.cleaned = statsNamesake ∧ t'.cleaned = .collectionStats) := by
  have hpaths (p q : String) (hp : Path.IsFullPath p) (hq : Path.IsFullPath q) :=
    Path.encodeFullPath_inj hp hq
  have hstats (p : String) (hp : Path.IsFullPath p) := encodeFullPath_eq_stats hp
  have hstats' (p : String) (hp : Path.IsFullPath p) :
      statsSegment = Path.encodeFullPath [p] ↔ Path.clean p = statsSegment :=
    eq_comm.trans (hstats p hp)
  have hwords : statsSegment ≠ Pool.membersSegment := by decide
  -- only an object can have the one segment of the figures of all: elsewhere the number of segments
  -- or one of the fixed segments tells two constructors apart
  cases t <;> cases t' <;>
    simp_all [IsAddressed, kind, segments, cleaned, statsNamesake]
  case collectionStats.object =>
    intro _
    exact eq_comm

end Target

/-! ## Requests with the same address -/

open Target (statsNamesake)

/-- **Two requests of a client that are in order have the same address exactly if they are about the
same target**, up to the cleaning of the full paths in it, or one is about the figures of all virtual
servers and the other about the virtual server whose name is that of the segment for figures. -/
theorem url_request_eq_iff (client : Client) (t t' : Target) (method method' : Method)
    (body body' : Option Json) (h : (t.request client method body).error = none)
    (h' : (t'.request client method' body').error = none) :
    (t.request client method body).url = (t'.request client method' body').url ↔
      t.cleaned = t'.cleaned ∨
        (t.cleaned = .collectionStats ∧ t'.cleaned = statsNamesake) ∨
        (t.cleaned = statsNamesake ∧ t'.cleaned = .collectionStats) := by
  have ht : t.IsAddressed := (Target.error_request client method body).mp h
  have ht' : t'.IsAddressed := (Target.error_request client method' body').mp h'
  have hurl :=
    (Target.request_of_bareRequest ((Target.error_bareRequest client method).mpr ht) body).2
  have hurl' :=
    (Target.request_of_bareRequest ((Target.error_bareRequest client method').mpr ht') body').2
  have hspells := Target.spells_bareRequest client method ht
  have hspells' := Target.spells_bareRequest client method' ht'
  rw [hurl, hurl', hspells.url_eq_iff hspells', Target.segments_location_append,
    Target.segments_eq_iff ht ht']

/-- With its partition, the virtual server of this name is not where the figures are. -/
theorem url_partitioned_namesake :
    ((Target.object .virtualServer "/Common/stats").request Request.sampleClient .delete none).url ≠
      (Target.collectionStats.request Request.sampleClient .get none).url := by
  intro hurl
  have hsame := (url_request_eq_iff Request.sampleClient (.object .virtualServer "/Common/stats")
    .collectionStats .delete .get none none (by decide +kernel) (by decide +kernel)).mp hurl
  revert hsame
  decide +kernel

/-- Without a partition it is: a request to delete this object goes to the figures of all. -/
theorem url_bare_namesake :
    ((Target.object .virtualServer "stats").request Request.sampleClient .delete none).error = none ∧
      (Target.collectionStats.request Request.sampleClient .get none).error = none ∧
      ((Target.object .virtualServer "stats").request Request.sampleClient .delete none).url =
        (Target.collectionStats.request Request.sampleClient .get none).url := by
  decide +kernel

end ApplianceRest
