import ApplianceRest.Proofs.Request.Hierarchy
import ApplianceRest.Resource.Location

/-!
# Calls on objects

What an operation on an object asks of the appliance: a method at a place on or below the object. The
request of a call is a run of settings, so which calls are in order and what they address follows
from what is known about runs.

* `Call.error_request_eq_none`: which calls are in order.
* `Call.address_request`: the address of a call is that of the kind of objects, a segment for the
  object, and the segments of the place.
-/

namespace ApplianceRest

open Http (Method)
open Percent (encodeChars keptInPath)
open Request (IsRendered Setting Value hierarchy nameTexts parametersAfter prefixAfter
  subPathAfter timeoutAfter)

/-- A place on or below an object. -/
inductive Place where
  | object
  | stats
  | members
  | member (name : String)

namespace Place

/-- The settings that lead from an object to a place. -/
def settings : Place → List Setting
  | .object => []
  | .stats => [.statistics [statsSegment]]
  | .members => [.subResource [Pool.membersSegment]]
  | .member name => [.subResource [Pool.membersSegment], .subInstance [name]]

/-- The segments that lead there. -/
def segments : Place → List String
  | .object => []
  | .stats => [statsSegment]
  | .members => [Pool.membersSegment]
  | .member name => [Pool.membersSegment, Path.encodeFullPath [name]]

/-- Whether what the place names is named by a full path. -/
def IsNamed : Place → Prop
  | .member name => Path.IsFullPath name
  | _ => True

/-- The place with its full path cleaned. -/
def cleaned : Place → Place
  | .member name => .member (Path.clean name)
  | place => place

/-- Whether the place is among the members of a pool. -/
def isAmongMembers : Place → Bool
  | .members => true
  | .member _ => true
  | _ => false

end Place

/-- What an operation on an object asks for. The members of an object take the part of the path in
which variants of a resource stand, so an object with members is of a kind without variants. -/
structure Call where
  method : Method
  location : Location
  fullPath : String
  place : Place
  body : Option Json
  fits : place.isAmongMembers = true → location.variant = none

/-! ## Settings -/

namespace Location

/-- The settings that address a kind of objects. -/
def settings (l : Location) : List Setting :=
  [.pathPrefix [basePath], .category trafficManagement, .manager l.manager,
    .resource l.resource] ++ l.variant.toList.map fun variant => .subResource [variant]

/-- The setting that addresses one object of a kind. -/
def instanceSetting (l : Location) (fullPath : String) : Setting :=
  match l.variant with
  | some _ => .subInstance [fullPath]
  | none => .resourceInstance [fullPath]

variable (l : Location) (client : Client) (method : Method)

theorem collectionRequest_eq :
    l.collectionRequest client method = (Request.new client method).setAll l.settings := by
  rw [collectionRequest, settings]
  cases l.variant <;> rfl

theorem instanceRequest_eq (fullPath : String) :
    l.instanceRequest client method fullPath =
      (Request.new client method).setAll (l.settings ++ [l.instanceSetting fullPath]) := by
  rw [instanceRequest, instanceSetting, Request.setAll_append, ← collectionRequest_eq]
  cases l.variant <;> rfl

theorem subPathAfter_settings : subPathAfter l.settings = "" := by
  rw [settings]
  cases l.variant <;> rfl

/-- The names that make up the place of a kind are acceptable. -/
theorem legal_settings : ∀ s ∈ l.settings, s.IsLegal := by
  have hname : ∀ name ∈ [l.manager, l.resource] ++ l.variant.toList,
      Path.isSegment name = true := List.all_eq_true.mp l.isPlace
  intro s hs
  rcases List.mem_append.mp hs with hs | hs
  · simp only [List.mem_cons, List.not_mem_nil, or_false] at hs
    rcases hs with rfl | rfl | rfl | rfl
    · exact nofun
    · exact (Setting.isLegal_of_writes rfl).mpr (Value.isLegal_one (by decide))
    · exact (Setting.isLegal_of_writes rfl).mpr (Value.isLegal_one (hname _ (by simp)))
    · exact (Setting.isLegal_of_writes rfl).mpr (Value.isLegal_one (hname _ (by simp)))
  · obtain ⟨variant, hvariant, rfl⟩ := List.mem_map.mp hs
    have hsegment := hname variant (List.mem_append_right _ hvariant)
    exact (Setting.isLegal_of_writes rfl).mpr (Value.isLegal_many hsegment)

theorem legal_instanceSetting {fullPath : String} :
    (l.instanceSetting fullPath).IsLegal ↔ Path.IsFullPath fullPath := by
  rw [← Value.isLegal_fullPath, instanceSetting]
  cases l.variant with
  | none => exact Setting.isLegal_of_writes rfl
  | some variant => exact Setting.isLegal_of_writes rfl

/-- Every kind of objects is in a category. -/
theorem exists_mem_settings :
    ∃ s ∈ l.settings, ∃ field : Request.Field, s.target = some field ∧ field.isInstance = false :=
  ⟨.category trafficManagement, by simp [settings], .category, rfl, rfl⟩

theorem isRendered : IsRendered client method l.settings where
  accepted := by
    rw [Request.error_setAll_eq_none]
    refine ⟨l.legal_settings, ?_⟩
    rw [settings]
    cases l.variant with
    | none =>
      show List.Nodup [Request.Field.category, .manager, .resource]
      decide
    | some variant =>
      show List.Nodup [Request.Field.category, .manager, .resource, .subResource]
      decide
  isNamed := l.exists_mem_settings
  noParent := by
    rw [l.subPathAfter_settings]
    decide

end Location

namespace Place

theorem legal_settings (p : Place) : (∀ s ∈ p.settings, s.IsLegal) ↔ p.IsNamed := by
  have hmembers : (Setting.subResource [Pool.membersSegment]).IsLegal :=
    (Setting.isLegal_of_writes rfl).mpr (Value.isLegal_many (by decide))
  have hstats : (Setting.statistics [statsSegment]).IsLegal :=
    (Setting.isLegal_of_writes rfl).mpr (Value.isLegal_many (by decide))
  cases p with
  | object => simp [settings, IsNamed]
  | stats => simpa [settings, IsNamed] using hstats
  | members => simpa [settings, IsNamed] using hmembers
  | member name =>
    rw [settings, List.forall_mem_cons, List.forall_mem_singleton]
    have hmember : (Setting.subInstance [name]).IsLegal ↔ Path.IsFullPath name :=
      (Setting.isLegal_of_writes rfl).trans Value.isLegal_fullPath
    rw [hmember]
    exact ⟨fun h => h.2, fun h => ⟨hmembers, h⟩⟩

/-- Places below an object share their segments exactly if they share their cleaned form. -/
theorem segments_inj {p p' : Place} (h : p.IsNamed) (h' : p'.IsNamed) :
    p.segments = p'.segments ↔ p.cleaned = p'.cleaned := by
  cases p <;> cases p' <;>
    simp [segments, cleaned, statsSegment, Pool.membersSegment]
  -- both are members, of which each is named by a full path
  exact Path.encodeFullPath_inj h h'

end Place

namespace Call

/-- The settings of a call. -/
def settings (c : Call) : List Setting :=
  c.location.settings ++ c.location.instanceSetting c.fullPath ::
    (c.place.settings ++ c.body.toList.map fun document => .bodyDocument (.ok document))

/-- The request of a call. -/
def request (c : Call) (client : Client) : Request :=
  (Request.new client c.method).setAll c.settings

/-- Whether a call names what it is about by full paths. -/
def IsAddressed (c : Call) : Prop := Path.IsFullPath c.fullPath ∧ c.place.IsNamed

variable {client : Client}

/-- Of the settings of a call only those of the kind of objects are about the path prefix, and none
is about the sub-path or the query. -/
theorem settings_keep (c : Call) (client : Client) :
    prefixAfter client c.settings = prefixAfter client c.location.settings ∧
      subPathAfter c.settings = subPathAfter c.location.settings ∧
      timeoutAfter client c.settings = client.timeout.getD .zero ∧
      parametersAfter c.settings = .empty := by
  rcases c with ⟨method, ⟨label, manager, resource, variant, isPlace⟩, fullPath, place, body, fits⟩
  cases variant <;> cases place <;> cases body <;> exact ⟨rfl, rfl, rfl, rfl⟩

theorem method_request (c : Call) (client : Client) : (c.request client).method = c.method := by
  rw [request, Request.method_setAll]
  rcases c with ⟨method, ⟨label, manager, resource, variant, isPlace⟩, fullPath, place, body, fits⟩
  cases variant <;> cases place <;> cases body <;> rfl

/-- Behind the segments of a kind of objects a call has one for the object, and those of the place. -/
theorem hierarchy_settings (c : Call) :
    hierarchy client c.settings = hierarchy client c.location.settings ++
      Path.encodeFullPath [c.fullPath] :: c.place.segments := by
  obtain ⟨hbase, hsub, -, -⟩ := c.settings_keep client
  rw [hierarchy, hierarchy, hbase, hsub, c.location.subPathAfter_settings]
  have hempty : nameTexts "" = [] := rfl
  rw [hempty]
  simp only [List.append_assoc, List.append_cancel_left_eq]
  rcases c with ⟨method, ⟨label, manager, resource, variant, isPlace⟩, fullPath, place, body, fits⟩
  cases variant with
  | none => cases place <;> cases body <;> rfl
  | some variant =>
    cases place with
    | object => cases body <;> rfl
    | stats => cases body <;> rfl
    -- the members would take the part of the path in which the variant stands
    | members => cases fits rfl
    | member name => cases fits rfl

/-! ## Which calls are in order -/

/-- The parts of the path that a call writes. -/
theorem filterMap_settings (c : Call) :
    c.settings.filterMap Setting.target =
      c.location.settings.filterMap Setting.target ++
        (c.location.instanceSetting c.fullPath :: c.place.settings).filterMap Setting.target := by
  have hbody : (c.body.toList.map fun document => Setting.bodyDocument (.ok document)).filterMap
      Setting.target = [] := by
    cases c.body <;> rfl
  rw [settings, List.filterMap_append, ← List.cons_append, List.filterMap_append, hbody,
    List.append_nil]

theorem nodup_targets (c : Call) : (c.settings.filterMap Setting.target).Nodup := by
  rcases c with ⟨method, ⟨label, manager, resource, variant, isPlace⟩, fullPath, place, body, fits⟩
  rw [filterMap_settings]
  cases variant with
  | none =>
    cases place with
    | object =>
      show List.Nodup [Request.Field.category, .manager, .resource, .resourceInstance]
      decide
    | stats =>
      show List.Nodup [Request.Field.category, .manager, .resource, .resourceInstance, .statistics]
      decide
    | members =>
      show List.Nodup [Request.Field.category, .manager, .resource, .resourceInstance,
        .subResource]
      decide
    | member name =>
      show List.Nodup [Request.Field.category, .manager, .resource, .resourceInstance,
        .subResource, .subInstance]
      decide
  | some variant =>
    cases place with
    | object =>
      show List.Nodup [Request.Field.category, .manager, .resource, .subResource, .subInstance]
      decide
    | stats =>
      show List.Nodup [Request.Field.category, .manager, .resource, .subResource, .subInstance,
        .statistics]
      decide
    | members => cases fits rfl
    | member name => cases fits rfl

/-- A call is in order exactly if it names what it is about by full paths. -/
theorem error_request_eq_none (c : Call) (client : Client) :
    (c.request client).error = none ↔ c.IsAddressed := by
  have hbody : ∀ s ∈ c.body.toList.map fun document => Setting.bodyDocument (.ok document),
      s.IsLegal := by
    intro s hs
    obtain ⟨document, _, rfl⟩ := List.mem_map.mp hs
    exact ⟨document, rfl⟩
  rw [request, Request.error_setAll_eq_none, settings, List.forall_mem_append, List.forall_mem_cons,
    List.forall_mem_append, Location.legal_instanceSetting, Place.legal_settings, IsAddressed]
  exact ⟨fun h => ⟨h.1.2.1, h.1.2.2.1⟩,
    fun h => ⟨⟨c.location.legal_settings, h.1, h.2, hbody⟩, nodup_targets c⟩⟩

/-! ## Addresses -/

theorem isRendered (c : Call) (client : Client) (h : c.IsAddressed) :
    IsRendered client c.method c.settings where
  accepted := (c.error_request_eq_none client).mpr h
  isNamed := by
    obtain ⟨s, hs, hcategory⟩ := c.location.exists_mem_settings
    exact ⟨s, List.mem_append_left _ hs, hcategory⟩
  noParent := by
    rw [(c.settings_keep client).2.1, c.location.subPathAfter_settings]
    decide

/-- The address of a call is that of the kind of objects, with a segment for the object and those of
the place behind it. -/
theorem address_request (c : Call) (h : c.IsAddressed) (method : Method) :
    (c.request client).address = (c.location.collectionRequest client method).address ++
      (Path.encodeFullPath [c.fullPath] :: c.place.segments).flatMap fun s =>
        '/' :: encodeChars keptInPath s.toList := by
  have hkind := c.location.isRendered client method
  rw [request, (c.isRendered client h).address_eq, Location.collectionRequest_eq, hkind.address_eq,
    hierarchy_settings, List.map_append, Path.intercalate_append hkind.hierarchy_ne_nil,
    Percent.encodeChars_append, Percent.encodeChars_flatMap_slash, List.flatMap_map,
    List.append_assoc]
  rfl

theorem querySuffix_request (c c' : Call) (h : c.IsAddressed) (h' : c'.IsAddressed) :
    (c.request client).querySuffix = (c'.request client).querySuffix := by
  have hold := Request.holds_setAll (c.isRendered client h).accepted
  have hold' := Request.holds_setAll (c'.isRendered client h').accepted
  obtain ⟨-, -, htimeout, hparameters⟩ := c.settings_keep client
  obtain ⟨-, -, htimeout', hparameters'⟩ := c'.settings_keep client
  apply Request.querySuffix_congr
  · exact (hold.timeout.trans htimeout).trans (hold'.timeout.trans htimeout').symm
  · exact (hold.parameters.trans hparameters).trans (hold'.parameters.trans hparameters').symm

/-- Calls on objects of one kind share an address exactly if their full paths share the cleaned
form, and so do the places. -/
theorem url_request_inj {c c' : Call} (hkind : c.location = c'.location) (h : c.IsAddressed)
    (h' : c'.IsAddressed) :
    (c.request client).url = (c'.request client).url ↔
      Path.clean c.fullPath = Path.clean c'.fullPath ∧ c.place.cleaned = c'.place.cleaned := by
  have hrun := c.isRendered client h
  have hrun' := c'.isRendered client h'
  rw [← Path.encodeFullPath_inj h.1 h'.1, ← Place.segments_inj h.2 h'.2]
  constructor
  · intro hurl
    have haddress : (c.request client).address = (c'.request client).address := by
      rw [Request.address, hurl, Request.address]
    have hall := hrun.hierarchy_inj hrun' haddress
    rw [hierarchy_settings, hierarchy_settings, hkind, List.append_cancel_left_eq,
      List.cons.injEq] at hall
    exact hall
  · rintro ⟨hpath, hplace⟩
    have hall : hierarchy client c.settings = hierarchy client c'.settings := by
      rw [hierarchy_settings, hierarchy_settings, hkind, hpath, hplace]
    have haddress : (c.request client).address = (c'.request client).address := by
      rw [request, hrun.address_eq, request, hrun'.address_eq, hall]
    rw [← String.toList_inj, Request.toList_url, Request.toList_url, haddress,
      querySuffix_request c c' h h']

end Call

end ApplianceRest
