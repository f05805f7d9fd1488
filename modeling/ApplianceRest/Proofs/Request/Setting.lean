import ApplianceRest.Proofs.Path.FullPath
import ApplianceRest.Proofs.Request.Edit

/-!
# What one setting does

A setting that is accepted changes the path in one of three places: it writes a part of the path
that has not been written, it goes behind the path prefix, or it goes behind the sub-path. What goes
into the query is changed by two settings only, and a header field by those for its name and by a
document as body. `change_of_apply_ok` says all of this at once, `exists_apply_ok` says which settings
are accepted, and the lemmas about whole runs use nothing else about `Request.apply`.

What is written is a `Value`: a name, some names, or a full path.
-/

namespace ApplianceRest.Request

open Http (FieldName FieldValue)

/-! ## Values -/

/-- What may be written to a part of the path. -/
inductive Value where
  | one (name : String)
  | many (names : List String)
  | fullPath (parts : List String)

namespace Value

/-- The text that is written. -/
def text : Value → String
  | .one name => name
  | .many names => Path.join names
  | .fullPath parts => Path.encodeFullPath parts

/-- The segments that are to be found in the address: the name, the names that are not empty, or the
one segment that stands for the full path. -/
def segments : Value → List String
  | .one name => [name]
  | .many names => names.filter (· ≠ "")
  | .fullPath parts => [Path.encodeFullPath parts]

/-- Whether nothing of the value breaks a rule. -/
def IsClear : Value → Prop
  | .one name => Path.nameViolations name = []
  | .many names => ∀ name ∈ names, Path.nameViolations name = []
  | .fullPath parts => Path.IsClear parts

/-- Whether the value may be written. -/
def IsLegal (v : Value) : Prop := v.text ≠ "" ∧ v.IsClear

variable {v : Value}

/-- Each segment of a legal value is one name of a path. -/
theorem isName_of_mem_segments (h : v.IsLegal) {x : String} (hx : x ∈ v.segments) :
    Path.IsName x.toList := by
  cases v with
  | one name =>
    rw [List.mem_singleton.mp hx]
    exact Path.isName_of_no_violations h.1 h.2
  | many names =>
    obtain ⟨hmem, hne⟩ := List.mem_filter.mp hx
    exact Path.isName_of_no_violations (by simpa using hne) (h.2 x hmem)
  | fullPath parts =>
    rw [List.mem_singleton.mp hx]
    exact Path.isName_encodeFullPath h.2 h.1

/-- The text of a legal value has the segments as names. -/
theorem names_text (h : v.IsLegal) : Path.names v.text.toList = v.segments.map String.toList := by
  cases v with
  | one name => exact (Path.isName_of_no_violations h.1 h.2).names_eq
  | many names => exact Path.names_join h.2
  | fullPath parts => exact (Path.isName_encodeFullPath h.2 h.1).names_eq

/-- The text of a legal value steps up nowhere. -/
theorem parent_not_mem_text (h : v.IsLegal) : Path.parent ∉ Path.elements v.text.toList := by
  apply Path.parent_not_mem_elements
  intro e he
  rw [names_text h] at he
  obtain ⟨x, hx, rfl⟩ := List.mem_map.mp he
  exact isName_of_mem_segments h hx

theorem segments_ne_nil (h : v.IsLegal) : v.segments ≠ [] := by
  cases v with
  | one name => exact List.cons_ne_nil _ _
  | fullPath parts => exact List.cons_ne_nil _ _
  | many names =>
    intro hnil
    apply h.1
    show Path.join names = ""
    rw [Path.join_eq_empty]
    simpa [segments] using hnil

/-! A segment may be written, alone or as the only one of some names; a full path, if it is one. -/

theorem isLegal_one {name : String} (h : Path.isSegment name = true) : (one name).IsLegal := by
  obtain ⟨hne, hclear⟩ : name ≠ "" ∧ Path.nameViolations name = [] := by
    simpa [Path.isSegment] using h
  exact ⟨hne, hclear⟩

theorem isLegal_many {name : String} (h : Path.isSegment name = true) : (many [name]).IsLegal := by
  obtain ⟨hne, hclear⟩ : name ≠ "" ∧ Path.nameViolations name = [] := by
    simpa [Path.isSegment] using h
  refine ⟨?_, by simpa [IsClear] using hclear⟩
  rw [text, Ne, Path.join_eq_empty]
  simpa using hne

theorem isLegal_fullPath {text : String} : (fullPath [text]).IsLegal ↔ Path.IsFullPath text :=
  Path.isClear_singleton

end Value

/-! ## Settings -/

namespace Setting

/-- The part of the path that a setting writes, and what it writes there, if it writes one. -/
def writes : Setting → Option (Field × Value)
  | .category name => some (.category, .one name)
  | .manager name => some (.manager, .one name)
  | .resource name => some (.resource, .one name)
  | .resourceInstance fullPath => some (.resourceInstance, .fullPath fullPath)
  | .subResource names => some (.subResource, .many names)
  | .subInstance fullPath => some (.subInstance, .fullPath fullPath)
  | .statistics names => some (.statistics, .many names)
  | _ => none

/-- The part of the path that a setting writes. -/
def target (s : Setting) : Option Field := s.writes.map (·.1)

/-- The segments that a setting asks for in a part of the path. -/
def segmentsFor (field : Field) (s : Setting) : List String :=
  match s.writes with
  | some (f, v) => if f = field then v.segments else []
  | none => []

/-- Whether a setting is acceptable by itself: what it writes to the path may be written, and what it
is made of can be had. -/
def IsLegal : Setting → Prop
  | .bodyFile file => ∃ data, file.contents = .ok data
  | .bodyDocument document => ∃ content, document = .ok content
  | .header name values =>
    (FieldName.ofString? name).isSome ∧ (values.mapM FieldValue.ofString?).isSome
  | s => ∀ field v, s.writes = some (field, v) → v.IsLegal

/-- The path prefix after a setting. -/
def onPrefix (client : Client) (current : String) : Setting → String
  | .pathPrefix segments => Path.join [current, Path.join segments]
  | .absolutePath segments => Request.absolutePath client segments
  | _ => current

/-- The sub-path after a setting. -/
def onSubPath (current : String) : Setting → String
  | .pathSuffix segments => Path.join [current, Path.join segments]
  | _ => current

/-- The method after a setting. -/
def onMethod (current : Http.Method) : Setting → Http.Method
  | .method m => m
  | _ => current

/-- The deadline after a setting. -/
def onTimeout (current : Duration) : Setting → Duration
  | .timeout deadline => deadline
  | _ => current

/-- The parameters after a setting. -/
def onParameters (current : Dict (List String)) : Setting → Dict (List String)
  | .parameter key value => current.insert key ((current.get? key).getD [] ++ [value])
  | _ => current

/-- The body after a setting. -/
def onBody (current : Body) : Setting → Body
  | .bodyFile ⟨_, .ok data⟩ => .bytes data
  | .bodyBytes data => .bytes data
  | .bodyStream data => .stream data
  | .bodyDocument (.ok document) => .bytes document.toBytes
  | _ => current

/-- The values under the name of a header field after a setting. -/
def onValues (name : FieldName) (current : List FieldValue) : Setting → List FieldValue
  | .bodyDocument (.ok _) => if name = .contentType then [.document] else current
  | .header text values =>
    if FieldName.ofString? text = some name then
      (values.mapM FieldValue.ofString?).getD current
    else current
  | _ => current

variable {s : Setting} {field : Field} {v : Value}

theorem target_eq_some : s.target = some field ↔ ∃ v, s.writes = some (field, v) := by
  rw [target, Option.map_eq_some_iff]
  constructor
  · rintro ⟨⟨f, v⟩, hs, rfl⟩
    exact ⟨v, hs⟩
  · rintro ⟨v, hs⟩
    exact ⟨(field, v), hs, rfl⟩

theorem segmentsFor_of_writes (hs : s.writes = some (field, v)) :
    s.segmentsFor field = v.segments := by
  rw [segmentsFor, hs]
  exact if_pos rfl

theorem segmentsFor_of_target_ne (hs : s.target ≠ some field) : s.segmentsFor field = [] := by
  cases hw : s.writes with
  | none => rw [segmentsFor, hw]
  | some write =>
    have hne : write.1 ≠ field := by
      rintro rfl
      exact hs (target_eq_some.mpr ⟨write.2, hw⟩)
    rw [segmentsFor, hw]
    exact if_neg hne

/-- A setting that writes a part of the path is acceptable exactly if what it writes may be
written. -/
theorem isLegal_of_writes (hs : s.writes = some (field, v)) : s.IsLegal ↔ v.IsLegal := by
  have hall : (∀ f w, s.writes = some (f, w) → w.IsLegal) ↔ v.IsLegal := by
    constructor
    · intro h
      exact h field v hs
    · intro h f w hw
      rw [hs, Option.some.injEq, Prod.mk.injEq] at hw
      rw [← hw.2]
      exact h
  cases s with
  | bodyFile file => cases hs
  | bodyDocument document => cases hs
  | header name values => cases hs
  | _ => exact hall

/-- A setting that writes a part of the path leaves everything else alone. -/
theorem keeps_of_writes {r : Request} (hs : s.writes = some (field, v)) :
    s.onMethod r.method = r.method ∧ s.onPrefix r.client r.pathPrefix = r.pathPrefix ∧
      s.onSubPath r.subPath = r.subPath ∧ s.onTimeout r.timeout = r.timeout ∧
      s.onParameters r.parameters = r.parameters ∧ s.onBody r.body = r.body ∧
      ∀ name, s.onValues name (r.headers.values name) = r.headers.values name := by
  cases s with
  | category name => exact ⟨rfl, rfl, rfl, rfl, rfl, rfl, fun _ => rfl⟩
  | manager name => exact ⟨rfl, rfl, rfl, rfl, rfl, rfl, fun _ => rfl⟩
  | resource name => exact ⟨rfl, rfl, rfl, rfl, rfl, rfl, fun _ => rfl⟩
  | resourceInstance fullPath => exact ⟨rfl, rfl, rfl, rfl, rfl, rfl, fun _ => rfl⟩
  | subResource names => exact ⟨rfl, rfl, rfl, rfl, rfl, rfl, fun _ => rfl⟩
  | subInstance fullPath => exact ⟨rfl, rfl, rfl, rfl, rfl, rfl, fun _ => rfl⟩
  | statistics names => exact ⟨rfl, rfl, rfl, rfl, rfl, rfl, fun _ => rfl⟩
  | _ => cases hs

end Setting

/-! ## Writing a part of the path -/

variable {r r' : Request} {s : Setting} {field : Field} {v : Value}

/-- Writes a value to a part of the path. -/
def place (field : Field) : Value → Edit Unit
  | .one name => placeName field name
  | .many names => placeNames field names
  | .fullPath parts => placeFullPath field parts

theorem firstViolation_eq_none {check : String → List Path.Violation} {values : List String} :
    firstViolation check values = none ↔ ∀ v ∈ values, check v = [] := by
  rw [firstViolation, List.find?_eq_none]
  simp

theorem placeName_eq_ok {name : String} :
    (placeName field name).run r = .ok () r' ↔
      r.fields field = none ∧ (Value.one name).IsLegal ∧ r' = r.put field name := by
  rw [placeName, EStateM.run_bind, EStateM.run_get, Value.IsLegal, Value.text, Value.IsClear]
  cases hf : r.fields field with
  | some current => simp [hf]
  | none =>
    by_cases hname : name = ""
    · simp [hf, hname]
    · cases hv : Path.nameViolations name with
      | nil => simp [hf, hname, eq_comm]
      | cons v vs => simp [hf, hname]

theorem placeNames_eq_ok {names : List String} :
    (placeNames field names).run r = .ok () r' ↔
      r.fields field = none ∧ (Value.many names).IsLegal ∧ r' = r.put field (Path.join names) := by
  rw [placeNames, EStateM.run_bind, EStateM.run_get, Value.IsLegal, Value.text, Value.IsClear]
  cases hf : r.fields field with
  | some current => simp [hf]
  | none =>
    by_cases hjoin : Path.join names = ""
    · simp [hf, hjoin]
    · rw [← firstViolation_eq_none]
      cases hv : firstViolation Path.nameViolations names with
      | none => simp [hf, hjoin, eq_comm]
      | some v => simp [hf, hjoin]

theorem placeFullPath_eq_ok {parts : List String} :
    (placeFullPath field parts).run r = .ok () r' ↔
      r.fields field = none ∧ (Value.fullPath parts).IsLegal ∧
        r' = r.put field (Path.encodeFullPath parts) := by
  rw [placeFullPath, Value.IsLegal, Value.text, Value.IsClear, Path.IsClear,
    ← firstViolation_eq_none]
  cases hv : firstViolation Path.fullPathViolations parts with
  | some v => simp
  | none =>
    rw [EStateM.run_bind, EStateM.run_get]
    cases hf : r.fields field with
    | some current => simp [hf]
    | none =>
      by_cases hcode : Path.encodeFullPath parts = ""
      · simp [hf, hcode]
      · simp [hf, hcode, eq_comm]

/-- A part of the path is written exactly if it has not been written and the value is legal. The
three forms of values are checked in different orders, which only the errors show. -/
theorem place_eq_ok :
    (place field v).run r = .ok () r' ↔
      r.fields field = none ∧ v.IsLegal ∧ r' = r.put field v.text := by
  cases v with
  | one name => exact placeName_eq_ok
  | many names => exact placeNames_eq_ok
  | fullPath parts => exact placeFullPath_eq_ok

/-- A setting writes its value as the part of the path says, but for a manager without a name. -/
theorem edit_of_writes (hs : s.writes = some (field, v)) (hname : s ≠ .manager "") :
    edit s = place field v := by
  cases s with
  | manager name =>
    have hne : name ≠ "" := fun heq => hname (by rw [heq])
    cases hs
    exact if_neg hne
  | category name => cases hs; rfl
  | resource name => cases hs; rfl
  | resourceInstance fullPath => cases hs; rfl
  | subResource names => cases hs; rfl
  | subInstance fullPath => cases hs; rfl
  | statistics names => cases hs; rfl
  | _ => cases hs

/-- A setting that writes a part of the path does nothing else. -/
theorem apply_of_writes (hs : s.writes = some (field, v)) :
    r.apply s = .ok r' ↔ (place field v).run r = .ok () r' := by
  rw [apply_eq_ok]
  by_cases hname : s = .manager ""
  · -- an empty name is refused for a reason of its own
    subst hname
    cases hs
    rw [edit, if_pos rfl, place_eq_ok, Value.IsLegal, Value.text]
    simp
  · rw [edit_of_writes hs hname]

/-! ## Accepted settings -/

/-- What an accepted setting makes of a request. -/
structure Change (r r' : Request) (s : Setting) : Prop where
  client : r'.client = r.client
  method : r'.method = s.onMethod r.method
  error : r'.error = r.error
  pathPrefix : r'.pathPrefix = s.onPrefix r.client r.pathPrefix
  subPath : r'.subPath = s.onSubPath r.subPath
  timeout : r'.timeout = s.onTimeout r.timeout
  parameters : r'.parameters = s.onParameters r.parameters
  body : r'.body = s.onBody r.body
  values : ∀ name, r'.headers.values name = s.onValues name (r.headers.values name)
  written : ∀ f v, s.writes = some (f, v) → r'.fields f = some v.text
  others : ∀ f, s.target ≠ some f → r'.fields f = r.fields f
  fresh : ∀ f, s.target = some f → r.fields f = none
  legal : s.IsLegal

/-- Writing a part of the path that has not been written changes nothing else. -/
theorem change_put (hs : s.writes = some (field, v)) (hnone : r.fields field = none)
    (hlegal : v.IsLegal) : Change r (r.put field v.text) s := by
  obtain ⟨hmethod, hbase, hsub, htimeout, hparameters, hbody, hvalues⟩ :=
    Setting.keeps_of_writes (r := r) hs
  have htarget : s.target = some field := Setting.target_eq_some.mpr ⟨v, hs⟩
  refine ⟨rfl, hmethod.symm, rfl, hbase.symm, hsub.symm, htimeout.symm, hparameters.symm,
    hbody.symm, fun name => (hvalues name).symm, ?_, ?_, ?_,
    (Setting.isLegal_of_writes hs).mpr hlegal⟩
  · intro f w hw
    rw [hs, Option.some.injEq, Prod.mk.injEq] at hw
    rw [← hw.1, ← hw.2]
    exact if_pos rfl
  · intro f hf
    have hne : f ≠ field := fun heq => hf (heq ▸ htarget)
    exact if_neg hne
  · intro f hf
    rw [htarget, Option.some.injEq] at hf
    rw [← hf]
    exact hnone

/-- A setting that writes no part of the path. -/
theorem change_of_writes_none (hs : s.writes = none)
    (hclient : r'.client = r.client) (hmethod : r'.method = s.onMethod r.method)
    (herror : r'.error = r.error)
    (hbase : r'.pathPrefix = s.onPrefix r.client r.pathPrefix)
    (hsub : r'.subPath = s.onSubPath r.subPath) (htimeout : r'.timeout = s.onTimeout r.timeout)
    (hparameters : r'.parameters = s.onParameters r.parameters)
    (hbody : r'.body = s.onBody r.body)
    (hvalues : ∀ name, r'.headers.values name = s.onValues name (r.headers.values name))
    (hfields : r'.fields = r.fields) (hlegal : s.IsLegal) : Change r r' s := by
  refine ⟨hclient, hmethod, herror, hbase, hsub, htimeout, hparameters, hbody, hvalues, ?_, ?_, ?_,
    hlegal⟩
  · intro f v hw
    rw [hs] at hw
    cases hw
  · intro f _
    rw [hfields]
  · intro f hf
    rw [Setting.target, hs] at hf
    cases hf

/-- Values go under a header field exactly if its name and all of them are allowed, and then they
stand in place of the ones that were there. -/
theorem putHeader_eq_ok {name : String} {values : List String} :
    (putHeader name values).run r = .ok () r' ↔
      ∃ n vs, FieldName.ofString? name = some n ∧ values.mapM FieldValue.ofString? = some vs ∧
        r' = { r with headers := r.headers.setAll n vs } := by
  rw [putHeader]
  cases FieldName.ofString? name with
  | none => simp
  | some n =>
    cases values.mapM FieldValue.ofString? with
    | none => simp
    | some vs =>
      rw [EStateM.run_bind, EStateM.run_modify]
      simp [run_addValues, Http.Headers.setAll, eq_comm]

/-- What an accepted setting does to a request. -/
theorem change_of_apply_ok (h : r.apply s = .ok r') : Change r r' s := by
  cases hs : s.writes with
  | some write =>
    obtain ⟨hnone, hlegal, rfl⟩ := place_eq_ok.mp ((apply_of_writes hs).mp h)
    exact change_put hs hnone hlegal
  | none =>
    cases s with
    | bodyFile file =>
      obtain ⟨path, contents⟩ := file
      cases contents with
      | error fault => cases h
      | ok data =>
        cases h
        exact change_of_writes_none hs rfl rfl rfl rfl rfl rfl rfl rfl (fun _ => rfl) rfl ⟨data, rfl⟩
    | bodyDocument document =>
      cases document with
      | error reason => cases h
      | ok content =>
        cases h
        refine change_of_writes_none hs rfl rfl rfl rfl rfl rfl rfl rfl ?_ rfl ⟨content, rfl⟩
        intro name
        rw [Setting.onValues]
        split
        · next hname =>
          rw [hname]
          exact Http.Headers.values_setAll_self _ _ _
        · next hname => exact Http.Headers.values_setAll_of_ne _ hname _
    | header name values =>
      obtain ⟨n, vs, hn, hvs, rfl⟩ := putHeader_eq_ok.mp (apply_eq_ok.mp h)
      refine change_of_writes_none hs rfl rfl rfl rfl rfl rfl rfl rfl ?_ rfl
        ⟨by simp [hn], by simp [hvs]⟩
      intro other
      simp only [Setting.onValues, hn, hvs, Option.some.injEq, Option.getD_some]
      split
      · next hname =>
        rw [hname]
        exact Http.Headers.values_setAll_self _ _ _
      · next hname => exact Http.Headers.values_setAll_of_ne _ (Ne.symm hname) _
    | category name => cases hs
    | manager name => cases hs
    | resource name => cases hs
    | resourceInstance fullPath => cases hs
    | subResource names => cases hs
    | subInstance fullPath => cases hs
    | statistics names => cases hs
    | _ =>
      -- the settings that are always accepted
      cases h
      exact change_of_writes_none hs rfl rfl rfl rfl rfl rfl rfl rfl (fun _ => rfl) rfl nofun

/-- A setting is accepted exactly if it is acceptable by itself and writes no part of the path that
has been written before. -/
theorem exists_apply_ok :
    (∃ r', r.apply s = .ok r') ↔ s.IsLegal ∧ ∀ f, s.target = some f → r.fields f = none := by
  constructor
  · rintro ⟨r', h⟩
    have c := change_of_apply_ok h
    exact ⟨c.legal, c.fresh⟩
  · rintro ⟨hlegal, hfresh⟩
    cases hs : s.writes with
    | some write =>
      have hnone := hfresh write.1 (Setting.target_eq_some.mpr ⟨write.2, hs⟩)
      have hvalue := (Setting.isLegal_of_writes hs).mp hlegal
      exact ⟨_, (apply_of_writes hs).mpr (place_eq_ok.mpr ⟨hnone, hvalue, rfl⟩)⟩
    | none =>
      cases s with
      | bodyFile file =>
        obtain ⟨path, contents⟩ := file
        obtain ⟨data, rfl⟩ := hlegal
        exact ⟨_, rfl⟩
      | bodyDocument document =>
        obtain ⟨content, rfl⟩ := hlegal
        exact ⟨_, rfl⟩
      | header name values =>
        obtain ⟨n, hn⟩ := Option.isSome_iff_exists.mp hlegal.1
        obtain ⟨vs, hvs⟩ := Option.isSome_iff_exists.mp hlegal.2
        exact ⟨_, apply_eq_ok.mpr (putHeader_eq_ok.mpr ⟨n, vs, hn, hvs, rfl⟩)⟩
      | category name => cases hs
      | manager name => cases hs
      | resource name => cases hs
      | resourceInstance fullPath => cases hs
      | subResource names => cases hs
      | subInstance fullPath => cases hs
      | statistics names => cases hs
      | _ => exact ⟨_, rfl⟩

end ApplianceRest.Request
