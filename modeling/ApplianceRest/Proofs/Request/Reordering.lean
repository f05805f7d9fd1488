import ApplianceRest.Proofs.Request.Hierarchy

/-!
# Settings in another order

Each setting writes certain parts of a request, mostly one: the method, the path prefix, a part of
the path, the values of a header field, and so on. What a request has in a part follows the settings
that write it and no others (`IsReadingOf`, one lemma per part), so a run may be put into another
order as long as the settings of each part stay in theirs (`IsReordering`,
`setAll_of_isReordering`). All that is left of the order is that of the header fields of different
names among each other.
-/

namespace ApplianceRest.Request

open Http (FieldName Method)

/-! ## What settings write -/

/-- The parts of a request that settings write. -/
inductive Part where
  | method
  | pathPrefix
  | subPath
  | field (field : Field)
  | header (name : FieldName)
  | body
  | parameter (key : String)
  | timeout
deriving DecidableEq

namespace Setting

/-- The parts of a request that a setting writes. An absolute path is a path prefix, and a document
as body comes with its content type. What is no name of a header field names no part. -/
def parts : Setting → List Part
  | .method _ => [.method]
  | .pathPrefix _ => [.pathPrefix]
  | .absolutePath _ => [.pathPrefix]
  | .pathSuffix _ => [.subPath]
  | .category _ => [.field .category]
  | .manager _ => [.field .manager]
  | .resource _ => [.field .resource]
  | .resourceInstance _ => [.field .resourceInstance]
  | .subResource _ => [.field .subResource]
  | .subInstance _ => [.field .subInstance]
  | .statistics _ => [.field .statistics]
  | .bodyFile _ => [.body]
  | .bodyBytes _ => [.body]
  | .bodyStream _ => [.body]
  | .bodyDocument _ => [.body, .header .contentType]
  | .header name _ => (FieldName.ofString? name).toList.map .header
  | .parameter key _ => [.parameter key]
  | .timeout _ => [.timeout]

/-- The text of a part of the path after a setting. -/
def onField (field : Field) (current : Option String) (s : Setting) : Option String :=
  match s.writes with
  | some (f, v) => if f = field then some v.text else current
  | none => current

/-- The values under the key of a parameter after a setting. -/
def onParameter (key : String) (current : Option (List String)) : Setting → Option (List String)
  | .parameter k value => if k = key then some (current.getD [] ++ [value]) else current
  | _ => current

variable {s : Setting} {field : Field} {v : Value}

theorem field_mem_parts : .field field ∈ s.parts ↔ s.target = some field := by
  cases s <;> simp [parts, target, writes, eq_comm]

theorem onField_of_writes (hs : s.writes = some (field, v)) (current : Option String) :
    onField field current s = some v.text := by
  rw [onField, hs]
  exact if_pos rfl

theorem onField_of_target_ne (hs : s.target ≠ some field) (current : Option String) :
    onField field current s = current := by
  cases hw : s.writes with
  | none => rw [onField, hw]
  | some write =>
    have hne : write.1 ≠ field := by
      rintro rfl
      exact hs (target_eq_some.mpr ⟨write.2, hw⟩)
    rw [onField, hw]
    exact if_neg hne

end Setting

/-- Whether a run is another one in a different order, with the settings of each part in the order in
which they were. -/
def IsReordering (settings reordered : List Setting) : Prop :=
  reordered.Perm settings ∧
    ∀ part : Part, reordered.filter (part ∈ ·.parts) = settings.filter (part ∈ ·.parts)

variable {settings reordered : List Setting} {s t : Setting} {r r' start : Request} {part : Part}

/-- Two settings in a row that write no part in common may change places. -/
theorem isReordering_swap (h : ∀ part ∈ s.parts, part ∉ t.parts) (before after : List Setting) :
    IsReordering (before ++ s :: t :: after) (before ++ t :: s :: after) := by
  refine ⟨(List.Perm.swap s t after).append_left before, ?_⟩
  intro part
  rw [List.filter_append, List.filter_append]
  congr 1
  by_cases hs : part ∈ s.parts
  · -- the other one is not about this part
    simp [h part hs, hs]
  · by_cases ht : part ∈ t.parts <;> simp [hs, ht]

theorem IsReordering.trans {again : List Setting} (h : IsReordering settings reordered)
    (h' : IsReordering reordered again) : IsReordering settings again :=
  ⟨h'.1.trans h.1, fun part => (h'.2 part).trans (h.2 part)⟩

/-! ## What a part holds -/

/-- A reading of requests that follows the settings which write a part, and no others. -/
structure IsReadingOf {β : Type} (part : Part) (read : Request → β) (on : β → Setting → β) :
    Prop where
  follows : ∀ {r s r'}, Change r r' s → read r' = on (read r) s
  passes : ∀ x s, part ∉ s.parts → on x s = x

namespace IsReadingOf

variable {β : Type} {read : Request → β} {on : β → Setting → β}

/-- After a run without error a reading is made by the settings that write its part. -/
theorem read_setAll (h : IsReadingOf part read on) (hend : (start.setAll settings).error = none) :
    read (start.setAll settings) =
      (settings.filter (part ∈ ·.parts)).foldl on (read start) := by
  refine run_induction
    (P := fun before r => read r = (before.filter (part ∈ ·.parts)).foldl on (read start))
    rfl ?_ hend
  intro before r s r' hbefore hs
  rw [h.follows (change_of_apply_ok hs), hbefore, List.filter_append, List.foldl_append]
  -- a setting that does not write the part is left out on both sides
  by_cases hpart : part ∈ s.parts
  · simp [hpart]
  · simp [hpart, h.passes _ s hpart]

theorem read_of_isReordering (h : IsReadingOf part read on)
    (hsame : IsReordering settings reordered) (hend : (start.setAll settings).error = none)
    (hend' : (start.setAll reordered).error = none) :
    read (start.setAll reordered) = read (start.setAll settings) := by
  rw [h.read_setAll hend', hsame.2 part, ← h.read_setAll hend]

end IsReadingOf

/-! One reading for each part. -/

theorem isReadingOf_method : IsReadingOf .method Request.method Setting.onMethod where
  follows c := c.method
  passes x s h := by
    cases s with
    | method m => exact absurd List.mem_cons_self h
    | _ => rfl

/-- What an absolute path is depends on the client too. -/
theorem isReadingOf_pathPrefix :
    IsReadingOf .pathPrefix (fun r => (r.client, r.pathPrefix))
      fun x s => (x.1, s.onPrefix x.1 x.2) where
  follows c := by rw [c.client, c.pathPrefix]
  passes x s h := by
    cases s with
    | pathPrefix segments => exact absurd List.mem_cons_self h
    | absolutePath segments => exact absurd List.mem_cons_self h
    | _ => rfl

theorem isReadingOf_subPath : IsReadingOf .subPath Request.subPath Setting.onSubPath where
  follows c := c.subPath
  passes x s h := by
    cases s with
    | pathSuffix segments => exact absurd List.mem_cons_self h
    | _ => rfl

theorem isReadingOf_field (field : Field) :
    IsReadingOf (.field field) (fun r => r.fields field) (Setting.onField field) where
  follows := by
    intro r s r' c
    by_cases htarget : s.target = some field
    · obtain ⟨v, hw⟩ := Setting.target_eq_some.mp htarget
      rw [Setting.onField_of_writes hw]
      exact c.written field v hw
    · rw [Setting.onField_of_target_ne htarget]
      exact c.others field htarget
  passes x s h := Setting.onField_of_target_ne (mt Setting.field_mem_parts.mpr h) x

theorem isReadingOf_header (name : FieldName) :
    IsReadingOf (.header name) (fun r => r.headers.values name)
      (fun x s => s.onValues name x) where
  follows c := c.values name
  passes x s h := by
    cases s with
    | bodyDocument document =>
      cases document with
      | error reason => rfl
      | ok content => exact if_neg fun heq => h (by simp [Setting.parts, heq])
    | header text values => exact if_neg fun heq => h (by simp [Setting.parts, heq])
    | _ => rfl

theorem isReadingOf_body : IsReadingOf .body Request.body Setting.onBody where
  follows c := c.body
  passes x s h := by
    cases s with
    | bodyFile file => exact absurd List.mem_cons_self h
    | bodyBytes data => exact absurd List.mem_cons_self h
    | bodyStream data => exact absurd List.mem_cons_self h
    | bodyDocument document => exact absurd List.mem_cons_self h
    | _ => rfl

theorem isReadingOf_parameter (key : String) :
    IsReadingOf (.parameter key) (fun r => r.parameters.get? key) (Setting.onParameter key) where
  follows := by
    intro r s r' c
    rw [c.parameters]
    cases s with
    | parameter k value =>
      rw [Setting.onParameters, Setting.onParameter]
      by_cases hk : k = key
      · subst hk
        simp
      · rw [if_neg hk]
        exact Dict.get?_insert_of_ne _ (Ne.symm hk) _
    | _ => rfl
  passes x s h := by
    cases s with
    | parameter k value => exact if_neg fun heq => h (by simp [Setting.parts, heq])
    | _ => rfl

theorem isReadingOf_timeout : IsReadingOf .timeout Request.timeout Setting.onTimeout where
  follows c := c.timeout
  passes x s h := by
    cases s with
    | timeout deadline => exact absurd List.mem_cons_self h
    | _ => rfl

/-! ## Runs in another order -/

/-- Whether settings are accepted together does not depend on their order. -/
theorem error_setAll_perm {client : Client} {method : Method} (h : reordered.Perm settings) :
    ((new client method).setAll reordered).error = none ↔
      ((new client method).setAll settings).error = none := by
  rw [error_setAll_eq_none, error_setAll_eq_none, (h.filterMap Setting.target).nodup_iff]
  simp only [h.mem_iff]

/-- Of the request that a run leaves, another order changes at most the order of header fields. -/
theorem setAll_of_isReordering (hsame : IsReordering settings reordered)
    (hend : (start.setAll settings).error = none) (hend' : (start.setAll reordered).error = none) :
    start.setAll reordered =
      { start.setAll settings with headers := (start.setAll reordered).headers } := by
  have hprefix := isReadingOf_pathPrefix.read_of_isReordering hsame hend hend'
  rw [Prod.mk.injEq] at hprefix
  -- one reading for each of the fields of a request
  apply Request.ext
  case client => exact hprefix.1
  case method => exact isReadingOf_method.read_of_isReordering hsame hend hend'
  case timeout => exact isReadingOf_timeout.read_of_isReordering hsame hend hend'
  case headers => rfl
  case body => exact isReadingOf_body.read_of_isReordering hsame hend hend'
  case error => exact hend'.trans hend.symm
  case pathPrefix => exact hprefix.2
  case subPath => exact isReadingOf_subPath.read_of_isReordering hsame hend hend'
  case fields =>
    funext f
    exact (isReadingOf_field f).read_of_isReordering hsame hend hend'
  case parameters =>
    -- keys that were set in another order stand in the order of keys all the same
    apply Dict.ext_get?
    intro key
    exact (isReadingOf_parameter key).read_of_isReordering hsame hend hend'

/-- A run that leaves no error leaves none in any order in which the settings that write the same
part follow each other as they did. Method, path, query, address, deadline and body are the same, and so
are the values of every header field. -/
theorem reordering_changes_nothing (client : Client) (method : Method)
    (settings reordered : List Setting)
    (hend : ((new client method).setAll settings).error = none)
    (hsame : IsReordering settings reordered) :
    let r := (new client method).setAll settings
    let r' := (new client method).setAll reordered
    r'.error = none ∧ r'.method = r.method ∧ r'.path = r.path ∧ r'.query = r.query ∧
      r'.url = r.url ∧ r'.timeout = r.timeout ∧ r'.body = r.body ∧
      ∀ name, r'.headers.values name = r.headers.values name := by
  intro r r'
  have hend' : r'.error = none := (error_setAll_perm hsame.1).mpr hend
  have hr' : r' = { r with headers := r'.headers } := setAll_of_isReordering hsame hend hend'
  refine ⟨hend', ?_, ?_, ?_, ?_, ?_, ?_, ?_⟩
  · rw [hr']
  · rw [hr']; rfl
  · rw [hr']; rfl
  · rw [hr']; rfl
  · rw [hr']
  · rw [hr']
  · intro name
    exact (isReadingOf_header name).read_of_isReordering hsame hend hend'

/-- A run that says what its document is to be taken for. -/
def typedRun : List Setting :=
  [.category "ltm", .bodyDocument (.ok .null), .header "Content-Type" ["text/plain"],
    .pathPrefix ["v1"]]

/-- The same settings in another order. What the document is taken for still stands behind it. -/
def typedRunLater : List Setting :=
  [.bodyDocument (.ok .null), .category "ltm", .pathPrefix ["v1"],
    .header "Content-Type" ["text/plain"]]

theorem reordering_changes_nothing_typedRun :
    let r := (new sampleClient .get).setAll typedRun
    let r' := (new sampleClient .get).setAll typedRunLater
    r.error = none ∧ r'.error = none ∧ r'.url = r.url ∧
      r'.headers.values .contentType = r.headers.values .contentType := by
  have hsame : IsReordering typedRun typedRunLater :=
    (isReordering_swap (by simp [Setting.parts]) [] [.header "Content-Type" _, .pathPrefix _]).trans
      (isReordering_swap (by simp [Setting.parts]) [.bodyDocument _, .category _] [])
  have hlegal : ∀ s ∈ typedRun, s.IsLegal := by
    rw [typedRun]
    simp only [List.forall_mem_cons]
    refine ⟨?_, ⟨_, rfl⟩, ?_, nofun, nofun⟩
    · exact (Setting.isLegal_of_writes rfl).mpr (Value.isLegal_one (by decide))
    · exact ⟨by decide, by decide⟩
  have hend : ((new sampleClient .get).setAll typedRun).error = none :=
    error_setAll_eq_none.mpr ⟨hlegal, by decide⟩
  obtain ⟨herror, -, -, -, hurl, -, -, hvalues⟩ :=
    reordering_changes_nothing sampleClient .get typedRun typedRunLater hend hsame
  exact ⟨hend, herror, hurl, hvalues .contentType⟩

end ApplianceRest.Request
