import ApplianceRest.Proofs.Request.Frozen

/-!
# Settings that are refused

A request refuses a setting for one of the reasons of `Refuses`. Some settings look at several things
and write several: a full path is looked at part by part, a header field is emptied and then filled
value by value, a document as body is also a header field. Whatever a setting has found wrong, it has
found before it wrote anything, so a refused setting leaves the request as it was, with the reason
for it (`refused_setting_changes_nothing`). A run in which a setting is refused leaves what the
settings before it have made (`setAll_of_refuses`).
-/

namespace ApplianceRest.Request

open Http (FieldName FieldValue)

variable {r : Request} {s : Setting}

/-- The reasons for which a request refuses a setting. -/
inductive Refuses (r : Request) : Setting → Prop where
  | alreadySet {s field v} (hs : s.writes = some (field, v)) (h : r.fields field ≠ none) : r.Refuses s
  | noText {s field v} (hs : s.writes = some (field, v)) (h : v.text = "") : r.Refuses s
  | notClear {s field v} (hs : s.writes = some (field, v)) (h : ¬v.IsClear) : r.Refuses s
  | unreadableFile {path fault} : r.Refuses (.bodyFile ⟨path, .error fault⟩)
  | unserializable {reason} : r.Refuses (.bodyDocument (.error reason))
  | headerName {name values} (h : FieldName.ofString? name = none) : r.Refuses (.header name values)
  | headerValue {name values value} (hmem : value ∈ values) (h : FieldValue.ofString? value = none) :
    r.Refuses (.header name values)

theorem mapM_eq_none {α β : Type} {f : α → Option β} {values : List α} :
    values.mapM f = none ↔ ∃ value ∈ values, f value = none := by
  induction values with
  | nil => simp
  | cons value rest ih =>
    -- the first value decides, or what follows does
    rw [List.mapM_cons, List.exists_mem_cons_iff, ← ih]
    cases f value with
    | none => simp
    | some b => cases rest.mapM f <;> simp

/-- A setting is refused if it is not acceptable by itself or writes what has been written. -/
theorem refuses_iff : r.Refuses s ↔ ¬∃ r', r.apply s = .ok r' := by
  rw [exists_apply_ok]
  constructor
  · rintro h ⟨hlegal, hfresh⟩
    cases h with
    | alreadySet hs h => exact h (hfresh _ (Setting.target_eq_some.mpr ⟨_, hs⟩))
    | noText hs h => exact ((Setting.isLegal_of_writes hs).mp hlegal).1 h
    | notClear hs h => exact h ((Setting.isLegal_of_writes hs).mp hlegal).2
    | unreadableFile =>
      obtain ⟨data, hdata⟩ := hlegal
      cases hdata
    | unserializable =>
      obtain ⟨content, hcontent⟩ := hlegal
      cases hcontent
    | headerName h => simp [Setting.IsLegal, h] at hlegal
    | headerValue hmem h => simp [Setting.IsLegal, mapM_eq_none.mpr ⟨_, hmem, h⟩] at hlegal
  · intro h
    cases hs : s.writes with
    | some write =>
      -- what none of the reasons applies to would be accepted
      obtain ⟨field, v⟩ := write
      by_contra hnot
      refine h ⟨(Setting.isLegal_of_writes hs).mpr ⟨?_, ?_⟩, ?_⟩
      · intro htext
        exact hnot (.noText hs htext)
      · by_contra hclear
        exact hnot (.notClear hs hclear)
      · intro f hf
        obtain ⟨w, hw⟩ := Setting.target_eq_some.mp hf
        by_contra hwritten
        exact hnot (.alreadySet hw hwritten)
    | none =>
      -- what is not written to the path may be set again, so something is wrong with the setting
      have hillegal : ¬s.IsLegal := by
        intro hlegal
        refine h ⟨hlegal, ?_⟩
        intro f hf
        rw [Setting.target, hs] at hf
        cases hf
      cases s with
      | bodyFile file =>
        obtain ⟨path, contents⟩ := file
        cases contents with
        | error fault => exact .unreadableFile
        | ok data => exact absurd ⟨data, rfl⟩ hillegal
      | bodyDocument document =>
        cases document with
        | error reason => exact .unserializable
        | ok content => exact absurd ⟨content, rfl⟩ hillegal
      | header name values =>
        cases hname : FieldName.ofString? name with
        | none => exact .headerName hname
        | some n =>
          cases hvalues : values.mapM FieldValue.ofString? with
          | none =>
            obtain ⟨value, hmem, hvalue⟩ := mapM_eq_none.mp hvalues
            exact .headerValue hmem hvalue
          | some vs => exact absurd ⟨by simp [hname], by simp [hvalues]⟩ hillegal
      | _ =>
        refine absurd ?_ hillegal
        intro f v hw
        rw [hs] at hw
        cases hw

theorem error_set_ne_none (hr : r.error = none) : (r.set s).error ≠ none ↔ r.Refuses s := by
  rw [error_set hr, refuses_iff, Ne, rejection_eq_none]

/-- A refused setting stops with a reason, and the request is as it was. -/
theorem Refuses.set_eq (h : r.Refuses s) (hr : r.error = none) :
    ∃ reason, (edit s).run r = .error reason r ∧ r.set s = { r with error := some reason } := by
  cases happly : r.apply s with
  | ok r' => exact absurd ⟨r', happly⟩ (refuses_iff.mp h)
  | error reason => exact ⟨reason, apply_eq_error.mp happly, set_of_apply_error hr happly⟩

/-- The settings of a run behind one that is refused set the method, and nothing else. -/
theorem setAll_of_refuses (hr : r.error = none) (h : r.Refuses s) (after : List Setting) :
    ∃ reason, r.setAll (s :: after) =
      { r with
        error := some reason
        method := after.foldl Setting.onMethod r.method } := by
  obtain ⟨reason, -, hset⟩ := h.set_eq hr
  refine ⟨reason, ?_⟩
  calc r.setAll (s :: after)
      = ({ r with error := some reason } : Request).setAll after := by rw [← hset]; rfl
    _ = _ := setAll_of_error rfl after

/-- A setting is refused for a value of a part of the path that is written, that has no text, or of
which any segment breaks a rule, for a file that cannot be read, for a document for which there is no
text, or for a header field whose name or any of whose values is not allowed. A setting that is
refused stops before it has changed anything: method, parts of the path, path prefix, sub-path,
parameters, deadline, header fields and body are what they were, and only the reason is new. -/
theorem refused_setting_changes_nothing (r : Request) (s : Setting) (hr : r.error = none) :
    ((r.set s).error ≠ none ↔ r.Refuses s) ∧
    (r.Refuses s → ∃ reason,
      (edit s).run r = .error reason r ∧ r.set s = { r with error := some reason } ∧
      (r.set s).observe = { r.observe with error := some reason }) := by
  refine ⟨error_set_ne_none hr, ?_⟩
  intro h
  obtain ⟨reason, hrun, hset⟩ := h.set_eq hr
  refine ⟨reason, hrun, hset, ?_⟩
  rw [hset]
  rfl

/-- A request that accepts documents. -/
def accepting : Request := new { sampleClient with headers := ⟨[(.accept, .document)]⟩ } .get

/-- Of two new values for a header field the second is not allowed: the field keeps its value. -/
theorem refused_header_value :
    ∃ reason, (accepting.set (.header "Accept" ["text/plain", "a\nb"])).error = some reason ∧
      (accepting.set (.header "Accept" ["text/plain", "a\nb"])).headers.values .accept =
        [.document] := by
  have hvalue : FieldValue.ofString? "a\nb" = none := by decide
  have hrefuses : accepting.Refuses (.header "Accept" ["text/plain", "a\nb"]) :=
    .headerValue (by simp) hvalue
  obtain ⟨reason, -, hset, -⟩ := (refused_setting_changes_nothing accepting _ rfl).2 hrefuses
  exact ⟨reason, by rw [hset], by rw [hset]; rfl⟩

end ApplianceRest.Request
