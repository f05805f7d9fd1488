import ApplianceRest.Proofs.Request.Run

/-!
# What a run of settings writes

A request that is in order holds what its settings asked for: the path prefix and the sub-path they
piled up, and in each part of the path the text of the one setting for it. `Holds` says so, and every
accepted setting preserves it.

* `holds_setAll`: a run that left no error holds what it asked for.
* `error_setAll_eq_none`: which runs leave no error.
-/

namespace ApplianceRest.Request

open Http (Method)

/-- The path prefix that a run of settings piles up. -/
def prefixAfter (client : Client) (settings : List Setting) : String :=
  settings.foldl (Setting.onPrefix client) client.pathPrefix

/-- The sub-path that a run of settings piles up. -/
def subPathAfter (settings : List Setting) : String := settings.foldl Setting.onSubPath ""

/-- The deadline that a run of settings leaves. -/
def timeoutAfter (client : Client) (settings : List Setting) : Duration :=
  settings.foldl Setting.onTimeout (client.timeout.getD .zero)

/-- The parameters that a run of settings collects. -/
def parametersAfter (settings : List Setting) : Dict (List String) :=
  settings.foldl Setting.onParameters .empty

/-- The segments that a run of settings asks for in a part of the path. -/
def written (settings : List Setting) (field : Field) : List String :=
  settings.flatMap (Setting.segmentsFor field)

variable {client : Client} {method : Method} {settings before : List Setting} {s : Setting}
variable {r r' : Request} {field : Field}

theorem written_concat (before : List Setting) (s : Setting) (field : Field) :
    written (before ++ [s]) field =
      written before field ++ s.segmentsFor field := by
  rw [written, List.flatMap_append, List.flatMap_singleton]
  rfl

theorem written_eq_nil (h : ∀ s ∈ settings, s.target ≠ some field) :
    written settings field = [] := by
  rw [written, List.flatMap_eq_nil_iff]
  intro s hs
  exact Setting.segmentsFor_of_target_ne (h s hs)

/-- What a request holds after a run of accepted settings: the piled up prefix and sub-path, and in
each part of the path what the one setting for it wrote. -/
structure Holds (client : Client) (settings : List Setting) (r : Request) : Prop where
  pathPrefix : r.pathPrefix = prefixAfter client settings
  settled : Path.IsSettled r.pathPrefix.toList
  subPath : r.subPath = subPathAfter settings
  timeout : r.timeout = timeoutAfter client settings
  parameters : r.parameters = parametersAfter settings
  legal : ∀ s ∈ settings, s.IsLegal
  unset : ∀ f, r.fields f = none → ∀ s ∈ settings, s.target ≠ some f
  isSet : ∀ f text, r.fields f = some text →
    ∃ s ∈ settings, ∃ v, s.writes = some (f, v) ∧ v.text = text ∧ written settings f = v.segments
  client : r.client = client

theorem isSettled_join (fragments : List String) : Path.IsSettled (Path.join fragments).toList := by
  rw [Path.toList_join]
  exact Path.isSettled_joinChars _

theorem absolutePath_cases (client : Client) (segments : List String) :
    absolutePath client segments = Path.join [client.host.path, Path.join segments] ∨
      absolutePath client segments =
        Path.join [client.host.path, Path.join segments] ++ "/" := by
  unfold absolutePath
  dsimp only
  split
  · split
    · exact Or.inr rfl
    · exact Or.inl rfl
  · exact Or.inl rfl

/-- However the path prefix is set, cleaning it again changes nothing about its elements. -/
theorem isSettled_onPrefix {current : String} (h : Path.IsSettled current.toList) :
    Path.IsSettled (s.onPrefix client current).toList := by
  cases s with
  | pathPrefix segments => exact isSettled_join _
  | absolutePath segments =>
    show Path.IsSettled (absolutePath client segments).toList
    rcases absolutePath_cases client segments with heq | heq
    · rw [heq]
      exact isSettled_join _
    · rw [heq, String.toList_append]
      exact Path.isSettled_append_slash (isSettled_join _)
  | _ => exact h

theorem holds_new (client : Client) (method : Method) : Holds client [] (new client method) where
  pathPrefix := rfl
  settled := isSettled_join _
  subPath := rfl
  timeout := rfl
  parameters := rfl
  legal _ hs := absurd hs List.not_mem_nil
  unset _ _ _ hs := absurd hs List.not_mem_nil
  isSet _ _ h := by cases h
  client := rfl

/-- An accepted setting adds to what a request holds, and to that only. -/
theorem holds_step (h : Holds client before r) (hs : r.apply s = .ok r') :
    Holds client (before ++ [s]) r' := by
  have c := change_of_apply_ok hs
  refine ⟨?_, ?_, ?_, ?_, ?_, ?_, ?_, ?_, c.client.trans h.client⟩
  · rw [c.pathPrefix, h.client, h.pathPrefix, prefixAfter, prefixAfter, List.foldl_concat]
  · rw [c.pathPrefix]
    exact isSettled_onPrefix h.settled
  · rw [c.subPath, h.subPath, subPathAfter, subPathAfter, List.foldl_concat]
  · rw [c.timeout, h.timeout, timeoutAfter, timeoutAfter, List.foldl_concat]
  · rw [c.parameters, h.parameters, parametersAfter, parametersAfter, List.foldl_concat]
  · intro x hx
    rcases List.mem_append.mp hx with hx | hx
    · exact h.legal x hx
    · rw [List.mem_singleton.mp hx]
      exact c.legal
  · intro f hf x hx htarget
    by_cases hlast : s.target = some f
    · obtain ⟨v, hs⟩ := Setting.target_eq_some.mp hlast
      rw [c.written f v hs] at hf
      cases hf
    · rw [c.others f hlast] at hf
      rcases List.mem_append.mp hx with hx | hx
      · exact h.unset f hf x hx htarget
      · rw [List.mem_singleton.mp hx] at htarget
        exact hlast htarget
  · intro f text hf
    rw [written_concat]
    by_cases hlast : s.target = some f
    · -- the part has not been written before, so all that is in it comes from this setting
      obtain ⟨v, hs⟩ := Setting.target_eq_some.mp hlast
      have hbefore : written before f = [] := written_eq_nil (h.unset f (c.fresh f hlast))
      rw [c.written f v hs, Option.some.injEq] at hf
      refine ⟨s, by simp, v, hs, hf, ?_⟩
      rw [hbefore, Setting.segmentsFor_of_writes hs, List.nil_append]
    · rw [c.others f hlast] at hf
      obtain ⟨x, hx, v, hs, htext, hwritten⟩ := h.isSet f text hf
      refine ⟨x, List.mem_append_left _ hx, v, hs, htext, ?_⟩
      rw [Setting.segmentsFor_of_target_ne hlast, List.append_nil, hwritten]

/-- A run that left no error holds what it asked for. -/
theorem holds_setAll (hend : ((new client method).setAll settings).error = none) :
    Holds client settings ((new client method).setAll settings) :=
  run_induction (holds_new client method) (fun _ _ _ _ h hs => holds_step h hs) hend

namespace Holds

theorem fields_eq_none (h : Holds client settings r) (f : Field) :
    r.fields f = none ↔ ∀ s ∈ settings, s.target ≠ some f := by
  constructor
  · exact h.unset f
  · intro hno
    cases hf : r.fields f with
    | none => rfl
    | some text =>
      obtain ⟨s, hs, v, hw, -⟩ := h.isSet f text hf
      exact absurd (Setting.target_eq_some.mpr ⟨v, hw⟩) (hno s hs)

/-- A part of the path is empty and nothing was asked for in it, or it is the text of a legal value
whose segments were asked for. -/
theorem field_cases (h : Holds client settings r) (f : Field) :
    (r.fields f = none ∧ written settings f = []) ∨
      ∃ v : Value, v.IsLegal ∧ r.fields f = some v.text ∧ written settings f = v.segments := by
  cases hf : r.fields f with
  | none => exact Or.inl ⟨rfl, written_eq_nil (h.unset f hf)⟩
  | some text =>
    obtain ⟨s, hs, v, hw, rfl, hwritten⟩ := h.isSet f text hf
    exact Or.inr ⟨v, (Setting.isLegal_of_writes hw).mp (h.legal s hs), rfl, hwritten⟩

/-- The elements of a part of the path are the segments that were asked for. -/
theorem names_field (h : Holds client settings r) (f : Field) :
    Path.names ((r.fields f).getD "").toList = (written settings f).map String.toList := by
  rcases h.field_cases f with ⟨hf, hwritten⟩ | ⟨v, hlegal, hf, hwritten⟩
  · rw [hf, hwritten]
    rfl
  · rw [hf, hwritten]
    exact Value.names_text hlegal

theorem no_parent (h : Holds client settings r) (f : Field) :
    Path.parent ∉ Path.elements ((r.fields f).getD "").toList := by
  rcases h.field_cases f with ⟨hf, -⟩ | ⟨v, hlegal, hf, -⟩
  · rw [hf]
    decide
  · rw [hf]
    exact Value.parent_not_mem_text hlegal

/-- In a part that a setting is about something was asked for. -/
theorem written_ne_nil (h : Holds client settings r) (hs : s ∈ settings)
    (htarget : s.target = some field) : written settings field ≠ [] := by
  obtain ⟨v, hw⟩ := Setting.target_eq_some.mp htarget
  intro hnil
  rw [written, List.flatMap_eq_nil_iff] at hnil
  have hseg := hnil s hs
  rw [Setting.segmentsFor_of_writes hw] at hseg
  exact Value.segments_ne_nil ((Setting.isLegal_of_writes hw).mp (h.legal s hs)) hseg

end Holds

/-! ## Which runs are accepted -/

theorem nodup_targets_concat :
    ((before ++ [s]).filterMap Setting.target).Nodup ↔
      (before.filterMap Setting.target).Nodup ∧
        ∀ f, s.target = some f → ∀ x ∈ before, x.target ≠ some f := by
  rw [List.filterMap_append, List.nodup_append]
  constructor
  · rintro ⟨hbefore, -, hdistinct⟩
    refine ⟨hbefore, ?_⟩
    intro f htarget x hx hxf
    have hmem : f ∈ before.filterMap Setting.target := List.mem_filterMap.mpr ⟨x, hx, hxf⟩
    exact hdistinct f hmem f (by simp [htarget]) rfl
  · rintro ⟨hbefore, hfresh⟩
    refine ⟨hbefore, ?_, ?_⟩
    · cases htarget : s.target <;> simp [htarget]
    · rintro f hf g hg rfl
      obtain ⟨x, hx, hxf⟩ := List.mem_filterMap.mp hf
      have htarget : s.target = some f := by simpa using hg
      exact hfresh f htarget x hx hxf

/-- A run leaves no error exactly if each of its settings is acceptable by itself and no part of the
path is written twice. -/
theorem error_setAll_eq_none :
    ((new client method).setAll settings).error = none ↔
      (∀ s ∈ settings, s.IsLegal) ∧ (settings.filterMap Setting.target).Nodup := by
  induction settings using List.reverseRec with
  | nil => exact ⟨fun _ => ⟨fun _ hs => absurd hs List.not_mem_nil, List.nodup_nil⟩, fun _ => rfl⟩
  | append_singleton before s ih =>
    rw [setAll_concat, nodup_targets_concat, List.forall_mem_append, List.forall_mem_singleton]
    cases hbefore : ((new client method).setAll before).error with
    | some reason =>
      -- the error stays, and the settings before are not all acceptable either
      rw [error_set_of_some hbefore]
      constructor
      · intro h
        cases h
      · rintro ⟨⟨hlegal, -⟩, hnodup, -⟩
        rw [ih.mpr ⟨hlegal, hnodup⟩] at hbefore
        cases hbefore
    | none =>
      -- the parts that are written are those that the settings before are about
      obtain ⟨hlegal, hnodup⟩ := ih.mp hbefore
      have hfresh : ∀ f, ((new client method).setAll before).fields f = none ↔
          ∀ x ∈ before, x.target ≠ some f := (holds_setAll hbefore).fields_eq_none
      rw [error_set hbefore, rejection_eq_none, exists_apply_ok]
      simp only [hfresh]
      exact ⟨fun h => ⟨⟨hlegal, h.1⟩, hnodup, h.2⟩, fun h => ⟨h.1.2, h.2.2⟩⟩

end ApplianceRest.Request
