import ApplianceRest.Proofs.Request.Frozen

/-!
# Parts of the path are written once

A part of the path is empty, or it holds the text of the first value that was asked for in it. Once
written it stays, and to write it again is an error that changes no part. `IsWrittenOnce` is the
invariant, which every setting preserves whether it is accepted or not; `fields_setAll_of_some` says
that what is written stays.

What may stand in a part is said by `Field.Admits`: one name, some names between single slashes, or
one segment that stands for a full path.
-/

namespace ApplianceRest.Request

open Http (Method)

/-- A name that is one segment of a path and starts no escape. -/
def IsPlainName (name : String) : Prop :=
  name ≠ "" ∧ '/' ∉ name.toList ∧ '%' ∉ name.toList ∧ name ≠ "." ∧ name ≠ ".."

/-- What may stand in a part of the path. -/
def Field.Admits : Field → String → Prop
  | .category, text => IsPlainName text
  | .manager, text => IsPlainName text
  | .resource, text => IsPlainName text
  | .subResource, text =>
    ∃ names ≠ [], (∀ name ∈ names, IsPlainName name) ∧ text = "/".intercalate names
  | .statistics, text =>
    ∃ names ≠ [], (∀ name ∈ names, IsPlainName name) ∧ text = "/".intercalate names
  | .resourceInstance, text => text ≠ "" ∧ '/' ∉ text.toList ∧ text ≠ "." ∧ text ≠ ".."
  | .subInstance, text => text ≠ "" ∧ '/' ∉ text.toList ∧ text ≠ "." ∧ text ≠ ".."

/-- The value that a setting asks for in a part of the path. -/
def Setting.valueFor? (field : Field) (s : Setting) : Option Value :=
  match s.writes with
  | some (f, v) => if f = field then some v else none
  | none => none

/-- The value that the first of some settings that is about a part of the path asks for in it. -/
def firstValue? (settings : List Setting) (field : Field) : Option Value :=
  settings.findSome? (Setting.valueFor? field)

variable {r : Request} {s : Setting} {settings before : List Setting} {field : Field} {v : Value}
variable {text : String}

theorem Setting.valueFor_of_writes (hs : s.writes = some (field, v)) :
    s.valueFor? field = some v := by
  rw [valueFor?, hs]
  exact if_pos rfl

theorem Setting.valueFor_eq_none : s.valueFor? field = none ↔ s.target ≠ some field := by
  rw [valueFor?, target]
  cases s.writes with
  | none => simp
  | some write => simp

theorem firstValue_eq_none :
    firstValue? settings field = none ↔ ∀ s ∈ settings, s.target ≠ some field := by
  rw [firstValue?, List.findSome?_eq_none_iff]
  simp only [Setting.valueFor_eq_none]

theorem firstValue_concat (before : List Setting) (s : Setting) (field : Field) :
    firstValue? (before ++ [s]) field = (firstValue? before field).or (s.valueFor? field) := by
  rw [firstValue?, List.findSome?_append, List.findSome?_singleton]
  rfl

/-! ## What is written -/

theorem isPlainName_of_no_violations {name : String} (hne : name ≠ "")
    (h : Path.nameViolations name = []) : IsPlainName name := by
  obtain ⟨hdot, hdots, hslash, hpercent⟩ := Path.nameViolations_eq_nil.mp h
  exact ⟨hne, hslash, hpercent, hdot, hdots⟩

/-- Names without violations are joined with single slashes, the empty ones left out. -/
theorem join_eq_intercalate {given : List String} (hne : Path.join given ≠ "")
    (h : ∀ name ∈ given, Path.nameViolations name = []) :
    Path.join given = "/".intercalate (given.filter (· ≠ "")) := by
  have hnames := Path.names_join h
  have hname : ∀ name ∈ given, name ≠ "" → Path.IsName name.toList :=
    fun name hmem hname => Path.isName_of_no_violations hname (h name hmem)
  rw [← String.toList_inj, String.toList_intercalate]
  have hslash : "/".toList = ['/'] := by decide
  rw [hslash, ← hnames]
  rw [Path.toList_join] at hnames ⊢
  rcases Path.joinChars_cases (given.map String.toList) with ⟨hall, -⟩ | ⟨hparts, hclean⟩
  · -- all names are empty, so there would be nothing joined
    exact absurd (Path.join_eq_empty.mpr fun name hmem =>
      String.toList_eq_nil_iff.mp (hall _ (List.mem_map_of_mem hmem))) hne
  · -- the first name has no slash in front, so the joined path is not rooted
    obtain ⟨e, rest, hes⟩ := List.exists_cons_of_ne_nil hparts
    have hmem : e ∈ (given.map String.toList).filter (· ≠ []) := hes ▸ List.mem_cons_self
    obtain ⟨hgiven, hene⟩ := List.mem_filter.mp hmem
    obtain ⟨name, hin, rfl⟩ := List.mem_map.mp hgiven
    have hnil : name ≠ "" := fun heq => by simp [heq] at hene
    have hroot : Path.isRooted
        (List.intercalate ['/'] ((given.map String.toList).filter (· ≠ []))) = false := by
      have hfirst := (hname name hin hnil).2.2.2
      have hlist := (hname name hin hnil).1
      obtain ⟨c, cs, hc⟩ := List.exists_cons_of_ne_nil hlist
      have hcs : c ≠ '/' := fun heq => hfirst (by simp [hc, heq])
      rw [hes, Path.intercalate_cons, hc]
      simp [Path.isRooted, hcs]
    have hnonempty : Path.names (Path.cleanChars
        (List.intercalate ['/'] ((given.map String.toList).filter (· ≠ [])))) ≠ [] := by
      rw [← hclean, hnames]
      have hkept : name ∈ given.filter (· ≠ "") :=
        List.mem_filter.mpr ⟨hin, by simpa using hnil⟩
      exact fun hempty => List.ne_nil_of_mem hkept (List.map_eq_nil_iff.mp hempty)
    rw [hclean]
    have heq := Path.cleanChars_eq hnonempty
    rw [hroot, if_neg Bool.false_ne_true, List.nil_append] at heq
    exact heq

/-- The text of a legal value is one that its part of the path admits. -/
theorem admits_of_writes (hs : s.writes = some (field, v)) (hv : v.IsLegal) :
    field.Admits v.text := by
  have hone : ∀ name, (Value.one name).IsLegal → IsPlainName name :=
    fun name h => isPlainName_of_no_violations h.1 h.2
  have hmany : ∀ given, (Value.many given).IsLegal → ∃ names ≠ [],
      (∀ name ∈ names, IsPlainName name) ∧ Path.join given = "/".intercalate names := by
    intro given h
    refine ⟨_, Value.segments_ne_nil h, ?_, join_eq_intercalate h.1 h.2⟩
    intro name hname
    obtain ⟨hmem, hne⟩ := List.mem_filter.mp hname
    exact isPlainName_of_no_violations (by simpa using hne) (h.2 name hmem)
  have hfull : ∀ parts, (Value.fullPath parts).IsLegal → Path.encodeFullPath parts ≠ "" ∧
      '/' ∉ (Path.encodeFullPath parts).toList ∧ Path.encodeFullPath parts ≠ "." ∧
      Path.encodeFullPath parts ≠ ".." := by
    intro parts h
    obtain ⟨-, hdot, hdots, hslash⟩ := Path.isName_encodeFullPath h.2 h.1
    refine ⟨h.1, hslash, ?_, ?_⟩
    · intro heq
      exact hdot ((congrArg String.toList heq).trans (by decide))
    · intro heq
      exact hdots ((congrArg String.toList heq).trans (by decide))
  cases s with
  | category name => cases hs; exact hone name hv
  | manager name => cases hs; exact hone name hv
  | resource name => cases hs; exact hone name hv
  | subResource given => cases hs; exact hmany given hv
  | statistics given => cases hs; exact hmany given hv
  | resourceInstance parts => cases hs; exact hfull parts hv
  | subInstance parts => cases hs; exact hfull parts hv
  | _ => cases hs

/-! ## Steps and runs -/

/-- What has been written to a part of the path stays, whatever is set. -/
theorem fields_set_of_some (h : r.fields field = some text) :
    (r.set s).fields field = some text := by
  cases hr : r.error with
  | some reason => rw [set_of_error hr]; exact h
  | none =>
    cases ha : r.apply s with
    | error reason => rw [set_of_apply_error hr ha]; exact h
    | ok r' =>
      have c := change_of_apply_ok ha
      rw [set_of_apply_ok hr ha]
      -- a setting about this part would have found it empty
      have htarget : s.target ≠ some field := by
        intro heq
        rw [c.fresh field heq] at h
        cases h
      rw [c.others field htarget]
      exact h

theorem fields_setAll_of_some (h : r.fields field = some text) (settings : List Setting) :
    (r.setAll settings).fields field = some text := by
  induction settings generalizing r with
  | nil => exact h
  | cons s rest ih => exact ih (fields_set_of_some h)

/-- To write again what has been written changes no part of the path and is an error. -/
theorem fields_set_of_written (htarget : s.target = some field)
    (h : r.error ≠ none ∨ r.fields field ≠ none) :
    (r.set s).fields = r.fields ∧ (r.set s).error ≠ none := by
  cases hr : r.error with
  | some reason =>
    rw [set_of_error hr]
    exact ⟨rfl, by simp [hr]⟩
  | none =>
    have hset : r.fields field ≠ none := h.resolve_left (fun hne => hne hr)
    cases ha : r.apply s with
    | ok r' => exact absurd ((change_of_apply_ok ha).fresh field htarget) hset
    | error reason =>
      rw [set_of_apply_error hr ha]
      exact ⟨rfl, by simp⟩

/-- What a run leaves in the parts of the path: each one that is written holds the first value that
was asked for in it, and where nothing is wrong each one that was asked for is written. -/
structure IsWrittenOnce (settings : List Setting) (r : Request) : Prop where
  first : ∀ f text, r.fields f = some text →
    ∃ v, firstValue? settings f = some v ∧ v.text = text ∧ f.Admits text
  unset : r.error = none → ∀ f, r.fields f = none → firstValue? settings f = none

theorem isWrittenOnce_new (client : Client) (method : Method) :
    IsWrittenOnce [] (new client method) where
  first _ _ h := by cases h
  unset _ _ _ := rfl

/-- A setting that leaves the parts of the path as they are, on a request with something wrong. -/
theorem IsWrittenOnce.of_fields_eq (h : IsWrittenOnce before r) {r' : Request}
    (hfields : r'.fields = r.fields) (herror : r'.error ≠ none) :
    IsWrittenOnce (before ++ [s]) r' where
  first f text hf := by
    rw [hfields] at hf
    obtain ⟨v, hfirst, htext, hadmits⟩ := h.first f text hf
    refine ⟨v, ?_, htext, hadmits⟩
    rw [firstValue_concat, hfirst, Option.some_or]
  unset hr := absurd hr herror

/-- Every setting, accepted or not, preserves what a run leaves in the parts of the path. -/
theorem isWrittenOnce_set (h : IsWrittenOnce before r) :
    IsWrittenOnce (before ++ [s]) (r.set s) := by
  cases hr : r.error with
  | some reason =>
    rw [set_of_error hr]
    exact h.of_fields_eq rfl (by simp [hr])
  | none =>
    cases ha : r.apply s with
    | error reason =>
      rw [set_of_apply_error hr ha]
      exact h.of_fields_eq rfl (by simp)
    | ok r' =>
      have c := change_of_apply_ok ha
      rw [set_of_apply_ok hr ha]
      refine ⟨?_, ?_⟩
      · intro f text hf
        rw [firstValue_concat]
        by_cases htarget : s.target = some f
        · -- the part is written by this setting, and nothing asked for it before
          obtain ⟨v, hw⟩ := Setting.target_eq_some.mp htarget
          have hnone : firstValue? before f = none := h.unset hr f (c.fresh f htarget)
          rw [c.written f v hw, Option.some.injEq] at hf
          rw [hnone, Option.none_or, ← hf]
          exact ⟨v, Setting.valueFor_of_writes hw, rfl,
            admits_of_writes hw ((Setting.isLegal_of_writes hw).mp c.legal)⟩
        · rw [c.others f htarget] at hf
          obtain ⟨v, hfirst, htext, hadmits⟩ := h.first f text hf
          exact ⟨v, by rw [hfirst, Option.some_or], htext, hadmits⟩
      · intro _ f hf
        have htarget : s.target ≠ some f := by
          intro heq
          obtain ⟨v, hw⟩ := Setting.target_eq_some.mp heq
          rw [c.written f v hw] at hf
          cases hf
        rw [c.others f htarget] at hf
        rw [firstValue_concat, h.unset hr f hf, Setting.valueFor_eq_none.mpr htarget]
        rfl

theorem isWrittenOnce_setAll (client : Client) (method : Method) (settings : List Setting) :
    IsWrittenOnce settings ((new client method).setAll settings) := by
  induction settings using List.reverseRec with
  | nil => exact isWrittenOnce_new client method
  | append_singleton before s ih =>
    rw [setAll_concat]
    exact isWrittenOnce_set ih

/-- After any run, accepted or not, each part of the path is empty or holds the text of the first
value that was asked for in it, which is one that the part admits, and keeps it whatever else is set.
Where the run left no error, a part is empty only if nothing was asked for in it. A further setting
for a part that one of the run was about changes no part and leaves an error. -/
theorem fields_written_once (client : Client) (method : Method) (settings : List Setting) :
    let r := (new client method).setAll settings
    (∀ field, r.fields field = none ∨
      ∃ v, firstValue? settings field = some v ∧ field.Admits v.text ∧
        ∀ more, (r.setAll more).fields field = some v.text) ∧
    (r.error = none → ∀ field, r.fields field = none → ∀ s ∈ settings, s.target ≠ some field) ∧
    ∀ field, ∀ earlier ∈ settings, earlier.target = some field →
      ∀ again, again.target = some field →
        (r.set again).fields = r.fields ∧ (r.set again).error ≠ none := by
  intro r
  have h : IsWrittenOnce settings r := isWrittenOnce_setAll client method settings
  refine ⟨?_, ?_, ?_⟩
  · intro field
    cases hf : r.fields field with
    | none => exact Or.inl rfl
    | some text =>
      obtain ⟨v, hfirst, rfl, hadmits⟩ := h.first field text hf
      exact Or.inr ⟨v, hfirst, hadmits, fields_setAll_of_some hf⟩
  · intro hr field hf
    exact firstValue_eq_none.mp (h.unset hr field hf)
  · intro field earlier hmem hearlier again hagain
    apply fields_set_of_written hagain
    by_cases hr : r.error = none
    · right
      intro hf
      exact firstValue_eq_none.mp (h.unset hr field hf) earlier hmem hearlier
    · exact Or.inl hr

end ApplianceRest.Request
