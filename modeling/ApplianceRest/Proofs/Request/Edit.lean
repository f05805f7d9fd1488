import ApplianceRest.Request.Basic

/-!
# Edits that do all or nothing

A setting works on a request in place. It looks at the request, may stop with what is wrong, and
writes, and what it has written before it stops would stay. No setting leaves anything behind in this
way: whatever it looks at, it looks at before it writes (`isAtomic_edit`). So a setting may be taken
as a whole: it makes one request of another, or it is not accepted (`apply`).
-/

namespace ApplianceRest.Request

open Http (FieldName FieldValue)

/-! ## Looking and writing -/

namespace Edit

variable {α β : Type} {x : Edit α} {f : α → Edit β}

/-- Work that leaves the request as it is, whether it stops or not. -/
def IsCheck (x : Edit α) : Prop :=
  ∀ r, (∃ a, x.run r = .ok a r) ∨ ∃ reason, x.run r = .error reason r

/-- Work that never stops. -/
def IsWrite (x : Edit α) : Prop := ∀ r, ∃ a r', x.run r = .ok a r'

/-- Work that leaves the request as it was if it stops. -/
def IsAtomic (x : Edit α) : Prop := ∀ r reason r', x.run r = .error reason r' → r' = r

theorem isCheck_get : IsCheck (get : Edit Request) := fun r => Or.inl ⟨r, rfl⟩

theorem isCheck_throw (reason : InvalidRequest) : IsCheck (throw reason : Edit α) :=
  fun _ => Or.inr ⟨reason, rfl⟩

theorem isWrite_pure (a : α) : IsWrite (pure a : Edit α) := fun r => ⟨a, r, rfl⟩

theorem isWrite_modify (change : Request → Request) : IsWrite (modify change : Edit Unit) :=
  fun r => ⟨(), change r, rfl⟩

/-- Writing goes on after writing. -/
theorem IsWrite.bind (hx : IsWrite x) (hf : ∀ a, IsWrite (f a)) : IsWrite (x >>= f) := by
  intro r
  obtain ⟨a, r₁, hfirst⟩ := hx r
  obtain ⟨b, r₂, hsecond⟩ := hf a r₁
  refine ⟨b, r₂, ?_⟩
  rw [EStateM.run_bind, hfirst]
  exact hsecond

theorem IsCheck.isAtomic (hx : IsCheck x) : IsAtomic x := by
  intro r reason r' hstop
  rcases hx r with ⟨a, hgo⟩ | ⟨_, hstays⟩
  · rw [hgo] at hstop
    cases hstop
  · rw [hstays] at hstop
    cases hstop
    rfl

theorem IsWrite.isAtomic (hx : IsWrite x) : IsAtomic x := by
  intro r reason r' hstop
  obtain ⟨a, r₁, hgo⟩ := hx r
  rw [hgo] at hstop
  cases hstop

/-- After a look at the request nothing has been written yet. -/
theorem IsCheck.bind (hx : IsCheck x) (hf : ∀ a, IsAtomic (f a)) : IsAtomic (x >>= f) := by
  intro r reason r' hstop
  rw [EStateM.run_bind] at hstop
  rcases hx r with ⟨a, hgo⟩ | ⟨_, hstays⟩
  · rw [hgo] at hstop
    exact hf a r reason r' hstop
  · rw [hstays] at hstop
    cases hstop
    rfl

end Edit

/-! ## What settings do -/

open Edit

theorem isAtomic_placeName (field : Field) (name : String) : IsAtomic (placeName field name) := by
  -- the request is looked at once, and each of the ways from there stops or writes
  refine isCheck_get.bind fun r => ?_
  split
  · exact (isCheck_throw _).isAtomic
  · split
    · exact (isCheck_throw _).isAtomic
    · split
      · exact (isWrite_modify _).isAtomic
      · exact (isCheck_throw _).isAtomic

theorem isAtomic_placeNames (field : Field) (names : List String) :
    IsAtomic (placeNames field names) := by
  refine isCheck_get.bind fun r => ?_
  split
  · exact (isCheck_throw _).isAtomic
  · split
    · exact (isCheck_throw _).isAtomic
    · split
      · exact (isCheck_throw _).isAtomic
      · exact (isWrite_modify _).isAtomic

theorem isAtomic_placeFullPath (field : Field) (parts : List String) :
    IsAtomic (placeFullPath field parts) := by
  rw [placeFullPath]
  split
  · exact (isCheck_throw _).isAtomic
  · refine isCheck_get.bind fun r => ?_
    split
    · exact (isCheck_throw _).isAtomic
    · split
      · exact (isCheck_throw _).isAtomic
      · exact (isWrite_modify _).isAtomic

theorem isWrite_addValues (name : FieldName) (values : List FieldValue) :
    IsWrite (addValues name values) := by
  induction values with
  | nil => exact isWrite_pure ()
  | cons value rest ih => exact (isWrite_modify _).bind fun _ => ih

/-- The name and all values are looked at before the field is emptied. -/
theorem isAtomic_putHeader (name : String) (values : List String) :
    IsAtomic (putHeader name values) := by
  rw [putHeader]
  split
  · -- the values are all there, so none of the writes can stop
    exact ((isWrite_modify _).bind fun _ => isWrite_addValues _ _).isAtomic
  · exact (isCheck_throw _).isAtomic

/-- A setting that is not accepted has changed nothing. -/
theorem isAtomic_edit (s : Setting) : IsAtomic (edit s) := by
  cases s with
  | category name => exact isAtomic_placeName _ _
  | manager name =>
    rw [edit]
    split
    · exact (isCheck_throw _).isAtomic
    · exact isAtomic_placeName _ _
  | resource name => exact isAtomic_placeName _ _
  | resourceInstance fullPath => exact isAtomic_placeFullPath _ _
  | subResource names => exact isAtomic_placeNames _ _
  | subInstance fullPath => exact isAtomic_placeFullPath _ _
  | statistics names => exact isAtomic_placeNames _ _
  | bodyFile file =>
    rw [edit]
    split
    · exact (isWrite_modify _).isAtomic
    · exact (isCheck_throw _).isAtomic
  | bodyDocument document =>
    cases document with
    | error reason => exact (isCheck_throw _).isAtomic
    | ok content =>
      -- two writes, of which neither can stop
      exact ((isWrite_modify _).bind fun _ => isWrite_modify _).isAtomic
  | header name values => exact isAtomic_putHeader _ _
  | _ => exact (isWrite_modify _).isAtomic

/-- Values added to a header field stand behind the fields that are there, in order. -/
theorem run_addValues (name : FieldName) (values : List FieldValue) (r : Request) :
    (addValues name values).run r =
      .ok () { r with headers := ⟨r.headers.fields ++ values.map (name, ·)⟩ } := by
  induction values generalizing r with
  | nil =>
    rw [List.map_nil, List.append_nil]
    rfl
  | cons value rest ih =>
    rw [addValues, EStateM.run_bind, EStateM.run_modify]
    refine (ih _).trans ?_
    simp [Http.Headers.add]

/-! ## Settings as a whole -/

variable {r r' : Request} {s : Setting} {reason : InvalidRequest}

/-- What a setting as a whole makes of a request, whatever has been wrong before: the request with
it, or why it is not accepted. -/
def apply (r : Request) (s : Setting) : Except InvalidRequest Request :=
  match (edit s).run r with
  | .ok () r' => .ok r'
  | .error reason _ => .error reason

theorem apply_eq_ok : r.apply s = .ok r' ↔ (edit s).run r = .ok () r' := by
  rw [apply]
  cases (edit s).run r with
  | ok a r₁ => simp
  | error e r₁ => simp

/-- Where a setting is not accepted, the request is left as it was. -/
theorem apply_eq_error : r.apply s = .error reason ↔ (edit s).run r = .error reason r := by
  rw [apply]
  cases hrun : (edit s).run r with
  | ok a r₁ => simp
  | error e r₁ =>
    have hstays : r₁ = r := isAtomic_edit s r e r₁ hrun
    simp [hstays]

end ApplianceRest.Request
