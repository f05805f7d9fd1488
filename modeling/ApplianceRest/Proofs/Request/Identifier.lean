import ApplianceRest.Proofs.Request.Hierarchy

/-!
# Identifiers of objects

An object is named by a full path in parts, which a request keeps as one segment. The parts are
accepted exactly if the segment says which path it stands for: an empty identifier would be no
segment, a tilde of its own could not be told from a slash, and `.` and `..` would be cleaned away.

* `apply_of_violation`, `apply_of_empty`: the two ways to be refused.
* `identifier_accepted_iff`: which parts are accepted, what is kept of them, and what is wrong with
  any others.
-/

namespace ApplianceRest.Request

open ApplianceRest.Path (IsClear elements encodeFullPath decodeFullPath fullPathViolations)

variable {r : Request} {s : Setting} {field : Field} {parts : List String}

/-- The first value that breaks rules stands behind values that break none. -/
theorem firstViolation_eq_some {check : String → List Path.Violation} {values : List String}
    {value : String} {violations : List Path.Violation} :
    firstViolation check values = some (value, violations) ↔
      ∃ before after, values = before ++ value :: after ∧ (∀ v ∈ before, check v = []) ∧
        check value ≠ [] ∧ violations = check value := by
  rw [firstViolation, List.find?_map, Option.map_eq_some_iff]
  constructor
  · rintro ⟨found, hfound, hpair⟩
    obtain ⟨rfl, rfl⟩ := Prod.mk.inj hpair
    obtain ⟨hbad, before, after, hvalues, hbefore⟩ := List.find?_eq_some_iff_append.mp hfound
    refine ⟨before, after, hvalues, ?_, by simpa using hbad, rfl⟩
    intro v hv
    simpa using hbefore v hv
  · rintro ⟨before, after, hvalues, hbefore, hbad, rfl⟩
    refine ⟨value, List.find?_eq_some_iff_append.mpr ⟨by simpa using hbad, before, after, hvalues, ?_⟩,
      rfl⟩
    intro v hv
    simpa using hbefore v hv

/-- A setting that writes a full path does so as its part of the path says. -/
theorem edit_fullPath (hs : s.writes = some (field, .fullPath parts)) :
    edit s = placeFullPath field parts := by
  have hname : s ≠ .manager "" := by
    rintro rfl
    cases hs
  exact edit_of_writes hs hname

/-- Parts of which one breaks a rule are refused for the first such part. -/
theorem apply_of_violation (hs : s.writes = some (field, .fullPath parts)) (h : ¬IsClear parts) :
    ∃ before part after, parts = before ++ part :: after ∧ IsClear before ∧
      fullPathViolations part ≠ [] ∧
      r.apply s = .error (.invalidSegment field part (fullPathViolations part)) := by
  cases hfirst : firstViolation fullPathViolations parts with
  | none => exact absurd (firstViolation_eq_none.mp hfirst) h
  | some found =>
    obtain ⟨part, violations⟩ := found
    obtain ⟨before, after, hparts, hbefore, hbad, rfl⟩ := firstViolation_eq_some.mp hfirst
    refine ⟨before, part, after, hparts, hbefore, hbad, ?_⟩
    rw [apply_eq_error, edit_fullPath hs, placeFullPath, hfirst]
    rfl

/-- Parts without any text are refused as an empty value. -/
theorem apply_of_empty (hs : s.writes = some (field, .fullPath parts))
    (hfree : r.fields field = none) (hempty : ∀ part ∈ parts, part = "") :
    r.apply s = .error (emptyValue field) := by
  have hclear : firstViolation fullPathViolations parts = none := by
    rw [firstViolation_eq_none]
    intro part hpart
    rw [hempty part hpart]
    decide
  have hcode : encodeFullPath parts = "" := Path.encodeFullPath_eq_empty.mpr hempty
  rw [apply_eq_error, edit_fullPath hs, placeFullPath, hclear, EStateM.run_bind, EStateM.run_get]
  simp only [hfree, hcode]
  rfl

/-- Parts are accepted exactly if there is a text among them and none breaks a rule. -/
theorem error_set_fullPath (hs : s.writes = some (field, .fullPath parts)) (herror : r.error = none)
    (hfree : r.fields field = none) :
    (r.set s).error = none ↔ (∃ part ∈ parts, part ≠ "") ∧ IsClear parts := by
  have hvalue : (Value.fullPath parts).IsLegal ↔ (∃ part ∈ parts, part ≠ "") ∧ IsClear parts := by
    rw [Value.IsLegal, Value.text, Value.IsClear, Ne, Path.encodeFullPath_eq_empty]
    simp only [not_forall, exists_prop]
  rw [error_set herror, rejection_eq_none, ← hvalue]
  constructor
  · rintro ⟨r', h⟩
    exact (place_eq_ok.mp ((apply_of_writes hs).mp h)).2.1
  · intro h
    exact ⟨_, (apply_of_writes hs).mpr (place_eq_ok.mpr ⟨hfree, h, rfl⟩)⟩

/-- What is kept of accepted parts is the segment that stands for them. -/
theorem fields_set_fullPath (hs : s.writes = some (field, .fullPath parts)) (herror : r.error = none)
    (hok : (r.set s).error = none) : (r.set s).fields field = some (encodeFullPath parts) := by
  obtain ⟨r', h⟩ := exists_apply_of_error_set herror hok
  rw [set_of_apply_ok herror h]
  exact (change_of_apply_ok h).written field _ hs

/-- A part of the path that names an object and has not been written accepts parts of a full path
exactly if one of them has a text, none holds a tilde, and between their slashes there is no `.` and
no `..`. What it keeps is read back as the joined parts, which are the texts between the slashes in
order, and these are encoded as what it keeps. It refuses other parts for the first one that breaks
a rule, and parts without any text as an empty value. -/
theorem identifier_accepted_iff (r : Request) (s : Setting) (field : Field) (parts : List String)
    (hs : s.writes = some (field, .fullPath parts)) (herror : r.error = none)
    (hfree : r.fields field = none) :
    let r' := r.set s
    (r'.error = none ↔
      (∃ part ∈ parts, part ≠ "") ∧
      ∀ part ∈ parts, Path.tilde ∉ part.toList ∧
        ∀ e ∈ elements part.toList, e ≠ Path.here ∧ e ≠ Path.parent) ∧
    (r'.error = none →
      ∃ text, r'.fields field = some text ∧
        decodeFullPath text = Path.join parts ∧
        Path.join parts = .ofList ((if Path.startsAtRoot parts then ['/'] else []) ++
          List.intercalate ['/'] (Path.pieces parts)) ∧
        encodeFullPath [decodeFullPath text] = text) ∧
    ∀ reason, r'.error = some reason →
      (∃ before part after, parts = before ++ part :: after ∧
        (∀ p ∈ before, fullPathViolations p = []) ∧ fullPathViolations part ≠ [] ∧
        reason = .invalidSegment field part (fullPathViolations part)) ∨
      (∀ part ∈ parts, part = "") ∧
        ∃ violations, reason = .invalidSegment field "" violations ∧
          violations.map (·.message) = ["may not be empty"] := by
  intro r'
  have hlegal := error_set_fullPath hs herror hfree
  refine ⟨?_, ?_, ?_⟩
  · rw [hlegal, IsClear]
    simp only [Path.fullPathViolations_eq_nil]
  · intro hok
    obtain ⟨hsome, hclear⟩ := hlegal.mp hok
    have hwritten := fields_set_fullPath hs herror hok
    have hdecode := Path.decodeFullPath_encodeFullPath_of_isClear hclear
    refine ⟨encodeFullPath parts, hwritten, hdecode, Path.join_eq_pieces hclear hsome, ?_⟩
    rw [hdecode, Path.encodeFullPath_join hsome]
  · intro reason hreason
    have happly : r.apply s = .error reason :=
      rejection_eq_some.mp ((error_set herror).symm.trans hreason)
    by_cases hclear : IsClear parts
    · -- nothing breaks a rule, so there is no text at all
      have hempty : ∀ part ∈ parts, part = "" := by
        intro part hpart
        by_contra hne
        have hnone : r'.error = none := hlegal.mpr ⟨⟨part, hpart, hne⟩, hclear⟩
        rw [hnone] at hreason
        cases hreason
      rw [apply_of_empty hs hfree hempty] at happly
      cases happly
      exact Or.inr ⟨hempty, _, rfl, rfl⟩
    · obtain ⟨before, part, after, hparts, hbefore, hbad, hrefused⟩ :=
        apply_of_violation (r := r) hs hclear
      rw [hrefused] at happly
      cases happly
      exact Or.inl ⟨before, part, after, hparts, hbefore, hbad, rfl⟩

/-- A pool given as its partition and its name, with slashes that say nothing. -/
theorem identifier_accepted_poolParts :
    ((new sampleClient .get).set (.resourceInstance ["/Common/", "", "web//a"])).error = none ∧
    ∃ text, ((new sampleClient .get).set
        (.resourceInstance ["/Common/", "", "web//a"])).fields .resourceInstance = some text ∧
      decodeFullPath text = Path.join ["/Common/", "", "web//a"] := by
  have h := identifier_accepted_iff (new sampleClient .get)
    (.resourceInstance ["/Common/", "", "web//a"]) .resourceInstance _ rfl rfl rfl
  have hok := h.1.mpr (by decide)
  obtain ⟨text, htext, hdecode, -⟩ := h.2.1 hok
  exact ⟨hok, text, htext, hdecode⟩

end ApplianceRest.Request
