import ApplianceRest.Proofs.Request.Identifier
import ApplianceRest.Proofs.Request.Rejection

/-!
# Writing a part of the path again

A part of the path that holds a text is not written again, and what is reported is that it has been
written, with the text that it holds. There are two things that are looked at before: whether the
name of a manager has any text, and whether the parts of a full path break a rule. Names of any other
kind are looked at only where the part of the path is free, so there it makes no difference whether
the new value could be written at all.

* `place_of_written`: a written part of the path, with whatever value is given for it.
* `reassignment_reported`: what is reported for each kind of value.
-/

namespace ApplianceRest.Request

open ApplianceRest.Path (IsClear fullPathViolations)

variable {r : Request} {s : Setting} {field : Field} {v : Value} {current : String}

/-- A part of the path that holds a text is reported as written. Only the parts of a full path have
to be clear for that. -/
theorem place_of_written (hset : r.fields field = some current)
    (hclear : ∀ parts, v = .fullPath parts → IsClear parts) :
    (place field v).run r = .error (.alreadySet field current v.text) r := by
  cases v with
  | one name =>
    rw [place, placeName, EStateM.run_bind, EStateM.run_get]
    simp only [hset]
    rfl
  | many names =>
    rw [place, placeNames, EStateM.run_bind, EStateM.run_get]
    simp only [hset]
    rfl
  | fullPath parts =>
    have hnone : firstViolation fullPathViolations parts = none :=
      firstViolation_eq_none.mpr (hclear parts rfl)
    rw [place, placeFullPath, hnone, EStateM.run_bind, EStateM.run_get]
    simp only [hset]
    rfl

/-- A setting for a part of the path that holds a text already leaves the request as it was, and an
error. The error says that the part has been written, with the text that it holds and the one that
was to be put there, whatever is wrong with that text, except in two cases. A manager without a name
is reported as that. A full path with parts that break a rule is reported for the first of them. -/
theorem reassignment_reported (r : Request) (s : Setting) (field : Field) (v : Value)
    (current : String) (hs : s.writes = some (field, v)) (hr : r.error = none)
    (hset : r.fields field = some current) :
    (∃ reason, r.set s = { r with error := some reason }) ∧
    (s ≠ .manager "" ∧ (∀ parts, v = .fullPath parts → IsClear parts) →
      (r.set s).error = some (.alreadySet field current v.text)) ∧
    (s = .manager "" → (r.set s).error = some .emptyManager) ∧
    ∀ parts, v = .fullPath parts → ¬IsClear parts →
      ∃ before part after, parts = before ++ part :: after ∧ IsClear before ∧
        fullPathViolations part ≠ [] ∧
        (r.set s).error = some (.invalidSegment field part (fullPathViolations part)) := by
  refine ⟨?_, ?_, ?_, ?_⟩
  · have hrefuses : r.Refuses s := .alreadySet hs (by simp [hset])
    obtain ⟨reason, -, hsame⟩ := hrefuses.set_eq hr
    exact ⟨reason, hsame⟩
  · rintro ⟨hname, hclear⟩
    have happly : r.apply s = .error (.alreadySet field current v.text) := by
      rw [apply_eq_error, edit_of_writes hs hname]
      exact place_of_written hset hclear
    rw [set_of_apply_error hr happly]
  · rintro rfl
    have happly : r.apply (.manager "") = .error .emptyManager := rfl
    rw [set_of_apply_error hr happly]
  · rintro parts rfl hbad
    obtain ⟨before, part, after, hparts, hbefore, hpart, happly⟩ :=
      apply_of_violation (r := r) hs hbad
    refine ⟨before, part, after, hparts, hbefore, hpart, ?_⟩
    rw [set_of_apply_error hr happly]

/-- A request for a member of a pool. -/
def assigned : Request :=
  (new sampleClient .get).setAll
    [.manager "ltm", .resourceInstance ["web"], .subResource ["members"], .subInstance ["a:80"]]

/-- Names that may not be written at all are reported as a part of the path that has been. -/
theorem reassignment_reported_names :
    (assigned.set (.subResource ["x/y", "..", "50%"])).error =
      some (.alreadySet .subResource "members" "x/50%") := by
  have h := reassignment_reported assigned (.subResource ["x/y", "..", "50%"]) .subResource
    (.many ["x/y", "..", "50%"]) "members" rfl (by decide) (by decide)
  apply h.2.1
  constructor
  · intro hname
    cases hname
  · intro parts hvalue
    cases hvalue

/-- A manager without a name, and full paths that break a rule, are not reported as parts of the path
that have been written. -/
theorem reassignment_otherwise_reported :
    assigned.error = none ∧
    (assigned.fields .manager = some "ltm" ∧
      (assigned.set (.manager "")).error = some .emptyManager) ∧
    (assigned.fields .resourceInstance = some "web" ∧
      (assigned.set (.resourceInstance ["b~c"])).error =
        some (.invalidSegment .resourceInstance "b~c" [.forbidden '~'])) ∧
    assigned.fields .subInstance = some "a:80" ∧
      (assigned.set (.subInstance ["Common/.."])).error =
        some (.invalidSegment .subInstance "Common/.." [.reserved ".."]) := by
  decide

end ApplianceRest.Request
