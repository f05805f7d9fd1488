import ApplianceRest.Proofs.Path.Joining
import ApplianceRest.Proofs.Request.Hierarchy

/-!
# Paths that accumulate

The path prefix and the sub-path of a request grow by settings: each joins its segments for
themselves, and then behind what is there. Two settings in a row do what one with all the segments
does, as long as what the second joins for itself takes nothing back that it should not
(`Accumulates`), and so does any number of them (`Accumulates.setAll`). The path of a request is one
join of all its parts, which may as well be done part by part (`path_eq_foldl`).
-/

namespace ApplianceRest.Request

open ApplianceRest.Path (IsGroup elements isGroup_pair join_append_join join_eq_foldl join_join
  join_pair parent startsAtRoot startsAtRoot_append)

/-! ## Settings that follow each other -/

/-- Whether segments may be set in two steps: neither step starts at the root, or the second takes
nothing back. -/
def IsStepwise (a b : List String) : Prop :=
  (startsAtRoot a = false ∧ startsAtRoot b = false) ∨ ∀ part ∈ b, parent ∉ elements part.toList

variable {a b : List String}

/-- What is set second is a group of its own. -/
theorem IsStepwise.isGroup (h : IsStepwise a b) : IsGroup b := by
  rcases h with ⟨-, hroot⟩ | hup
  · exact Or.inl hroot
  · exact Or.inr hup

/-- Segments that are joined and put behind a path in two steps. -/
theorem join_twice (h : IsStepwise a b) (done : String) :
    Path.join [Path.join [done, Path.join a], Path.join b] = Path.join [done, Path.join (a ++ b)] :=
  calc Path.join [Path.join [done, Path.join a], Path.join b]
      = Path.join ([done] ++ [Path.join a, Path.join b]) := join_join _ _
    _ = Path.join [done, Path.join [Path.join a, Path.join b]] :=
      -- the two steps together may be joined before they are put behind the path
      (join_append_join (isGroup_pair h) _).symm
    _ = Path.join [done, Path.join (a ++ b)] := by rw [join_pair h.isGroup]

variable {r : Request}

theorem set_pathPrefix (hr : r.error = none) (segments : List String) :
    r.set (.pathPrefix segments) =
      { r with pathPrefix := Path.join [r.pathPrefix, Path.join segments] } :=
  set_of_apply_ok hr rfl

theorem set_pathSuffix (hr : r.error = none) (segments : List String) :
    r.set (.pathSuffix segments) =
      { r with subPath := Path.join [r.subPath, Path.join segments] } :=
  set_of_apply_ok hr rfl

/-- Settings of which two in a row do what one with all their segments does. -/
def Accumulates (make : List String → Setting) : Prop :=
  ∀ a b, IsStepwise a b → ∀ r : Request,
    (r.set (make a)).set (make b) = r.set (make (a ++ b))

theorem accumulates_pathPrefix : Accumulates .pathPrefix := by
  intro a b h r
  cases hr : r.error with
  | some reason => simp only [set, hr]
  | none =>
    have hfirst : (r.set (.pathPrefix a)).error = none := by
      -- a path prefix is never refused
      rw [set_pathPrefix hr]
      exact hr
    rw [set_pathPrefix hfirst, set_pathPrefix hr, set_pathPrefix hr, join_twice h]

theorem accumulates_pathSuffix : Accumulates .pathSuffix := by
  intro a b h r
  cases hr : r.error with
  | some reason => simp only [set, hr]
  | none =>
    have hfirst : (r.set (.pathSuffix a)).error = none := by
      rw [set_pathSuffix hr]
      exact hr
    rw [set_pathSuffix hfirst, set_pathSuffix hr, set_pathSuffix hr, join_twice h]

/-- Any number of settings in a row do what one with all their segments does, if none starts at the
root, or none but the first takes anything back. -/
theorem Accumulates.setAll {make : List String → Setting} (h : Accumulates make)
    {first : List String} {groups : List (List String)}
    (hsteps : (∀ group ∈ first :: groups, startsAtRoot group = false) ∨
      ∀ group ∈ groups, ∀ part ∈ group, parent ∉ elements part.toList) :
    r.setAll ((first :: groups).map make) = r.set (make (first :: groups).flatten) := by
  induction groups generalizing first with
  | nil =>
    rw [List.flatten_singleton]
    rfl
  | cons second rest ih =>
    have hstep : IsStepwise first second := by
      rcases hsteps with hroot | hup
      · exact Or.inl ⟨hroot first (by simp), hroot second (by simp)⟩
      · exact Or.inr (hup second (by simp))
    have hrest : (∀ group ∈ (first ++ second) :: rest, startsAtRoot group = false) ∨
        ∀ group ∈ rest, ∀ part ∈ group, parent ∉ elements part.toList := by
      rcases hsteps with hroot | hup
      · rw [List.forall_mem_cons, List.forall_mem_cons] at hroot
        obtain ⟨hfirst, hsecond, htail⟩ := hroot
        exact Or.inl (List.forall_mem_cons.mpr ⟨startsAtRoot_append hfirst hsecond, htail⟩)
      · exact Or.inr fun group hgroup => hup group (List.mem_cons_of_mem _ hgroup)
    calc r.setAll ((first :: second :: rest).map make)
        = ((r.set (make first)).set (make second)).setAll (rest.map make) := rfl
      _ = r.setAll (((first ++ second) :: rest).map make) := by rw [h first second hstep]; rfl
      _ = r.set (make ((first ++ second) :: rest).flatten) := ih hrest
      _ = r.set (make (first :: second :: rest).flatten) := by simp

/-! ## The path -/

/-- The parts of the path, in the order in which they stand in it. -/
def pathParts (r : Request) : List String :=
  let part (field : Field) : String := (r.fields field).getD ""
  [r.pathPrefix, part .category, part .manager, part .resource, part .resourceInstance, r.subPath,
    part .subResource, part .subInstance, part .statistics]

/-- The path of a request that names anything is made part by part. -/
theorem path_eq_foldl (hbare : r.isBare = false) :
    r.path = r.pathParts.foldl (fun done part => Path.join [done, part]) "" := by
  rw [← join_eq_foldl, path, hbare]
  rfl

/-- Joining may be done in groups. Two groups that are joined for themselves make what all their
fragments make, if the second does not start at the root or has no `..`. For this reason the path
prefix and the sub-path of any request may be given in two steps, if neither step starts at the root
or the second has no `..`. From the left, fragments may always be joined one by one, and so may the
parts of the path of a request. -/
theorem groups_accumulate :
    (∀ a b : List String,
      startsAtRoot b = false ∨ (∀ part ∈ b, parent ∉ elements part.toList) →
        Path.join [Path.join a, Path.join b] = Path.join (a ++ b)) ∧
    (∀ (r : Request) (a b : List String),
      (startsAtRoot a = false ∧ startsAtRoot b = false) ∨
        (∀ part ∈ b, parent ∉ elements part.toList) →
        (r.set (.pathPrefix a)).set (.pathPrefix b) = r.set (.pathPrefix (a ++ b)) ∧
        (r.set (.pathSuffix a)).set (.pathSuffix b) = r.set (.pathSuffix (a ++ b))) ∧
    (∀ done parts : List String,
      Path.join (done ++ parts) =
        parts.foldl (fun done part => Path.join [done, part]) (Path.join done)) ∧
    ∀ r : Request,
      r.path = if r.isBare then r.pathPrefix
        else r.pathParts.foldl (fun done part => Path.join [done, part]) "" := by
  refine ⟨?_, ?_, ?_, ?_⟩
  · intro a b h
    exact join_pair h a
  · intro r a b h
    exact ⟨accumulates_pathPrefix a b h r, accumulates_pathSuffix a b h r⟩
  · intro done parts
    rw [join_eq_foldl, join_eq_foldl, List.foldl_append]
  · intro r
    split
    · next hbare => exact if_pos hbare
    · next hbare => exact path_eq_foldl (by simpa using hbare)

/-- A prefix that steps up, given in two steps. -/
theorem groups_accumulate_stepping_up :
    ((new sampleClient .get).set (.pathPrefix ["..", "a"])).set (.pathPrefix ["..", "b/"]) =
      (new sampleClient .get).set (.pathPrefix ["..", "a", "..", "b/"]) :=
  (groups_accumulate.2.1 _ ["..", "a"] ["..", "b/"] (by decide)).1

/-- A second group that starts at the root stops there when it is joined for itself. -/
example : Path.join [Path.join ["a"], Path.join ["/.."]] = "a" ∧
    Path.join (["a"] ++ ["/.."]) = "." := by
  decide

end ApplianceRest.Request
