import ApplianceRest.Proofs.Resource.InstanceOperation

/-!
# Addressing one object

An operation that names an object addresses it exactly one level below its kind, or it is not sent
at all. The segment that names the object reads back as the full path, so an operation neither
reaches the kind as a whole nor another object.
-/

namespace ApplianceRest

open Percent (encodeChars keptInPath)

/-- A segment of an address that stands for a full path: read back, it is the cleaned path. -/
structure StandsFor (segment : List Char) (fullPath : String) : Prop where
  ne_nil : segment ≠ []
  no_slash : '/' ∉ segment
  reads : (Percent.decode? (.ofList segment)).map Path.decodeFullPath = some (Path.clean fullPath)

/-- What stands behind the segment of an object in the address of a place. -/
def Place.IsTail : Place → List Char → Prop
  | .object, tail => tail = []
  | .stats, tail => tail = "/stats".toList
  | .members, tail => tail = "/members".toList
  | .member name, tail => ∃ segment, StandsFor segment name ∧ tail = "/members/".toList ++ segment

theorem standsFor_encodeFullPath {fullPath : String} (h : Path.IsFullPath fullPath) :
    StandsFor (encodeChars keptInPath (Path.encodeFullPath [fullPath]).toList) fullPath := by
  obtain ⟨hne, hclear⟩ := Path.isClear_singleton.mpr h
  have hname := Path.isName_encodeFullPath hclear hne
  refine ⟨?_, Percent.slash_not_mem_encodeChars hname.2.2.2, ?_⟩
  · intro hnil
    have hempty : (Path.encodeFullPath [fullPath]).toList = [] :=
      Percent.encodeChars_inj Percent.isSafe_keptInPath hnil
    exact hname.1 hempty
  · rw [Percent.decode_encodeChars Percent.isSafe_keptInPath, String.ofList_toList, Option.map_some,
      Path.decodeFullPath_encodeFullPath h]

theorem Place.isTail_segments {p : Place} (h : p.IsNamed) :
    p.IsTail (p.segments.flatMap fun s => '/' :: encodeChars keptInPath s.toList) := by
  cases p with
  | object => exact rfl
  | stats =>
    show Place.stats.segments.flatMap _ = "/stats".toList
    decide
  | members =>
    show Place.members.segments.flatMap _ = "/members".toList
    decide
  | member name =>
    refine ⟨_, standsFor_encodeFullPath h, ?_⟩
    have hmembers : '/' :: encodeChars keptInPath Pool.membersSegment.toList ++ ['/'] =
        "/members/".toList := by decide
    rw [← hmembers]
    simp [Place.segments]

variable {α : Type}

/-- An operation that names an object by what is no full path, or a member by what is none, fails
and hands nothing over. Any other one hands over exactly one message, whose address is that of the
kind, one segment that stands for the full path, and what leads from the object to the place. This is
never the address of the kind itself; and it is that of another operation on the kind exactly if both
full paths have the same cleaned form and lead to the same place. -/
theorem addresses_one_level_below (client : Client) (op : InstanceOperation α) (line : Line) :
    (¬op.call.IsAddressed →
      ∃ reason, op.run client line = (.error (.exchange (.invalidRequest reason)), line)) ∧
    (op.call.IsAddressed →
      ∃ m segment tail,
        (op.run client line).2 = line.afterHanding m ∧
        (∀ reason, (op.run client line).1 ≠ .error (.exchange (.invalidRequest reason))) ∧
        m.method = op.call.method ∧
        m.target.toList.takeWhile (· ≠ '?') =
          (op.call.location.collectionRequest client op.call.method).address ++
            '/' :: segment ++ tail ∧
        StandsFor segment op.call.fullPath ∧
        op.call.place.IsTail tail ∧
        (∀ method, m.target ≠ (op.call.location.collectionRequest client method).url) ∧
        ∀ (β : Type) (other : InstanceOperation β), other.call.IsAddressed →
          other.call.location = op.call.location →
          (m.target = (other.call.request client).url ↔
            Path.clean op.call.fullPath = Path.clean other.call.fullPath ∧
              op.call.place.cleaned = other.call.place.cleaned)) := by
  refine ⟨fun h => InstanceOperation.run_of_not_isAddressed h line, ?_⟩
  intro h
  have haddress : ∀ method, (op.call.request client).address =
      (op.call.location.collectionRequest client method).address ++
        '/' :: encodeChars keptInPath (Path.encodeFullPath [op.call.fullPath]).toList ++
        op.call.place.segments.flatMap fun s => '/' :: encodeChars keptInPath s.toList := by
    intro method
    rw [op.call.address_request h method, List.flatMap_cons, List.append_assoc]
  refine ⟨(op.call.request client).message, _, _, InstanceOperation.run_snd h line,
    InstanceOperation.run_ne_invalidRequest h line, op.call.method_request client,
    haddress op.call.method, standsFor_encodeFullPath h.1, Place.isTail_segments h.2, ?_, ?_⟩
  · intro method hurl
    have hkind : (op.call.request client).address =
        (op.call.location.collectionRequest client method).address :=
      congrArg (fun url : String => url.toList.takeWhile (· ≠ '?')) hurl
    rw [haddress method, List.append_assoc, List.append_right_eq_self] at hkind
    cases hkind
  · intro β other hother hkind
    exact Call.url_request_inj hkind.symm h hother

end ApplianceRest
