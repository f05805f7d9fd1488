import ApplianceRest.Proofs.Percent.RoundTrip
import ApplianceRest.Proofs.Request.Written
import ApplianceRest.Request.Render

/-!
# Rendering the hierarchy

The address of a request that is in order shows the values of its settings and nothing else. Cleaning
the joined path has nothing to take away from what the request holds, and escaping is undone segment
by segment.

* `IsRendered.address_eq`: the address of a run, up to its query.
* `decode_address`: split and decoded, it is the hierarchy that the settings spell out.
-/

namespace ApplianceRest.Request

open Http (Method)
open Percent (encodeChars keptInPath)

/-- The elements of a text that lead anywhere, as texts. -/
def nameTexts (path : String) : List String := (Path.names path.toList).map .ofList

/-- All segments that a run of settings asks for, in the order of the hierarchy. -/
def hierarchy (client : Client) (settings : List Setting) : List String :=
  nameTexts (prefixAfter client settings) ++ written settings .category ++
    written settings .manager ++ written settings .resource ++
    written settings .resourceInstance ++ nameTexts (subPathAfter settings) ++
    written settings .subResource ++ written settings .subInstance ++
    written settings .statistics

/-- Whether a part of the path names an instance. -/
def Field.isInstance : Field → Bool
  | .resourceInstance => true
  | .subInstance => true
  | _ => false

/-- The address of a request without its query. -/
def address (r : Request) : List Char := r.url.toList.takeWhile (· ≠ '?')

variable {client : Client} {method : Method} {settings : List Setting} {s : Setting}
variable {r : Request} {field : Field}

/-! ## The path -/

theorem map_toList_nameTexts (path : String) :
    (nameTexts path).map String.toList = Path.names path.toList := by
  rw [nameTexts, List.map_map]
  have hid : (String.toList ∘ String.ofList) = id := funext fun cs => String.toList_ofList
  rw [hid, List.map_id]

namespace Holds

/-- A request with a name in it that is none of an instance is not bare. -/
theorem isBare_eq_false (h : Holds client settings r) (hs : s ∈ settings)
    (htarget : s.target = some field) (hfield : field.isInstance = false) :
    r.isBare = false := by
  have hset : (r.fields field).isNone = false := by
    cases hf : r.fields field with
    | none => exact absurd htarget (h.unset field hf s hs)
    | some text => rfl
  rw [isBare, decide_eq_false_iff_not]
  rintro ⟨-, hall⟩
  rw [List.all_eq_true] at hall
  have hmem : field ∈ [Field.category, .manager, .resource, .subResource, .statistics] := by
    cases field with
    | resourceInstance => cases hfield
    | subInstance => cases hfield
    | _ => decide
  have htrue := hall field hmem
  rw [hset] at htrue
  cases htrue

/-- The elements of the path of a run are its hierarchy. -/
theorem names_path (h : Holds client settings r) (hbare : r.isBare = false)
    (hup : Path.parent ∉ Path.elements (subPathAfter settings).toList) :
    Path.names r.path.toList = (hierarchy client settings).map String.toList := by
  have hsub : Path.names r.subPath.toList = (nameTexts (subPathAfter settings)).map String.toList := by
    rw [map_toList_nameTexts, h.subPath]
  have hbase : Path.names r.pathPrefix.toList =
      (nameTexts (prefixAfter client settings)).map String.toList := by
    rw [map_toList_nameTexts, h.pathPrefix]
  rw [path, if_neg (by simp [hbare]), Path.toList_join, List.map_cons,
    Path.names_joinChars h.settled]
  · simp only [List.map_cons, List.map_nil, List.flatMap_cons, List.flatMap_nil, hbase, hsub,
      h.names_field, hierarchy, List.map_append, List.append_nil, List.append_assoc]
  · intro f hf
    simp only [List.map_cons, List.map_nil, List.mem_cons, List.not_mem_nil, or_false] at hf
    rcases hf with rfl | rfl | rfl | rfl | rfl | rfl | rfl | rfl
    case inr.inr.inr.inr.inl =>
      rw [h.subPath]
      exact hup
    all_goals exact h.no_parent _

theorem hierarchy_ne_nil (h : Holds client settings r) (hs : s ∈ settings)
    (htarget : s.target = some field) : hierarchy client settings ≠ [] := by
  intro hnil
  apply h.written_ne_nil hs htarget
  simp only [hierarchy, List.append_eq_nil_iff] at hnil
  cases field <;> simp only [hnil]

end Holds

/-! ## The address -/

theorem question_not_mem_origin (host : HostUrl) : '?' ∉ host.origin.toList := by
  have hvalid := host.isValid
  simp only [HostUrl.Parts.isValid, Bool.and_eq_true, Bool.not_eq_true'] at hvalid
  have htext : '?' ∉ host.parts.text := by simpa using hvalid.1.2
  intro hmem
  apply htext
  rw [HostUrl.origin, String.toList_ofList] at hmem
  exact List.mem_append_left _ hmem

/-- What stands behind the path: a question mark and the query, or nothing. -/
def querySuffix (r : Request) : List Char :=
  (if r.query = "" then "" else "?" ++ r.query : String).toList

/-- The slash that a path needs in front, if it brings none along. -/
def frontSlash (path : String) : List Char :=
  (if path.toList.head? = some '/' then "" else "/" : String).toList

theorem toList_url_eq (r : Request) :
    r.url.toList = (r.client.host.origin.toList ++
      (frontSlash r.path ++ encodeChars keptInPath r.path.toList)) ++ r.querySuffix := by
  rw [url, frontSlash, querySuffix, ← Percent.toList_encode]
  simp only [String.toList_append, List.append_assoc]
  rfl

/-- The query starts at the first question mark of the address, as neither the host nor an escaped
path holds one. -/
theorem address_eq_path (r : Request) :
    r.address = r.client.host.origin.toList ++
      (frontSlash r.path ++ encodeChars keptInPath r.path.toList) := by
  have hquery : r.querySuffix.takeWhile (· ≠ '?') = [] := by
    rw [querySuffix]
    split
    · rfl
    · rw [String.toList_append]
      rfl
  have hslash : '?' ∉ frontSlash r.path := by
    rw [frontSlash]
    split <;> decide
  rw [address, toList_url_eq, List.takeWhile_append_of_pos, hquery, List.append_nil]
  intro c hc
  rw [decide_eq_true_eq]
  rintro rfl
  rcases List.mem_append.mp hc with hc | hc
  · exact question_not_mem_origin _ hc
  · rcases List.mem_append.mp hc with hc | hc
    · exact hslash hc
    · exact Percent.question_not_mem_encodeChars _ hc

theorem toList_url (r : Request) : r.url.toList = r.address ++ r.querySuffix := by
  rw [toList_url_eq, address_eq_path]

/-- The address of a request that is not bare is its path behind the origin, with one slash between
them whether or not the path brings its own. -/
theorem address_eq (hbare : r.isBare = false) (hnames : Path.names r.path.toList ≠ []) :
    r.address = r.client.host.origin.toList ++
      '/' :: encodeChars keptInPath (List.intercalate ['/'] (Path.names r.path.toList)) := by
  obtain ⟨p, hp⟩ : ∃ p, r.path.toList = Path.cleanChars p := by
    rw [path, if_neg (by simp [hbare]), Path.toList_join] at hnames ⊢
    rcases Path.joinChars_cases _ with ⟨_, hnil⟩ | ⟨_, hclean⟩
    · rw [hnil] at hnames
      exact absurd rfl hnames
    · exact ⟨_, hclean⟩
  have hchar : Percent.encodeChar keptInPath '/' = ['/'] := by decide
  have hfront := Path.slash_cleanChars (hp ▸ hnames)
  rw [← hp] at hfront
  have henc := congrArg (encodeChars keptInPath) hfront
  rw [Percent.encodeChars_append, Percent.encodeChars_cons, hchar, Path.isRooted] at henc
  rw [address_eq_path]
  refine congrArg (r.client.host.origin.toList ++ ·) (Eq.trans ?_ henc)
  rw [frontSlash]
  by_cases hhead : r.path.toList.head? = some '/'
  · rw [if_pos hhead, if_pos (by simpa using hhead)]
    rfl
  · rw [if_neg hhead, if_neg (by simpa using hhead), Percent.encodeChars_cons, hchar]
    rfl

theorem querySuffix_congr {r' : Request} (htimeout : r.timeout = r'.timeout)
    (hparameters : r.parameters = r'.parameters) : r.querySuffix = r'.querySuffix := by
  rw [querySuffix, querySuffix, query, query, sentParameters, sentParameters, htimeout,
    hparameters]

/-! ## Rendered runs -/

/-- A run whose address shows all of its hierarchy: it leaves no error, sets more than instances, and
its sub-path takes nothing back. -/
structure IsRendered (client : Client) (method : Method) (settings : List Setting) : Prop where
  accepted : ((new client method).setAll settings).error = none
  isNamed : ∃ s ∈ settings, ∃ field, s.target = some field ∧ field.isInstance = false
  noParent : Path.parent ∉ Path.elements (subPathAfter settings).toList

namespace IsRendered

theorem isBare_eq_false (h : IsRendered client method settings) :
    ((new client method).setAll settings).isBare = false := by
  obtain ⟨s, hs, field, htarget, hfield⟩ := h.isNamed
  exact (holds_setAll h.accepted).isBare_eq_false hs htarget hfield

theorem names_path (h : IsRendered client method settings) :
    Path.names ((new client method).setAll settings).path.toList =
      (hierarchy client settings).map String.toList :=
  (holds_setAll h.accepted).names_path h.isBare_eq_false h.noParent

theorem hierarchy_ne_nil (h : IsRendered client method settings) :
    (hierarchy client settings).map String.toList ≠ [] := by
  obtain ⟨s, hs, field, htarget, -⟩ := h.isNamed
  exact mt List.map_eq_nil_iff.mp ((holds_setAll h.accepted).hierarchy_ne_nil hs htarget)

theorem no_slash (h : IsRendered client method settings) :
    ∀ e ∈ (hierarchy client settings).map String.toList, '/' ∉ e := by
  intro e he
  rw [← h.names_path] at he
  exact Path.no_slash_of_mem_names he

/-- The address of a rendered run is its hierarchy, escaped. -/
theorem address_eq (h : IsRendered client method settings) :
    ((new client method).setAll settings).address = client.host.origin.toList ++
      '/' :: encodeChars keptInPath
        (List.intercalate ['/'] ((hierarchy client settings).map String.toList)) := by
  rw [Request.address_eq h.isBare_eq_false, h.names_path, (holds_setAll h.accepted).client]
  rw [h.names_path]
  exact h.hierarchy_ne_nil

/-- Rendered runs of a client that share an address share their hierarchy. -/
theorem hierarchy_inj {method' : Method} {settings' : List Setting}
    (h : IsRendered client method settings) (h' : IsRendered client method' settings')
    (heq : ((new client method).setAll settings).address =
      ((new client method').setAll settings').address) :
    hierarchy client settings = hierarchy client settings' := by
  rw [h.address_eq, h'.address_eq, List.append_cancel_left_eq, List.cons.injEq] at heq
  have hmap := Percent.segments_inj h.hierarchy_ne_nil h'.hierarchy_ne_nil h.no_slash h'.no_slash
    heq.2
  exact List.map_injective_iff.mpr (fun _ _ => String.toList_inj.mp) hmap

end IsRendered

/-- Escaped segments are decoded one by one. -/
theorem mapM_decode (segments : List (List Char)) :
    (segments.map (encodeChars keptInPath)).mapM (fun e => Percent.decode? (.ofList e)) =
      some (segments.map .ofList) := by
  induction segments with
  | nil => rfl
  | cons e rest ih =>
    rw [List.map_cons, List.mapM_cons, ih,
      Percent.decode_encodeChars Percent.isSafe_keptInPath e]
    rfl

/-- Rendering the hierarchy loses nothing. In the address of a run that left no error and set more
than instances, and whose sub-path holds no `..`, the text before the query is the origin of the
host, a slash, and a text that reads back as the hierarchy: split at its slashes and decoded segment
by segment, it is all that the settings ask for, and in order. -/
theorem decode_address (client : Client) (method : Method) (settings : List Setting)
    (hend : ((new client method).setAll settings).error = none)
    (hset : ∃ s ∈ settings, ∃ field, s.target = some field ∧ field.isInstance = false)
    (hup : Path.parent ∉ Path.elements (subPathAfter settings).toList) :
    ∃ rest, ((new client method).setAll settings).address =
        client.host.origin.toList ++ '/' :: rest ∧
      (rest.splitOn '/').mapM (fun e => Percent.decode? (.ofList e)) =
        some (hierarchy client settings) := by
  have h : IsRendered client method settings := ⟨hend, hset, hup⟩
  refine ⟨_, h.address_eq, ?_⟩
  have hid : (String.ofList ∘ String.toList) = id := funext fun text => String.ofList_toList
  rw [Percent.splitOn_encodeChars h.hierarchy_ne_nil h.no_slash, mapM_decode, List.map_map, hid,
    List.map_id]

/-- A client of a host under a documentation address, with a path of its own. -/
def sampleClient : Client where
  host := {
    parts := ⟨"https".toList, "192.0.2.1".toList, ":8443".toList, "/f5".toList⟩
    isValid := by decide }
  apiPath := "api"
  headers := ⟨[]⟩
  contentType := none
  timeout := none

/-- Settings out of order, with blanks, question marks and percent signs among the names. -/
def sampleRun : List Setting :=
  [.subInstance ["/Common/a?b", "c d"], .category "t m", .pathPrefix [".", "100%//"],
    .statistics ["", "stats"], .pathSuffix ["x#y"], .manager "é"]

theorem decode_address_sampleRun :
    ∃ rest, ((new sampleClient .get).setAll sampleRun).address =
        "https://192.0.2.1:8443".toList ++ '/' :: rest ∧
      (rest.splitOn '/').mapM (fun e => Percent.decode? (.ofList e)) =
        some ["f5", "api", "100%", "t m", "é", "x#y", "~Common~a?b~c d", "stats"] :=
  decode_address sampleClient .get sampleRun (by decide)
    ⟨.manager "é", by simp [sampleRun], .manager, rfl, rfl⟩ (by decide)

end ApplianceRest.Request
