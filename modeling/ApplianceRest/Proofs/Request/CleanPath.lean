import ApplianceRest.Proofs.Host.Grammar
import ApplianceRest.Proofs.Path.Cleanness
import ApplianceRest.Proofs.Request.Accumulation

/-!
# Lexically clean paths of requests

The path of a request after a run is one join of fragments: those its prefix is made of (`Stem`), and
the parts behind the prefix. Whether it is lexically clean is therefore told by the fragments. There
is one exception. On a bare request, an absolute path may keep the slash at its end.

* `Setting.text_onStem`: a setting does to the prefix what it does to its fragments.
* `Holds.path_eq`: the path after a run, from the fragments of the run.
* `isLexicallyClean_path_iff`: after which runs the path is lexically clean.
-/

namespace ApplianceRest.Request

open Http (Method)
open ApplianceRest.Path (IsLexicallyClean LeadsDown names startsAtRoot)

/-! ## What a path prefix is made of -/

/-- What a path prefix is made of: the fragments that are joined, and perhaps a slash that is kept
behind them. -/
structure Stem where
  fragments : List String
  keepsSlash : Bool
  join_ne_empty : keepsSlash = true → Path.join fragments ≠ ""

namespace Stem

/-- The path prefix. -/
def text (stem : Stem) : String :=
  if stem.keepsSlash then Path.join stem.fragments ++ "/" else Path.join stem.fragments

/-- The path prefix of a request on which nothing has been set. -/
def start (client : Client) : Stem where
  fragments := ["/", client.host.path, client.apiPath]
  keepsSlash := false
  join_ne_empty := by
    intro h
    cases h

/-- Segments behind the path prefix. A slash that was kept is not kept any longer. -/
def extend (stem : Stem) (segments : List String) : Stem where
  fragments := stem.fragments ++ [Path.join segments]
  keepsSlash := false
  join_ne_empty := by
    intro h
    cases h

/-- Whether the slash at the end of an absolute path is kept. -/
def keepsSlashOf (client : Client) (segments : List String) : Bool :=
  match segments with
  | [segment] => 1 < client.host.path.toList.length ∧ segment.toList.getLast? = some '/'
  | _ => false

theorem keepsSlashOf_iff {client : Client} {segments : List String} :
    keepsSlashOf client segments = true ↔ ∃ segment, segments = [segment] ∧
      segment.toList.getLast? = some '/' ∧ 1 < client.host.path.toList.length := by
  unfold keepsSlashOf
  split
  · simp [and_comm]
  · next hmany =>
    refine iff_of_false Bool.false_ne_true ?_
    rintro ⟨segment, rfl, -⟩
    exact hmany segment rfl

/-- Segments behind the path of the host. -/
def absolute (client : Client) (segments : List String) : Stem where
  fragments := [client.host.path, Path.join segments]
  keepsSlash := keepsSlashOf client segments
  join_ne_empty := by
    intro hkeeps hempty
    obtain ⟨-, -, -, hlength⟩ := keepsSlashOf_iff.mp hkeeps
    have hpath := Path.join_eq_empty.mp hempty client.host.path (by simp)
    rw [hpath] at hlength
    cases hlength

/-- The path prefix may stand in front of other fragments as its own fragments do: a slash kept at
its end makes no difference there. -/
theorem join_text_cons (stem : Stem) (rest : List String) :
    Path.join (stem.text :: rest) = Path.join (stem.fragments ++ rest) := by
  unfold text
  split
  · next hkeeps =>
    rw [Path.join_append_slash (stem.join_ne_empty hkeeps), Path.join_join]
  · exact Path.join_join _ _

end Stem

/-- What the path prefix is made of after a setting. -/
def Setting.onStem (client : Client) (stem : Stem) : Setting → Stem
  | .pathPrefix segments => stem.extend segments
  | .absolutePath segments => .absolute client segments
  | _ => stem

/-- What the path prefix is made of after a run of settings. -/
def stemAfter (client : Client) (settings : List Setting) : Stem :=
  settings.foldl (Setting.onStem client) (.start client)

variable {client : Client} {settings : List Setting} {s : Setting} {r : Request}

theorem Stem.text_absolute (client : Client) (segments : List String) :
    (absolute client segments).text = absolutePath client segments := by
  unfold text absolute keepsSlashOf absolutePath
  split <;> simp

/-- A setting does to a path prefix what it does to the fragments that this is made of. -/
theorem Setting.text_onStem (stem : Stem) :
    (s.onStem client stem).text = s.onPrefix client stem.text := by
  cases s with
  | pathPrefix segments => exact (stem.join_text_cons [Path.join segments]).symm
  | absolutePath segments => exact Stem.text_absolute client segments
  | _ => rfl

theorem stemAfter_concat (before : List Setting) :
    stemAfter client (before ++ [s]) = s.onStem client (stemAfter client before) := by
  unfold stemAfter
  rw [List.foldl_concat]

theorem text_stemAfter : (stemAfter client settings).text = prefixAfter client settings := by
  induction settings using List.reverseRec with
  | nil => rfl
  | append_singleton before s ih =>
    rw [stemAfter_concat, Setting.text_onStem, ih, prefixAfter, prefixAfter, List.foldl_concat]

/-- The path of a host is empty, or starts at the root. -/
theorem isRooted_hostPath (h : client.host.path ≠ "") :
    Path.isRooted client.host.path.toList = true := by
  have hpath := (HostUrl.Parts.isValid_iff.mp client.host.isValid).path
  unfold HostUrl.path at h ⊢
  rw [Ne, ← String.toList_eq_nil_iff, String.toList_ofList] at h
  rw [String.toList_ofList, Path.isRooted, hpath.resolve_left h]
  rfl

/-- A path prefix starts at the root if the host has a path, or no absolute path has been set. -/
theorem startsAtRoot_stemAfter
    (h : client.host.path ≠ "" ∨ ∀ segments, .absolutePath segments ∉ settings) :
    startsAtRoot (stemAfter client settings).fragments = true := by
  induction settings using List.reverseRec with
  | nil =>
    show startsAtRoot ("/" :: _) = true
    rw [Path.startsAtRoot_cons]
    rfl
  | append_singleton before s ih =>
    have hbefore := ih (h.imp_right fun hnone segments hmem =>
      hnone segments (List.mem_append_left _ hmem))
    rw [stemAfter_concat]
    cases s with
    | pathPrefix segments => exact Path.startsAtRoot_append_left hbefore _
    | absolutePath segments =>
      rcases h with hpath | hnone
      · show startsAtRoot (client.host.path :: _) = true
        rw [Path.startsAtRoot_cons, if_neg hpath]
        exact isRooted_hostPath hpath
      · exact absurd (List.mem_append_right _ List.mem_cons_self) (hnone segments)
    | _ => exact hbefore

/-! ## Kept slashes -/

/-- Whether a run leaves a slash at the end of the path prefix: the last setting that is about the
prefix gives an absolute path by a single segment that ends in a slash, on a host with a path. -/
def KeepsSlash (client : Client) (settings : List Setting) : Prop :=
  ∃ before segment after, settings = before ++ .absolutePath [segment] :: after ∧
    (∀ s ∈ after, ∀ segments, s ≠ .pathPrefix segments ∧ s ≠ .absolutePath segments) ∧
    segment.toList.getLast? = some '/' ∧ 1 < client.host.path.toList.length

theorem keepsSlash_concat {before : List Setting} :
    KeepsSlash client (before ++ [s]) ↔
      (∃ segment, s = .absolutePath [segment] ∧ segment.toList.getLast? = some '/' ∧
        1 < client.host.path.toList.length) ∨
      ((∀ segments, s ≠ .pathPrefix segments ∧ s ≠ .absolutePath segments) ∧
        KeepsSlash client before) := by
  constructor
  · rintro ⟨front, segment, after, hsettings, hafter, hslash, hlength⟩
    rcases List.eq_nil_or_concat after with rfl | ⟨between, last, rfl⟩
    · obtain ⟨-, hs⟩ := List.append_inj' hsettings rfl
      exact Or.inl ⟨segment, List.singleton_inj.mp hs, hslash, hlength⟩
    · rw [List.concat_eq_append] at hsettings hafter
      rw [← List.cons_append, ← List.append_assoc] at hsettings
      obtain ⟨hbefore, hs⟩ := List.append_inj' hsettings rfl
      rw [List.forall_mem_append, List.forall_mem_singleton, ← List.singleton_inj.mp hs] at hafter
      exact Or.inr ⟨hafter.2, front, segment, between, hbefore, hafter.1, hslash, hlength⟩
  · rintro (⟨segment, rfl, hslash, hlength⟩ | ⟨hs, front, segment, after, rfl, hafter, hends⟩)
    · exact ⟨before, segment, [], rfl, by simp, hslash, hlength⟩
    · refine ⟨front, segment, after ++ [s], by simp, ?_, hends⟩
      rw [List.forall_mem_append, List.forall_mem_singleton]
      exact ⟨hafter, hs⟩

theorem keepsSlash_stemAfter :
    (stemAfter client settings).keepsSlash = true ↔ KeepsSlash client settings := by
  induction settings using List.reverseRec with
  | nil =>
    refine iff_of_false Bool.false_ne_true ?_
    rintro ⟨before, segment, after, hnil, -⟩
    simp at hnil
  | append_singleton before s ih =>
    rw [stemAfter_concat, keepsSlash_concat]
    cases s with
    | pathPrefix segments =>
      refine iff_of_false Bool.false_ne_true ?_
      rintro (⟨segment, hs, -⟩ | ⟨hs, -⟩)
      · cases hs
      · exact (hs segments).1 rfl
    | absolutePath segments =>
      show Stem.keepsSlashOf client segments = true ↔ _
      rw [Stem.keepsSlashOf_iff]
      constructor
      · rintro ⟨segment, rfl, hends⟩
        exact Or.inl ⟨segment, rfl, hends⟩
      · rintro (⟨segment, hs, hends⟩ | ⟨hs, -⟩)
        · exact ⟨segment, Setting.absolutePath.inj hs, hends⟩
        · exact absurd rfl (hs segments).2
    | _ =>
      -- no other setting is about the prefix
      show (stemAfter client before).keepsSlash = true ↔ _
      simp [ih]

/-! ## The path -/

/-- What the path of a request after a run is joined from. -/
def pathFragments (client : Client) (settings : List Setting) (r : Request) : List String :=
  (stemAfter client settings).fragments ++ if r.isBare then [] else r.pathParts.tail

/-- The path after a run is joined from its fragments, and on a bare request it has the slash behind
it that is kept. -/
theorem Holds.path_eq (h : Holds client settings r) :
    (r.isBare = true ∧ KeepsSlash client settings →
      r.path = Path.join (pathFragments client settings r) ++ "/") ∧
    (¬(r.isBare = true ∧ KeepsSlash client settings) →
      r.path = Path.join (pathFragments client settings r)) := by
  have hstem : r.pathPrefix = (stemAfter client settings).text :=
    h.pathPrefix.trans text_stemAfter.symm
  rw [← keepsSlash_stemAfter]
  unfold pathFragments
  cases hbare : r.isBare with
  | true =>
    have hpath : r.path = (stemAfter client settings).text := by
      rw [path, if_pos hbare, hstem]
    rw [hpath, Stem.text, if_pos rfl, List.append_nil]
    constructor
    · rintro ⟨-, hkeeps⟩
      rw [if_pos hkeeps]
    · intro hplain
      rw [if_neg fun hkeeps => hplain ⟨rfl, hkeeps⟩]
  | false =>
    have hpath : r.path = Path.join (r.pathPrefix :: r.pathParts.tail) := by
      rw [path, hbare]
      rfl
    rw [hpath, hstem, Stem.join_text_cons]
    constructor
    · rintro ⟨hno, -⟩
      cases hno
    · intro _
      rfl

/-- Where the path of a request is lexically clean. After a run without error it is exactly if the
fragments it is joined from start at the root, are all empty, or have names that lead down, and no
slash is kept behind the root. It ends in a slash only where it is the root, or where the slash of an
absolute path is kept. The fragments start at the root wherever the host has a path, and after every
run that sets no absolute path. -/
theorem isLexicallyClean_path_iff (client : Client) (method : Method) (settings : List Setting)
    (h : ((new client method).setAll settings).error = none) :
    let r := (new client method).setAll settings
    let fragments := pathFragments client settings r
    (IsLexicallyClean r.path ↔
      (startsAtRoot fragments = true ∨ (∀ f ∈ fragments, f = "") ∨
        LeadsDown (fragments.flatMap fun f => names f.toList)) ∧
      ¬(r.isBare = true ∧ KeepsSlash client settings ∧ Path.join fragments = "/")) ∧
    (r.path.toList.getLast? = some '/' ↔
      r.path = "/" ∨ r.isBare = true ∧ KeepsSlash client settings) ∧
    (client.host.path ≠ "" ∨ (∀ segments, .absolutePath segments ∉ settings) →
      startsAtRoot fragments = true) := by
  intro r fragments
  obtain ⟨hkept, hplain⟩ := (holds_setAll h).path_eq
  rw [← Path.isLexicallyClean_join]
  refine ⟨?_, ?_, ?_⟩
  · by_cases hslash : r.isBare = true ∧ KeepsSlash client settings
    · rw [hkept hslash, Path.isLexicallyClean_append_slash, ← and_assoc, and_iff_right hslash]
    · rw [hplain hslash, ← and_assoc]
      refine (and_iff_left ?_).symm
      rintro ⟨hkeeps, -⟩
      exact hslash hkeeps
  · by_cases hslash : r.isBare = true ∧ KeepsSlash client settings
    · rw [hkept hslash]
      refine iff_of_true ?_ (Or.inr hslash)
      rw [String.toList_append]
      exact List.getLast?_concat
    · rw [hplain hslash, Path.getLast_join, or_iff_left hslash]
  · intro hhost
    exact Path.startsAtRoot_append_left (startsAtRoot_stemAfter hhost) _

/-- The slash of an absolute path that is kept behind the path of a host. -/
theorem isLexicallyClean_keptSlash :
    IsLexicallyClean ((new sampleClient .get).setAll [.absolutePath ["mgmt/../x/"]]).path := by
  have hclean := (isLexicallyClean_path_iff sampleClient .get [.absolutePath ["mgmt/../x/"]]
    (by decide)).1
  rw [hclean]
  refine ⟨Or.inl (by decide), ?_⟩
  rintro ⟨-, -, hroot⟩
  revert hroot
  decide

/-- A client of a host without a path. -/
def rootClient : Client :=
  { sampleClient with
    host := {
      parts := ⟨"https".toList, "192.0.2.1".toList, ":8443".toList, []⟩
      isValid := by decide } }

/-- An absolute path may leave a step up, on a host without a path, or a slash behind the root. -/
theorem not_isLexicallyClean_absolutePath :
    let up := (new rootClient .get).setAll [.absolutePath [".."]]
    let root := (new sampleClient .get).setAll [.absolutePath ["../"]]
    up.error = none ∧ up.path = ".." ∧ ¬IsLexicallyClean up.path ∧
      root.error = none ∧ root.path = "//" ∧ ¬IsLexicallyClean root.path := by
  decide

end ApplianceRest.Request
