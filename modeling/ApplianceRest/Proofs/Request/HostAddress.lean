import ApplianceRest.Proofs.Request.CleanPath
import ApplianceRest.Proofs.Request.Frozen

/-!
# The address of the host in the address of a request

The path of the host is the start of every path, and a path is escaped as a whole when it is shown.
An escape that the address of the host holds already is thereby escaped once more: its percent sign
is shown as `%25`. Nothing else happens to the address of the host. It stands in front of the
address of every request on which nothing but parts of the path has been set.

* `OnlyParts`: what such a request is like, which every setting for a part preserves.
* `Path.prefix_join`: a clean path stays in front of what is joined behind it.
* `url_shows_host`: how the address of the host is shown, and when it is shown as it is.
-/

namespace ApplianceRest

namespace HostUrl

/-- The marks that may stand in the path of an address for themselves. -/
def pathMarks : List Char :=
  ['-', '.', '_', '~', '!', '$', '&', '\x27', '(', ')', '*', '+', ',', ';', '=', ':', '@', '/']

/-- Whether a character may stand in the path of an address for itself. -/
def isPathChar (c : Char) : Bool := c.isAlphanum || pathMarks.contains c

/-- Whether a text may be the path of an address: characters that stand for themselves, and escapes
of two hexadecimal digits. -/
def isEscapedPath : List Char → Bool
  | [] => true
  | '%' :: h :: l :: rest =>
    (Percent.hexValue? h).isSome && (Percent.hexValue? l).isSome && isEscapedPath rest
  | c :: rest => isPathChar c && isEscapedPath rest

/-- Whether a host has a path of its own that is clean and may stand in an address as it is. -/
structure HasCleanPath (host : HostUrl) : Prop where
  ne_empty : host.path ≠ ""
  ne_root : host.path ≠ "/"
  isClean : Path.clean host.path = host.path
  isEscaped : isEscapedPath host.path.toList = true

/-- The address of a host with every percent sign of its path escaped. -/
def escapedText (host : HostUrl) : List Char :=
  host.origin.toList ++ host.path.toList.flatMap fun c => if c = '%' then ['%', '2', '5'] else [c]

theorem text_eq (host : HostUrl) : host.text.toList = host.origin.toList ++ host.path.toList := by
  unfold text origin path Parts.text
  rw [String.toList_ofList, String.toList_ofList, String.toList_ofList]

/-- Escaping percent signs makes a text longer by two characters for each. -/
theorem length_escaped (cs : List Char) :
    (cs.flatMap fun c => if c = '%' then ['%', '2', '5'] else [c]).length =
      cs.length + 2 * cs.count '%' := by
  induction cs with
  | nil => rfl
  | cons c cs ih =>
    rw [List.flatMap_cons, List.length_append, ih, List.count_cons, List.length_cons]
    by_cases hc : c = '%'
    · simp [hc]
      omega
    · simp [hc]
      omega

/-- A host shows its own text exactly if its path holds no percent sign. -/
theorem escapedText_eq_iff {host : HostUrl} :
    host.escapedText = host.text.toList ↔ '%' ∉ host.path.toList := by
  unfold escapedText
  rw [text_eq, List.append_cancel_left_eq]
  constructor
  · intro heq
    have hlength := congrArg List.length heq
    rw [length_escaped] at hlength
    have hcount : host.path.toList.count '%' = 0 := by omega
    exact List.count_eq_zero.mp hcount
  · intro hno
    generalize host.path.toList = cs at hno
    induction cs with
    | nil => rfl
    | cons c cs ih =>
      rw [List.mem_cons, not_or] at hno
      rw [List.flatMap_cons, if_neg (Ne.symm hno.1), ih hno.2]
      rfl

end HostUrl

/-! ## Characters of a path -/

namespace Percent

theorem isAlphanum_iff {c : Char} : c.isAlphanum = true ↔
    ('A' ≤ c ∧ c ≤ 'Z') ∨ ('a' ≤ c ∧ c ≤ 'z') ∨ c.isDigit = true := by
  change ((decide ('A' ≤ c ∧ c ≤ 'Z') || decide ('a' ≤ c) && decide (c ≤ 'z')) || c.isDigit) =
    true ↔ _
  simp only [Bool.or_eq_true, Bool.and_eq_true, decide_eq_true_eq, or_assoc]

theorem isAlphanum_of_hexValue {c : Char} (h : (hexValue? c).isSome = true) :
    c.isAlphanum = true := by
  unfold hexValue? at h
  rw [isAlphanum_iff]
  split at h
  · next hdigit => exact Or.inr (Or.inr hdigit)
  · split at h
    · next hupper => exact Or.inl ⟨hupper.1, Char.le_trans hupper.2 (by decide)⟩
    · split at h
      · next hlower => exact Or.inr (Or.inl ⟨hlower.1, Char.le_trans hlower.2 (by decide)⟩)
      · cases h

theorem toNat_lt_of_isAlphanum {c : Char} (h : c.isAlphanum = true) : c.toNat < 128 := by
  have hbelow : ∀ {d : Char}, c ≤ d → c.toNat ≤ d.toNat := UInt32.le_iff_toNat_le.mp
  rcases isAlphanum_iff.mp h with ⟨-, hle⟩ | ⟨-, hle⟩ | hdigit
  · exact Nat.lt_of_le_of_lt (hbelow hle) (by decide)
  · exact Nat.lt_of_le_of_lt (hbelow hle) (by decide)
  · unfold Char.isDigit at hdigit
    rw [Bool.and_eq_true, decide_eq_true_eq, decide_eq_true_eq] at hdigit
    exact Nat.lt_of_le_of_lt (hbelow hdigit.2) (by decide)

/-- Letters and digits stay as they are. -/
theorem encodeChar_of_isAlphanum {c : Char} (h : c.isAlphanum = true) :
    encodeChar keptInPath c = [c] := by
  have hall : ∀ n < 128, (Char.ofNat n).isAlphanum = true →
      encodeChar keptInPath (Char.ofNat n) = [Char.ofNat n] := by decide +kernel
  have hlt := toNat_lt_of_isAlphanum h
  rw [← Char.ofNat_toNat c] at h ⊢
  exact hall c.toNat hlt h

end Percent

namespace HostUrl

theorem encodeChar_of_isPathChar {c : Char} (h : isPathChar c = true) :
    Percent.encodeChar Percent.keptInPath c = [c] := by
  unfold isPathChar at h
  rw [Bool.or_eq_true, List.contains_iff_mem] at h
  rcases h with halnum | hmark
  · exact Percent.encodeChar_of_isAlphanum halnum
  · have hall : (pathMarks.all fun d => Percent.encodeChar Percent.keptInPath d = [d]) = true := by
      decide
    exact of_decide_eq_true (List.all_eq_true.mp hall c hmark)

/-- The characters of the path of an address are percent signs and those that stand for
themselves. -/
theorem isPathChar_of_mem {cs : List Char} (h : isEscapedPath cs = true) {c : Char} (hc : c ∈ cs) :
    c = '%' ∨ isPathChar c = true := by
  have hdigit : ∀ d, (Percent.hexValue? d).isSome = true → isPathChar d = true := by
    intro d hd
    rw [isPathChar, Percent.isAlphanum_of_hexValue hd, Bool.true_or]
  induction cs using isEscapedPath.induct with
  | case1 => cases hc
  | case2 high low rest ih =>
    rw [isEscapedPath, Bool.and_eq_true, Bool.and_eq_true] at h
    rcases h with ⟨⟨hhigh, hlow⟩, hrest⟩
    rcases List.mem_cons.mp hc with rfl | hc
    · exact Or.inl rfl
    · rcases List.mem_cons.mp hc with rfl | hc
      · exact Or.inr (hdigit c hhigh)
      · rcases List.mem_cons.mp hc with rfl | hc
        · exact Or.inr (hdigit c hlow)
        · exact ih hrest hc
  | case3 first rest hnot ih =>
    rw [isEscapedPath, Bool.and_eq_true] at h
    · rcases List.mem_cons.mp hc with rfl | hc
      · exact Or.inr h.1
      · exact ih h.2 hc
    · exact hnot

/-- Escaping the path of an address escapes its percent signs. -/
theorem encodeChars_of_isEscapedPath {cs : List Char} (h : isEscapedPath cs = true) :
    Percent.encodeChars Percent.keptInPath cs =
      cs.flatMap fun c => if c = '%' then ['%', '2', '5'] else [c] := by
  apply List.flatMap_congr
  intro c hc
  split
  · next hpercent =>
    rw [hpercent]
    decide
  · next hno => exact encodeChar_of_isPathChar ((isPathChar_of_mem h hc).resolve_left hno)

end HostUrl

/-! ## Paths behind a clean path -/

namespace Path

variable {p : String} {rest : List String}

/-- A clean path from the root that names anything stays in front of what is joined behind it, if
nothing of this steps up. -/
theorem prefix_join (hclean : clean p = p) (hroot : isRooted p.toList = true) (hp : p ≠ "/")
    (hrest : ∀ part ∈ rest, parent ∉ elements part.toList) :
    p.toList <+: (join (p :: rest)).toList := by
  have hchars : cleanChars p.toList = p.toList := by
    rw [← toList_clean, hclean]
  have hne : p.toList ≠ [] := by
    intro hnil
    rw [hnil] at hroot
    cases hroot
  have hnames : names p.toList ≠ [] := by
    intro hnil
    rw [← hchars, names_cleanChars] at hnil
    rw [cleanChars, if_neg hne, hnil, hroot] at hchars
    exact hp (String.toList_inj.mp hchars.symm)
  -- the path is its names behind a slash
  have hsettled : IsSettled p.toList := hchars ▸ isSettled_cleanChars p.toList
  have htext : p.toList = '/' :: List.intercalate ['/'] (names p.toList) := by
    have heq := cleanChars_eq (p := p.toList) (by rw [hchars]; exact hnames)
    rw [hchars, hroot] at heq
    exact heq
  have hjoined : names (joinChars (p.toList :: rest.map String.toList)) =
      names p.toList ++ (rest.map String.toList).flatMap names := by
    refine names_joinChars hsettled ?_
    intro f hf
    rcases List.mem_map.mp hf with ⟨part, hpart, rfl⟩
    exact hrest part hpart
  rw [toList_join, List.map_cons]
  rcases joinChars_cases (p.toList :: rest.map String.toList) with ⟨hall, -⟩ | ⟨-, hcleaned⟩
  · exact absurd (hall p.toList List.mem_cons_self) hne
  · have hjoinedRoot : isRooted (List.intercalate ['/']
        ((p.toList :: rest.map String.toList).filter (· ≠ []))) = true := by
      rw [List.filter_cons_of_pos (by simpa using hne), isRooted_intercalate hne, hroot]
    rw [hcleaned] at hjoined ⊢
    have hmore := cleanChars_eq (p := List.intercalate ['/']
      ((p.toList :: rest.map String.toList).filter (· ≠ [])))
      (by rw [hjoined]; exact List.append_ne_nil_of_left_ne_nil hnames _)
    rw [hmore, hjoinedRoot, hjoined, intercalate_append hnames, if_pos rfl, ← List.append_assoc]
    exact ⟨_, congrArg (· ++ _) htext⟩

/-- What a clean path is joined from with the root in front and nothing behind. -/
theorem join_root (hclean : clean p = p) (hroot : isRooted p.toList = true) :
    join ["/", p, ""] = p := by
  rcases List.head?_eq_some_iff.mp (beq_iff_eq.mp hroot) with ⟨q, hq⟩
  have htext : together [['/'], p.toList, []] = [] ++ '/' :: ([] ++ '/' :: ([] ++ '/' :: q)) := by
    rw [hq]
    rfl
  rw [← String.toList_inj, toList_join]
  show joinChars [['/'], p.toList, []] = p.toList
  rw [joinChars_eq, htext, settle_of_ne (by simp), cleanChars_insert rfl, cleanChars_insert rfl]
  show cleanChars ('/' :: q) = p.toList
  rw [← hq, ← toList_clean, hclean]

end Path

namespace Request

open Http (Method)
open Percent (encodeChars keptInPath)

variable {client : Client} {method : Method} {settings : List Setting} {s : Setting} {r : Request}

/-! ## Requests on which only parts of the path are set -/

/-- A request on which nothing but parts of the path has been set, with or without success. -/
structure OnlyParts (client : Client) (r : Request) : Prop where
  pathPrefix : r.pathPrefix = client.pathPrefix
  subPath : r.subPath = ""
  timeout : r.timeout = client.timeout.getD .zero
  parameters : r.parameters = .empty
  client : r.client = client
  parts : ∀ f text, r.fields f = some text → Path.parent ∉ Path.elements text.toList

theorem onlyParts_new (client : Client) (method : Method) :
    OnlyParts client (new client method) := by
  refine ⟨rfl, rfl, rfl, rfl, rfl, ?_⟩
  intro f text h
  cases h

theorem OnlyParts.set (h : OnlyParts client r) (hs : s.target ≠ none) :
    OnlyParts client (r.set s) := by
  rcases Option.ne_none_iff_exists'.mp hs with ⟨field, htarget⟩
  rcases Setting.target_eq_some.mp htarget with ⟨v, hw⟩
  cases hr : r.error with
  | some reason =>
    rw [set_of_error hr]
    exact ⟨h.pathPrefix, h.subPath, h.timeout, h.parameters, h.client, h.parts⟩
  | none =>
    cases ha : r.apply s with
    | error reason =>
      rw [set_of_apply_error hr ha]
      exact ⟨h.pathPrefix, h.subPath, h.timeout, h.parameters, h.client, h.parts⟩
    | ok r' =>
      -- an accepted setting writes a legal value and nothing else
      rcases place_eq_ok.mp ((apply_of_writes hw).mp ha) with ⟨-, hlegal, rfl⟩
      rw [set_of_apply_ok hr ha]
      refine ⟨h.pathPrefix, h.subPath, h.timeout, h.parameters, h.client, ?_⟩
      intro f text hf
      by_cases hfield : f = field
      · have hwritten : some v.text = some text := (if_pos hfield).symm.trans hf
        rw [Option.some.injEq] at hwritten
        rw [← hwritten]
        exact Value.parent_not_mem_text hlegal
      · exact h.parts f text ((if_neg hfield).symm.trans hf)

theorem OnlyParts.setAll (h : OnlyParts client r) (hs : ∀ s ∈ settings, s.target ≠ none) :
    OnlyParts client (r.setAll settings) := by
  induction settings generalizing r with
  | nil => exact h
  | cons s rest ih =>
    rw [List.forall_mem_cons] at hs
    exact ih (h.set hs.1) hs.2

/-! ## Addresses -/

/-- Without an interface path, the path of a host is where every path starts. -/
theorem pathPrefix_eq_hostPath (h : client.host.HasCleanPath) (hapi : client.apiPath = "") :
    client.pathPrefix = client.host.path := by
  unfold Client.pathPrefix
  rw [hapi]
  exact Path.join_root h.isClean (isRooted_hostPath h.ne_empty)

/-- The path of the host stands in front of the path. -/
theorem OnlyParts.prefix_path (h : OnlyParts client r) (hpath : client.host.HasCleanPath)
    (hapi : client.apiPath = "") : client.host.path.toList <+: r.path.toList := by
  have hbase : r.pathPrefix = client.host.path :=
    h.pathPrefix.trans (pathPrefix_eq_hostPath hpath hapi)
  unfold path
  split
  · rw [hbase]
  · have hpart : ∀ f, Path.parent ∉ Path.elements ((r.fields f).getD "").toList := by
      intro f
      cases hf : r.fields f with
      | none => decide
      | some text => exact h.parts f text hf
    rw [hbase, h.subPath]
    refine Path.prefix_join hpath.isClean (isRooted_hostPath hpath.ne_empty) hpath.ne_root ?_
    have hempty : Path.parent ∉ Path.elements "".toList := by decide
    simp only [List.forall_mem_cons, hpart, hempty, not_false_eq_true, true_and]
    exact List.forall_mem_nil _

/-- Without a deadline and parameters there is nothing behind the path. -/
theorem OnlyParts.querySuffix_eq (h : OnlyParts client r) (htimeout : client.timeout = none) :
    r.querySuffix = [] := by
  have hzero : r.timeout = .zero := by rw [h.timeout, htimeout, Option.getD_none]
  have hquery : r.query = "" := by
    unfold query sentParameters
    rw [hzero, h.parameters]
    decide
  unfold querySuffix
  rw [if_pos hquery]
  rfl

/-- The address of a request on which only parts of the path are set: the origin of the host, and
the path, escaped. -/
theorem OnlyParts.url_eq (h : OnlyParts client r) (hpath : client.host.HasCleanPath)
    (hapi : client.apiPath = "") (htimeout : client.timeout = none) :
    r.url.toList = client.host.origin.toList ++ encodeChars keptInPath r.path.toList := by
  -- the path starts at the root, as that of the host does
  have hrooted : r.path.toList.head? = some '/' := by
    rcases h.prefix_path hpath hapi with ⟨rest, hrest⟩
    have hhost := isRooted_hostPath hpath.ne_empty
    have hne : client.host.path.toList ≠ [] := Path.toList_ne_nil hpath.ne_empty
    rw [← hrest, List.head?_append_of_ne_nil _ hne]
    exact beq_iff_eq.mp hhost
  have hslash : frontSlash r.path = [] := by
    unfold frontSlash
    rw [if_pos hrooted]
    rfl
  rw [toList_url_eq, h.querySuffix_eq htimeout, hslash, h.client, List.append_nil, List.nil_append]

/-- Let the path of a host be clean, not the root, and made of characters that may stand in an
address and of escapes. For a client of this host, with neither an interface path nor a deadline,
the address of a request on which nothing has been set is that of the host with every percent sign
of the path escaped once more, and it stands in front of the address of every request on which only
parts of the path have been set, with or without success. So the address of the host is used as it
is exactly if its path holds no escapes. -/
theorem url_shows_host (client : Client) (method : Method) (hpath : client.host.HasCleanPath)
    (hapi : client.apiPath = "") (htimeout : client.timeout = none) :
    (new client method).url.toList = client.host.escapedText ∧
      (∀ settings : List Setting, (∀ s ∈ settings, s.target ≠ none) →
        client.host.escapedText <+: ((new client method).setAll settings).url.toList) ∧
      (((new client method).url = client.host.text ∧
          ∀ settings : List Setting, (∀ s ∈ settings, s.target ≠ none) →
            client.host.text.toList <+: ((new client method).setAll settings).url.toList) ↔
        '%' ∉ client.host.path.toList) := by
  have hfresh : (new client method).url.toList = client.host.escapedText := by
    rw [(onlyParts_new client method).url_eq hpath hapi htimeout]
    unfold HostUrl.escapedText
    rw [← HostUrl.encodeChars_of_isEscapedPath hpath.isEscaped]
    show _ ++ encodeChars keptInPath client.pathPrefix.toList = _
    rw [pathPrefix_eq_hostPath hpath hapi]
  have hruns : ∀ settings : List Setting, (∀ s ∈ settings, s.target ≠ none) →
      client.host.escapedText <+: ((new client method).setAll settings).url.toList := by
    intro settings hs
    have h := (onlyParts_new client method).setAll hs
    rcases h.prefix_path hpath hapi with ⟨rest, hrest⟩
    rw [h.url_eq hpath hapi htimeout, ← hrest, Percent.encodeChars_append,
      HostUrl.encodeChars_of_isEscapedPath hpath.isEscaped, ← List.append_assoc]
    exact List.prefix_append _ _
  refine ⟨hfresh, hruns, ?_⟩
  rw [← HostUrl.escapedText_eq_iff]
  constructor
  · rintro ⟨htext, -⟩
    rw [← hfresh, htext]
  · intro htext
    rw [← htext, ← String.toList_inj, hfresh]
    exact ⟨htext, hruns⟩

/-- A client of a host whose path is given. -/
def clientBehind (path : List Char) (hvalid : HostUrl.Parts.isValid
    ⟨"https".toList, "192.0.2.1".toList, [], path⟩ = true) : Client where
  host := ⟨⟨"https".toList, "192.0.2.1".toList, [], path⟩, hvalid⟩
  apiPath := ""
  headers := ⟨[]⟩
  contentType := none
  timeout := none

/-- A path without escapes shows as it is, in front of a category and a manager. -/
theorem url_shows_host_plain :
    let client := clientBehind "/f5/a:b@c".toList (by decide)
    (new client .get).url = client.host.text ∧
      client.host.text.toList <+:
        ((new client .get).setAll [.category "tm", .manager "l/m", .manager "ltm"]).url.toList := by
  intro client
  have hpath : client.host.HasCleanPath := ⟨by decide, by decide, by decide, by decide⟩
  have hshown := (url_shows_host client .get hpath rfl rfl).2.2.mpr (by decide)
  refine ⟨hshown.1, hshown.2 _ ?_⟩
  intro s hs
  simp only [List.mem_cons, List.not_mem_nil, or_false] at hs
  rcases hs with rfl | rfl | rfl <;> exact Option.some_ne_none _

/-- An escape in the path of a host is escaped once more. -/
theorem url_escapes_host_again :
    let client := clientBehind "/%41".toList (by decide)
    client.host.HasCleanPath ∧ (new client .get).url = "https://192.0.2.1/%2541" ∧
      (new client .get).url ≠ client.host.text ∧
      ¬client.host.text.toList <+: ((new client .get).setAll [.category "tm"]).url.toList := by
  intro client
  refine ⟨⟨by decide, by decide, by decide, by decide⟩, by decide, by decide, by decide⟩

end Request

end ApplianceRest
