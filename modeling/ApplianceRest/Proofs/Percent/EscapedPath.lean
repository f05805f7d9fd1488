import ApplianceRest.Proofs.Path.Cleaning
import ApplianceRest.Proofs.Percent.RoundTrip

/-!
# Escaped paths

A path is escaped for an address, where only some printable characters may stand, and nothing of it
is lost there: not which segments it has, and not whether it looked like an escaped text before.

* `IsWellEscaped`: every percent sign starts an escape, which is so exactly for the texts that can
  be decoded (`isSome_decodeBytes_iff`).
* `elements_encodeChars`: a path is escaped segment by segment.
* `IsEscapeOf`: what an escaped path is to the path it stands for. It stands for one path only
  (`IsEscapeOf.unique`).
* `path_reads_back`: this is what escaping a path brings about.
-/

namespace ApplianceRest.Percent

variable {kept : UInt8 → Bool} {c high low : Char} {cs : List Char}

/-! ## Well-formed escapes -/

/-- Whether every percent sign of a text stands in front of two hexadecimal digits. -/
def IsWellEscaped (cs : List Char) : Prop :=
  ∀ rest, '%' :: rest <:+ cs →
    ∃ high low behind, rest = high :: low :: behind ∧
      (hexValue? high).isSome = true ∧ (hexValue? low).isSome = true

theorem isWellEscaped_nil : IsWellEscaped [] := by
  intro rest h
  cases List.suffix_nil.mp h

theorem isWellEscaped_cons (hc : c ≠ '%') : IsWellEscaped (c :: cs) ↔ IsWellEscaped cs := by
  constructor
  · intro h rest hrest
    exact h rest (hrest.trans (List.suffix_cons c cs))
  · intro h rest hrest
    rcases List.suffix_cons_iff.mp hrest with heq | hrest
    · exact absurd (List.cons.inj heq).1.symm hc
    · exact h rest hrest

theorem ne_percent_of_hexValue (h : (hexValue? c).isSome = true) : c ≠ '%' := by
  rintro rfl
  revert h
  decide

theorem isWellEscaped_escape :
    IsWellEscaped ('%' :: high :: low :: cs) ↔
      (hexValue? high).isSome = true ∧ (hexValue? low).isSome = true ∧ IsWellEscaped cs := by
  constructor
  · intro h
    rcases h _ List.suffix_rfl with ⟨_, _, _, heq, hhigh, hlow⟩
    cases heq
    refine ⟨hhigh, hlow, ?_⟩
    intro rest hrest
    exact h rest (hrest.trans ⟨['%', high, low], rfl⟩)
  · rintro ⟨hhigh, hlow, h⟩ rest hrest
    rcases List.suffix_cons_iff.mp hrest with heq | hrest
    · cases heq
      exact ⟨high, low, cs, rfl, hhigh, hlow⟩
    · -- neither digit is a percent sign, so any other one stands behind them
      rw [← isWellEscaped_cons (ne_percent_of_hexValue hlow),
        ← isWellEscaped_cons (ne_percent_of_hexValue hhigh)] at h
      exact h rest hrest

theorem isSome_decodeBytes_escape :
    (decodeBytes? ('%' :: high :: low :: cs)).isSome = true ↔
      (hexValue? high).isSome = true ∧ (hexValue? low).isSome = true ∧
        (decodeBytes? cs).isSome = true := by
  rw [decodeBytes?]
  cases hexValue? high <;> cases hexValue? low <;> cases decodeBytes? cs <;> simp

/-- The bytes of a text can be read exactly if its escapes are well formed. -/
theorem isSome_decodeBytes_iff : (decodeBytes? cs).isSome = true ↔ IsWellEscaped cs := by
  induction cs using decodeBytes?.induct with
  | case1 => exact iff_of_true rfl isWellEscaped_nil
  | case2 high low rest ih => rw [isSome_decodeBytes_escape, isWellEscaped_escape, ih]
  | case3 rest hshort =>
    -- a percent sign with less than two characters behind it
    have hnone : decodeBytes? ('%' :: rest) = none := by
      rw [decodeBytes?, if_pos rfl]
      intro high low behind _ heq
      exact hshort high low behind rfl heq
    rw [hnone]
    refine iff_of_false Bool.false_ne_true ?_
    intro h
    rcases h rest List.suffix_rfl with ⟨high, low, behind, heq, -⟩
    exact hshort high low behind rfl heq
  | case4 c rest _ hc ih => rw [decodeBytes_cons hc, Option.isSome_map, isWellEscaped_cons hc, ih]

/-- Escaping brings in well-formed escapes only, and leaves no other percent sign. -/
theorem isWellEscaped_encodeChars (hsafe : IsSafe kept) (cs : List Char) :
    IsWellEscaped (encodeChars kept cs) := by
  have hread : decode? (.ofList (encodeChars kept cs)) = some (.ofList cs) :=
    decode_encodeChars hsafe cs
  rw [decode?, String.toList_ofList, Option.bind_eq_some_iff] at hread
  rcases hread with ⟨bytes, hbytes, -⟩
  exact isSome_decodeBytes_iff.mp (Option.isSome_of_eq_some hbytes)

/-! ## Segments -/

/-- Whether a path is escaped first and then taken apart, or the other way around, gives the same
segments: whatever the path is, an escape neither makes nor hides a slash. -/
theorem elements_encodeChars (cs : List Char) :
    Path.elements (encodeChars keptInPath cs) =
      (Path.elements cs).map (encodeChars keptInPath) := by
  have hno : ∀ segment ∈ Path.elements cs, '/' ∉ segment := by
    intro segment hsegment
    exact Path.no_slash_of_mem_elements hsegment
  have hsplit := splitOn_encodeChars (List.splitOn_ne_nil '/' cs) hno
  rw [List.intercalate_splitOn] at hsplit
  exact hsplit

theorem count_slash_encodeChars (cs : List Char) :
    (encodeChars keptInPath cs).count '/' = cs.count '/' := by
  induction cs with
  | nil => rfl
  | cons c cs ih =>
    rw [encodeChars_cons, List.count_append, ih, List.count_cons, Nat.add_comm]
    by_cases hc : c = '/'
    · rw [hc]
      rfl
    · have hno : '/' ∉ encodeChar keptInPath c := by
        intro hslash
        exact hc (eq_slash_of_mem_encodeChar hslash)
      rw [List.count_eq_zero.mpr hno, if_neg (by simpa using hc)]

/-! ## The escaped path -/

theorem toList_path (text : String) : (path text).toList = encodeChars keptInPath text.toList :=
  toList_encode keptInPath text

theorem decode_path (text : String) : decode? (path text) = some text := by
  rw [← String.ofList_toList (s := path text), toList_path,
    decode_encodeChars isSafe_keptInPath, String.ofList_toList]

/-- The printable characters that end the path of an address or may not stand in one, and that are
therefore in no escaped path. -/
def neverInPath : List Char :=
  [' ', '"', '#', '<', '>', '?', '\x60', '\x7b', '\x7d', '^', '|', '\\', '[', ']']

/-- What an escaped path is to the path that it stands for. -/
structure IsEscapeOf (escaped text : String) : Prop where
  /-- there are as many slashes as in the path -/
  slashes : escaped.toList.count '/' = text.toList.count '/'
  /-- each segment between them reads back as the segment in its place -/
  segments : (Path.elements escaped.toList).map (fun segment => decode? (.ofList segment)) =
    (Path.elements text.toList).map fun segment => some (.ofList segment)
  /-- the whole reads back as the path -/
  decodes : decode? escaped = some text
  /-- every percent sign starts an escape -/
  isWellEscaped : IsWellEscaped escaped.toList
  /-- there is nothing beyond ASCII and no control character -/
  isPrintable : ∀ c ∈ escaped.toList, 32 ≤ c.toNat ∧ c.toNat < 127
  /-- there is none of the characters that may not stand in the path of an address -/
  no_marks : ∀ c ∈ escaped.toList, c ∉ neverInPath

/-- An escaped path stands for one path only, the one it reads back as. -/
theorem IsEscapeOf.unique {escaped text text' : String} (h : IsEscapeOf escaped text)
    (h' : IsEscapeOf escaped text') : text = text' :=
  Option.some.inj (h.decodes.symm.trans h'.decodes)

theorem isEscapeOf_path (text : String) : IsEscapeOf (path text) text where
  slashes := by rw [toList_path, count_slash_encodeChars]
  segments := by
    rw [toList_path, elements_encodeChars, List.map_map]
    refine List.map_congr_left ?_
    intro segment _
    exact decode_encodeChars isSafe_keptInPath segment
  decodes := decode_path text
  isWellEscaped := by
    rw [toList_path]
    exact isWellEscaped_encodeChars isSafe_keptInPath _
  isPrintable := by
    rw [toList_path]
    refine forall_mem_encodeChars (by decide) (by decide) ?_ _
    intro b hb
    rcases keptInPath_iff.mp hb with ⟨hlow, hhigh, -⟩
    rw [Text.toNat_ofNat (by omega)]
    exact ⟨hlow, hhigh⟩
  no_marks := by
    rw [toList_path]
    refine forall_mem_encodeChars (by decide) (by decide) ?_ _
    intro b hb hmark
    have hnever : neverInPath.Sublist unsafeInPath := by decide
    exact ne_of_keptInPath (hnever.subset hmark) hb rfl

/-- Escaping a path writes it as a text that may stand in an address and loses nothing of it. Every
path is escaped to a text that stands for it: printable ASCII in which every percent sign starts an
escape and no mark of the address stands, with the slashes of the path, and with segments between
them that read back as those of the path. So different paths are escaped differently. -/
theorem path_reads_back :
    (∀ text : String, IsEscapeOf (path text) text) ∧ Function.Injective path := by
  refine ⟨isEscapeOf_path, ?_⟩
  intro text text' h
  have hescape : IsEscapeOf (path text) text' := by
    rw [h]
    exact isEscapeOf_path text'
  exact (isEscapeOf_path text).unique hescape

/-- What looks like an escape is escaped like any other text. -/
example : path "/a%2Fb/é ~" = "/a%252Fb/%C3%A9%20~" := by decide

end ApplianceRest.Percent
