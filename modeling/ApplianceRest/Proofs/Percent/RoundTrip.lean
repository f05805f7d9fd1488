import ApplianceRest.Percent
import ApplianceRest.Proofs.Text.Bytes

/-!
# Reading escapes back

Escaping is undone by `Percent.decode?` (`decode_encodeChars`), whatever bytes are kept, as long as
those are ASCII and no percent sign (`IsSafe`). What holds of the characters of an escape and of all
that is kept holds of an escaped text (`forall_mem_encodeChars`). The slashes of an escaped path are
the slashes of the path (`splitOn_encodeChars`), and it holds no question mark.
-/

namespace ApplianceRest.Percent

/-- Bytes that may stay when escapes are to be read back. -/
def IsSafe (kept : UInt8 → Bool) : Prop :=
  ∀ b, kept b = true → b.toNat < 128 ∧ Char.ofNat b.toNat ≠ '%'

/-- One character, as itself or escaped. -/
def encodeChar (kept : UInt8 → Bool) (c : Char) : List Char :=
  (String.utf8EncodeChar c).flatMap (encodeByte kept)

/-- Characters, each as itself or escaped. -/
def encodeChars (kept : UInt8 → Bool) (cs : List Char) : List Char :=
  cs.flatMap (encodeChar kept)

theorem toList_encode (kept : UInt8 → Bool) (text : String) :
    (encode kept text).toList = encodeChars kept text.toList := by
  rw [encode, String.toList_ofList, List.flatMap_assoc]
  rfl

theorem encodeChars_append (kept : UInt8 → Bool) (cs ds : List Char) :
    encodeChars kept (cs ++ ds) = encodeChars kept cs ++ encodeChars kept ds :=
  List.flatMap_append

theorem encodeChars_cons (kept : UInt8 → Bool) (c : Char) (cs : List Char) :
    encodeChars kept (c :: cs) = encodeChar kept c ++ encodeChars kept cs :=
  List.flatMap_cons

theorem keptInPath_iff {b : UInt8} : keptInPath b = true ↔
    32 ≤ b.toNat ∧ b.toNat < 127 ∧ Char.ofNat b.toNat ∉ unsafeInPath := by
  simp only [keptInPath, Bool.and_eq_true, decide_eq_true_eq, UInt8.le_iff_toNat_le,
    UInt8.lt_iff_toNat_lt, and_assoc]
  refine and_congr_right fun _ => and_congr_right fun _ => ?_
  rw [Bool.not_eq_true', ← Bool.not_eq_true, List.contains_iff_mem]

/-- No unsafe character stays in a path. -/
theorem ne_of_keptInPath {b : UInt8} {d : Char} (hd : d ∈ unsafeInPath)
    (hb : keptInPath b = true) : Char.ofNat b.toNat ≠ d := by
  rintro rfl
  exact (keptInPath_iff.mp hb).2.2 hd

/-- Only letters, digits and four marks stay in a query. -/
theorem ne_of_keptInQuery {b : UInt8} {d : Char}
    (hd : (d.isAlphanum || d == '-' || d == '.' || d == '_' || d == '~') = false)
    (hb : keptInQuery b = true) : Char.ofNat b.toNat ≠ d := by
  rintro rfl
  rw [keptInQuery, hd, Bool.and_false] at hb
  cases hb

theorem isSafe_keptInPath : IsSafe keptInPath := by
  intro b hb
  rcases keptInPath_iff.mp hb with ⟨-, hlt, -⟩
  exact ⟨by omega, ne_of_keptInPath (by decide) hb⟩

theorem isSafe_keptInQuery : IsSafe keptInQuery := by
  intro b hb
  have hlt : b < 0x80 := by
    rw [keptInQuery, Bool.and_eq_true, decide_eq_true_eq] at hb
    exact hb.1
  exact ⟨UInt8.lt_iff_toNat_lt.mp hlt, ne_of_keptInQuery (by decide) hb⟩

/-! ## Bytes -/

theorem hexValue_hexDigit {n : Nat} (h : n < 16) : hexValue? (hexDigit n) = some n := by
  have hall : ∀ m ∈ List.range 16, hexValue? (hexDigit m) = some m := by decide
  exact hall n (List.mem_range.mpr h)

theorem decodeBytes_cons {c : Char} (hc : c ≠ '%') (rest : List Char) :
    decodeBytes? (c :: rest) = (decodeBytes? rest).map (String.utf8EncodeChar c ++ ·) := by
  rw [decodeBytes?, if_neg hc]
  intro h l rest' hcons
  exact absurd hcons hc

theorem decodeBytes_escape (b : UInt8) (rest : List Char) :
    decodeBytes? ('%' :: hexDigit (b.toNat / 16) :: hexDigit (b.toNat % 16) :: rest) =
      (decodeBytes? rest).map (b :: ·) := by
  have hb : b.toNat < 256 := b.toNat_lt_size
  have hhigh : hexValue? (hexDigit (b.toNat / 16)) = some (b.toNat / 16) :=
    hexValue_hexDigit (by omega)
  have hlow : hexValue? (hexDigit (b.toNat % 16)) = some (b.toNat % 16) :=
    hexValue_hexDigit (by omega)
  have hsum : UInt8.ofNat (16 * (b.toNat / 16) + b.toNat % 16) = b := by
    rw [Nat.div_add_mod, UInt8.ofNat_toNat]
  rw [decodeBytes?, hhigh, hlow]
  cases decodeBytes? rest with
  | none => rfl
  | some bytes => exact congrArg (fun x => some (x :: bytes)) hsum

/-! ## Reading back -/

variable {kept : UInt8 → Bool}

/-- An escaped byte is read back, whatever follows it. -/
theorem decodeBytes_encodeByte (hsafe : IsSafe kept) (b : UInt8) (rest : List Char) :
    decodeBytes? (encodeByte kept b ++ rest) = (decodeBytes? rest).map (b :: ·) := by
  cases hb : kept b with
  | true =>
    obtain ⟨hascii, hpct⟩ := hsafe b hb
    rw [encodeByte, if_pos hb, List.singleton_append, decodeBytes_cons hpct,
      Text.utf8EncodeChar_ofNat hascii]
    rfl
  | false =>
    rw [encodeByte, if_neg (by simp [hb])]
    exact decodeBytes_escape b rest

theorem decodeBytes_flatMap (hsafe : IsSafe kept) (bytes : List UInt8) :
    decodeBytes? (bytes.flatMap (encodeByte kept)) = some bytes := by
  induction bytes with
  | nil => rfl
  | cons b bytes ih => rw [List.flatMap_cons, decodeBytes_encodeByte hsafe, ih, Option.map_some]

/-- Escaped characters denote the text of these characters. -/
theorem decode_encodeChars (hsafe : IsSafe kept) (cs : List Char) :
    decode? (.ofList (encodeChars kept cs)) = some (.ofList cs) := by
  have hbytes : encodeChars kept cs = (Text.bytes cs).flatMap (encodeByte kept) := by
    rw [Text.bytes, List.flatMap_assoc]
    rfl
  rw [decode?, String.toList_ofList, hbytes, decodeBytes_flatMap hsafe, Option.bind_some]
  exact Text.fromUTF8_bytes cs

/-! ## The characters of an escaped text -/

/-- A byte is written with the characters of an escape, or kept as it is. -/
theorem mem_encodeByte {b : UInt8} {d : Char} (h : d ∈ encodeByte kept b) :
    d = '%' ∨ (∃ n < 16, d = hexDigit n) ∨ kept b = true ∧ d = Char.ofNat b.toNat := by
  rw [encodeByte] at h
  split at h
  · next hkept => exact Or.inr (Or.inr ⟨hkept, List.mem_singleton.mp h⟩)
  · have hlt : b.toNat < 256 := b.toNat_lt_size
    simp only [List.mem_cons, List.not_mem_nil, or_false] at h
    rcases h with hd | hd | hd
    · exact Or.inl hd
    · exact Or.inr (Or.inl ⟨b.toNat / 16, by omega, hd⟩)
    · exact Or.inr (Or.inl ⟨b.toNat % 16, by omega, hd⟩)

/-- The characters of an escape, and those that are kept as they are. -/
theorem mem_encodeChar (hsafe : IsSafe kept) {c d : Char} (h : d ∈ encodeChar kept c) :
    d = '%' ∨ (∃ n < 16, d = hexDigit n) ∨ d = c ∧ ∃ b, kept b = true ∧ Char.ofNat b.toNat = c := by
  rw [encodeChar, List.mem_flatMap] at h
  rcases h with ⟨b, hb, hd⟩
  rcases mem_encodeByte hd with hd | hd | ⟨hkept, hd⟩
  · exact Or.inl hd
  · exact Or.inr (Or.inl hd)
  · have hc : Char.ofNat b.toNat = c := Text.ofNat_of_mem_utf8EncodeChar hb (hsafe b hkept).1
    exact Or.inr (Or.inr ⟨hd.trans hc, b, hkept, hc⟩)

/-- A character that no escape holds is there only where it is kept. -/
theorem mem_encodeChar_of_no_digit (hsafe : IsSafe kept) {c d : Char} (hpct : d ≠ '%')
    (hdigit : ∀ n ∈ List.range 16, d ≠ hexDigit n) (h : d ∈ encodeChar kept c) :
    d = c ∧ ∃ b, kept b = true ∧ Char.ofNat b.toNat = d := by
  rcases mem_encodeChar hsafe h with hd | ⟨n, hn, hd⟩ | ⟨hd, b, hb, hc⟩
  · exact absurd hd hpct
  · exact absurd hd (hdigit n (List.mem_range.mpr hn))
  · exact ⟨hd, b, hb, hc.trans hd.symm⟩

theorem eq_slash_of_mem_encodeChar {c : Char} (h : '/' ∈ encodeChar keptInPath c) : c = '/' :=
  (mem_encodeChar_of_no_digit isSafe_keptInPath (by decide) (by decide) h).1.symm

/-- What holds of the percent sign, of the digits of an escape and of all that is kept holds of
every character of an escaped text. -/
theorem forall_mem_encodeChars {P : Char → Prop} (hpct : P '%')
    (hdigit : ∀ n ∈ List.range 16, P (hexDigit n))
    (hkept : ∀ b, kept b = true → P (Char.ofNat b.toNat)) (cs : List Char) :
    ∀ d ∈ encodeChars kept cs, P d := by
  intro d hd
  rcases List.mem_flatMap.mp hd with ⟨c, -, hc⟩
  rcases List.mem_flatMap.mp hc with ⟨b, -, hb⟩
  rcases mem_encodeByte hb with rfl | ⟨n, hn, rfl⟩ | ⟨hkeep, rfl⟩
  · exact hpct
  · exact hdigit n (List.mem_range.mpr hn)
  · exact hkept b hkeep

/-- A character that no escape holds and that is not kept is in no escaped text. -/
theorem not_mem_encodeChars {d : Char} (hpct : d ≠ '%')
    (hdigit : ∀ n ∈ List.range 16, d ≠ hexDigit n)
    (hkept : ∀ b, kept b = true → Char.ofNat b.toNat ≠ d) (cs : List Char) :
    d ∉ encodeChars kept cs := by
  intro h
  refine forall_mem_encodeChars (P := (· ≠ d)) hpct.symm ?_ hkept cs d h rfl
  intro n hn
  exact (hdigit n hn).symm

/-- No question mark is kept in a path. -/
theorem question_not_mem_encodeChars (cs : List Char) : '?' ∉ encodeChars keptInPath cs := by
  refine not_mem_encodeChars (by decide) (by decide) ?_ cs
  intro b hb
  exact ne_of_keptInPath (by decide) hb

/-- No mark that stands between the parameters of a query, or between their sides, is kept. -/
theorem mark_not_mem_encodeChars {d : Char} (hd : d = '&' ∨ d = '=') (cs : List Char) :
    d ∉ encodeChars keptInQuery cs := by
  rcases hd with rfl | rfl
  · refine not_mem_encodeChars (by decide) (by decide) ?_ cs
    intro b hb
    exact ne_of_keptInQuery (by decide) hb
  · refine not_mem_encodeChars (by decide) (by decide) ?_ cs
    intro b hb
    exact ne_of_keptInQuery (by decide) hb

/-! ## Segments -/

theorem slash_not_mem_encodeChars {cs : List Char} (h : '/' ∉ cs) :
    '/' ∉ encodeChars keptInPath cs := by
  intro hmem
  rw [encodeChars, List.mem_flatMap] at hmem
  obtain ⟨c, hc, hslash⟩ := hmem
  exact h (eq_slash_of_mem_encodeChar hslash ▸ hc)

theorem encodeChars_intercalate (segments : List (List Char)) :
    encodeChars keptInPath (List.intercalate ['/'] segments) =
      List.intercalate ['/'] (segments.map (encodeChars keptInPath)) := by
  induction segments with
  | nil => rfl
  | cons s rest ih =>
    cases rest with
    | nil => simp
    | cons t rest =>
      have hslash : encodeChars keptInPath ['/'] = ['/'] := by decide
      rw [List.intercalate_cons_cons, encodeChars_append, encodeChars_append, ih, hslash]
      simp only [List.map_cons, List.intercalate_cons_cons]

/-- Segments without slashes that are joined to a path and escaped come apart again at the slashes,
each of them escaped. -/
theorem splitOn_encodeChars {segments : List (List Char)} (hne : segments ≠ [])
    (h : ∀ s ∈ segments, '/' ∉ s) :
    (encodeChars keptInPath (List.intercalate ['/'] segments)).splitOn '/' =
      segments.map (encodeChars keptInPath) := by
  rw [encodeChars_intercalate]
  refine List.splitOn_intercalate '/' ?_ (by simpa using hne)
  intro e he
  obtain ⟨s, hs, rfl⟩ := List.mem_map.mp he
  exact slash_not_mem_encodeChars (h s hs)

theorem encodeChars_flatMap_slash (segments : List (List Char)) :
    encodeChars keptInPath (segments.flatMap ('/' :: ·)) =
      segments.flatMap fun s => '/' :: encodeChars keptInPath s := by
  have hslash : encodeChar keptInPath '/' = ['/'] := by decide
  rw [encodeChars, List.flatMap_assoc]
  refine List.flatMap_congr fun s _ => ?_
  show encodeChars keptInPath ('/' :: s) = _
  rw [encodeChars_cons, hslash]
  rfl

theorem encodeChars_inj (hsafe : IsSafe kept) {cs ds : List Char}
    (h : encodeChars kept cs = encodeChars kept ds) : cs = ds := by
  have hback := decode_encodeChars hsafe cs
  rw [h, decode_encodeChars hsafe ds, Option.some.injEq] at hback
  exact (String.ofList_injective hback).symm

/-- An escaped path says which segments it is made of. -/
theorem segments_inj {xs ys : List (List Char)} (hx : xs ≠ []) (hy : ys ≠ [])
    (hxs : ∀ s ∈ xs, '/' ∉ s) (hys : ∀ s ∈ ys, '/' ∉ s)
    (h : encodeChars keptInPath (List.intercalate ['/'] xs) =
      encodeChars keptInPath (List.intercalate ['/'] ys)) : xs = ys := by
  have hparts := congrArg (List.splitOn '/') h
  rw [splitOn_encodeChars hx hxs, splitOn_encodeChars hy hys] at hparts
  exact List.map_injective_iff.mpr (fun _ _ => encodeChars_inj isSafe_keptInPath) hparts

end ApplianceRest.Percent
