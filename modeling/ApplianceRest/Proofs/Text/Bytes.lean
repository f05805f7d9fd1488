import Mathlib.Data.List.Basic
import Mathlib.Tactic.SplitIfs

/-!
# The bytes of a text

Texts go over the wire in UTF-8. The bytes of a text say which text it is (`fromUTF8_bytes`), a byte
below 128 comes from the character with that number only (`ofNat_of_mem_utf8EncodeChar`), and texts
stand in the same order as their bytes (`bytes_lt`).
-/

namespace ApplianceRest.Text

/-- The bytes of some characters. -/
def bytes (cs : List Char) : List UInt8 := cs.flatMap String.utf8EncodeChar

@[simp] theorem bytes_nil : bytes [] = [] := rfl

theorem bytes_cons (c : Char) (cs : List Char) :
    bytes (c :: cs) = String.utf8EncodeChar c ++ bytes cs := List.flatMap_cons

theorem bytes_append (cs ds : List Char) : bytes (cs ++ ds) = bytes cs ++ bytes ds :=
  List.flatMap_append

/-- The bytes of a text are the bytes of that text only. -/
theorem fromUTF8_bytes (cs : List Char) :
    String.fromUTF8? (bytes cs).toByteArray = some (.ofList cs) := by
  have hvalid : (bytes cs).toByteArray.IsValidUTF8 := ByteArray.isValidUTF8_utf8Encode
  rw [String.fromUTF8?, dif_pos hvalid]
  rfl

theorem bytes_inj {cs ds : List Char} : bytes cs = bytes ds ↔ cs = ds := by
  constructor
  · intro h
    have hread := fromUTF8_bytes cs
    rw [h, fromUTF8_bytes, Option.some.injEq, String.ofList_inj] at hread
    exact hread.symm
  · rintro rfl
    rfl

/-! ## ASCII -/

theorem toNat_ofNat {n : Nat} (h : n < 128) : (Char.ofNat n).toNat = n := by
  have hvalid : n.isValidChar := Or.inl (by omega)
  rw [Char.ofNat, dif_pos hvalid]
  rfl

theorem utf8EncodeChar_ofNat {b : UInt8} (h : b.toNat < 128) :
    String.utf8EncodeChar (Char.ofNat b.toNat) = [b] := by
  have hval : (Char.ofNat b.toNat).val.toNat = b.toNat := toNat_ofNat h
  simp only [String.utf8EncodeChar, hval]
  rw [if_pos (by omega), UInt8.ofNat_toNat]

/-- An ASCII byte comes from an ASCII character only: the bytes of any other one are all above. -/
theorem ofNat_of_mem_utf8EncodeChar {c : Char} {b : UInt8} (hb : b ∈ String.utf8EncodeChar c)
    (h : b.toNat < 128) : Char.ofNat b.toNat = c := by
  have hbyte : b.toNat = c.val.toNat := by
    simp only [String.utf8EncodeChar] at hb
    split at hb
    · rw [List.mem_singleton.mp hb]
      exact UInt8.toNat_ofNat_of_lt' (show c.val.toNat < 256 by omega)
    · -- in longer encodings the first byte has its top bit set, and so have the others
      exfalso
      split at hb
      · simp only [List.mem_cons, List.not_mem_nil, or_false] at hb
        rcases hb with rfl | rfl <;> simp at h <;> omega
      · split at hb
        · simp only [List.mem_cons, List.not_mem_nil, or_false] at hb
          rcases hb with rfl | rfl | rfl <;> simp at h <;> omega
        · simp only [List.mem_cons, List.not_mem_nil, or_false] at hb
          rcases hb with rfl | rfl | rfl | rfl <;> simp at h <;> omega
  rw [hbyte]
  exact Char.ofNat_toNat c

/-! ## Order -/

theorem val_lt (c : Char) : c.val.toNat < 0x110000 := by
  rcases c.valid with h | h
  · have hlow : c.val.toNat < 0xD800 := h
    omega
  · exact h.2

/-- The encodings of two characters differ in some byte, and in the first such byte the lesser
character has the lesser one, whatever follows the characters. -/
theorem utf8EncodeChar_lt {c d : Char} (h : c < d) (x y : List UInt8) :
    String.utf8EncodeChar c ++ x < String.utf8EncodeChar d ++ y := by
  have hlt : c.val.toNat < d.val.toNat := h
  have hd := val_lt d
  -- an encoding of fewer bytes starts with a lesser one; of two encodings of as many bytes, the
  -- first difference is that between the numbers, written to the base 64
  simp only [String.utf8EncodeChar]
  split_ifs <;>
    simp only [List.cons_append, List.nil_append, List.cons_lt_cons_iff, UInt8.lt_iff_toNat_lt,
      ← UInt8.toNat_inj, UInt8.toNat_ofNat'] <;>
    simp (disch := omega) only [Nat.mod_eq_of_lt] <;>
    omega

/-- Texts stand in the order of their bytes. -/
theorem bytes_lt {cs ds : List Char} (h : cs < ds) : bytes cs < bytes ds := by
  induction h with
  | @nil d ds =>
    rw [bytes_cons]
    cases hd : String.utf8EncodeChar d with
    | nil => exact absurd hd String.utf8EncodeChar_ne_nil
    | cons b bs => exact List.nil_lt_cons _ _
  | @rel c cs d ds hlt =>
    rw [bytes_cons, bytes_cons]
    exact utf8EncodeChar_lt hlt _ _
  | @cons c cs ds _ ih =>
    rw [bytes_cons, bytes_cons]
    exact List.append_left_lt ih

end ApplianceRest.Text
