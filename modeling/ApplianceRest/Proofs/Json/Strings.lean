import ApplianceRest.Json.Printer
import ApplianceRest.Proofs.Json.Reading
import ApplianceRest.Proofs.Text.Bytes

/-!
# Strings are read back

A string that is written between quotes is read as the text that was written, whatever follows it:
a character is either written as itself, and then none of its bytes means anything inside a string,
or it is escaped, and then the escape stands for its one byte.
-/

namespace ApplianceRest.Json.Reader

open Text (bytes bytes_append bytes_cons fromUTF8_bytes)

variable {r t rest x y : Bytes}

/-! ## Escapes -/

theorem hexValue_hexDigit {n : Nat} (h : n < 16) :
    hexValue? (UInt8.ofNat (hexDigit n).toNat) = some n := by
  have hall : ∀ m ∈ List.range 16, hexValue? (UInt8.ofNat (hexDigit m).toNat) = some m := by decide
  exact hall n (List.mem_range.mpr h)

theorem utf8EncodeChar_hexDigit {n : Nat} (h : n < 16) :
    String.utf8EncodeChar (hexDigit n) = [UInt8.ofNat (hexDigit n).toNat] := by
  have hall : ∀ m ∈ List.range 16,
      String.utf8EncodeChar (hexDigit m) = [UInt8.ofNat (hexDigit m).toNat] := by decide
  exact hall n (List.mem_range.mpr h)

/-- The number of a control character is written with two zeros in front. -/
theorem gives_fourHex_control {n : Nat} (h : n < 0x20) (r : Bytes) :
    Gives (fourHex (bytes ['0', '0', hexDigit (n / 16), hexDigit (n % 16)] ++ r)) n r := by
  have hhigh : n / 16 < 16 := by omega
  have hlow : n % 16 < 16 := Nat.mod_lt n (by decide)
  have htext : bytes ['0', '0', hexDigit (n / 16), hexDigit (n % 16)] ++ r =
      0x30 :: 0x30 :: UInt8.ofNat (hexDigit (n / 16)).toNat ::
        UInt8.ofNat (hexDigit (n % 16)).toNat :: r := by
    simp only [bytes_cons, utf8EncodeChar_hexDigit hhigh, utf8EncodeChar_hexDigit hlow]
    rfl
  have hzero : hexValue? 0x30 = some 0 := by decide
  have hvalue : ((0 * 16 + 0) * 16 + n / 16) * 16 + n % 16 = n := by omega
  rw [htext]
  simp only [fourHex, hzero, hexValue_hexDigit hhigh, hexValue_hexDigit hlow, hvalue]
  exact ⟨_, rfl⟩

/-- Behind a backslash, the letter of a short escape stands for its byte. -/
theorem gives_escape_letter {letter b : UInt8} (h : escapedByte? letter = some b) (r : Bytes) :
    Gives (escape (letter :: r)) [b] r := by
  rw [escape]
  split
  · next c hc =>
    obtain rfl : b = c := by simpa [h] using hc
    exact ⟨_, rfl⟩
  · next hc =>
    rw [h] at hc
    cases hc

theorem gives_escape_numbered (h : Gives (numberedChar t) x r) :
    Gives (escape (0x75 :: t)) x r := by
  have hletter : escapedByte? 0x75 = none := by decide
  rw [escape]
  split
  · next c hc =>
    rw [hletter] at hc
    cases hc
  · rw [if_pos rfl]
    exact h.behind 0x75

/-- A number outside the surrogates stands for its character. -/
theorem gives_numberedChar_single {n : Nat} (hread : Gives (fourHex t) n r)
    (hlow : ¬(0xDC00 ≤ n ∧ n ≤ 0xDFFF)) (hhigh : ¬(0xD800 ≤ n ∧ n ≤ 0xDBFF)) :
    Gives (numberedChar t) (codePoint n) r := by
  refine hread.bind fun shorter => ?_
  rw [if_neg hlow, if_neg hhigh]
  exact ⟨shorter, rfl⟩

/-- Two numbers from the two halves of the surrogates stand for one character. -/
theorem gives_numberedChar_pair {n m : Nat} {s : Bytes}
    (hfirst : Gives (fourHex s) n (backslash :: 0x75 :: t)) (hhigh : 0xD800 ≤ n ∧ n ≤ 0xDBFF)
    (hsecond : Gives (fourHex t) m r) (hlow : 0xDC00 ≤ m ∧ m ≤ 0xDFFF) :
    Gives (numberedChar s) (codePoint ((n - 0xD800) * 0x400 + (m - 0xDC00) + 0x10000)) r := by
  have hfirst_low : ¬(0xDC00 ≤ n ∧ n ≤ 0xDFFF) := by omega
  refine hfirst.bind fun shorter => ?_
  rw [if_neg hfirst_low, if_pos hhigh]
  dsimp only
  rw [if_neg (not_not.mpr rfl), if_neg (not_not.mpr rfl)]
  refine hsecond.bind fun shorter' => ?_
  rw [if_pos hlow]
  exact ⟨_, rfl⟩

/-- Behind a backslash, a number below the surrogates stands for its character. -/
theorem gives_escape_number {n : Nat} (h : n < 0xD800) (hread : Gives (fourHex t) n r) :
    Gives (escape (0x75 :: t)) (codePoint n) r :=
  gives_escape_numbered (gives_numberedChar_single hread (by omega) (by omega))

/-! ## Bytes -/

/-- Whether a byte stands for itself inside a string. -/
def IsPlainByte (b : UInt8) : Prop := b ≠ quote ∧ b ≠ backslash ∧ ¬ b < 0x20

instance (b : UInt8) : Decidable (IsPlainByte b) :=
  inferInstanceAs (Decidable (_ ∧ _ ∧ _))

theorem gives_stringBytes_quote (r : Bytes) : Gives (stringBytes (quote :: r)) [] r := by
  rw [stringBytes, if_pos rfl]
  exact ⟨_, rfl⟩

theorem gives_stringBytes_escape (hescape : Gives (escape r) x t)
    (h : Gives (stringBytes t) y rest) : Gives (stringBytes (backslash :: r)) (x ++ y) rest := by
  rw [stringBytes, if_neg (by decide), if_pos rfl]
  refine hescape.bind fun shorter => h.bind fun shorter' => ⟨_, rfl⟩

theorem gives_stringBytes_plain {b : UInt8} (hb : IsPlainByte b)
    (h : Gives (stringBytes r) x rest) : Gives (stringBytes (b :: r)) (b :: x) rest := by
  rw [stringBytes, if_neg hb.1, if_neg hb.2.1, if_neg hb.2.2]
  obtain ⟨shorter, h⟩ := h
  rw [h]
  exact ⟨_, rfl⟩

theorem gives_stringBytes_plain_append {bs : Bytes} (hbs : ∀ b ∈ bs, IsPlainByte b)
    (h : Gives (stringBytes r) x rest) : Gives (stringBytes (bs ++ r)) (bs ++ x) rest := by
  induction bs with
  | nil => exact h
  | cons b bs ih =>
    obtain ⟨hb, hbs⟩ := List.forall_mem_cons.mp hbs
    exact gives_stringBytes_plain hb (ih hbs)

/-! ## Characters -/

theorem codePoint_toNat (c : Char) : codePoint c.toNat = String.utf8EncodeChar c :=
  congrArg String.utf8EncodeChar (Char.ofNat_toNat c)

/-- The bytes of a character that needs no escape. Only a control character, a quote or a backslash
has a byte that means something in a string, since that byte is its number. -/
theorem isPlainByte_of_mem {c : Char} (hquote : c ≠ '"') (hslash : c ≠ '\\')
    (hcontrol : ¬ c.toNat < 0x20) : ∀ b ∈ String.utf8EncodeChar c, IsPlainByte b := by
  intro b hb
  have hchar : b.toNat < 128 → Char.ofNat b.toNat = c := Text.ofNat_of_mem_utf8EncodeChar hb
  refine ⟨?_, ?_, ?_⟩
  · rintro rfl
    exact hquote (hchar (by decide)).symm
  · rintro rfl
    exact hslash (hchar (by decide)).symm
  · intro hlt
    have hsmall : b.toNat < 0x20 := hlt
    have hnumber : c.toNat = b.toNat := by
      rw [← hchar (by omega), Text.toNat_ofNat (by omega)]
    omega

/-- The three ways in which a character is written. -/
theorem escapedChar_cases (c : Char) :
    (∃ letter b, escapedByte? letter = some b ∧ bytes (escapedChar c) = [backslash, letter] ∧
      String.utf8EncodeChar c = [b]) ∨
    (c.toNat < 0x20 ∧
      escapedChar c = '\\' :: 'u' :: ['0', '0', hexDigit (c.toNat / 16), hexDigit (c.toNat % 16)]) ∨
    (c ≠ '"' ∧ c ≠ '\\' ∧ ¬ c.toNat < 0x20 ∧ escapedChar c = [c]) := by
  unfold escapedChar
  split
  · next h => subst h; exact .inl ⟨0x22, 0x22, by decide, rfl, rfl⟩
  split
  · next h => subst h; exact .inl ⟨0x5C, 0x5C, by decide, rfl, rfl⟩
  split
  · next h => subst h; exact .inl ⟨0x62, 0x08, by decide, rfl, rfl⟩
  split
  · next h => subst h; exact .inl ⟨0x66, 0x0C, by decide, rfl, rfl⟩
  split
  · next h => subst h; exact .inl ⟨0x6E, 0x0A, by decide, rfl, rfl⟩
  split
  · next h => subst h; exact .inl ⟨0x72, 0x0D, by decide, rfl, rfl⟩
  split
  · next h => subst h; exact .inl ⟨0x74, 0x09, by decide, rfl, rfl⟩
  split
  · next hcontrol => exact .inr (.inl ⟨hcontrol, rfl⟩)
  · next hquote hslash _ _ _ _ _ hcontrol => exact .inr (.inr ⟨hquote, hslash, hcontrol, rfl⟩)

/-- What a character is written as is read as its bytes. -/
theorem gives_stringBytes_escapedChar (c : Char) (h : Gives (stringBytes r) x rest) :
    Gives (stringBytes (bytes (escapedChar c) ++ r)) (String.utf8EncodeChar c ++ x) rest := by
  rcases escapedChar_cases c with ⟨letter, b, hletter, htext, hbyte⟩ | ⟨hcontrol, htext⟩ |
    ⟨hquote, hslash, hcontrol, htext⟩
  · rw [htext, hbyte]
    exact gives_stringBytes_escape (gives_escape_letter hletter r) h
  · have hnumber := gives_escape_number (by omega) (gives_fourHex_control hcontrol r)
    rw [codePoint_toNat] at hnumber
    rw [htext]
    exact gives_stringBytes_escape hnumber h
  · have hself : bytes [c] = String.utf8EncodeChar c := by simp [bytes_cons]
    rw [htext, hself]
    exact gives_stringBytes_plain_append (isPlainByte_of_mem hquote hslash hcontrol) h

theorem gives_stringBytes (cs : List Char) (rest : Bytes) :
    Gives (stringBytes (bytes (cs.flatMap escapedChar) ++ quote :: rest)) (bytes cs) rest := by
  induction cs with
  | nil => exact gives_stringBytes_quote rest
  | cons c cs ih =>
    rw [List.flatMap_cons, bytes_append, bytes_cons, List.append_assoc]
    exact gives_stringBytes_escapedChar c ih

/-- A string is read back from behind its opening quote, whatever follows the closing one. -/
theorem gives_string (s : String) (rest : Bytes) :
    Gives (string (bytes (s.toList.flatMap escapedChar) ++ quote :: rest)) s rest := by
  refine (gives_stringBytes s.toList rest).bind fun shorter => ?_
  simp only [fromUTF8_bytes, String.ofList_toList]
  exact ⟨shorter, rfl⟩

/-- The text of a string: its quotes, and what stands between them. -/
theorem bytes_stringChars (s : String) (rest : Bytes) : bytes (stringChars s) ++ rest =
    quote :: (bytes (s.toList.flatMap escapedChar) ++ quote :: rest) := by
  rw [stringChars, bytes_append, bytes_cons, List.append_assoc]
  rfl

theorem reads_textValue (s : String) : Reads textValue (bytes (stringChars s)) s := by
  refine ⟨⟨quote, bytes (s.toList.flatMap escapedChar) ++ [quote], ?_, by decide⟩, ?_⟩
  · simpa using bytes_stringChars s []
  · intro rest _
    rw [bytes_stringChars]
    refine gives_fromToken (by decide) ?_
    simp only [if_pos]
    exact (gives_string s rest).behind quote

end ApplianceRest.Json.Reader
