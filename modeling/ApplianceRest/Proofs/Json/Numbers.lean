import ApplianceRest.Json.Printer
import ApplianceRest.Proofs.Json.Reading
import ApplianceRest.Proofs.Text.Bytes

/-!
# Machine words are read back

The decimal digits of a number have no leading zero, and they are taken one by one up to what
follows the number; so a whole number that a machine word holds is read as that word
(`reads_wordValue`).
-/

namespace ApplianceRest.Json

/-! ## The range of machine words -/

namespace Word

/-- A machine word holds the number it stands for. -/
theorem ofInt?_toInt (w : Word) (x : w.Value) : w.ofInt? (w.toInt x) = some x := by
  cases w with
  | i64 =>
    have hlow : Int64.minValue.toInt ≤ x.toInt := Int64.le_iff_toInt_le.mp (Int64.minValue_le x)
    have hhigh : x.toInt ≤ Int64.maxValue.toInt := Int64.le_iff_toInt_le.mp (Int64.le_maxValue x)
    rw [ofInt?, toInt, if_pos ⟨hlow, hhigh⟩, Int64.ofInt_toInt]
  | u32 =>
    have h : UInt32.toNat x < UInt32.size := UInt32.toNat_lt_size x
    rw [ofInt?, toInt, if_pos ⟨Int.natCast_nonneg _, Int.ofNat_lt.mpr h⟩]
    exact congrArg some UInt32.ofNat_toNat
  | u64 =>
    have h : UInt64.toNat x < UInt64.size := UInt64.toNat_lt_size x
    rw [ofInt?, toInt, if_pos ⟨Int.natCast_nonneg _, Int.ofNat_lt.mpr h⟩]
    exact congrArg some UInt64.ofNat_toNat

/-- What a machine word holds fits into 64 bits, with or without a sign. -/
theorem toInt_bounds (w : Word) (x : w.Value) :
    Int64.minValue.toInt ≤ w.toInt x ∧ w.toInt x < UInt64.size := by
  have hmin : Int64.minValue.toInt = -9223372036854775808 := by decide
  have hsize : UInt64.size = 18446744073709551616 := rfl
  cases w with
  | i64 =>
    have h : x.toInt < 2 ^ 63 := Int64.toInt_lt x
    have h' : -2 ^ 63 ≤ x.toInt := Int64.le_toInt x
    simp only [toInt]
    omega
  | u32 =>
    have h : UInt32.toNat x < 4294967296 := UInt32.toNat_lt_size x
    simp only [toInt, Int.ofNat_eq_natCast]
    omega
  | u64 =>
    have h : UInt64.toNat x < UInt64.size := UInt64.toNat_lt_size x
    simp only [toInt, Int.ofNat_eq_natCast]
    omega

end Word

namespace Reader

open Text (bytes bytes_cons)

variable {rest : Bytes}

/-! ## Digits -/

/-- A digit is one byte, whose number is that of the digit. -/
theorem utf8EncodeChar_digit {c : Char} (h : c.isDigit) :
    ∃ b, String.utf8EncodeChar c = [b] ∧ isDigit b = true ∧ b.toNat = c.toNat := by
  have hc : 48 ≤ c.toNat ∧ c.toNat ≤ 57 := by
    have hval : 48 ≤ c.val ∧ c.val ≤ 57 := by simpa [Char.isDigit] using h
    exact hval
  have hb : (UInt8.ofNat c.toNat).toNat = c.toNat :=
    UInt8.toNat_ofNat_of_lt' (show c.toNat < 256 by omega)
  have hencode := Text.utf8EncodeChar_ofNat (b := UInt8.ofNat c.toNat) (by omega)
  rw [hb, Char.ofNat_toNat] at hencode
  refine ⟨_, hencode, ?_, hb⟩
  have hlow : 0x30 ≤ UInt8.ofNat c.toNat := UInt8.le_iff_toNat_le.mpr (by rw [hb]; exact hc.1)
  have hhigh : UInt8.ofNat c.toNat ≤ 0x39 := UInt8.le_iff_toNat_le.mpr (by rw [hb]; exact hc.2)
  simp [isDigit, hlow, hhigh]

theorem isDigit_of_mem {cs : List Char} (h : ∀ c ∈ cs, c.isDigit) :
    ∀ b ∈ bytes cs, isDigit b = true := by
  intro b hb
  obtain ⟨c, hc, hbc⟩ := List.mem_flatMap.mp hb
  obtain ⟨d, hd, hdigit, -⟩ := utf8EncodeChar_digit (h c hc)
  rw [hd, List.mem_singleton] at hbc
  rwa [hbc]

theorem isDigit_of_mem_toDigits {n : Nat} : ∀ c ∈ Nat.toDigits 10 n, c.isDigit :=
  fun _ hc => Nat.isDigit_of_mem_toDigits (by decide) (by decide) hc

/-- Digits are added up while the number they make stays within an unsigned word. -/
theorem absorb_bytes {cs : List Char} (h : ∀ c ∈ cs, c.isDigit) (significand : Nat)
    (hfits : Nat.ofDigitChars 10 cs significand < UInt64.size) :
    absorb significand (bytes cs) = (Nat.ofDigitChars 10 cs significand, []) := by
  induction cs generalizing significand with
  | nil => simp [absorb]
  | cons c cs ih =>
    obtain ⟨hc, hcs⟩ := List.forall_mem_cons.mp h
    obtain ⟨b, hb, -, hvalue⟩ := utf8EncodeChar_digit hc
    have hnext :
        significand * 10 + (b.toNat - 0x30) = 10 * significand + (c.toNat - '0'.toNat) := by
      rw [hvalue, Nat.mul_comm]
      rfl
    rw [Nat.ofDigitChars_cons, ← hnext] at hfits
    rw [bytes_cons, hb, Nat.ofDigitChars_cons, ← hnext]
    -- the number only grows with the digits to come, so it fits at each of them
    have hle : significand * 10 + (b.toNat - 0x30) < UInt64.size := by
      rw [Nat.ofDigitChars_eq_ofDigitChars_zero] at hfits
      have hpos : 0 < 10 ^ cs.length := Nat.pow_pos (by decide)
      have := Nat.le_mul_of_pos_left (significand * 10 + (b.toNat - 0x30)) hpos
      omega
    show absorb significand (b :: bytes cs) = _
    rw [absorb]
    simp only [if_pos hle]
    exact ih hcs _ hfits

/-- Only zero is written with a zero in front. -/
theorem eq_zero_of_head?_toDigits (n : Nat) (h : (Nat.toDigits 10 n).head? = some '0') : n = 0 := by
  induction n using Nat.strongRecOn with
  | ind n ih =>
    rcases Nat.lt_or_ge n 10 with hlt | hge
    · rw [Nat.toDigits_of_lt_base hlt, List.head?_cons, Option.some.injEq] at h
      have hall : ∀ m ∈ List.range 10, m.digitChar = '0' → m = 0 := by decide
      exact hall n (List.mem_range.mpr hlt) h
    · -- the digits in front of the last one are those of a tenth, which is not zero
      rw [Nat.toDigits_of_base_le (by decide) hge,
        List.head?_append_of_ne_nil _ Nat.toDigits_ne_nil] at h
      have htenth := ih (n / 10) (by omega) h
      omega

theorem spanDigits_append {ds : Bytes} (hds : ∀ b ∈ ds, isDigit b = true) (hrest : Follows rest) :
    spanDigits (ds ++ rest) = (ds, rest) := by
  have hstop : ∀ b ∈ rest.head?, ¬ isDigit b = true := by
    intro b hb
    rcases hrest b hb with rfl | rfl | rfl <;> decide
  have htake : rest.takeWhile isDigit = [] := by
    cases rest with
    | nil => rfl
    | cons b r => exact List.takeWhile_cons_of_neg (hstop b rfl)
  have hdrop : rest.dropWhile isDigit = rest := by
    cases rest with
    | nil => rfl
    | cons b r => exact List.dropWhile_cons_of_neg (hstop b rfl)
  rw [spanDigits, List.takeWhile_append_of_pos hds, List.dropWhile_append_of_pos hds, htake, hdrop,
    List.append_nil]

/-! ## Whole numbers -/

/-- The digits of a number that an unsigned word holds. -/
def digits (n : Nat) : Bytes := bytes (Nat.toDigits 10 n)

theorem isDigit_of_mem_digits {n : Nat} : ∀ b ∈ digits n, isDigit b = true :=
  isDigit_of_mem isDigit_of_mem_toDigits

theorem digits_eq_cons (n : Nat) : ∃ c cs b, Nat.toDigits 10 n = c :: cs ∧
    digits n = b :: bytes cs ∧ isDigit b = true ∧ b.toNat = c.toNat := by
  obtain ⟨c, cs, hcs⟩ := List.exists_cons_of_ne_nil (Nat.toDigits_ne_nil (n := n) (b := 10))
  have hc : c.isDigit := isDigit_of_mem_toDigits c (by rw [hcs]; exact List.mem_cons_self)
  obtain ⟨b, hb, hdigit, hvalue⟩ := utf8EncodeChar_digit hc
  refine ⟨c, cs, b, hcs, ?_, hdigit, hvalue⟩
  rw [digits, hcs, bytes_cons, hb]
  rfl

theorem digits_ne_nil (n : Nat) : digits n ≠ [] := by
  obtain ⟨c, cs, b, -, hb, -⟩ := digits_eq_cons n
  rw [hb]
  exact List.cons_ne_nil _ _

theorem no_leading_zero (n : Nat) : ¬ ((digits n).head? = some 0x30 ∧ (digits n).length ≠ 1) := by
  rintro ⟨hhead, hlength⟩
  obtain ⟨c, cs, b, hcs, hb, -, hvalue⟩ := digits_eq_cons n
  rw [hb, List.head?_cons, Option.some.injEq] at hhead
  subst hhead
  have hzero : c = '0' := Char.toNat_inj.mp hvalue.symm
  have hn : n = 0 := eq_zero_of_head?_toDigits n (by rw [hcs, List.head?_cons, hzero])
  rw [hn] at hlength
  exact hlength (by decide)

theorem unsigned_digits (negative : Bool) {n : Nat} (hn : n < UInt64.size) (hrest : Follows rest) :
    unsigned negative (digits n ++ rest) = (wholeNumber negative n).map (·, rest) := by
  have hspan := spanDigits_append (isDigit_of_mem_digits (n := n)) hrest
  have habsorb : absorb 0 (digits n) = (n, []) := by
    have hvalue : Nat.ofDigitChars 10 (Nat.toDigits 10 n) 0 = n := Nat.ofDigitChars_ten_toDigits
    have h := absorb_bytes (isDigit_of_mem_toDigits (n := n)) 0 (by rwa [hvalue])
    rwa [hvalue] at h
  have hne : digits n ++ rest ≠ [] := List.append_ne_nil_of_left_ne_nil (digits_ne_nil n) rest
  simp only [unsigned, hspan, habsorb, if_neg hne]
  rw [if_neg (not_or.mpr ⟨digits_ne_nil n, no_leading_zero n⟩)]
  -- what follows is neither a point nor the letter of an exponent
  split
  · next b r =>
    have hb := hrest b rfl
    have hpoint : ¬ b = 0x2E := by rcases hb with rfl | rfl | rfl <;> decide
    have hletter : ¬ (b = 0x65 ∨ b = 0x45) := by rcases hb with rfl | rfl | rfl <;> decide
    rw [if_neg hpoint, if_neg hletter, if_pos trivial]
  · rw [if_pos trivial]

theorem chars_of_nonneg {i : Int} (h : ¬ i < 0) :
    bytes (Number.whole i).chars = digits i.natAbs := by
  rw [Number.chars, if_neg h]
  rfl

theorem chars_of_neg {i : Int} (h : i < 0) :
    bytes (Number.whole i).chars = minus :: digits i.natAbs := by
  rw [Number.chars, if_pos h]
  rfl

theorem startsNumber_chars (i : Int) :
    ∃ b r, bytes (Number.whole i).chars = b :: r ∧ startsNumber b = true := by
  by_cases h : i < 0
  · exact ⟨minus, digits i.natAbs, chars_of_neg h, by decide⟩
  · obtain ⟨c, cs, b, -, hb, hdigit, -⟩ := digits_eq_cons i.natAbs
    exact ⟨b, bytes cs, by rw [chars_of_nonneg h, hb], by simp [startsNumber, hdigit]⟩

theorem gives_number_of_unsigned {b : UInt8} {t : Bytes} {n : Number}
    (h : (if b = minus then unsigned true (t ++ rest) else unsigned false (b :: t ++ rest)) =
      .ok (n, rest)) : Gives (number (b :: t ++ rest)) n rest := by
  have hshorter : rest.length < (b :: t ++ rest).length := by
    simp only [List.cons_append, List.length_cons, List.length_append]
    omega
  refine ⟨hshorter, ?_⟩
  show number (b :: (t ++ rest)) = _
  simp only [number]
  split at h
  · next hb =>
    rw [if_pos hb, h]
    exact dif_pos hshorter
  · next hb =>
    rw [if_neg hb]
    show (unsigned false (b :: t ++ rest) >>= _) = _
    rw [h]
    exact dif_pos hshorter

/-- A whole number that a signed or an unsigned word holds is read back. -/
theorem gives_number {i : Int} (hlow : Int64.minValue.toInt ≤ i) (hhigh : i < UInt64.size)
    (hrest : Follows rest) :
    Gives (number (bytes (Number.whole i).chars ++ rest)) (.whole i) rest := by
  have hmin : Int64.minValue.toInt = -9223372036854775808 := by decide
  have hsize : UInt64.size = 18446744073709551616 := rfl
  have hfits : i.natAbs < UInt64.size := by omega
  by_cases h : i < 0
  · -- behind the sign stand the digits of a number that is not zero
    have hvalue : -(i.natAbs : Int) = i := by omega
    have hstored : ¬ (i.natAbs = 0 ∨ -(i.natAbs : Int) < Int64.minValue.toInt) := by omega
    have hwhole : wholeNumber true i.natAbs = .ok (.whole i) := by
      rw [wholeNumber, if_neg (by decide), if_neg hstored, hvalue]
    have hread := unsigned_digits true hfits hrest
    rw [hwhole] at hread
    rw [chars_of_neg h]
    exact gives_number_of_unsigned (by rw [if_pos rfl, hread]; rfl)
  · have hvalue : (i.natAbs : Int) = i := by omega
    have hwhole : wholeNumber false i.natAbs = .ok (.whole i) := by
      rw [wholeNumber, if_pos (by decide), hvalue]
    have hread := unsigned_digits false hfits hrest
    obtain ⟨c, cs, b, -, hb, hdigit, -⟩ := digits_eq_cons i.natAbs
    have hminus : b ≠ minus := by
      rintro rfl
      exact absurd hdigit (by decide)
    rw [hwhole, hb] at hread
    rw [chars_of_nonneg h, hb]
    exact gives_number_of_unsigned (by rw [if_neg hminus, hread]; rfl)

/-! ## Machine words -/

theorem token_of_startsNumber {b : UInt8} (h : startsNumber b = true) :
    isBlank b = false ∧ b ≠ closeBracket := by
  refine ⟨Bool.eq_false_iff.mpr fun hblank => ?_, ?_⟩
  · simp only [isBlank, Bool.or_eq_true, beq_iff_eq] at hblank
    rcases hblank with ((rfl | rfl) | rfl) | rfl <;> exact absurd h (by decide)
  · rintro rfl
    exact absurd h (by decide)

theorem ne_of_startsNumber {b c : UInt8} (hb : startsNumber b = true)
    (hc : startsNumber c = false) : b ≠ c := by
  rintro rfl
  rw [hb] at hc
  cases hc

/-- A machine word is read back from its digits. -/
theorem reads_wordValue (w : Word) (x : w.Value) :
    Reads (wordValue w) (bytes (Number.whole (w.toInt x)).chars) x := by
  obtain ⟨b, r, htext, hstart⟩ := startsNumber_chars (w.toInt x)
  obtain ⟨hlow, hhigh⟩ := Word.toInt_bounds w x
  have htoken := token_of_startsNumber hstart
  refine ⟨⟨b, r, htext, htoken⟩, fun rest hrest => ?_⟩
  have hnumber := gives_number hlow hhigh hrest
  rw [htext] at hnumber ⊢
  refine gives_fromToken htoken.1 ?_
  simp only [if_pos hstart]
  refine hnumber.bind fun shorter => ?_
  simp only [Word.ofInt?_toInt]
  exact ⟨shorter, rfl⟩

end Reader

end ApplianceRest.Json
