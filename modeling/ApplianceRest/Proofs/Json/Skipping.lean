import ApplianceRest.Proofs.Json.Written

/-!
# Every well-formed value is passed over

Passing over a value asks for nothing but its form: whatever is written by the grammar is passed
over up to its last token, however deep it nests, however large its numbers are and whether or not
its strings are texts (`gives_skip_written`).
-/

namespace ApplianceRest.Json

open Reader

variable {s t r rest : Bytes} {b : UInt8}

/-! ## Strings -/

theorem gives_fourHex {a b c d : UInt8} (h : ∀ x ∈ [a, b, c, d], (hexValue? x).isSome = true)
    (r : Bytes) : ∃ n, Gives (fourHex (a :: b :: c :: d :: r)) n r := by
  simp only [List.forall_mem_cons, Option.isSome_iff_exists] at h
  rcases h with ⟨⟨w, ha⟩, ⟨x, hb⟩, ⟨y, hc⟩, ⟨z, hd⟩, -⟩
  refine ⟨((w * 16 + x) * 16 + y) * 16 + z, ?_⟩
  simp only [fourHex, ha, hb, hc, hd]
  exact ⟨_, rfl⟩

theorem gives_skipString_plain (hb : IsPlainByte b) (h : Gives (skipString r) () rest) :
    Gives (skipString (b :: r)) () rest := by
  rw [skipString.eq_def]
  dsimp only
  rw [if_neg hb.1, if_neg hb.2.1, if_neg hb.2.2]
  exact h.behind b

/-- What stands between two quotes is passed over with the closing one. -/
theorem gives_skipString_quoted (body : Quoted) (r : Bytes) :
    Gives (skipString (body.bytes ++ (quote :: r))) () r := by
  unfold Quoted.bytes
  induction body with
  | nil =>
    rw [skipString.eq_def]
    exact ⟨_, rfl⟩
  | cons unit body ih =>
    rw [List.flatMap_cons, List.append_assoc]
    cases unit with
    | plain b hb => exact gives_skipString_plain hb ih
    | letter b hb => exact gives_skipString_letter hb ih
    | number a b c d hex =>
      rcases gives_fourHex hex _ with ⟨n, hn⟩
      exact gives_skipString_number hn ih

/-! ## Numbers -/

theorem spanDigits_digits (ds : Digits) {r : Bytes} (hr : ∀ b ∈ r.head?, isDigit b = false) :
    spanDigits (ds.bytes ++ r) = (ds.bytes, r) := by
  unfold spanDigits
  have hrest : r.dropWhile isDigit = r ∧ r.takeWhile isDigit = [] := by
    cases r with
    | nil => exact ⟨rfl, rfl⟩
    | cons b r =>
      have hb : isDigit b = false := hr b rfl
      exact ⟨List.dropWhile_cons_of_neg (by simp [hb]), List.takeWhile_cons_of_neg (by simp [hb])⟩
  rw [List.takeWhile_append_of_pos ds.areDigits, List.dropWhile_append_of_pos ds.areDigits,
    hrest.1, hrest.2, List.append_nil]

/-- What ends a value is no part of a number. -/
theorem Ends.not_numeric (h : Ends r) :
    ∀ b ∈ r.head?, isDigit b = false ∧ b ≠ 0x2E ∧ b ≠ 0x65 ∧ b ≠ 0x45 ∧ b ≠ 0x2B ∧ b ≠ minus := by
  intro b hb
  have hblank : ∀ c, isBlank c = true → c = 0x20 ∨ c = 0x09 ∨ c = 0x0A ∨ c = 0x0D := by
    intro c hc
    simpa [isBlank, or_assoc] using hc
  rcases h b hb with hb | rfl | rfl | rfl
  · rcases hblank b hb with rfl | rfl | rfl | rfl <;> decide
  · decide
  · decide
  · decide

theorem skipExponent_behind (sign : Option UInt8) (hsign : ∀ b ∈ sign, b = 0x2B ∨ b = minus)
    (ds : Digits) (hr : Ends r) :
    skipExponent (sign.toList ++ ds.bytes ++ r) = .ok r := by
  have hspan := spanDigits_digits ds fun b hb => (hr.not_numeric b hb).1
  unfold skipExponent
  cases sign with
  | some b =>
    dsimp only [Option.toList_some, List.cons_append, List.nil_append]
    rw [if_pos (hsign b rfl), hspan]
    exact if_neg ds.ne_nil
  | none =>
    -- without a sign the first digit is no sign either
    rcases ds with ⟨bytes, hne, hdigits⟩
    cases bytes with
    | nil => exact absurd rfl hne
    | cons b bytes =>
      have hb := hdigits b List.mem_cons_self
      have hnosign : ¬(b = 0x2B ∨ b = minus) := by
        rintro (rfl | rfl)
        · exact absurd hb (by decide)
        · exact absurd hb (by decide)
      dsimp only [Option.toList_none, List.cons_append, List.nil_append] at hspan ⊢
      rw [if_neg hnosign, hspan]
      exact if_neg hne

theorem skipExponent_exponent (e : Exponent) (hr : Ends r) :
    ∃ t, e.bytes ++ r = e.letter :: t ∧ skipExponent t = .ok r := by
  refine ⟨e.sign.toList ++ e.digits.bytes ++ r, ?_, skipExponent_behind e.sign e.isSign e.digits hr⟩
  unfold Exponent.bytes
  rw [List.cons_append]

/-- Behind the digits of a number its exponent is passed over, if it has one. -/
theorem skip_exponentBytes (n : Numeral) (hr : Ends r) :
    (match n.exponentBytes ++ r with
      | c :: t => if c = 0x65 ∨ c = 0x45 then skipExponent t else .ok (n.exponentBytes ++ r)
      | [] => .ok []) = (.ok r : Except Error Bytes) := by
  unfold Numeral.exponentBytes
  cases n.exponent with
  | some e =>
    rcases skipExponent_exponent e hr with ⟨t, htext, hskip⟩
    dsimp only
    rw [htext]
    exact (if_pos e.isLetter).trans hskip
  | none =>
    dsimp only [List.nil_append]
    cases r with
    | nil => rfl
    | cons c t =>
      have hc := hr.not_numeric c rfl
      exact if_neg (not_or.mpr ⟨hc.2.2.1, hc.2.2.2.1⟩)

theorem not_digit_exponentBytes (n : Numeral) (hr : Ends r) :
    ∀ b ∈ (n.exponentBytes ++ r).head?, isDigit b = false ∧ b ≠ 0x2E := by
  intro b hb
  unfold Numeral.exponentBytes at hb
  cases he : n.exponent with
  | some e =>
    rw [he] at hb
    have hletter : b = e.letter := (Option.some.inj hb).symm
    rcases e.isLetter with h | h
    · rw [hletter, h]
      decide
    · rw [hletter, h]
      decide
  | none =>
    rw [he] at hb
    exact ⟨(hr.not_numeric b hb).1, (hr.not_numeric b hb).2.1⟩

/-- The digits in front of a number are all that stand before its fraction and its exponent. -/
theorem spanDigits_unsignedBytes (n : Numeral) (hr : Ends r) :
    spanDigits (n.unsignedBytes ++ r) =
      (n.whole.bytes, n.fractionBytes ++ (n.exponentBytes ++ r)) := by
  unfold Numeral.unsignedBytes Numeral.fractionBytes
  rw [List.append_assoc, List.append_assoc]
  apply spanDigits_digits
  cases n.fraction with
  | some ds =>
    intro b hb
    rw [← Option.some.inj hb]
    decide
  | none => exact fun b hb => (not_digit_exponentBytes n hr b hb).1

/-- A number without its sign is passed over up to what ends it. -/
theorem skipUnsigned_numeral (n : Numeral) (hr : Ends r) :
    skipUnsigned (n.unsignedBytes ++ r) = .ok r := by
  have hexponent := not_digit_exponentBytes n hr
  unfold skipUnsigned
  rw [spanDigits_unsignedBytes n hr]
  dsimp only
  rw [if_neg (not_or.mpr ⟨n.whole.ne_nil, n.noLeadingZero⟩)]
  have hskip := skip_exponentBytes n hr
  unfold Numeral.fractionBytes
  cases n.fraction with
  | some ds =>
    have hspan := spanDigits_digits ds fun b hb => (hexponent b hb).1
    dsimp only [List.cons_append]
    rw [if_pos rfl, hspan]
    exact (if_neg ds.ne_nil).trans hskip
  | none =>
    dsimp only [List.nil_append]
    cases htext : n.exponentBytes ++ r with
    | nil =>
      rw [htext] at hskip
      exact hskip
    | cons b t =>
      rw [htext] at hskip hexponent
      exact (if_neg (hexponent b rfl).2).trans hskip

theorem unsignedBytes_eq_cons (n : Numeral) :
    ∃ b t, n.unsignedBytes = b :: t ∧ isDigit b = true := by
  rcases n with ⟨isNegative, ⟨bytes, hne, hdigits⟩, hzero, fraction, exponent⟩
  cases bytes with
  | nil => exact absurd rfl hne
  | cons b t => exact ⟨b, _, rfl, hdigits b List.mem_cons_self⟩

/-- A number starts with a sign or a digit. -/
theorem Numeral.bytes_eq_cons (n : Numeral) :
    ∃ b t, n.bytes = b :: t ∧ startsNumber b = true := by
  unfold Numeral.bytes
  split
  · exact ⟨minus, _, rfl, by decide⟩
  · rcases unsignedBytes_eq_cons n with ⟨b, t, htext, hb⟩
    refine ⟨b, t, htext, ?_⟩
    unfold startsNumber
    rw [hb, Bool.or_true]

/-- A number is passed over up to what ends it. -/
theorem gives_skipNumber_numeral (n : Numeral) (hr : Ends r) :
    Gives (skipNumber (n.bytes ++ r)) () r := by
  rcases unsignedBytes_eq_cons n with ⟨b, t, htext, hb⟩
  have hskip := skipUnsigned_numeral n hr
  have hshorter : r.length < (n.unsignedBytes ++ r).length := by
    rw [htext, List.length_append, List.length_cons]
    omega
  unfold Numeral.bytes
  by_cases hnegative : n.isNegative = true
  · rw [if_pos hnegative]
    exact gives_skipNumber_minus hskip (Nat.lt_succ_of_lt hshorter)
  · have hminus : b ≠ minus := by
      rintro rfl
      exact absurd hb (by decide)
    rw [if_neg hnegative]
    rw [htext] at hskip hshorter ⊢
    exact gives_skipNumber_unsigned hskip hminus hshorter

/-! ## Values -/

theorem gives_skip_atom (a : Atom) (hs : skipBlank s = a.bytes ++ r) (hr : Ends r) :
    Gives (skip s) () r := by
  cases a with
  | null => exact gives_skip_word hs (Or.inl ⟨rfl, rfl⟩)
  | boolean value =>
    cases value with
    | true => exact gives_skip_word hs (Or.inr (Or.inl ⟨rfl, rfl⟩))
    | false => exact gives_skip_word hs (Or.inr (Or.inr ⟨rfl, rfl⟩))
  | number n =>
    rcases n.bytes_eq_cons with ⟨b, t, htext, hb⟩
    have hnumber := gives_skipNumber_numeral n hr
    change skipBlank s = n.bytes ++ r at hs
    rw [htext] at hs hnumber
    exact gives_skip_number hs hb hnumber
  | string body =>
    change skipBlank s = quote :: (body.bytes ++ [quote]) ++ r at hs
    rw [List.cons_append, List.append_assoc] at hs
    exact gives_skip_string hs (gives_skipString_quoted body r)

/-- What the text of a value starts with. -/
theorem Written.token_eq_cons (w : Written) :
    ∃ b t, w.token = b :: t ∧ isBlank b = false ∧ b ≠ closeBracket ∧ b ≠ closeBrace := by
  cases w with
  | atom before a behind =>
    rw [Written.token]
    cases a with
    | null => exact ⟨_, _, rfl, by decide⟩
    | boolean value => cases value <;> exact ⟨_, _, rfl, by decide⟩
    | number n =>
      rcases n.bytes_eq_cons with ⟨b, t, htext, hb⟩
      rcases token_of_startsNumber hb with ⟨hblank, hbracket⟩
      exact ⟨b, t, htext, hblank, hbracket, ne_of_startsNumber hb (by decide)⟩
    | string body => exact ⟨_, _, rfl, by decide⟩
  | list before items inner behind =>
    cases items with
    | nil =>
      rw [Written.token]
      exact ⟨_, _, rfl, by decide⟩
    | cons w ws =>
      rw [Written.token]
      exact ⟨_, _, rfl, by decide⟩
  | object before members inner behind =>
    cases members with
    | nil =>
      rw [Written.token]
      exact ⟨_, _, rfl, by decide⟩
    | cons m ms =>
      rw [Written.token]
      exact ⟨_, _, rfl, by decide⟩

theorem skipBlank_token (w : Written) (r : Bytes) : skipBlank (w.token ++ r) = w.token ++ r := by
  rcases w.token_eq_cons with ⟨b, t, htext, hb, -⟩
  rw [htext, List.cons_append, skipBlank_cons hb]

/-- A value is found behind the blanks before it. -/
theorem skipBlank_before (w : Written) (r : Bytes) :
    skipBlank (w.before.bytes ++ (w.token ++ r)) = w.token ++ r := by
  rw [skipBlank_blanks, skipBlank_token]

theorem skipBlank_comma (pad : Blanks) (r : Bytes) :
    skipBlank (pad.bytes ++ comma :: r) = comma :: r := by
  rw [skipBlank_blanks, skipBlank_cons (by decide)]

/-- The text of a member, from its key on. -/
theorem skipBlank_key (k : Key) (r : Bytes) : skipBlank (k.bytes ++ r) =
    quote :: (k.body.bytes ++ (quote :: (k.behind.bytes ++ r))) := by
  unfold Key.bytes
  rw [List.append_assoc, skipBlank_blanks, List.cons_append, skipBlank_cons (by decide),
    List.append_assoc, List.cons_append]

/-- A member is passed over if its value is. -/
theorem gives_skipMember_written {k : Key} {w : Written}
    (hs : skipBlank s = quote :: (k.body.bytes ++ (quote :: (k.behind.bytes ++ (colon ::
      (w.before.bytes ++ (w.token ++ r)))))))
    (hvalue : Gives (skip (w.before.bytes ++ (w.token ++ r))) () r) :
    Gives (skipMember s) () r := by
  apply gives_skipMember hs (gives_skipString_quoted k.body _)
  refine gives_memberValue ?_ hvalue
  rw [skipBlank_blanks, skipBlank_cons (by decide)]

mutual

/-- Whatever is written is passed over up to its last token. -/
theorem gives_skip_written : (w : Written) → {s r : Bytes} → skipBlank s = w.token ++ r → Ends r →
    Gives (skip s) () r
  | .atom _ a _, s, r, hs, hr => by
    rw [Written.token] at hs
    exact gives_skip_atom a hs hr
  | .list _ [] inner _, s, r, hs, _ => by
    rw [Written.token_list_nil] at hs
    refine gives_skip_list_nil hs ?_
    rw [skipBlank_blanks, skipBlank_cons (by decide)]
  | .list _ (w :: ws) _ _, s, r, hs, _ => by
    rw [Written.token_list_cons] at hs
    rcases w.token_eq_cons with ⟨b, t, htext, -, hbracket, -⟩
    have hfirst := skipBlank_before w (w.behind.bytes ++ (Written.restItems ws ++ r))
    have hitem := gives_skip_written w hfirst (ends_blanks w.behind (ends_restItems ws r))
    rw [htext, List.cons_append] at hfirst hitem hs
    exact gives_skip_list_cons hs hfirst hbracket hitem (gives_skipItems_written ws w.behind r)
  | .object _ [] inner _, s, r, hs, _ => by
    rw [Written.token_object_nil] at hs
    refine gives_skip_object_nil hs ?_
    rw [skipBlank_blanks, skipBlank_cons (by decide)]
  | .object _ ((k, w) :: ms) _ _, s, r, hs, _ => by
    rw [Written.token_object_cons] at hs
    have hkey := skipBlank_key k (colon :: (w.before.bytes ++
      (w.token ++ (w.behind.bytes ++ (Written.restMembers ms ++ r)))))
    have hvalue := gives_skip_written w (skipBlank_before w _)
      (ends_blanks w.behind (ends_restMembers ms r))
    have hmember := gives_skipMember_written hkey hvalue
    exact gives_skip_object_cons hs hkey (by decide) hmember
      (gives_skipMembers_written ms w.behind r)

/-- The items behind one of a list are passed over with its closing bracket. -/
theorem gives_skipItems_written : (ws : List Written) → (pad : Blanks) → (r : Bytes) →
    Gives (skipItems (pad.bytes ++ (Written.restItems ws ++ r))) () r
  | [], pad, r => by
    apply gives_skipItems_last
    rw [skipBlank_blanks]
    exact skipBlank_cons (by decide) r
  | w :: ws, pad, r => by
    rw [Written.restItems_cons]
    have hitem := gives_skip_written w (skipBlank_before w _)
      (ends_blanks w.behind (ends_restItems ws r))
    exact gives_skipItems_comma (skipBlank_comma pad _) hitem
      (gives_skipItems_written ws w.behind r)

/-- The members behind one of an object are passed over with its closing brace. -/
theorem gives_skipMembers_written : (ms : List (Key × Written)) → (pad : Blanks) → (r : Bytes) →
    Gives (skipMembers (pad.bytes ++ (Written.restMembers ms ++ r))) () r
  | [], pad, r => by
    apply gives_skipMembers_last
    rw [skipBlank_blanks]
    exact skipBlank_cons (by decide) r
  | (k, w) :: ms, pad, r => by
    rw [Written.restMembers_cons]
    have hkey := skipBlank_key k (colon :: (w.before.bytes ++
      (w.token ++ (w.behind.bytes ++ (Written.restMembers ms ++ r)))))
    have hvalue := gives_skip_written w (skipBlank_before w _)
      (ends_blanks w.behind (ends_restMembers ms r))
    exact gives_skipMembers_comma (skipBlank_comma pad _) (gives_skipMember_written hkey hvalue)
      (gives_skipMembers_written ms w.behind r)

end

end ApplianceRest.Json
