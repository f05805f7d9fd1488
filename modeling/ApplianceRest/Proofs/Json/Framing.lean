import ApplianceRest.Proofs.Json.Skipping

/-!
# What an atom is read as

A string is read up to its closing quote and a number up to what ends it, and neither depends on
what stands behind. So a string that is written says one text or none, wherever it stands
(`Quoted.text?`), and a number that is written has one value or none (`Numeral.value?`).
-/

namespace ApplianceRest.Json

open Reader

variable {α : Type} {s t r rest rest' : Bytes}

/-- A reading gives one value and leaves one rest. -/
theorem Gives.unique {reading : Except Error (Taken α s)} {x y : α} (h : Gives reading x rest)
    (h' : Gives reading y rest') : x = y ∧ rest = rest' := by
  rcases h with ⟨_, rfl⟩
  exact h'.of_ok

/-- The value that a reading gives, if it gives one. -/
theorem value_eq_some {reading : Except Error (Taken α s)} {x : α} :
    reading.toOption.map (·.value) = some x ↔ ∃ rest, Gives reading x rest := by
  cases reading with
  | error e =>
    constructor
    · intro h
      cases h
    · rintro ⟨rest, h⟩
      exact absurd h not_gives_error
  | ok taken =>
    rcases taken with ⟨y, rest, shorter⟩
    constructor
    · intro h
      cases h
      exact ⟨rest, shorter, rfl⟩
    · rintro ⟨rest', h⟩
      rw [← h.of_ok.1]
      rfl

namespace Reader

/-! ## Strings -/

/-- A reader takes its value from the front of a text, whatever stands behind the front. -/
def ReadsFront (read : Reader α) (s : Bytes) (x : α) (rest : Bytes) : Prop :=
  ∃ front, s = front ++ rest ∧ ∀ r, Gives (read (front ++ r)) x r

variable {x : Bytes} {n : Nat} {b : UInt8}

theorem readsFront_fourHex (h : Gives (fourHex s) n rest) : ReadsFront fourHex s n rest := by
  unfold fourHex at h
  split at h
  · next a b c d t =>
    split at h
    · next w x y z ha hb hc hd =>
      rcases h.of_ok with ⟨rfl, rfl⟩
      refine ⟨[a, b, c, d], rfl, fun r => ?_⟩
      simp only [List.cons_append, List.nil_append, fourHex, ha, hb, hc, hd]
      exact ⟨_, rfl⟩
    · exact absurd h not_gives_error
  · exact absurd h not_gives_error

theorem readsFront_numberedChar (h : Gives (numberedChar s) x rest) :
    ReadsFront numberedChar s x rest := by
  rcases numberedChar_cases h with ⟨n, r, hfirst, hlow, hr⟩
  rcases readsFront_fourHex hfirst with ⟨front, rfl, hfront⟩
  rcases hr with ⟨hhigh, rfl, rfl⟩ | ⟨hhigh, t, m, rfl, hsecond, hm, hx⟩
  · exact ⟨front, rfl, fun r' => gives_numberedChar_single (hfront r') hlow hhigh⟩
  · rcases readsFront_fourHex hsecond with ⟨front', rfl, hfront'⟩
    refine ⟨front ++ backslash :: 0x75 :: front', by simp, fun r' => ?_⟩
    rw [List.append_assoc, hx]
    exact gives_numberedChar_pair (hfront _) hhigh (hfront' r') hm

theorem readsFront_escape (h : Gives (escape s) x rest) : ReadsFront escape s x rest := by
  cases s with
  | nil => exact absurd h not_gives_error
  | cons b r =>
    rw [escape] at h
    split at h
    · next c hc =>
      rcases h.of_ok with ⟨rfl, rfl⟩
      exact ⟨[b], rfl, gives_escape_letter hc⟩
    · split at h
      · next hb =>
        subst hb
        rcases readsFront_numberedChar h.of_behind with ⟨front, rfl, hfront⟩
        exact ⟨0x75 :: front, rfl, fun r' => gives_escape_numbered (hfront r')⟩
      · exact absurd h not_gives_error

/-- What stands behind the closing quote of a string does not matter to it. -/
theorem readsFront_stringBytes {s x rest : Bytes} (h : Gives (stringBytes s) x rest) :
    ReadsFront stringBytes s x rest := by
  match s with
  | [] =>
    rw [stringBytes] at h
    exact absurd h not_gives_error
  | b :: r =>
    rw [stringBytes] at h
    split at h
    · next hb =>
      subst hb
      rcases h.of_ok with ⟨rfl, rfl⟩
      exact ⟨[quote], rfl, gives_stringBytes_quote⟩
    · next hquote =>
      split at h
      · next hb =>
        subst hb
        obtain ⟨c, t, hshorter, hescape, h⟩ := Gives.of_bind h
        obtain ⟨y, t', _, hrest, h⟩ := Gives.of_bind h
        rcases readsFront_stringBytes hrest with ⟨front', ht, hfront'⟩
        rcases readsFront_escape hescape with ⟨front, hr, hfront⟩
        rcases h.of_ok with ⟨hx, ht'⟩
        change c ++ y = x at hx
        change t' = rest at ht'
        change t = front' ++ t' at ht
        subst hx ht'
        refine ⟨backslash :: (front ++ front'), by simp [hr, ht], fun r' => ?_⟩
        rw [List.cons_append, List.append_assoc]
        exact gives_stringBytes_escape (hfront _) (hfront' r')
      · next hslash =>
        split at h
        · exact absurd h not_gives_error
        · next hcontrol =>
          rcases h.of_map fun _ => rfl with ⟨y, _, hrest, rfl⟩
          rcases readsFront_stringBytes hrest with ⟨front, hfront, hgives⟩
          refine ⟨b :: front, by rw [hfront]; rfl, fun r' => ?_⟩
          exact gives_stringBytes_plain ⟨hquote, hslash, hcontrol⟩ (hgives r')
termination_by s.length

theorem readsFront_string {x : String} (h : Gives (string s) x rest) :
    ReadsFront string s x rest := by
  obtain ⟨bytes, r, _, hbytes, h⟩ := Gives.of_bind h
  split at h
  · next htext =>
    rcases h.of_ok with ⟨rfl, rfl⟩
    rcases readsFront_stringBytes hbytes with ⟨front, rfl, hfront⟩
    refine ⟨front, rfl, fun r' => (hfront r').bind fun shorter => ?_⟩
    simp only [htext]
    exact ⟨shorter, rfl⟩
  · exact absurd h not_gives_error

end Reader

/-- The text that a string says, if its bytes are a text. -/
def Quoted.text? (body : Quoted) : Option String :=
  (string (body.bytes ++ [quote])).toOption.map (·.value)

/-- A string is read up to its closing quote, as the text that it says. -/
theorem gives_string_quoted {body : Quoted} {x : String} :
    Gives (string (body.bytes ++ quote :: r)) x rest ↔ rest = r ∧ body.text? = some x := by
  unfold Quoted.text?
  rw [value_eq_some]
  constructor
  · intro h
    -- what is read is passed over as well, and passing over ends at the closing quote
    have hrest := ((gives_skipString_of_string h).unique (gives_skipString_quoted body r)).2
    subst hrest
    refine ⟨rfl, [], ?_⟩
    rcases readsFront_string h with ⟨front, hfront, hgives⟩
    rw [← List.singleton_append, ← List.append_assoc] at hfront
    rw [List.append_cancel_right hfront]
    have hend := hgives []
    rwa [List.append_nil] at hend
  · rintro ⟨rfl, rest', h⟩
    have hrest := ((gives_skipString_of_string h).unique (gives_skipString_quoted body [])).2
    subst hrest
    rcases readsFront_string h with ⟨front, hfront, hgives⟩
    rw [List.append_nil] at hfront
    have hread := hgives rest
    rw [← hfront, List.append_assoc] at hread
    exact hread

/-- Some bytes that stand for themselves between quotes. -/
def Quoted.plain (bs : Bytes) (h : ∀ b ∈ bs, IsPlainByte b) : Quoted := bs.pmap .plain h

theorem Quoted.bytes_plain {bs : Bytes} (h : ∀ b ∈ bs, IsPlainByte b) :
    (Quoted.plain bs h).bytes = bs := by
  unfold Quoted.bytes Quoted.plain
  induction bs with
  | nil => rfl
  | cons b bs ih =>
    rw [List.pmap_cons, List.flatMap_cons, ih]
    rfl

/-- Bytes that stand for themselves say the text that they are. -/
theorem Quoted.text?_plain (cs : List Char) (h : ∀ b ∈ Text.bytes cs, IsPlainByte b) :
    (Quoted.plain (Text.bytes cs) h).text? = some (String.ofList cs) := by
  have hbytes := gives_stringBytes_plain_append h (gives_stringBytes_quote [])
  rw [List.append_nil] at hbytes
  unfold Quoted.text?
  rw [Quoted.bytes_plain, value_eq_some]
  refine ⟨[], hbytes.bind fun shorter => ?_⟩
  simp only [Text.fromUTF8_bytes]
  exact ⟨shorter, rfl⟩

namespace Reader

/-! ## Numbers -/

/-- The sign of an exponent says which way the exponent counts. -/
theorem sign_exponent (e : Exponent) : ∃ down, ∀ r,
    (match e.sign.toList ++ e.digits.bytes ++ r with
      | b :: r => if b = 0x2B then (false, r) else if b = minus then (true, r) else (false, b :: r)
      | [] => (false, [])) = (down, e.digits.bytes ++ r) := by
  rcases e with ⟨letter, isLetter, sign, isSign, bytes, hne, hdigits⟩
  cases sign with
  | some b =>
    rcases isSign b rfl with rfl | rfl
    · exact ⟨false, fun r => rfl⟩
    · exact ⟨true, fun r => rfl⟩
  | none =>
    refine ⟨false, fun r => ?_⟩
    cases bytes with
    | nil => exact absurd rfl hne
    | cons b bytes =>
      have hb := hdigits b List.mem_cons_self
      have hplus : b ≠ 0x2B := by
        rintro rfl
        exact absurd hb (by decide)
      have hminus : b ≠ minus := by
        rintro rfl
        exact absurd hb (by decide)
      dsimp only [Option.toList_none, List.cons_append, List.nil_append]
      rw [if_neg hplus, if_neg hminus]

/-- An exponent completes one number or none, whatever ends it. -/
theorem exponentPart_exponent (negative : Bool) (significand : Nat) (power : Int) (e : Exponent) :
    ∃ made : Except Error Number, ∀ r, Ends r →
      exponentPart negative significand power (e.sign.toList ++ e.digits.bytes ++ r) =
        made.map (·, r) := by
  rcases sign_exponent e with ⟨down, hsign⟩
  -- what is made is said by the sign and the digits alone, so `r` is not in it
  refine ⟨if greatestExponent < digitsValue e.digits.bytes then
      if significand ≠ 0 ∧ !down then .error (.malformed .numberOutOfRange)
      else .ok (.binary ⟨negative, Decimal.Magnitude.zero⟩)
    else binary negative significand (if down then power - digitsValue e.digits.bytes
      else power + digitsValue e.digits.bytes), fun r hr => ?_⟩
  have hspan := spanDigits_digits e.digits fun b hb => (hr.not_numeric b hb).1
  have hne : e.digits.bytes ++ r ≠ [] := by
    intro h
    exact e.digits.ne_nil (List.append_eq_nil_iff.mp h).1
  unfold exponentPart
  split
  next down' t h =>
    cases (hsign r).symm.trans h
    rw [hspan]
    dsimp only
    rw [if_neg hne, if_neg e.digits.ne_nil]
    split
    · split
      · rfl
      · rfl
    · cases binary negative significand _ with
      | error error => rfl
      | ok n => rfl

/-- Behind the digits of a number, its exponent completes it if it has one. -/
theorem exponent_exponentBytes (negative : Bool) (significand : Nat) (power : Int)
    (plain : Except Error Number) (n : Numeral) :
    ∃ made : Except Error Number, ∀ r, Ends r →
      (match n.exponentBytes ++ r with
        | b :: t =>
          if b = 0x65 ∨ b = 0x45 then exponentPart negative significand power t
          else plain.map (·, n.exponentBytes ++ r)
        | [] => plain.map (·, n.exponentBytes ++ r)) = made.map (·, r) := by
  unfold Numeral.exponentBytes
  cases n.exponent with
  | some e =>
    rcases exponentPart_exponent negative significand power e with ⟨made, hmade⟩
    refine ⟨made, fun r hr => ?_⟩
    dsimp only [Exponent.bytes, List.cons_append]
    rw [if_pos e.isLetter]
    exact hmade r hr
  | none =>
    refine ⟨plain, fun r hr => ?_⟩
    dsimp only [List.nil_append]
    cases r with
    | nil => rfl
    | cons b t =>
      have hb := hr.not_numeric b rfl
      exact if_neg (not_or.mpr ⟨hb.2.2.1, hb.2.2.2.1⟩)

/-- A fraction and the exponent behind it complete one number or none, whatever ends it. -/
theorem fractionPart_fraction (negative : Bool) (significand : Nat) (power : Int) (ds : Digits)
    (n : Numeral) : ∃ made : Except Error Number, ∀ r, Ends r →
      fractionPart negative significand power (ds.bytes ++ (n.exponentBytes ++ r)) =
        made.map (·, r) := by
  rcases hfit : absorb significand ds.bytes with ⟨significand', left⟩
  rcases hpower : power - Int.ofNat (ds.bytes.length - left.length) with power'
  rcases exponent_exponentBytes negative significand' power' (binary negative significand' power') n
    with ⟨made, hmade⟩
  refine ⟨made, fun r hr => ?_⟩
  have hspan := spanDigits_digits ds fun b hb => (not_digit_exponentBytes n hr b hb).1
  unfold fractionPart
  rw [hspan]
  dsimp only
  rw [if_neg ds.ne_nil, hfit]
  dsimp only
  rw [hpower]
  exact hmade r hr

/-- A number without its sign has one value or none, whatever ends it. -/
theorem unsigned_numeral (negative : Bool) (n : Numeral) :
    ∃ made : Except Error Number, ∀ r, Ends r →
      unsigned negative (n.unsignedBytes ++ r) = made.map (·, r) := by
  have hunsigned : ∀ r, n.unsignedBytes ++ r ≠ [] := by
    intro r h
    rcases unsignedBytes_eq_cons n with ⟨b, t, htext, -⟩
    rw [htext] at h
    cases h
  have hspan : ∀ r, Ends r → spanDigits (n.unsignedBytes ++ r) =
      (n.whole.bytes, n.fractionBytes ++ (n.exponentBytes ++ r)) :=
    fun r hr => spanDigits_unsignedBytes n hr
  have hwhole := not_or.mpr ⟨n.whole.ne_nil, n.noLeadingZero⟩
  rcases hfit : absorb 0 n.whole.bytes with ⟨significand, left⟩
  unfold Numeral.fractionBytes at hspan
  cases hfraction : n.fraction with
  | some ds =>
    rw [hfraction] at hspan
    rcases fractionPart_fraction negative significand (Int.ofNat left.length) ds n
      with ⟨made, hmade⟩
    refine ⟨made, fun r hr => ?_⟩
    unfold unsigned
    rw [hspan r hr]
    dsimp only [List.cons_append]
    rw [if_neg (hunsigned r), if_neg hwhole, hfit]
    dsimp only
    rw [if_pos rfl]
    exact hmade r hr
  | none =>
    rw [hfraction] at hspan
    rcases exponent_exponentBytes negative significand (Int.ofNat left.length)
      (if left = [] then wholeNumber negative significand
        else binary negative significand (Int.ofNat left.length)) n with ⟨made, hmade⟩
    refine ⟨made, fun r hr => ?_⟩
    unfold unsigned
    rw [hspan r hr]
    dsimp only [List.nil_append]
    rw [if_neg (hunsigned r), if_neg hwhole, hfit]
    dsimp only
    rw [← hmade r hr]
    have hpoint := not_digit_exponentBytes n hr
    cases htext : n.exponentBytes ++ r with
    | nil => rfl
    | cons b t =>
      rw [htext] at hpoint
      exact if_neg (hpoint b rfl).2

/-- A number has one value or none, whatever ends it. -/
theorem gives_number_bytes (n : Numeral) : ∃ made : Except Error Number,
    ∀ {r x rest}, Ends r → (Gives (number (n.bytes ++ r)) x rest ↔ rest = r ∧ made = .ok x) := by
  rcases unsigned_numeral n.isNegative n with ⟨made, hmade⟩
  rcases n.bytes_eq_cons with ⟨b, t, htext, -⟩
  have hread : ∀ r, Ends r →
      (if b = minus then unsigned true (t ++ r) else unsigned false (b :: t ++ r)) =
        made.map (·, r) := by
    intro r hr
    rw [← hmade r hr]
    unfold Numeral.bytes at htext
    cases hnegative : n.isNegative with
    | true =>
      rw [hnegative, if_pos rfl] at htext
      cases htext
      exact if_pos rfl
    | false =>
      rw [hnegative, if_neg Bool.false_ne_true] at htext
      rcases unsignedBytes_eq_cons n with ⟨c, t', htext', hc⟩
      rw [htext'] at htext ⊢
      cases htext
      -- the first byte is a digit and no sign
      refine if_neg ?_
      rintro rfl
      exact absurd hc (by decide)
  refine ⟨made, fun {r x rest} hr => ?_⟩
  rw [htext]
  constructor
  · intro h
    have hvalue := (hread r hr).symm.trans (unsigned_of_gives_number h)
    cases made with
    | error e => cases hvalue
    | ok y =>
      cases hvalue
      exact ⟨rfl, rfl⟩
  · rintro ⟨rfl, rfl⟩
    exact gives_number_of_unsigned (hread rest hr)

end Reader

/-- The value that a number has, if it is in range. -/
def Numeral.value? (n : Numeral) : Option Number := (Reader.number n.bytes).toOption.map (·.value)

/-- A number is read up to what ends it, as the value that it has. -/
theorem gives_number_numeral {n : Numeral} {x : Number} (hr : Ends r) :
    Gives (Reader.number (n.bytes ++ r)) x rest ↔ rest = r ∧ n.value? = some x := by
  rcases gives_number_bytes n with ⟨made, hmade⟩
  have hend : ∀ {rest}, Gives (Reader.number n.bytes) x rest ↔ rest = [] ∧ made = .ok x := by
    intro rest
    rw [← hmade ends_nil, List.append_nil]
  unfold Numeral.value?
  rw [hmade hr, value_eq_some]
  simp only [hend, exists_eq_left]

end ApplianceRest.Json
