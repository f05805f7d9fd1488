import ApplianceRest.Json.Document
import ApplianceRest.Json.Skip
import ApplianceRest.Proofs.Json.Inversion

/-!
# What can be read can be passed over

Passing over a value asks less of it than reading it: not whether its strings are texts, how large
its numbers are or how deep it nests. So whatever is read as a document is passed over, and what is
behind it is the same (`gives_skip_of_document`).
-/

namespace ApplianceRest.Json.Reader

variable {α σ : Type} {read : Reader α} {s t r rest rest' : Bytes} {b : UInt8}

/-! ## Strings -/

/-- Behind the letter `u` stand four digits that number a character, or one half of a pair; then the
other half is numbered by four more behind the same letter. -/
theorem numberedChar_cases {x : Bytes} (h : Gives (numberedChar s) x rest) :
    ∃ n r, Gives (fourHex s) n r ∧ ¬(0xDC00 ≤ n ∧ n ≤ 0xDFFF) ∧
      ((¬(0xD800 ≤ n ∧ n ≤ 0xDBFF) ∧ x = codePoint n ∧ r = rest) ∨
        ((0xD800 ≤ n ∧ n ≤ 0xDBFF) ∧ ∃ t m, r = backslash :: 0x75 :: t ∧
          Gives (fourHex t) m rest ∧ (0xDC00 ≤ m ∧ m ≤ 0xDFFF) ∧
          x = codePoint ((n - 0xD800) * 0x400 + (m - 0xDC00) + 0x10000))) := by
  obtain ⟨n, r, _, hfirst, h⟩ := Gives.of_bind h
  split at h
  · exact absurd h not_gives_error
  · next hlow =>
    refine ⟨n, r, hfirst, hlow, ?_⟩
    split at h
    · next hhigh =>
      split at h
      · exact absurd h not_gives_error
      · next b r' hr =>
        dsimp only at hr
        split at h
        · exact absurd h not_gives_error
        · next hb =>
          split at h
          · exact absurd h not_gives_error
          · next u t =>
            split at h
            · exact absurd h not_gives_error
            · next hu =>
              obtain ⟨m, r', _, hsecond, h⟩ := Gives.of_bind h
              split at h
              · next hm =>
                obtain ⟨rfl, rfl⟩ := h.of_ok
                exact .inr ⟨hhigh, t, m, by rw [hr, not_not.mp hb, not_not.mp hu], hsecond, hm, rfl⟩
              · exact absurd h not_gives_error
    · next hhigh =>
      obtain ⟨rfl, rfl⟩ := h.of_ok
      exact .inl ⟨hhigh, rfl, rfl⟩

theorem gives_skipString_letter {c : UInt8} (hc : (escapedByte? c).isSome = true)
    (h : Gives (skipString r) () rest) : Gives (skipString (backslash :: c :: r)) () rest := by
  rw [skipString, if_neg (by decide), if_pos rfl]
  dsimp only
  obtain ⟨_, h⟩ := h
  rw [if_pos hc, h]
  exact ⟨_, rfl⟩

theorem gives_skipString_number {n : Nat} (hread : Gives (fourHex t) n r)
    (h : Gives (skipString r) () rest) : Gives (skipString (backslash :: 0x75 :: t)) () rest := by
  rw [skipString, if_neg (by decide), if_pos rfl]
  dsimp only
  rw [if_neg (by decide), if_pos rfl]
  exact hread.bind fun _ => h.within _

/-- A string that is read is passed over. -/
theorem gives_skipString {s x rest : Bytes} (h : Gives (stringBytes s) x rest) :
    Gives (skipString s) () rest := by
  match s with
  | [] =>
    rw [stringBytes] at h
    exact absurd h not_gives_error
  | b :: r =>
    rw [stringBytes] at h
    split at h
    · next hb =>
      obtain ⟨-, rfl⟩ := h.of_ok
      rw [skipString.eq_def]
      dsimp only
      rw [if_pos hb]
      exact ⟨_, rfl⟩
    split at h
    · next hb =>
      obtain ⟨c, t, hshorter, hescape, h⟩ := Gives.of_bind h
      obtain ⟨y, t', _, hrest, h⟩ := Gives.of_bind h
      have hpassed := gives_skipString hrest
      obtain ⟨-, rfl⟩ := h.of_ok
      subst hb
      cases r with
      | nil => exact absurd hescape not_gives_error
      | cons c r' =>
        rw [escape] at hescape
        split at hescape
        · next hletter =>
          obtain ⟨-, rfl⟩ := hescape.of_ok
          exact gives_skipString_letter (by rw [hletter]; rfl) hpassed
        · split at hescape
          · next hu =>
            subst hu
            obtain ⟨n, r, hfirst, -, hr⟩ := numberedChar_cases hescape.of_behind
            rcases hr with ⟨-, -, rfl⟩ | ⟨-, t, m, rfl, hsecond, -⟩
            · exact gives_skipString_number hfirst hpassed
            · exact gives_skipString_number hfirst (gives_skipString_number hsecond hpassed)
          · exact absurd hescape not_gives_error
    · next hquote hslash =>
      split at h
      · exact absurd h not_gives_error
      · next hcontrol =>
        obtain ⟨_, _, hrest, -⟩ := h.of_map fun _ => rfl
        rw [skipString.eq_def]
        dsimp only
        rw [if_neg hquote, if_neg hslash, if_neg hcontrol]
        exact (gives_skipString hrest).behind b
termination_by s.length

theorem gives_skipString_of_string {x : String} (h : Gives (string s) x rest) :
    Gives (skipString s) () rest := by
  obtain ⟨bytes, r, _, hbytes, h⟩ := Gives.of_bind h
  split at h
  · obtain ⟨-, rfl⟩ := h.of_ok
    exact gives_skipString hbytes
  · exact absurd h not_gives_error

/-! ## Numbers -/

variable {negative : Bool} {significand : Nat} {power : Int} {n : Number}

/-- Whatever number is made of some digits, what is behind them stays. -/
theorem rest_of_map {made : Except Error Number}
    (h : made.map (·, rest') = .ok (n, rest)) : rest' = rest := by
  cases made with
  | error e => cases h
  | ok m =>
    cases h
    rfl

theorem skipExponent_of_exponentPart
    (h : exponentPart negative significand power s = .ok (n, rest)) :
    skipExponent s = .ok rest := by
  unfold exponentPart at h
  split at h
  next down t hsign =>
    -- both read the digits behind the same sign
    have hskip : skipExponent s = if (spanDigits t).1 = [] then .error (.malformed .invalidNumber)
        else .ok (spanDigits t).2 := by
      cases s with
      | nil =>
        cases hsign
        rfl
      | cons b r =>
        dsimp only at hsign
        have ht : (if b = 0x2B ∨ b = minus then r else b :: r) = t := by
          by_cases hplus : b = 0x2B
          · rw [if_pos hplus] at hsign
            rw [if_pos (Or.inl hplus), (Prod.mk.inj hsign).2]
          · by_cases hminus : b = minus
            · rw [if_neg hplus, if_pos hminus] at hsign
              rw [if_pos (Or.inr hminus), (Prod.mk.inj hsign).2]
            · rw [if_neg hplus, if_neg hminus] at hsign
              rw [if_neg (not_or.mpr ⟨hplus, hminus⟩), (Prod.mk.inj hsign).2]
        rw [skipExponent]
        dsimp only
        rw [ht]
    rw [hskip]
    dsimp only at h
    split at h
    · cases h
    split at h
    · cases h
    · next hds =>
      rw [if_neg hds]
      congr 1
      split at h
      · split at h
        · cases h
        · cases h
          rfl
      · exact rest_of_map (n := n) h

/-- Behind the digits of a number there may be an exponent. -/
theorem skip_of_exponent {made : Except Error Number} :
    (match s with
      | c :: r => if c = 0x65 ∨ c = 0x45 then exponentPart negative significand power r
        else made.map (·, s)
      | [] => made.map (·, s)) = .ok (n, rest) →
    (match s with
      | c :: r => if c = 0x65 ∨ c = 0x45 then skipExponent r else .ok s
      | [] => .ok []) = (.ok rest : Except Error Bytes) := by
  intro h
  cases s with
  | nil => exact congrArg Except.ok (rest_of_map h)
  | cons c r =>
    replace h : (if c = 0x65 ∨ c = 0x45 then exponentPart negative significand power r
      else made.map (·, c :: r)) = .ok (n, rest) := h
    by_cases hletter : c = 0x65 ∨ c = 0x45
    · rw [if_pos hletter] at h
      exact (if_pos hletter).trans (skipExponent_of_exponentPart h)
    · rw [if_neg hletter] at h
      exact (if_neg hletter).trans (congrArg Except.ok (rest_of_map h))

/-- A fraction has digits, and perhaps an exponent. -/
theorem skip_of_fractionPart (h : fractionPart negative significand power s = .ok (n, rest)) :
    (spanDigits s).1 ≠ [] ∧ (match (spanDigits s).2 with
      | c :: r => if c = 0x65 ∨ c = 0x45 then skipExponent r else .ok (spanDigits s).2
      | [] => .ok []) = (.ok rest : Except Error Bytes) := by
  unfold fractionPart at h
  dsimp only at h
  by_cases hds : (spanDigits s).1 = []
  · rw [if_pos hds] at h
    cases h
  · rw [if_neg hds] at h
    exact ⟨hds, skip_of_exponent h⟩

/-- A number without its sign is passed over. -/
theorem skipUnsigned_of_unsigned (h : unsigned negative s = .ok (n, rest)) :
    skipUnsigned s = .ok rest := by
  unfold unsigned at h
  unfold skipUnsigned
  dsimp only at h ⊢
  by_cases hs : s = []
  · rw [if_pos hs] at h
    cases h
  rw [if_neg hs] at h
  by_cases hds : (spanDigits s).1 = [] ∨
      (List.head? (spanDigits s).1 = some 0x30 ∧ List.length (spanDigits s).1 ≠ 1)
  · rw [if_pos hds] at h
    cases h
  rw [if_neg hds] at h ⊢
  generalize (spanDigits s).2 = behind at h ⊢
  cases behind with
  | nil => exact congrArg Except.ok (rest_of_map h)
  | cons b r =>
    replace h : (if b = 0x2E then _ else _) = Except.ok (n, rest) := h
    by_cases hpoint : b = 0x2E
    · rw [if_pos hpoint] at h
      obtain ⟨hdigits, hrest⟩ := skip_of_fractionPart h
      exact (if_pos hpoint).trans ((if_neg hdigits).trans hrest)
    · rw [if_neg hpoint] at h
      exact (if_neg hpoint).trans (skip_of_exponent (s := b :: r) h)

/-- Both make sure that something has been read. -/
theorem ok_of_gives_shorter {made : Except Error (Number × Bytes)} {e : Error}
    (h : Gives (made >>= fun (n, rest) =>
      if h : rest.length < s.length then .ok ⟨n, rest, h⟩ else .error e) n rest) :
    made = .ok (n, rest) := by
  cases made with
  | error _ => exact absurd h not_gives_error
  | ok read =>
    obtain ⟨m, r⟩ := read
    replace h : Gives (if h : r.length < s.length then .ok ⟨m, r, h⟩ else .error e) n rest := h
    split at h
    · obtain ⟨rfl, rfl⟩ := h.of_ok
      rfl
    · exact absurd h not_gives_error

theorem unsigned_of_gives_number (h : Gives (number (b :: s)) n rest) :
    (if b = minus then unsigned true s else unsigned false (b :: s)) = .ok (n, rest) := by
  unfold number at h
  dsimp only at h
  split at h
  · next hb =>
    rw [if_pos hb]
    exact ok_of_gives_shorter h
  · next hb =>
    rw [if_neg hb]
    exact ok_of_gives_shorter h

theorem gives_skipNumber_minus (h : skipUnsigned s = .ok rest)
    (hshorter : rest.length < (minus :: s).length) :
    Gives (skipNumber (minus :: s)) () rest := by
  unfold skipNumber
  dsimp only
  rw [if_pos rfl, h]
  exact ⟨hshorter, dif_pos hshorter⟩

theorem gives_skipNumber_unsigned (h : skipUnsigned (b :: s) = .ok rest) (hb : b ≠ minus)
    (hshorter : rest.length < (b :: s).length) : Gives (skipNumber (b :: s)) () rest := by
  unfold skipNumber
  dsimp only
  rw [if_neg hb, h]
  exact ⟨hshorter, dif_pos hshorter⟩

/-- A number that is read is passed over. -/
theorem gives_skipNumber (h : Gives (number s) n rest) : Gives (skipNumber s) () rest := by
  cases s with
  | nil => exact absurd h not_gives_error
  | cons b r =>
    have hread := unsigned_of_gives_number h
    split at hread
    · next hb =>
      subst hb
      exact gives_skipNumber_minus (skipUnsigned_of_unsigned hread) h.shorter
    · next hb => exact gives_skipNumber_unsigned (skipUnsigned_of_unsigned hread) hb h.shorter

/-! ## Lists and objects -/

/-- Whether what a reader reads is passed over, whatever blanks stand before it. -/
def IsPassedOver (read : Reader α) : Prop :=
  ∀ {s t x rest}, skipBlank s = skipBlank t → Gives (read s) x rest → Gives (skip t) () rest

theorem gives_skipItems_last (hs : skipBlank s = closeBracket :: rest) :
    Gives (skipItems s) () rest := by
  unfold skipItems
  split
  · next hnil => rw [hs] at hnil; cases hnil
  · next hcons =>
    rw [hs] at hcons
    cases hcons
    rw [if_pos rfl]
    exact ⟨_, rfl⟩

theorem gives_skipItems_comma (hs : skipBlank s = comma :: t) (hitem : Gives (skip t) () r)
    (h : Gives (skipItems r) () rest) : Gives (skipItems s) () rest := by
  unfold skipItems
  split
  · next hnil => rw [hs] at hnil; cases hnil
  · next hcons =>
    rw [hs] at hcons
    cases hcons
    rw [if_neg (by decide), if_pos rfl]
    exact hitem.bind fun _ => h.bind fun _ => ⟨_, rfl⟩

/-- The items of a list behind the first one are passed over. -/
theorem gives_skipItems (hread : IsPassedOver read) {xs : List α}
    (h : Gives (items read false s) xs rest) : Gives (skipItems s) () rest := by
  -- what stands behind an item is shorter than the text from the item on
  induction hlength : s.length using Nat.strongRecOn generalizing s xs with
  | ind n ih =>
    rcases items_cases h with ⟨shorter, hnext, rfl⟩ |
      ⟨t, within, x, r, xs', hnext, hitem, hitems, rfl⟩
    · exact gives_skipItems_last (skipBlank_of_nextItem_last hnext)
    · obtain ⟨u, hs, rfl⟩ := skipBlank_of_nextItem_comma hnext
      have hshorter : r.length < n := by
        rw [← hlength]
        exact Nat.lt_of_lt_of_le hitem.shorter within
      have hpassed := hread (skipBlank_skipBlank u) hitem
      exact gives_skipItems_comma hs hpassed (ih _ hshorter hitems rfl)

variable {step : String → σ → Reader σ} {acc last : σ}

/-- A key is passed over, and the value behind it. -/
theorem gives_skipMember (hs : skipBlank s = quote :: t) (hkey : Gives (skipString t) () r)
    (hvalue : Gives (memberValue skip r) () rest) : Gives (skipMember s) () rest := by
  obtain ⟨u, hr, hskip⟩ := memberValue_cases hvalue
  unfold skipMember
  split
  · next hnil => rw [hs] at hnil; cases hnil
  · next hcons =>
    rw [hs] at hcons
    cases hcons
    rw [if_pos rfl]
    refine hkey.bind fun _ => ?_
    split
    · next hnil => rw [hr] at hnil; cases hnil
    · next hcolon =>
      rw [hr] at hcolon
      cases hcolon
      rw [if_pos rfl]
      exact hskip.within _

theorem gives_skipMembers_last (hs : skipBlank s = closeBrace :: rest) :
    Gives (skipMembers s) () rest := by
  unfold skipMembers
  split
  · next hnil => rw [hs] at hnil; cases hnil
  · next hcons =>
    rw [hs] at hcons
    cases hcons
    rw [if_pos rfl]
    exact ⟨_, rfl⟩

theorem gives_skipMembers_comma (hs : skipBlank s = comma :: t)
    (hmember : Gives (skipMember t) () r) (h : Gives (skipMembers r) () rest) :
    Gives (skipMembers s) () rest := by
  unfold skipMembers
  split
  · next hnil => rw [hs] at hnil; cases hnil
  · next hcons =>
    rw [hs] at hcons
    cases hcons
    rw [if_neg (by decide), if_pos rfl]
    exact hmember.bind fun _ => h.bind fun _ => ⟨_, rfl⟩

section Members

variable (hstep : ∀ {key acc s next rest}, Gives (step key acc s) next rest →
  Gives (memberValue skip s) () rest)

include hstep

/-- The members of an object behind the first one are passed over. -/
theorem gives_skipMembers (h : Gives (members step false acc s) last rest) :
    Gives (skipMembers s) () rest := by
  -- what stands behind a member is shorter than the text from the member on
  induction hlength : s.length using Nat.strongRecOn generalizing s acc with
  | ind n ih =>
    rcases members_cases h with ⟨shorter, hnext, rfl⟩ |
      ⟨t, shorter, key, r, next, r', hnext, hkey, hmember, hmembers⟩
    · exact gives_skipMembers_last (skipBlank_of_nextMember_last hnext)
    · obtain ⟨u, hs, hu⟩ := skipBlank_of_nextMember_comma hnext
      have hshorter : r'.length < n := by
        rw [← hlength]
        exact Nat.lt_trans (Nat.lt_trans hmember.shorter hkey.shorter) shorter
      have hpassed := gives_skipMember hu (gives_skipString_of_string hkey) (hstep hmember)
      exact gives_skipMembers_comma hs hpassed (ih _ hshorter hmembers rfl)

end Members

/-! ## Documents -/

/-- Fixed words are passed over. -/
theorem gives_skip_word (hs : skipBlank s = b :: r)
    (hword : (b = 0x6E ∧ r = ullWord ++ rest) ∨ (b = 0x74 ∧ r = rueWord ++ rest) ∨
      (b = 0x66 ∧ r = alseWord ++ rest)) : Gives (skip s) () rest := by
  unfold skip
  split
  · next hnil => rw [hs] at hnil; cases hnil
  · next hcons =>
    rw [hs] at hcons
    cases hcons
    rcases hword with ⟨rfl, rfl⟩ | ⟨rfl, rfl⟩ | ⟨rfl, rfl⟩
    · rw [if_pos rfl]
      exact (gives_constant () _ ullWord rest).within _
    · rw [if_neg (by decide), if_pos rfl]
      exact (gives_constant () _ rueWord rest).within _
    · rw [if_neg (by decide), if_neg (by decide), if_pos rfl]
      exact (gives_constant () _ alseWord rest).within _

theorem gives_skip_number (hs : skipBlank s = b :: r) (hb : startsNumber b = true)
    (h : Gives (skipNumber (b :: r)) () rest) : Gives (skip s) () rest := by
  unfold skip
  split
  · next hnil => rw [hs] at hnil; cases hnil
  · next hcons =>
    rw [hs] at hcons
    cases hcons
    rw [if_neg (ne_of_startsNumber hb (by decide)), if_neg (ne_of_startsNumber hb (by decide)),
      if_neg (ne_of_startsNumber hb (by decide)), if_pos hb]
    exact h.within _

theorem gives_skip_string (hs : skipBlank s = quote :: r) (h : Gives (skipString r) () rest) :
    Gives (skip s) () rest := by
  unfold skip
  split
  · next hnil => rw [hs] at hnil; cases hnil
  · next hcons =>
    rw [hs] at hcons
    cases hcons
    rw [if_neg (by decide), if_neg (by decide), if_neg (by decide), if_neg (by decide), if_pos rfl]
    exact h.within _

/-- A list without items is passed over. -/
theorem gives_skip_list_nil (hs : skipBlank s = openBracket :: r)
    (hr : skipBlank r = closeBracket :: rest) : Gives (skip s) () rest := by
  unfold skip
  split
  · next hnil => rw [hs] at hnil; cases hnil
  · next hcons =>
    rw [hs] at hcons
    cases hcons
    rw [if_neg (by decide), if_neg (by decide), if_neg (by decide), if_neg (by decide),
      if_neg (by decide), if_pos rfl, hr]
    dsimp only
    rw [if_pos rfl]
    exact (gives_skipItems_last hr).bind fun _ => ⟨_, rfl⟩

/-- A list is passed over by its first item and the others behind it. -/
theorem gives_skip_list_cons {t' : Bytes} (hs : skipBlank s = openBracket :: r)
    (hr : skipBlank r = b :: t) (hb : b ≠ closeBracket) (hitem : Gives (skip r) () t')
    (hitems : Gives (skipItems t') () rest) : Gives (skip s) () rest := by
  unfold skip
  split
  · next hnil => rw [hs] at hnil; cases hnil
  · next hcons =>
    rw [hs] at hcons
    cases hcons
    rw [if_neg (by decide), if_neg (by decide), if_neg (by decide), if_neg (by decide),
      if_neg (by decide), if_pos rfl, hr]
    dsimp only
    rw [if_neg hb]
    exact hitem.bind fun _ => hitems.bind fun _ => ⟨_, rfl⟩

/-- An object without members is passed over. -/
theorem gives_skip_object_nil (hs : skipBlank s = openBrace :: r)
    (hr : skipBlank r = closeBrace :: rest) : Gives (skip s) () rest := by
  unfold skip
  split
  · next hnil => rw [hs] at hnil; cases hnil
  · next hcons =>
    rw [hs] at hcons
    cases hcons
    rw [if_neg (by decide), if_neg (by decide), if_neg (by decide), if_neg (by decide),
      if_neg (by decide), if_neg (by decide), if_pos rfl, hr]
    dsimp only
    rw [if_pos rfl]
    exact (gives_skipMembers_last hr).bind fun _ => ⟨_, rfl⟩

/-- An object is passed over by its first member and the others behind it. -/
theorem gives_skip_object_cons {t' : Bytes} (hs : skipBlank s = openBrace :: r)
    (hr : skipBlank r = b :: t) (hb : b ≠ closeBrace) (hmember : Gives (skipMember r) () t')
    (hmembers : Gives (skipMembers t') () rest) : Gives (skip s) () rest := by
  unfold skip
  split
  · next hnil => rw [hs] at hnil; cases hnil
  · next hcons =>
    rw [hs] at hcons
    cases hcons
    rw [if_neg (by decide), if_neg (by decide), if_neg (by decide), if_neg (by decide),
      if_neg (by decide), if_neg (by decide), if_pos rfl, hr]
    dsimp only
    rw [if_neg hb]
    exact hmember.bind fun _ => hmembers.bind fun _ => ⟨_, rfl⟩

/-- A list is passed over if its items are. -/
theorem gives_skip_list (hread : IsPassedOver read) (hs : skipBlank s = openBracket :: r)
    {xs : List α} (h : Gives (items read true r) xs rest) : Gives (skip s) () rest := by
  rcases items_cases h with ⟨shorter, hnext, rfl⟩ |
    ⟨t, within, x, r', xs', hnext, hitem, hitems, rfl⟩
  · exact gives_skip_list_nil hs (skipBlank_of_nextItem_last hnext)
  · obtain ⟨c, u, hr, hc, rfl⟩ := skipBlank_of_nextItem_first hnext
    have hblank : skipBlank (c :: u) = skipBlank r := by rw [← hr, skipBlank_skipBlank]
    exact gives_skip_list_cons hs hr hc (hread hblank hitem) (gives_skipItems hread hitems)

/-- An object is passed over if the values of its members are. -/
theorem gives_skip_object
    (hstep : ∀ {key acc s next rest}, Gives (step key acc s) next rest →
      Gives (memberValue skip s) () rest)
    (hs : skipBlank s = openBrace :: r) (h : Gives (members step true acc r) last rest) :
    Gives (skip s) () rest := by
  rcases members_cases h with ⟨shorter, hnext, rfl⟩ |
    ⟨t, shorter, key, r', next, r'', hnext, hkey, hmember, hmembers⟩
  · exact gives_skip_object_nil hs (skipBlank_of_nextMember_last hnext)
  · have hr := skipBlank_of_nextMember_first hnext
    have hpassed := gives_skipMember hr (gives_skipString_of_string hkey) (hstep hmember)
    exact gives_skip_object_cons hs hr (by decide) hpassed (gives_skipMembers hstep hmembers)

/-- A value of any type is passed over if what is nested in it is. -/
theorem isPassedOver_value {nested : Option (Reader Json)}
    (hnested : ∀ read ∈ nested, IsPassedOver read) : IsPassedOver (value nested) := by
  intro s t x rest hblank h
  rw [value, gives_fromToken_iff, hblank] at h
  cases hs : skipBlank t with
  | nil =>
    rw [hs] at h
    exact absurd h not_gives_error
  | cons b r =>
    rw [hs] at h
    dsimp only at h
    -- reading and passing over look for the same tokens
    split at h
    · next hnull => exact gives_skip_word hs (Or.inl ⟨hnull, (gives_constant_iff.mp h).2⟩)
    split at h
    · next htrue =>
      exact gives_skip_word hs (Or.inr (Or.inl ⟨htrue, (gives_constant_iff.mp h).2⟩))
    split at h
    · next hfalse =>
      exact gives_skip_word hs (Or.inr (Or.inr ⟨hfalse, (gives_constant_iff.mp h).2⟩))
    split at h
    · next hnumber =>
      rcases h.of_map fun _ => rfl with ⟨_, _, hread, -⟩
      exact gives_skip_number hs hnumber (gives_skipNumber hread)
    split at h
    · next hquote =>
      rcases h.of_map fun _ => rfl with ⟨_, _, hread, -⟩
      rw [hquote] at hs
      exact gives_skip_string hs (gives_skipString_of_string hread)
    split at h
    · next hbracket =>
      rw [hbracket] at hs
      cases nested with
      | none => exact absurd h not_gives_error
      | some read =>
        rcases h.of_map fun _ => rfl with ⟨_, _, hitems, -⟩
        exact gives_skip_list (hnested read rfl) hs hitems
    split at h
    · next hbrace =>
      rw [hbrace] at hs
      cases nested with
      | none => exact absurd h not_gives_error
      | some read =>
        rcases h.of_map fun _ => rfl with ⟨_, _, hmembers, -⟩
        refine gives_skip_object (fun {key acc s next rest} hentry => ?_) hs hmembers
        rcases hentry.of_map fun _ => rfl with ⟨_, _, hvalue, -⟩
        rcases memberValue_cases hvalue with ⟨u, hu, hread⟩
        exact gives_memberValue hu (hnested read rfl rfl hread)
    · exact absurd h not_gives_error

theorem isPassedOver_document (depth : Nat) : IsPassedOver (document depth) := by
  induction depth with
  | zero => exact isPassedOver_value fun read h => absurd h (Option.not_mem_none read)
  | succ depth ih =>
    refine isPassedOver_value ?_
    rintro read ⟨⟩
    exact ih

/-- Whatever is read as a document is passed over. -/
theorem gives_skip_of_document {depth : Nat} {x : Json} (h : Gives (document depth s) x rest) :
    Gives (skip s) () rest :=
  isPassedOver_document depth rfl h

end ApplianceRest.Json.Reader
