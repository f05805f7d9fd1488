import ApplianceRest.Proofs.Json.Skipping

/-!
# What is passed over is written by the grammar

The converse of `Proofs.Json.Skipping`: where a value is passed over, the text up to what is left of
it is the text of a value as it is written, with blanks before it (`exists_written`).
-/

namespace ApplianceRest.Json

open Reader

variable {s t r rest : Bytes} {b : UInt8}

/-! ## Strings -/

theorem hex_of_fourHex {n : Nat} (h : Gives (fourHex s) n rest) :
    ∃ a b c d, s = a :: b :: c :: d :: rest ∧ ∀ x ∈ [a, b, c, d], (hexValue? x).isSome = true := by
  unfold fourHex at h
  split at h
  · next a b c d r =>
    split at h
    · next w x y z ha hb hc hd =>
      rcases h.of_ok with ⟨-, rfl⟩
      exact ⟨a, b, c, d, rfl, by simp [ha, hb, hc, hd]⟩
    · exact absurd h not_gives_error
  · exact absurd h not_gives_error

/-- A string that is passed over ends here, or goes on behind an escape or a plain byte. -/
theorem skipString_cases (h : Gives (skipString s) () rest) :
    s = quote :: rest ∨
    ∃ (unit : QuotedUnit) (r : Bytes), s = unit.bytes ++ r ∧ Gives (skipString r) () rest := by
  rw [skipString.eq_def] at h
  cases s with
  | nil => exact absurd h not_gives_error
  | cons b r =>
    dsimp only at h
    split at h
    · next hb =>
      rcases h.of_ok with ⟨-, rfl⟩
      exact Or.inl (by rw [hb])
    next hquote =>
    split at h
    · next hb =>
      subst hb
      cases r with
      | nil => exact absurd h not_gives_error
      | cons c r' =>
        dsimp only at h
        split at h
        · next hc =>
          rcases h.of_map fun _ => rfl with ⟨_, _, hrest, -⟩
          exact Or.inr ⟨.letter c hc, r', rfl, hrest⟩
        · split at h
          · next hu =>
            subst hu
            obtain ⟨n, t, hshorter, hdigits, h⟩ := Gives.of_bind h
            rcases h.of_map fun _ => rfl with ⟨_, _, hrest, -⟩
            rcases hex_of_fourHex hdigits with ⟨a, b, c, d, rfl, hex⟩
            exact Or.inr ⟨.number a b c d hex, t, rfl, hrest⟩
          · exact absurd h not_gives_error
    next hslash =>
    split at h
    · exact absurd h not_gives_error
    · next hcontrol =>
      rcases h.of_map fun _ => rfl with ⟨_, _, hrest, -⟩
      exact Or.inr ⟨.plain b ⟨hquote, hslash, hcontrol⟩, r, rfl, hrest⟩

theorem QuotedUnit.bytes_ne_nil (unit : QuotedUnit) : unit.bytes ≠ [] := by
  cases unit with
  | plain b _ => exact List.cons_ne_nil _ _
  | letter c _ => exact List.cons_ne_nil _ _
  | number a b c d _ => exact List.cons_ne_nil _ _

/-- What is passed over as a string is a string as it is written. -/
theorem exists_quoted {s rest : Bytes} (h : Gives (skipString s) () rest) :
    ∃ body : Quoted, s = body.bytes ++ quote :: rest := by
  rcases skipString_cases h with rfl | ⟨unit, r, rfl, hrest⟩
  · exact ⟨[], rfl⟩
  · have hshorter : r.length < (unit.bytes ++ r).length := by
      rw [List.length_append]
      have hunit := List.length_pos_of_ne_nil unit.bytes_ne_nil
      omega
    rcases exists_quoted hrest with ⟨body, rfl⟩
    refine ⟨unit :: body, ?_⟩
    unfold Quoted.bytes
    rw [List.flatMap_cons, List.append_assoc]
termination_by s.length

/-! ## Numbers -/

/-- The digits at the front of a text, where there are any. -/
theorem exists_digits (hne : (spanDigits s).1 ≠ []) :
    ∃ digits : Digits, digits.bytes = (spanDigits s).1 ∧ s = digits.bytes ++ (spanDigits s).2 := by
  have hdigits : ∀ b ∈ (spanDigits s).1, isDigit b = true := fun b hb => List.mem_takeWhile_imp hb
  exact ⟨⟨_, hne, hdigits⟩, rfl, List.takeWhile_append_dropWhile.symm⟩

theorem exists_exponent (hb : b = 0x65 ∨ b = 0x45) (h : skipExponent s = .ok rest) :
    ∃ e : Exponent, b :: s = e.bytes ++ rest := by
  -- with a sign or without one, what is left is to pass over the digits of `t`
  have hsign : ∃ sign : Option UInt8, (∀ c ∈ sign, c = 0x2B ∨ c = minus) ∧ ∃ t,
      s = sign.toList ++ t ∧ skipExponent s =
        if (spanDigits t).1 = [] then .error (.malformed .invalidNumber)
        else .ok (spanDigits t).2 := by
    cases s with
    | nil => exact ⟨none, nofun, [], rfl, rfl⟩
    | cons c r =>
      by_cases hc : c = 0x2B ∨ c = minus
      · refine ⟨some c, by simpa using hc, r, rfl, ?_⟩
        unfold skipExponent
        dsimp only
        rw [if_pos hc]
      · refine ⟨none, nofun, c :: r, rfl, ?_⟩
        unfold skipExponent
        dsimp only
        rw [if_neg hc]
  rcases hsign with ⟨sign, isSign, t, rfl, hskip⟩
  rw [hskip] at h
  split at h
  · cases h
  · next hne =>
    cases h
    rcases exists_digits hne with ⟨digits, -, ht⟩
    refine ⟨⟨b, hb, sign, isSign, digits⟩, ?_⟩
    unfold Exponent.bytes
    dsimp only
    rw [List.cons_append, List.append_assoc, ← ht]

/-- What is passed over behind the digits of a number is an exponent, if anything is. -/
theorem exists_exponent? (s : Bytes) (h : (match s with
      | b :: r => if b = 0x65 ∨ b = 0x45 then skipExponent r else .ok s
      | [] => .ok []) = (.ok rest : Except Error Bytes)) :
    ∃ exponent : Option Exponent, s = (exponent.map Exponent.bytes).getD [] ++ rest := by
  cases s with
  | nil =>
    cases h
    exact ⟨none, rfl⟩
  | cons b r =>
    dsimp only at h
    split at h
    · next hb =>
      rcases exists_exponent hb h with ⟨e, he⟩
      exact ⟨some e, he⟩
    · cases h
      exact ⟨none, rfl⟩

theorem exists_unsigned (isNegative : Bool) (h : skipUnsigned s = .ok rest) :
    ∃ n : Numeral, n.isNegative = isNegative ∧ s = n.unsignedBytes ++ rest := by
  unfold skipUnsigned at h
  dsimp only at h
  split at h
  · cases h
  next hwhole =>
  rcases not_or.mp hwhole with ⟨hne, hzero⟩
  rcases exists_digits hne with ⟨whole, hbytes, htext⟩
  rw [← hbytes] at hzero
  cases hrest : (spanDigits s).2 with
  | nil =>
    rw [hrest] at h htext
    cases h
    refine ⟨⟨isNegative, whole, hzero, none, none⟩, rfl, ?_⟩
    rw [htext]
    simp [Numeral.unsignedBytes, Numeral.fractionBytes, Numeral.exponentBytes]
  | cons b r =>
    rw [hrest] at h htext
    dsimp only at h
    split at h
    · next hb =>
      split at h
      · cases h
      · next hfraction =>
        rcases exists_digits hfraction with ⟨ds, -, hds⟩
        rcases exists_exponent? _ h with ⟨exponent, hexponent⟩
        refine ⟨⟨isNegative, whole, hzero, some ds, exponent⟩, rfl, ?_⟩
        rw [htext, hb, hds, hexponent]
        cases exponent with
        | none => simp [Numeral.unsignedBytes, Numeral.fractionBytes, Numeral.exponentBytes]
        | some e => simp [Numeral.unsignedBytes, Numeral.fractionBytes, Numeral.exponentBytes]
    · rcases exists_exponent? (b :: r) h with ⟨exponent, hexponent⟩
      refine ⟨⟨isNegative, whole, hzero, none, exponent⟩, rfl, ?_⟩
      rw [htext, hexponent]
      cases exponent with
      | none => simp [Numeral.unsignedBytes, Numeral.fractionBytes, Numeral.exponentBytes]
      | some e => simp [Numeral.unsignedBytes, Numeral.fractionBytes, Numeral.exponentBytes]

/-- What is passed over as a number is a number as it is written. -/
theorem exists_numeral (h : Gives (skipNumber s) () rest) :
    ∃ n : Numeral, s = n.bytes ++ rest := by
  have hmade : ∀ {made : Except Error Bytes}, Gives (made >>= fun rest =>
      if h : rest.length < s.length then .ok ⟨(), rest, h⟩
      else .error (.malformed .invalidNumber)) () rest → made = .ok rest := by
    intro made hgives
    cases made with
    | error e => exact absurd hgives not_gives_error
    | ok r =>
      change Gives (if h : r.length < s.length then _ else _) () rest at hgives
      split at hgives
      · rw [hgives.of_ok.2]
      · exact absurd hgives not_gives_error
  cases s with
  | nil => exact absurd h not_gives_error
  | cons b r =>
    unfold skipNumber at h
    dsimp only at h
    split at h
    · next hb =>
      rcases exists_unsigned true (hmade h) with ⟨n, hnegative, hn⟩
      refine ⟨n, ?_⟩
      rw [Numeral.bytes, if_pos hnegative, hb, hn, List.cons_append]
    · rcases exists_unsigned false (hmade h) with ⟨n, hnegative, hn⟩
      refine ⟨n, ?_⟩
      rw [Numeral.bytes, if_neg (by rw [hnegative]; exact Bool.false_ne_true), hn]

/-! ## What is passed over, part by part -/

theorem skipItems_cases (h : Gives (skipItems s) () rest) : skipBlank s = closeBracket :: rest ∨
    ∃ t r, skipBlank s = comma :: t ∧ Gives (skip t) () r ∧ Gives (skipItems r) () rest := by
  unfold skipItems at h
  split at h
  · exact absurd h not_gives_error
  · next b t hs =>
    split at h
    · next hb =>
      rcases h.of_ok with ⟨-, rfl⟩
      exact Or.inl (by rw [hs, hb])
    · split at h
      · next hb =>
        obtain ⟨_, r, _, hitem, h⟩ := Gives.of_bind h
        obtain ⟨_, r', _, hitems, h⟩ := Gives.of_bind h
        rcases Gives.of_ok h with ⟨-, rfl⟩
        exact Or.inr ⟨t, r, by rw [hs, hb], hitem, hitems⟩
      · exact absurd h not_gives_error

theorem skipMember_cases (h : Gives (skipMember s) () rest) :
    ∃ t r u, skipBlank s = quote :: t ∧ Gives (skipString t) () r ∧ skipBlank r = colon :: u ∧
      Gives (skip u) () rest := by
  unfold skipMember at h
  split at h
  · exact absurd h not_gives_error
  · next b t hs =>
    split at h
    · next hb =>
      obtain ⟨_, r, _, hkey, h⟩ := Gives.of_bind h
      split at h
      · exact absurd h not_gives_error
      · next c u hr =>
        split at h
        · next hc => exact ⟨t, r, u, by rw [hs, hb], hkey, hc ▸ hr, h.of_within⟩
        · exact absurd h not_gives_error
    · exact absurd h not_gives_error

theorem skipMembers_cases (h : Gives (skipMembers s) () rest) :
    skipBlank s = closeBrace :: rest ∨ ∃ t r, skipBlank s = comma :: t ∧
      Gives (skipMember t) () r ∧ Gives (skipMembers r) () rest := by
  unfold skipMembers at h
  split at h
  · exact absurd h not_gives_error
  · next b t hs =>
    split at h
    · next hb =>
      rcases h.of_ok with ⟨-, rfl⟩
      exact Or.inl (by rw [hs, hb])
    · split at h
      · next hb =>
        obtain ⟨_, r, _, hmember, h⟩ := Gives.of_bind h
        obtain ⟨_, r', _, hmembers, h⟩ := Gives.of_bind h
        rcases Gives.of_ok h with ⟨-, rfl⟩
        exact Or.inr ⟨t, r, by rw [hs, hb], hmember, hmembers⟩
      · exact absurd h not_gives_error

/-- A list that is passed over is empty, or has an item and what is left behind it. -/
theorem skipList_cases (hs : skipBlank s = openBracket :: r) (h : Gives (skip s) () rest) :
    skipBlank r = closeBracket :: rest ∨
      ∃ t, Gives (skip r) () t ∧ Gives (skipItems t) () rest := by
  unfold skip at h
  split at h
  · exact absurd h not_gives_error
  next b r hs' =>
  cases hs.symm.trans hs'
  rw [if_neg (by decide), if_neg (by decide), if_neg (by decide), if_neg (by decide),
    if_neg (by decide), if_pos rfl] at h
  split at h
  · exact absurd h not_gives_error
  next c u hr =>
  split at h
  · next hc =>
    obtain ⟨_, r', _, hitems, h⟩ := Gives.of_bind h
    rcases Gives.of_ok h with ⟨-, rfl⟩
    rcases skipItems_cases hitems with hlast | ⟨t, _, hcomma, -⟩
    · exact Or.inl hlast
    · -- no comma stands behind the opening bracket, for the closing one does
      rw [hr, hc] at hcomma
      exact absurd (List.cons.inj hcomma).1 (by decide)
  · obtain ⟨_, t, _, hitem, h⟩ := Gives.of_bind h
    obtain ⟨_, r', _, hitems, h⟩ := Gives.of_bind h
    rcases Gives.of_ok h with ⟨-, rfl⟩
    exact Or.inr ⟨t, hitem, hitems⟩

/-- An object that is passed over is empty, or has a member and what is left behind it. -/
theorem skipObject_cases (hs : skipBlank s = openBrace :: r) (h : Gives (skip s) () rest) :
    skipBlank r = closeBrace :: rest ∨
      ∃ t, Gives (skipMember r) () t ∧ Gives (skipMembers t) () rest := by
  unfold skip at h
  split at h
  · exact absurd h not_gives_error
  next b r hs' =>
  cases hs.symm.trans hs'
  rw [if_neg (by decide), if_neg (by decide), if_neg (by decide), if_neg (by decide),
    if_neg (by decide), if_neg (by decide), if_pos rfl] at h
  split at h
  · exact absurd h not_gives_error
  next c u hr =>
  split at h
  · next hc =>
    obtain ⟨_, r', _, hmembers, h⟩ := Gives.of_bind h
    rcases Gives.of_ok h with ⟨-, rfl⟩
    rcases skipMembers_cases hmembers with hlast | ⟨t, _, hcomma, -⟩
    · exact Or.inl hlast
    · rw [hr, hc] at hcomma
      exact absurd (List.cons.inj hcomma).1 (by decide)
  · obtain ⟨_, t, _, hmember, h⟩ := Gives.of_bind h
    obtain ⟨_, r', _, hmembers, h⟩ := Gives.of_bind h
    rcases Gives.of_ok h with ⟨-, rfl⟩
    exact Or.inr ⟨t, hmember, hmembers⟩

/-- What is passed over is an atom, a list or an object. -/
theorem skip_cases (h : Gives (skip s) () rest) :
    (∃ a : Atom, skipBlank s = a.bytes ++ rest) ∨
    (∃ r, skipBlank s = openBracket :: r) ∨ (∃ r, skipBlank s = openBrace :: r) := by
  unfold skip at h
  split at h
  · exact absurd h not_gives_error
  next b r hs =>
  split at h
  · next hb =>
    rcases gives_constant_iff.mp h.of_within with ⟨-, hr⟩
    exact Or.inl ⟨.null, by rw [hs, hb, hr]; rfl⟩
  split at h
  · next hb =>
    rcases gives_constant_iff.mp h.of_within with ⟨-, hr⟩
    exact Or.inl ⟨.boolean true, by rw [hs, hb, hr]; rfl⟩
  split at h
  · next hb =>
    rcases gives_constant_iff.mp h.of_within with ⟨-, hr⟩
    exact Or.inl ⟨.boolean false, by rw [hs, hb, hr]; rfl⟩
  split at h
  · rcases exists_numeral h.of_within with ⟨n, hn⟩
    exact Or.inl ⟨.number n, by rw [hs, hn]; rfl⟩
  split at h
  · next hb =>
    rcases exists_quoted h.of_within with ⟨body, hbody⟩
    refine Or.inl ⟨.string body, ?_⟩
    rw [hs, hb, hbody, Atom.bytes, List.cons_append, List.append_assoc]
    rfl
  split at h
  · next hb => exact Or.inr (Or.inl ⟨r, by rw [hs, hb]⟩)
  split at h
  · next hb => exact Or.inr (Or.inr ⟨r, by rw [hs, hb]⟩)
  · exact absurd h not_gives_error

/-! ## Values -/

theorem exists_blanks (s : Bytes) : ∃ pad : Blanks, s = pad.bytes ++ skipBlank s :=
  ⟨⟨s.takeWhile isBlank, fun _ hb => List.mem_takeWhile_imp hb⟩,
    List.takeWhile_append_dropWhile.symm⟩

/-- No blanks at all. -/
def Blanks.none : Blanks := ⟨[], List.forall_mem_nil _⟩

/-- The value with other blanks behind it. -/
def Written.followedBy (pad : Blanks) : Written → Written
  | .atom before a _ => .atom before a pad
  | .list before items inner _ => .list before items inner pad
  | .object before members inner _ => .object before members inner pad

@[simp] theorem Written.before_followedBy (pad : Blanks) (w : Written) :
    (w.followedBy pad).before = w.before := by
  cases w <;> rfl

@[simp] theorem Written.behind_followedBy (pad : Blanks) (w : Written) :
    (w.followedBy pad).behind = pad := by
  cases w <;> rfl

@[simp] theorem Written.token_followedBy (pad : Blanks) (w : Written) :
    (w.followedBy pad).token = w.token := by
  match w with
  | .atom .. => simp [followedBy, token]
  | .list _ [] .. => simp [followedBy, token]
  | .list _ (_ :: _) .. => simp [followedBy, token]
  | .object _ [] .. => simp [followedBy, token]
  | .object _ (_ :: _) .. => simp [followedBy, token]

mutual

/-- What is passed over is a value as it is written, behind blanks. -/
theorem exists_written {s rest : Bytes} (h : Gives (skip s) () rest) :
    ∃ w : Written, s = w.before.bytes ++ (w.token ++ rest) := by
  rcases exists_blanks s with ⟨before, hs⟩
  rcases skip_cases h with ⟨a, ha⟩ | ⟨r, hr⟩ | ⟨r, hr⟩
  · refine ⟨.atom before a .none, ?_⟩
    rw [Written.token, ← ha]
    exact hs
  · -- each part stands behind a byte that has been passed over, so its text is shorter
    have hshorter : r.length < s.length := length_lt_of_skipBlank hr
    rcases skipList_cases hr h with hlast | ⟨t, hitem, hitems⟩
    · rcases exists_blanks r with ⟨inner, hinner⟩
      refine ⟨.list before [] inner .none, ?_⟩
      rw [Written.token_list_nil, ← hlast, ← hinner, ← hr]
      exact hs
    · have hshorter' : t.length < s.length := Nat.lt_trans hitem.shorter hshorter
      rcases exists_written hitem with ⟨w, hw⟩
      rcases exists_restItems hitems with ⟨pad, ws, hws⟩
      refine ⟨.list before (w.followedBy pad :: ws) .none .none, ?_⟩
      rw [Written.token_list_cons, Written.before_followedBy, Written.token_followedBy,
        Written.behind_followedBy, ← hws, ← hw, ← hr]
      exact hs
  · have hshorter : r.length < s.length := length_lt_of_skipBlank hr
    rcases skipObject_cases hr h with hlast | ⟨t, hmember, hmembers⟩
    · rcases exists_blanks r with ⟨inner, hinner⟩
      refine ⟨.object before [] inner .none, ?_⟩
      rw [Written.token_object_nil, ← hlast, ← hinner, ← hr]
      exact hs
    · have hshorter' : t.length < s.length := Nat.lt_trans hmember.shorter hshorter
      rcases exists_member hmember with ⟨k, w, hw⟩
      rcases exists_restMembers hmembers with ⟨pad, ms, hms⟩
      refine ⟨.object before ((k, w.followedBy pad) :: ms) .none .none, ?_⟩
      rw [Written.token_object_cons, Written.before_followedBy, Written.token_followedBy,
        Written.behind_followedBy, ← hms, ← hw, ← hr]
      exact hs
termination_by s.length

theorem exists_restItems {s rest : Bytes} (h : Gives (skipItems s) () rest) :
    ∃ (pad : Blanks) (ws : List Written), s = pad.bytes ++ (Written.restItems ws ++ rest) := by
  rcases exists_blanks s with ⟨pad, hs⟩
  rcases skipItems_cases h with hlast | ⟨t, r, ht, hitem, hitems⟩
  · refine ⟨pad, [], ?_⟩
    rw [hlast] at hs
    exact hs
  · have hshorter : t.length < s.length := length_lt_of_skipBlank ht
    have hshorter' : r.length < s.length := Nat.lt_trans hitem.shorter hshorter
    rcases exists_written hitem with ⟨w, hw⟩
    rcases exists_restItems hitems with ⟨pad', ws, hws⟩
    refine ⟨pad, w.followedBy pad' :: ws, ?_⟩
    rw [Written.restItems_cons, Written.before_followedBy, Written.token_followedBy,
      Written.behind_followedBy, ← hws, ← hw, ← ht]
    exact hs
termination_by s.length

theorem exists_member {s rest : Bytes} (h : Gives (skipMember s) () rest) :
    ∃ (k : Key) (w : Written),
      s = k.bytes ++ colon :: (w.before.bytes ++ (w.token ++ rest)) := by
  rcases exists_blanks s with ⟨before, hs⟩
  rcases skipMember_cases h with ⟨t, r, u, ht, hkey, hu, hvalue⟩
  have hshorter : u.length < s.length :=
    Nat.lt_trans (length_lt_of_skipBlank hu) (Nat.lt_trans hkey.shorter (length_lt_of_skipBlank ht))
  rcases exists_quoted hkey with ⟨body, hbody⟩
  rcases exists_blanks r with ⟨behind, hr⟩
  rcases exists_written hvalue with ⟨w, hw⟩
  refine ⟨⟨before, body, behind⟩, w, ?_⟩
  rw [Key.bytes, List.append_assoc, List.cons_append, List.append_assoc, List.cons_append, ← hw,
    ← hu, ← hr, ← hbody, ← ht]
  exact hs
termination_by s.length

theorem exists_restMembers {s rest : Bytes} (h : Gives (skipMembers s) () rest) :
    ∃ (pad : Blanks) (ms : List (Key × Written)),
      s = pad.bytes ++ (Written.restMembers ms ++ rest) := by
  rcases exists_blanks s with ⟨pad, hs⟩
  rcases skipMembers_cases h with hlast | ⟨t, r, ht, hmember, hmembers⟩
  · refine ⟨pad, [], ?_⟩
    rw [hlast] at hs
    exact hs
  · have hshorter : t.length < s.length := length_lt_of_skipBlank ht
    have hshorter' : r.length < s.length := Nat.lt_trans hmember.shorter hshorter
    rcases exists_member hmember with ⟨k, w, hw⟩
    rcases exists_restMembers hmembers with ⟨pad', ms, hms⟩
    refine ⟨pad, (k, w.followedBy pad') :: ms, ?_⟩
    rw [Written.restMembers_cons, Written.before_followedBy, Written.token_followedBy,
      Written.behind_followedBy, ← hms, ← hw, ← ht]
    exact hs
termination_by s.length

end

/-- A text in which a value is passed over with nothing but blanks behind it is that value as it is
written. -/
theorem exists_bytes (h : Gives (skip s) () rest) (hrest : skipBlank rest = []) :
    ∃ w : Written, w.bytes = s := by
  rcases exists_written h with ⟨w, hw⟩
  rcases exists_blanks rest with ⟨pad, hpad⟩
  rw [hrest, List.append_nil] at hpad
  refine ⟨w.followedBy pad, ?_⟩
  rw [Written.bytes, Written.before_followedBy, Written.token_followedBy,
    Written.behind_followedBy, ← hpad, ← hw]

end ApplianceRest.Json
