import ApplianceRest.Proofs.Json.Nesting
import Mathlib.Data.List.DropRight

/-!
# What a reading has read

Where a reading succeeds, its parts have: each lemma takes a reading that was put together
(`Proofs.Json.Reading`) apart again. The items of a list and the members of an object come apart one
by one (`items_cases`, `members_cases`), and with that what holds of one of them carries over to all
of them (`gives_items_along`, `gives_members_along`).
-/

namespace ApplianceRest.Json

variable {α β : Type} {s t rest rest' : Bytes}

theorem not_gives_error {e : Error} {x : α} :
    ¬Gives (.error e : Except Error (Taken α s)) x rest := by
  rintro ⟨_, h⟩
  cases h

namespace Gives

variable {reading : Except Error (Taken α s)} {x : α} {y : β}

theorem of_ok {z : α} {r : Bytes} {shorter}
    (h : Gives (.ok ⟨z, r, shorter⟩ : Except Error (Taken α s)) x rest) : z = x ∧ r = rest := by
  obtain ⟨_, h⟩ := h
  cases h
  exact ⟨rfl, rfl⟩

/-- What was made of a reading came from one with the same rest. -/
theorem of_map {g : Taken α s → Taken β t} (h : Gives (reading.map g) y rest)
    (hrest : ∀ taken, (g taken).rest = taken.rest) :
    ∃ x shorter, Gives reading x rest ∧ (g ⟨x, rest, shorter⟩).value = y := by
  obtain ⟨shorter', h⟩ := h
  cases hreading : reading with
  | error e =>
    rw [hreading] at h
    cases h
  | ok taken =>
    obtain ⟨x, r, shorter⟩ := taken
    rw [hreading] at h
    have htaken : g ⟨x, r, shorter⟩ = ⟨y, rest, shorter'⟩ := Except.ok.inj h
    obtain rfl : r = rest := by
      have hr := hrest ⟨x, r, shorter⟩
      rw [htaken] at hr
      exact hr.symm
    exact ⟨x, shorter, ⟨shorter, rfl⟩, by rw [htaken]⟩

theorem of_within {hle : s.length ≤ t.length} (h : Gives (reading.map (·.within hle)) x rest) :
    Gives reading x rest := by
  obtain ⟨_, _, hreading, rfl⟩ := h.of_map fun _ => rfl
  exact hreading

theorem of_behind {b : UInt8} (h : Gives (reading.map (·.behind b)) x rest) :
    Gives reading x rest := by
  obtain ⟨_, _, hreading, rfl⟩ := h.of_map fun _ => rfl
  exact hreading

/-- What was done with a value that was read. -/
theorem of_bind {next : Taken α s → Except Error (Taken β t)}
    (h : Gives (reading >>= next) y rest') :
    ∃ x rest shorter, Gives reading x rest ∧ Gives (next ⟨x, rest, shorter⟩) y rest' := by
  cases hreading : reading with
  | error e =>
    rw [hreading] at h
    exact absurd h not_gives_error
  | ok taken =>
    obtain ⟨x, r, shorter⟩ := taken
    rw [hreading] at h
    exact ⟨x, r, shorter, ⟨shorter, rfl⟩, h⟩

theorem shorter (h : Gives reading x rest) : rest.length < s.length := by
  obtain ⟨shorter, -⟩ := h
  exact shorter

end Gives

namespace Reader

variable {σ τ : Type} {read : Reader α} {x : α} {r : Bytes} {b : UInt8}

/-! ## Tokens -/

/-- A token is found where it stands. -/
theorem skipBlank_skipBlank (s : Bytes) : skipBlank (skipBlank s) = skipBlank s :=
  List.dropWhile_idempotent isBlank s

theorem gives_fromToken_iff :
    Gives (fromToken read s) x rest ↔ Gives (read (skipBlank s)) x rest :=
  ⟨Gives.of_within, fun h => h.within _⟩

/-- A reader that starts from the first token reads on both sides of the blanks before it. -/
theorem gives_fromToken_skipBlank :
    Gives (fromToken read (skipBlank s)) x rest ↔ Gives (fromToken read s) x rest := by
  rw [gives_fromToken_iff, gives_fromToken_iff, skipBlank_skipBlank]

/-- What is read from a token on has a token to start with. -/
theorem token_of_gives (hend : ∀ {x rest}, ¬Gives (read []) x rest)
    (h : Gives (fromToken read s) x rest) :
    ∃ b r, skipBlank s = b :: r ∧ Gives (read (b :: r)) x rest := by
  rw [gives_fromToken_iff] at h
  cases hs : skipBlank s with
  | nil =>
    rw [hs] at h
    exact absurd h hend
  | cons b r =>
    rw [hs] at h
    exact ⟨b, r, rfl, h⟩

/-- A reader that wants one kind of token reads on behind it. -/
theorem gives_fromToken_first_iff {first : UInt8} {behind : Reader α} {e : UInt8 → Bytes → Error}
    (hend : ∀ {x rest}, ¬Gives (read []) x rest)
    (hread : ∀ b r, read (b :: r) =
      if b = first then (behind r).map (·.behind b) else .error (e b r)) :
    Gives (fromToken read s) x rest ↔ ∃ r, skipBlank s = first :: r ∧ Gives (behind r) x rest := by
  constructor
  · intro h
    rcases token_of_gives hend h with ⟨b, r, hs, h⟩
    rw [hread] at h
    split at h
    · next hb => exact ⟨r, by rw [hs, hb], h.of_behind⟩
    · exact absurd h not_gives_error
  · rintro ⟨r, hs, h⟩
    rw [gives_fromToken_iff, hs, hread, if_pos rfl]
    exact h.behind first

/-! ## Atoms -/

theorem word_eq_ok {expected : Bytes} {t : { r : Bytes // r.length ≤ s.length }}
    (h : word expected s = .ok t) : s = expected ++ t.1 := by
  induction expected generalizing s with
  | nil =>
    cases h
    rfl
  | cons e expected ih =>
    cases s with
    | nil => cases h
    | cons b r =>
      rw [word] at h
      split at h
      · next hb =>
        cases hrest : word expected r with
        | error _ =>
          rw [hrest] at h
          cases h
        | ok t' =>
          rw [hrest] at h
          cases h
          rw [hb, List.cons_append]
          exact congrArg (e :: ·) (ih hrest)
      · cases h

theorem gives_constant_iff {value : α} {first : UInt8} {expected : Bytes} :
    Gives (constant value first expected s) x rest ↔ x = value ∧ s = expected ++ rest := by
  constructor
  · intro h
    rw [constant] at h
    cases hword : word expected s with
    | error e =>
      rw [hword] at h
      exact absurd h not_gives_error
    | ok t =>
      rw [hword] at h
      obtain ⟨rfl, rfl⟩ := Gives.of_ok h
      exact ⟨rfl, word_eq_ok hword⟩
  · rintro ⟨rfl, rfl⟩
    exact gives_constant x first expected rest

theorem gives_textValue_iff {x : String} :
    Gives (textValue s) x rest ↔ ∃ r, skipBlank s = quote :: r ∧ Gives (string r) x rest :=
  gives_fromToken_first_iff not_gives_error fun _ _ => rfl

theorem gives_flagValue_iff {x : Bool} : Gives (flagValue s) x rest ↔
    (x = true ∧ skipBlank s = 0x74 :: (rueWord ++ rest)) ∨
      (x = false ∧ skipBlank s = 0x66 :: (alseWord ++ rest)) := by
  constructor
  · intro h
    obtain ⟨b, r, hs, h⟩ := token_of_gives not_gives_error h
    dsimp only at h
    split at h
    · next hb =>
      obtain ⟨rfl, rfl⟩ := gives_constant_iff.mp h
      exact .inl ⟨rfl, by rw [hs, hb]⟩
    · split at h
      · next hb =>
        obtain ⟨rfl, rfl⟩ := gives_constant_iff.mp h
        exact .inr ⟨rfl, by rw [hs, hb]⟩
      · exact absurd h not_gives_error
  · rintro (⟨rfl, hs⟩ | ⟨rfl, hs⟩)
    · rw [flagValue, gives_fromToken_iff, hs]
      dsimp only
      rw [if_pos rfl]
      exact gives_constant true 0x74 rueWord rest
    · rw [flagValue, gives_fromToken_iff, hs]
      dsimp only
      rw [if_neg (by decide), if_pos rfl]
      exact gives_constant false 0x66 alseWord rest

theorem gives_wordValue_iff {w : Word} {x : w.Value} : Gives (wordValue w s) x rest ↔
    ∃ b r i, skipBlank s = b :: r ∧ startsNumber b = true ∧
      Gives (number (b :: r)) (.whole i) rest ∧ w.ofInt? i = some x := by
  constructor
  · intro h
    obtain ⟨b, r, hs, h⟩ := token_of_gives not_gives_error h
    dsimp only at h
    split at h
    · next hb =>
      obtain ⟨n, r', _, hnumber, h⟩ := Gives.of_bind h
      split at h
      · next i hi =>
        split at h
        · next y hy =>
          obtain ⟨rfl, rfl⟩ := Gives.of_ok h
          exact ⟨b, r, i, hs, hb, hi ▸ hnumber, hy⟩
        · exact absurd h not_gives_error
      · exact absurd h not_gives_error
    · exact absurd h not_gives_error
  · rintro ⟨b, r, i, hs, hb, hnumber, hi⟩
    rw [wordValue, gives_fromToken_iff, hs]
    dsimp only
    rw [if_pos hb]
    refine hnumber.bind fun shorter => ?_
    simp only [hi]
    exact ⟨shorter, rfl⟩

theorem gives_optionalValue_iff {x : Option α} : Gives (optionalValue read s) x rest ↔
    (x = none ∧ skipBlank s = 0x6E :: (ullWord ++ rest)) ∨
      ((skipBlank s).head? ≠ some 0x6E ∧ ∃ y, x = some y ∧ Gives (read (skipBlank s)) y rest) := by
  rw [optionalValue, gives_fromToken_iff]
  constructor
  · intro h
    cases hs : skipBlank s with
    | nil =>
      rw [hs] at h
      obtain ⟨y, _, hy, rfl⟩ := h.of_map fun _ => rfl
      exact .inr ⟨nofun, y, rfl, hy⟩
    | cons b r =>
      rw [hs] at h
      dsimp only at h
      split at h
      · next hb =>
        obtain ⟨rfl, rfl⟩ := gives_constant_iff.mp h
        exact .inl ⟨rfl, by rw [hb]⟩
      · next hb =>
        obtain ⟨y, _, hy, rfl⟩ := h.of_map fun _ => rfl
        exact .inr ⟨by simpa using hb, y, rfl, hy⟩
  · rintro (⟨rfl, hs⟩ | ⟨hhead, y, rfl, hy⟩)
    · rw [hs]
      dsimp only
      rw [if_pos rfl]
      exact gives_constant none 0x6E ullWord rest
    · cases hs : skipBlank s with
      | nil =>
        rw [hs] at hy
        exact hy.map some
      | cons b r =>
        rw [hs] at hhead hy
        have hb : b ≠ 0x6E := by simpa using hhead
        dsimp only
        rw [if_neg hb]
        exact hy.map some

theorem gives_listValue_iff {xs : List α} : Gives (listValue read s) xs rest ↔
    ∃ r, skipBlank s = openBracket :: r ∧ Gives (items read true r) xs rest :=
  gives_fromToken_first_iff not_gives_error fun _ _ => rfl

/-! ## Lists -/

theorem skipBlank_of_nextItem_last {atStart : Bool} {shorter}
    (h : nextItem atStart s = .ok (.last rest shorter)) : skipBlank s = closeBracket :: rest := by
  unfold nextItem at h
  split at h
  · cases h
  · next b r hs =>
    split at h
    · next hb =>
      cases h
      rw [hs, hb]
    · split at h
      · cases h
      · split at h
        · split at h
          · cases h
          · split at h <;> cases h
        · cases h

/-- The first item of a list starts with a token that does not end the list. -/
theorem skipBlank_of_nextItem_first {within}
    (h : nextItem true s = .ok (.item t within)) :
    ∃ b r, skipBlank s = b :: r ∧ b ≠ closeBracket ∧ t = b :: r := by
  unfold nextItem at h
  split at h
  · cases h
  · next b r hs =>
    split at h
    · cases h
    · next hb =>
      cases h
      exact ⟨b, r, hs, hb, rfl⟩

/-- Any other item stands behind a comma. -/
theorem skipBlank_of_nextItem_comma {within}
    (h : nextItem false s = .ok (.item t within)) :
    ∃ r, skipBlank s = comma :: r ∧ t = skipBlank r := by
  unfold nextItem at h
  split at h
  · cases h
  · next b r hs =>
    split at h
    · cases h
    · rw [if_neg Bool.false_ne_true] at h
      split at h
      · next hb =>
        split at h
        · cases h
        · next hr =>
          split at h
          · cases h
          · cases h
            exact ⟨r, hb ▸ hs, hr.symm⟩
      · cases h

/-- A list ends, or has an item and others behind it. -/
theorem items_cases {atStart : Bool} {xs : List α} (h : Gives (items read atStart s) xs rest) :
    (∃ shorter, nextItem atStart s = .ok (.last rest shorter) ∧ xs = []) ∨
    ∃ t within x r xs', nextItem atStart s = .ok (.item t within) ∧ Gives (read t) x r ∧
      Gives (items read false r) xs' rest ∧ xs = x :: xs' := by
  rw [items] at h
  cases hnext : nextItem atStart s with
  | error e =>
    rw [hnext] at h
    exact absurd h not_gives_error
  | ok next =>
    rw [hnext] at h
    cases next with
    | last rest' shorter =>
      obtain ⟨_, h⟩ := h
      cases h
      exact .inl ⟨shorter, rfl, rfl⟩
    | item t within =>
      obtain ⟨x, r, hshorter, hitem, h⟩ := Gives.of_bind h
      obtain ⟨xs', _, _, hitems, h⟩ := Gives.of_bind h
      obtain ⟨_, h⟩ := h
      cases h
      exact .inr ⟨t, within, x, r, xs', rfl, hitem, hitems, rfl⟩

/-- Where one reader reads what another one does, it reads the items that the other one does. -/
theorem gives_items_along {read' : Reader β} {f : α → β}
    (hread : ∀ {s x rest}, Gives (read s) x rest → Gives (read' s) (f x) rest) {atStart : Bool}
    {xs : List α} (h : Gives (items read atStart s) xs rest) :
    Gives (items read' atStart s) (xs.map f) rest := by
  -- what stands behind an item is shorter than the text from the item on
  induction hlength : s.length using Nat.strongRecOn generalizing s atStart xs with
  | ind n ih =>
    rcases items_cases h with ⟨shorter, hnext, rfl⟩ |
      ⟨t, within, x, r, xs', hnext, hitem, hitems, rfl⟩
    · rw [items, hnext]
      exact ⟨shorter, rfl⟩
    · have hshorter : r.length < n := by
        rw [← hlength]
        exact Nat.lt_of_lt_of_le hitem.shorter within
      exact gives_items_item hnext (hread hitem) (ih _ hshorter hitems rfl)

/-! ## Objects -/

theorem skipBlank_of_nextMember_last {atStart : Bool} {shorter}
    (h : nextMember atStart s = .ok (.last rest shorter)) : skipBlank s = closeBrace :: rest := by
  unfold nextMember at h
  split at h
  · cases h
  · next b r hs =>
    split at h
    · next hb =>
      cases h
      rw [hs, hb]
    · split at h
      · split at h <;> cases h
      · split at h
        · split at h
          · cases h
          · split at h
            · cases h
            · split at h <;> cases h
        · cases h

/-- The first member of an object starts with its key. -/
theorem skipBlank_of_nextMember_first {shorter}
    (h : nextMember true s = .ok (.member t shorter)) : skipBlank s = quote :: t := by
  unfold nextMember at h
  split at h
  · cases h
  · next b r hs =>
    split at h
    · cases h
    · rw [if_pos rfl] at h
      split at h
      · next hb =>
        cases h
        rw [hs, hb]
      · cases h

/-- Any other member stands behind a comma. -/
theorem skipBlank_of_nextMember_comma {shorter}
    (h : nextMember false s = .ok (.member t shorter)) :
    ∃ r, skipBlank s = comma :: r ∧ skipBlank r = quote :: t := by
  unfold nextMember at h
  split at h
  · cases h
  · next b r hs =>
    split at h
    · cases h
    · rw [if_neg Bool.false_ne_true] at h
      split at h
      · next hb =>
        split at h
        · cases h
        · next c r' hr =>
          split at h
          · next hc =>
            cases h
            exact ⟨r, hb ▸ hs, hc ▸ hr⟩
          · split at h <;> cases h
      · cases h

theorem memberValue_cases (h : Gives (memberValue read s) x rest) :
    ∃ r, skipBlank s = colon :: r ∧ Gives (read r) x rest := by
  unfold memberValue at h
  split at h
  · exact absurd h not_gives_error
  · next b r hs =>
    split at h
    · next hb => exact ⟨r, hb ▸ hs, h.of_within⟩
    · exact absurd h not_gives_error

variable {step : String → σ → Reader σ} {acc last : σ}

/-- An object ends, or has a member and others behind it. -/
theorem members_cases {atStart : Bool} (h : Gives (members step atStart acc s) last rest) :
    (∃ shorter, nextMember atStart s = .ok (.last rest shorter) ∧ last = acc) ∨
    ∃ t shorter key r next r', nextMember atStart s = .ok (.member t shorter) ∧
      Gives (string t) key r ∧ Gives (step key acc r) next r' ∧
      Gives (members step false next r') last rest := by
  rw [members] at h
  cases hnext : nextMember atStart s with
  | error e =>
    rw [hnext] at h
    exact absurd h not_gives_error
  | ok next =>
    rw [hnext] at h
    cases next with
    | last rest' shorter =>
      obtain ⟨_, h⟩ := h
      cases h
      exact .inl ⟨shorter, rfl, rfl⟩
    | member t shorter =>
      obtain ⟨key, r, _, hkey, h⟩ := Gives.of_bind h
      obtain ⟨next, r', _, hstep, h⟩ := Gives.of_bind h
      obtain ⟨last', _, _, hmembers, h⟩ := Gives.of_bind h
      obtain ⟨_, h⟩ := h
      cases h
      exact .inr ⟨t, shorter, key, r, next, r', rfl, hkey, hstep, hmembers⟩

/-- Two ways to read members go along with each other if they do so at each member. -/
theorem gives_members_along {step' : String → τ → Reader τ} {R : σ → τ → Prop}
    (hstep : ∀ {key acc acc' s next rest}, R acc acc' → Gives (step key acc s) next rest →
      ∃ next', Gives (step' key acc' s) next' rest ∧ R next next')
    {atStart : Bool} {acc' : τ} (hacc : R acc acc')
    (h : Gives (members step atStart acc s) last rest) :
    ∃ last', Gives (members step' atStart acc' s) last' rest ∧ R last last' := by
  -- what stands behind a member is shorter than the text from the member on
  induction hlength : s.length using Nat.strongRecOn generalizing s atStart acc acc' with
  | ind n ih =>
    rcases members_cases h with ⟨shorter, hnext, rfl⟩ |
      ⟨t, shorter, key, r, next, r', hnext, hkey, hmember, hmembers⟩
    · refine ⟨acc', ?_, hacc⟩
      rw [members, hnext]
      exact ⟨shorter, rfl⟩
    · obtain ⟨next', hmember', hnext'⟩ := hstep hacc hmember
      have hshorter : r'.length < n := by
        rw [← hlength]
        exact Nat.lt_trans (Nat.lt_trans hmember.shorter hkey.shorter) shorter
      obtain ⟨last', hmembers', hlast⟩ := ih _ hshorter hnext' hmembers rfl
      exact ⟨last', gives_members_member hnext hkey hmember' hmembers', hlast⟩

/-! ## Texts -/

/-- A whole text is a value and blanks behind it. -/
theorem whole_eq_ok :
    whole read s = .ok x ↔ ∃ rest, Gives (read s) x rest ∧ skipBlank rest = [] := by
  rw [whole]
  cases hread : read s with
  | error e =>
    constructor
    · intro h
      cases h
    · rintro ⟨rest, h, -⟩
      exact absurd h not_gives_error
  | ok taken =>
    obtain ⟨y, r, shorter⟩ := taken
    constructor
    · intro h
      replace h : (if skipBlank r = [] then _ else _) = Except.ok x := h
      split at h
      · next hr =>
        cases h
        exact ⟨r, ⟨shorter, rfl⟩, hr⟩
      · cases h
    · rintro ⟨rest, h, hrest⟩
      obtain ⟨rfl, rfl⟩ := h.of_ok
      exact if_pos hrest

end Reader

end ApplianceRest.Json
