import ApplianceRest.Base64

/-!
# Reading base 64 back

A symbol stands for one number only, and three bytes are one number as four symbols are. So what is
written is read back, group by group (`decode_encode`), and bytes are known by their text
(`encode_inj`).
-/

namespace ApplianceRest.Base64

/-! ## Symbols -/

theorem value_symbol {n : Nat} (h : n < 64) : value? (symbol n) = some n := by
  revert n
  decide

/-- What holds of the symbols of all small numbers holds of every symbol. -/
theorem symbol_all {P : Char → Prop} (h : ∀ n < 64, P (symbol n)) (n : Nat) : P (symbol n) := by
  rcases Nat.lt_or_ge n 64 with hlt | hge
  · exact h n hlt
  · -- from 63 on the symbol is the last one
    have hlast : symbol n = symbol 63 := by
      unfold symbol
      rw [if_neg (by omega), if_neg (by omega), if_neg (by omega), if_neg (by omega)]
      rfl
    rw [hlast]
    exact h 63 (by omega)

/-- No symbol is taken for padding. -/
theorem symbol_ne_padding (n : Nat) : symbol n ≠ '=' := symbol_all (P := (· ≠ '=')) (by decide) n

/-! ## Groups -/

/-- Four symbols without padding are three bytes, whatever follows them. -/
theorem decode_group {p q r s : Char} (hs : s ≠ '=') (rest : List Char) :
    decode? (p :: q :: r :: s :: rest) = do
      let n := (((← value? p) * 64 + (← value? q)) * 64 + (← value? r)) * 64 + (← value? s)
      return UInt8.ofNat (n / 65536) :: UInt8.ofNat (n / 256 % 256) :: UInt8.ofNat (n % 256) ::
        (← decode? rest) := by
  rw [decode?]
  · rintro rfl rfl rfl
    exact hs rfl
  · rintro rfl rfl
    exact hs rfl

/-- Two symbols with padding are one byte. -/
theorem decode_one (p q : Char) :
    decode? [p, q, '=', '='] = do
      let n := (← value? p) * 64 + (← value? q)
      return [UInt8.ofNat (n / 16)] := rfl

/-- Three symbols with padding are two bytes. -/
theorem decode_two {r : Char} (p q : Char) (hr : r ≠ '=') :
    decode? [p, q, r, '='] = do
      let n := ((← value? p) * 64 + (← value? q)) * 64 + (← value? r)
      return [UInt8.ofNat (n / 1024), UInt8.ofNat (n / 4 % 256)] := by
  rw [decode?]
  rintro rfl
  exact hr rfl

theorem ofNat_eq {b : UInt8} {n : Nat} (h : n = b.toNat) : UInt8.ofNat n = b := by
  rw [h, UInt8.ofNat_toNat]

/-- What is written is read back. -/
theorem decode_encode (bs : List UInt8) : decode? (encode bs) = some bs := by
  -- by induction on the groups of three bytes, of which the last may be shorter
  fun_induction encode bs with
  | case1 => rfl
  | case2 a n =>
    have ha : a.toNat < 256 := a.toNat_lt
    rw [decode_one, value_symbol (by omega), value_symbol (by omega)]
    have hbyte : (n / 262144 * 64 + n / 4096 % 64) / 16 = a.toNat := by omega
    simp only [Option.bind_eq_bind, Option.bind_some, Option.pure_def, ofNat_eq hbyte]
  | case3 a b n =>
    have ha : a.toNat < 256 := a.toNat_lt
    have hb : b.toNat < 256 := b.toNat_lt
    rw [decode_two _ _ (symbol_ne_padding _), value_symbol (by omega), value_symbol (by omega),
      value_symbol (by omega)]
    have hfirst : ((n / 262144 * 64 + n / 4096 % 64) * 64 + n / 64 % 64) / 1024 = a.toNat := by
      omega
    have hsecond : ((n / 262144 * 64 + n / 4096 % 64) * 64 + n / 64 % 64) / 4 % 256 = b.toNat := by
      omega
    simp only [Option.bind_eq_bind, Option.bind_some, Option.pure_def, ofNat_eq hfirst,
      ofNat_eq hsecond]
  | case4 a b c rest n ih =>
    have ha : a.toNat < 256 := a.toNat_lt
    have hb : b.toNat < 256 := b.toNat_lt
    have hc : c.toNat < 256 := c.toNat_lt
    rw [decode_group (symbol_ne_padding _), ih, value_symbol (by omega), value_symbol (by omega),
      value_symbol (by omega), value_symbol (by omega)]
    -- the four symbols spell out the number of the three bytes
    have hn : ((n / 262144 * 64 + n / 4096 % 64) * 64 + n / 64 % 64) * 64 + n % 64 = n := by omega
    have hfirst : n / 65536 = a.toNat := by omega
    have hsecond : n / 256 % 256 = b.toNat := by omega
    have hthird : n % 256 = c.toNat := by omega
    simp only [Option.bind_eq_bind, Option.bind_some, Option.pure_def, hn, ofNat_eq hfirst,
      ofNat_eq hsecond, ofNat_eq hthird]

/-- Bytes are known by their text. -/
theorem encode_inj {as bs : List UInt8} : encode as = encode bs ↔ as = bs := by
  constructor
  · intro h
    have hread := congrArg decode? h
    rw [decode_encode, decode_encode] at hread
    exact Option.some.inj hread
  · rintro rfl
    rfl

/-- All that is written are symbols and padding. -/
theorem mem_encode {bs : List UInt8} {c : Char} (h : c ∈ encode bs) :
    c = '=' ∨ ∃ n, c = symbol n := by
  fun_induction encode bs with
  | case1 => cases h
  | case2 a n =>
    simp only [List.mem_cons, List.not_mem_nil, or_false] at h
    rcases h with rfl | rfl | rfl | rfl
    · exact Or.inr ⟨_, rfl⟩
    · exact Or.inr ⟨_, rfl⟩
    · exact Or.inl rfl
    · exact Or.inl rfl
  | case3 a b n =>
    simp only [List.mem_cons, List.not_mem_nil, or_false] at h
    rcases h with rfl | rfl | rfl | rfl
    · exact Or.inr ⟨_, rfl⟩
    · exact Or.inr ⟨_, rfl⟩
    · exact Or.inr ⟨_, rfl⟩
    · exact Or.inl rfl
  | case4 a b c rest n ih =>
    simp only [List.mem_cons] at h
    rcases h with rfl | rfl | rfl | rfl | h
    · exact Or.inr ⟨_, rfl⟩
    · exact Or.inr ⟨_, rfl⟩
    · exact Or.inr ⟨_, rfl⟩
    · exact Or.inr ⟨_, rfl⟩
    · exact ih h

end ApplianceRest.Base64
